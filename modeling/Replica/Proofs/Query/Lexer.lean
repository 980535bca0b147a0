import Mathlib.Data.List.TakeWhile
import Mathlib.Tactic.SplitIfs
import Replica.Query.Select

/-!
# Reading query text

A lexer for query text: words, signed integers, texts between single quotes, punctuation, with
blanks between them. Inside a text two single quotes in a row stand for one and a quote without
partner ends it; nothing else counts there. Anything outside a text that is none of these is not
query text.

Text that is put together has the tokens of its parts wherever no token can run across the seam.
-/
namespace Replica.Sql

/-- A token of query text. -/
inductive Token where
  | word (chars : String)
  | integer (value : Int)
  | text (content : String)
  | symbol (c : Char)
  deriving DecidableEq

/-- The content of a text up to the quote that ends it, and what stands behind that quote. -/
def scanText : List Char → Option (List Char × List Char)
  | [] => none
  | '\'' :: '\'' :: rest => (scanText rest).map fun (content, behind) => ('\'' :: content, behind)
  | '\'' :: rest => some ([], rest)
  | c :: rest => (scanText rest).map fun (content, behind) => (c :: content, behind)

/-- The value of a run of digits. -/
def number (digits : List Char) : Int := Nat.ofDigitChars 10 digits 0

/-- The punctuation of query text. -/
def isPunctuation (c : Char) : Bool := ['.', ',', '(', ')', '=', '<', '>', '?'].contains c

/-- The token that begins with a character, and what stands behind it. -/
def readToken (c : Char) (rest : List Char) : Option (Token × List Char) :=
  if isIdentifierStart c then
    some (.word (String.ofList (c :: rest.takeWhile isIdentifierPart)),
      rest.dropWhile isIdentifierPart)
  else if c.isDigit then
    some (.integer (number (c :: rest.takeWhile Char.isDigit)), rest.dropWhile Char.isDigit)
  else if c = '-' then
    if rest.takeWhile Char.isDigit = [] then none
    else some (.integer (-number (rest.takeWhile Char.isDigit)), rest.dropWhile Char.isDigit)
  else if c = '\'' then
    (scanText rest).map fun (content, behind) => (.text (String.ofList content), behind)
  else if isPunctuation c then some (.symbol c, rest)
  else none

theorem length_dropWhile_le (p : Char → Bool) (cs : List Char) :
    (cs.dropWhile p).length ≤ cs.length := (List.dropWhile_sublist p).length_le

theorem scanText_length {cs content behind : List Char}
    (h : scanText cs = some (content, behind)) : behind.length < cs.length := by
  fun_induction scanText cs generalizing content behind with
  | case1 => contradiction
  | case2 rest ih =>
    obtain ⟨⟨inner, r⟩, hr, he⟩ := Option.map_eq_some_iff.mp h
    cases he
    have hl := ih hr
    simp only [List.length_cons] at *
    omega
  | case3 rest =>
    cases h
    simp
  | case4 c rest _ _ ih =>
    obtain ⟨⟨inner, r⟩, hr, he⟩ := Option.map_eq_some_iff.mp h
    cases he
    have hl := ih hr
    simp only [List.length_cons] at *
    omega

theorem readToken_length {c : Char} {rest behind : List Char} {t : Token}
    (h : readToken c rest = some (t, behind)) : behind.length ≤ rest.length := by
  unfold readToken at h
  split_ifs at h with hstart hdig hminus hempty hopen hsymbol
  · cases h
    exact length_dropWhile_le _ _
  · cases h
    exact length_dropWhile_le _ _
  · cases h
    exact length_dropWhile_le _ _
  · obtain ⟨⟨content, r⟩, hs, he⟩ := Option.map_eq_some_iff.mp h
    cases he
    exact Nat.le_of_lt (scanText_length hs)
  · cases h
    exact Nat.le_refl _

/-- The tokens of query text; nothing if it is none. -/
def lex : List Char → Option (List Token)
  | [] => some []
  | c :: rest =>
    if c.isWhitespace then lex rest
    else
      match _h : readToken c rest with
      | none => none
      | some (t, behind) => (lex behind).map (t :: ·)
  termination_by cs => cs.length
  decreasing_by
    · simp
    · exact Nat.lt_succ_of_le (readToken_length _h)

example : lex "x.value IN ('it''s', -7)".toList =
    some [.word "x", .symbol '.', .word "value", .word "IN", .symbol '(', .text "it's",
      .symbol ',', .integer (-7), .symbol ')'] := by cbv

/-- White space begins no token. -/
theorem readToken_eq_none_of_isWhitespace {c : Char} (h : c.isWhitespace = true)
    (rest : List Char) : readToken c rest = none := by
  simp only [Char.isWhitespace, Bool.or_eq_true, decide_eq_true_eq] at h
  rcases h with ((rfl | rfl) | rfl) | rfl <;> rfl

theorem lex_cons {c : Char} {rest behind : List Char} {t : Token}
    (h : readToken c rest = some (t, behind)) : lex (c :: rest) = (lex behind).map (t :: ·) := by
  have hc : ¬c.isWhitespace = true := by
    intro hw
    rw [readToken_eq_none_of_isWhitespace hw] at h
    contradiction
  rw [lex, if_neg hc]
  split
  · rename_i hnone
    rw [h] at hnone
    contradiction
  · rename_i t' behind' hsome
    rw [h] at hsome
    cases hsome
    rfl

/-- No token can run on into the text. -/
def Breaks (cs : List Char) : Prop := ∀ c ∈ cs.head?, isIdentifierPart c = false ∧ c ≠ '\''

theorem breaks_cons {c : Char} (cs : List Char) (hp : isIdentifierPart c = false)
    (hq : c ≠ '\'') : Breaks (c :: cs) := by
  intro x hx
  obtain rfl := Option.some.inj hx
  exact ⟨hp, hq⟩

theorem isIdentifierPart_of_isDigit {c : Char} (h : c.isDigit = true) :
    isIdentifierPart c = true := by
  simp [isIdentifierPart, Char.isAlphanum, h]

theorem takeWhile_append_of_head {p : Char → Bool} (a : List Char) {b : List Char}
    (hb : ∀ c ∈ b.head?, p c = false) : (a ++ b).takeWhile p = a.takeWhile p := by
  induction a with
  | nil =>
    cases b with
    | nil => rfl
    | cons c rest => simp [hb c rfl]
  | cons c rest ih =>
    rw [List.cons_append, List.takeWhile_cons, List.takeWhile_cons, ih]

theorem dropWhile_append_of_head {p : Char → Bool} (a : List Char) {b : List Char}
    (hb : ∀ c ∈ b.head?, p c = false) : (a ++ b).dropWhile p = a.dropWhile p ++ b := by
  induction a with
  | nil =>
    cases b with
    | nil => rfl
    | cons c rest => simp [hb c rfl]
  | cons c rest ih =>
    rw [List.cons_append, List.dropWhile_cons, List.dropWhile_cons, ih]
    split <;> rfl

theorem scanText_quote {cs : List Char} (h : ∀ c ∈ cs.head?, c ≠ '\'') :
    scanText ('\'' :: cs) = some ([], cs) := by
  cases cs with
  | nil => rfl
  | cons c rest =>
    have hc : c ≠ '\'' := h c rfl
    simp [scanText, hc]

/-- A text that ends is not changed by what is put behind, unless a quote is. -/
theorem scanText_append {a content behind b : List Char} (h : scanText a = some (content, behind))
    (hb : ∀ c ∈ b.head?, c ≠ '\'') : scanText (a ++ b) = some (content, behind ++ b) := by
  fun_induction scanText a generalizing content behind with
  | case1 => contradiction
  | case2 rest ih =>
    obtain ⟨⟨inner, r⟩, hr, he⟩ := Option.map_eq_some_iff.mp h
    cases he
    simp [scanText, ih hr]
  | case3 rest hne =>
    cases h
    apply scanText_quote
    cases rest with
    | nil => exact hb
    | cons c tail =>
      intro x hx heq
      obtain rfl := Option.some.inj hx
      exact hne tail (heq ▸ rfl)
  | case4 c rest hpair hquote ih =>
    obtain ⟨⟨inner, r⟩, hr, he⟩ := Option.map_eq_some_iff.mp h
    cases he
    have hc : c ≠ '\'' := fun heq => hquote heq
    simp [scanText, hc, ih hr]

/-- A token that has ended is not changed by what is put behind what follows it. -/
theorem readToken_append {c : Char} {rest behind b : List Char} {t : Token}
    (h : readToken c rest = some (t, behind)) (hb : Breaks b) :
    readToken c (rest ++ b) = some (t, behind ++ b) := by
  have hword : ∀ x ∈ b.head?, isIdentifierPart x = false := fun x hx => (hb x hx).1
  have hdigit : ∀ x ∈ b.head?, x.isDigit = false := fun x hx =>
    Bool.eq_false_iff.mpr fun hd =>
      Bool.false_ne_true ((hword x hx).symm.trans (isIdentifierPart_of_isDigit hd))
  have hquote : ∀ x ∈ b.head?, x ≠ '\'' := fun x hx => (hb x hx).2
  unfold readToken at h ⊢
  rw [takeWhile_append_of_head rest hword, dropWhile_append_of_head rest hword,
    takeWhile_append_of_head rest hdigit, dropWhile_append_of_head rest hdigit]
  split_ifs at h ⊢ with hstart hdig hminus hempty hopen hsymbol
  · cases h
    rfl
  · cases h
    rfl
  · cases h
    rfl
  · obtain ⟨⟨content, r⟩, hs, he⟩ := Option.map_eq_some_iff.mp h
    cases he
    rw [scanText_append hs hquote]
    rfl
  · cases h
    rfl

/-- Query text that is put behind query text is read on its own, where no token runs across. -/
theorem lex_append {a b : List Char} {ts : List Token} (ha : lex a = some ts) (hb : Breaks b) :
    lex (a ++ b) = (lex b).map (ts ++ ·) := by
  fun_induction lex a generalizing ts with
  | case1 =>
    cases ha
    simp
  | case2 c rest hc ih =>
    rw [List.cons_append, lex, if_pos hc]
    exact ih ha
  | case3 => contradiction
  | case4 c rest hc t behind hread ih =>
    obtain ⟨others, hothers, rfl⟩ := Option.map_eq_some_iff.mp ha
    rw [List.cons_append, lex_cons (readToken_append hread hb), ih hothers, Option.map_map]
    rfl

theorem lex_blank (cs : List Char) : lex (' ' :: cs) = lex cs := by
  rw [lex]
  exact if_pos rfl

theorem readToken_symbol {c : Char} (h : isPunctuation c = true) (rest : List Char) :
    readToken c rest = some (.symbol c, rest) := by
  simp only [isPunctuation, List.contains_eq_mem, decide_eq_true_eq, List.mem_cons,
    List.not_mem_nil, or_false] at h
  rcases h with rfl | rfl | rfl | rfl | rfl | rfl | rfl | rfl <;> rfl

theorem lex_symbol {c : Char} (h : isPunctuation c = true) (cs : List Char) :
    lex (c :: cs) = (lex cs).map (.symbol c :: ·) := lex_cons (readToken_symbol h cs)

theorem lex_word {cs : List Char} (h : isIdentifier cs = true) :
    lex cs = some [.word (String.ofList cs)] := by
  cases cs with
  | nil => contradiction
  | cons c rest =>
    obtain ⟨hstart, hpart⟩ := Bool.and_eq_true_iff.mp h
    have hall : ∀ x ∈ rest, isIdentifierPart x = true := List.all_eq_true.mp hpart
    have hread : readToken c rest = some (.word (String.ofList (c :: rest)), []) := by
      rw [readToken, if_pos hstart, List.takeWhile_eq_self_iff.mpr hall,
        List.dropWhile_eq_nil_iff.mpr hall]
    rw [lex_cons hread, lex]
    rfl

theorem isIdentifierStart_of_isDigit {c : Char} (h : c.isDigit = true) :
    isIdentifierStart c = false := by
  have hval : c.val.toNat ≤ 57 := by
    have hd := (Bool.and_eq_true_iff.mp h).2
    simpa [UInt32.le_iff_toNat_le] using hd
  apply Bool.eq_false_iff.mpr
  intro hs
  have hletter : 65 ≤ c.val.toNat := by
    rcases Bool.or_eq_true_iff.mp hs with halpha | hunderscore
    · rcases Bool.or_eq_true_iff.mp halpha with hupper | hlower
      · exact (of_decide_eq_true hupper).1
      · have hlow : 97 ≤ c.val.toNat := of_decide_eq_true (Bool.and_eq_true_iff.mp hlower).1
        omega
    · rw [beq_iff_eq.mp hunderscore]
      decide
  omega

theorem isDigit_of_mem_numeral {n : Nat} : ∀ x ∈ Nat.toDigits 10 n, x.isDigit = true :=
  fun _ hx => Nat.isDigit_of_mem_toDigits (by omega) (by omega) hx

theorem number_numeral (n : Nat) : number (Nat.toDigits 10 n) = n :=
  congrArg Int.ofNat Nat.ofDigitChars_ten_toDigits

theorem lex_numeral (n : Nat) : lex (Nat.toDigits 10 n) = some [.integer n] := by
  have hdigits := isDigit_of_mem_numeral (n := n)
  have hvalue := number_numeral n
  cases hcs : Nat.toDigits 10 n with
  | nil => exact absurd hcs Nat.toDigits_ne_nil
  | cons c rest =>
    rw [hcs] at hdigits hvalue
    obtain ⟨hc, hrest⟩ := List.forall_mem_cons.mp hdigits
    have hstart : ¬isIdentifierStart c = true :=
      Bool.eq_false_iff.mp (isIdentifierStart_of_isDigit hc)
    have hread : readToken c rest = some (.integer n, []) := by
      rw [readToken, if_neg hstart, if_pos hc, List.takeWhile_eq_self_iff.mpr hrest,
        List.dropWhile_eq_nil_iff.mpr hrest, hvalue]
    rw [lex_cons hread, lex]
    rfl

theorem lex_negative (n : Nat) : lex ('-' :: Nat.toDigits 10 n) = some [.integer (-n)] := by
  have hread : readToken '-' (Nat.toDigits 10 n) = some (.integer (-n), []) := by
    change (if _ then _ else _) = _
    rw [List.takeWhile_eq_self_iff.mpr isDigit_of_mem_numeral,
      List.dropWhile_eq_nil_iff.mpr isDigit_of_mem_numeral, if_neg Nat.toDigits_ne_nil,
      number_numeral]
    rfl
  rw [lex_cons hread, lex]
  rfl

/-- The integer of a numeral is read back. -/
theorem lex_integerChars (i : Int64) :
    lex (IndexValue.integerChars i) = some [.integer i.toInt] := by
  unfold IndexValue.integerChars
  split
  · rename_i hneg
    have habs : -(i.toInt.natAbs : Int) = i.toInt := by omega
    rw [lex_negative, habs]
  · rename_i hpos
    have habs : (i.toInt.natAbs : Int) = i.toInt := by omega
    rw [lex_numeral, habs]

/-- Between its quotes a text whose quotes are doubled is read back, whatever it holds. -/
theorem scanText_doubleQuotes (cs : List Char) :
    scanText (Literal.doubleQuotes cs ++ ['\'']) = some (cs, []) := by
  fun_induction Literal.doubleQuotes cs with
  | case1 => rfl
  | case2 rest ih => simp [scanText, ih]
  | case3 c rest hc ih =>
    have hne : c ≠ '\'' := fun heq => hc heq
    simp [scanText, hne, ih]

theorem lex_quoted (s : String) :
    lex ('\'' :: Literal.doubleQuotes s.toList ++ ['\'']) = some [.text s] := by
  have hread : readToken '\'' (Literal.doubleQuotes s.toList ++ ['\'']) = some (.text s, []) := by
    change (scanText _).map _ = _
    rw [scanText_doubleQuotes]
    simp
  rw [List.cons_append, lex_cons hread, lex]
  rfl

end Replica.Sql
