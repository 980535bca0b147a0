import Replica.Json.Value

/-!
# Reading tokens back

The spelling of a token is scanned as that token and nothing else, whatever stands behind it. Only a
number needs room: the next character must not continue the numeral. The tokens of a value leave
that room, so its compact text has just these tokens.

Doubles are left out: nothing is said here about the digits of a double.
-/
namespace Replica.Json

namespace Figures

theorem le_ofDigitChars (cs : List Char) (n : Nat) : n ≤ Nat.ofDigitChars 10 cs n := by
  induction cs generalizing n with
  | nil => simp
  | cons c rest ih =>
    have := ih (10 * n + (c.toNat - '0'.toNat))
    rw [Nat.ofDigitChars_cons]
    omega

/-- Digits worth no more than a word are taken as a whole. -/
theorem absorb_digits {cs : List Char} {n : Nat} (h : Nat.ofDigitChars 10 cs n ≤ Numeral.maxWord) :
    absorb n (cs.map fun c => c.toNat - 48) = (Nat.ofDigitChars 10 cs n, []) := by
  induction cs generalizing n with
  | nil => simp [absorb]
  | cons c rest ih =>
    rw [Nat.ofDigitChars_cons] at h ⊢
    have hstep : 10 * n + (c.toNat - '0'.toNat) = n * 10 + (c.toNat - 48) := by
      rw [Nat.mul_comm]
      rfl
    rw [hstep] at h ⊢
    have hle := le_ofDigitChars rest (n * 10 + (c.toNat - 48))
    rw [List.map_cons, absorb, if_pos (Nat.le_trans hle h), ih h]

end Figures

namespace Token

/-- What stands behind a numeral does not continue it. -/
def Stops (cs : List Char) : Prop :=
  ∀ c ∈ cs.head?, c.isDigit = false ∧ c ≠ '.' ∧ c ≠ 'e' ∧ c ≠ 'E'

/-- The digits of a number by value, as they are read. -/
def figuresOf (n : Nat) : List Nat := (Nat.toDigits 10 n).map fun c => c.toNat - 48

/-- A numeral does not begin with a zero unless it is that zero. -/
theorem head?_figuresOf {n : Nat} (h : (figuresOf n).head? = some 0) : n = 0 := by
  induction n using Nat.strongRecOn with
  | ind n ih =>
    by_cases hn : n < 10
    · rw [figuresOf, Nat.toDigits_of_lt_base hn, List.map_singleton, List.head?_singleton,
        Nat.toNat_digitChar_sub_48_of_lt_ten hn] at h
      exact Option.some.inj h
    · have hsplit : figuresOf n = figuresOf (n / 10) ++ [(n % 10).digitChar.toNat - 48] := by
        rw [figuresOf, Nat.toDigits_of_base_le (by omega) (by omega), List.map_append]
        rfl
      have hne : figuresOf (n / 10) ≠ [] :=
        mt List.map_eq_nil_iff.mp Nat.toDigits_ne_nil
      rw [hsplit, List.head?_append, List.head?_eq_some_head hne, Option.some_or,
        ← List.head?_eq_some_head hne] at h
      have := ih (n / 10) (by omega) h
      omega

theorem digits_toDigits (n : Nat) {rest : List Char} (hrest : Stops rest) :
    digits (Nat.toDigits 10 n ++ rest) = (figuresOf n, rest) := by
  have hdigits : ∀ c ∈ Nat.toDigits 10 n, c.isDigit = true := fun _ hc =>
    Nat.isDigit_of_mem_toDigits (by omega) (by omega) hc
  have htail : rest.takeWhile Char.isDigit = [] ∧ rest.dropWhile Char.isDigit = rest := by
    cases rest with
    | nil => exact ⟨rfl, rfl⟩
    | cons c cs => simp [(hrest c rfl).1]
  rw [digits, List.takeWhile_append_of_pos hdigits, List.dropWhile_append_of_pos hdigits, htail.1,
    htail.2, List.append_nil, figuresOf]

theorem whole?_toDigits (n : Nat) {rest : List Char} (hrest : Stops rest) :
    whole? (Nat.toDigits 10 n ++ rest) = some (figuresOf n, rest) := by
  have hne : figuresOf n ≠ [] := mt List.map_eq_nil_iff.mp Nat.toDigits_ne_nil
  have hsome : someDigits? (Nat.toDigits 10 n ++ rest) = some (figuresOf n, rest) := by
    rw [someDigits?, digits_toDigits n hrest]
    split
    · rename_i heq
      exact absurd (congrArg Prod.fst heq) hne
    · rfl
  have hlead : ¬((figuresOf n).head? = some 0 ∧ 1 < (figuresOf n).length) := by
    rintro ⟨hzero, hlen⟩
    rw [head?_figuresOf hzero] at hlen
    exact absurd hlen (by decide)
  rw [whole?, hsome, Option.filter_some]
  simpa using hlead

theorem figures?_toDigits (negative : Bool) (n : Nat) {rest : List Char} (hrest : Stops rest) :
    figures? negative (Nat.toDigits 10 n ++ rest) =
      some (⟨negative, figuresOf n, [], none⟩, rest) := by
  have hfraction : fraction? rest = some ([], rest) := by
    unfold fraction?
    split
    · exact absurd rfl (hrest '.' rfl).2.1
    · rfl
  have hpower : power? rest = some (none, rest) := by
    unfold power?
    split
    · exact absurd rfl (hrest 'e' rfl).2.2.1
    · exact absurd rfl (hrest 'E' rfl).2.2.2
    · rfl
  simp only [figures?, whole?_toDigits n hrest, hfraction, hpower, Option.bind_some,
    Option.map_some]

theorem value?_integer {value : Int}
    (h : -9223372036854775808 ≤ value ∧ value < 18446744073709551616) :
    Figures.value? ⟨decide (value < 0), figuresOf value.natAbs, [], none⟩ =
      some (.integer value h) := by
  have hvalue : Nat.ofDigitChars 10 (Nat.toDigits 10 value.natAbs) 0 = value.natAbs :=
    Nat.ofDigitChars_ten_toDigits
  have hwhole : Figures.absorb 0 (figuresOf value.natAbs) = (value.natAbs, []) := by
    rw [figuresOf, Figures.absorb_digits, hvalue]
    rw [hvalue, Numeral.maxWord]
    omega
  have hsigned : (if decide (value < 0) = true then -(value.natAbs : Int) else value.natAbs) =
      value := by
    simp only [decide_eq_true_eq]
    split <;> omega
  have hzero : ¬(decide (value < 0) && value.natAbs == 0) = true := by
    simp only [Bool.and_eq_true, decide_eq_true_eq, beq_iff_eq]
    omega
  have hplain : (([] : List Nat).isEmpty && ([] : List Nat).isEmpty &&
      (none : Option Int).isNone) = true := rfl
  simp only [Figures.value?, hwhole, Figures.absorb, hsigned, if_pos hplain, dif_pos h,
    if_neg hzero]

/-- A control character is read from its four hexadecimal digits. -/
theorem hexUnit?_control :
    ∀ n < 0x20, hexUnit? '0' '0' (hexChar (n / 16)) (hexChar n) = some n := by decide

theorem units?_escapeChar (c : Char) (rest : List Char) :
    units? (escapeChar c ++ rest) =
      (units? rest).map fun (us, behind) => (c.toNat :: us, behind) := by
  unfold escapeChar
  split
  -- No short escape: a control is written by its digits, any other character stands for itself.
  case h_8 hquote hslash _ _ _ _ _ =>
    split
    · rename_i hcontrol
      simp only [List.cons_append, List.nil_append]
      rw [units?, hexUnit?_control c.toNat hcontrol, Option.bind_some]
    · rename_i hplain
      rw [List.singleton_append, units?, if_neg hplain]
      · exact hquote
      · intro a b d e r hc
        exact absurd hc hslash
      · intro a r hc
        exact absurd hc hslash
  all_goals rfl

theorem units?_textChars (cs rest : List Char) :
    units? (cs.flatMap escapeChar ++ '"' :: rest) = some (cs.map Char.toNat, rest) := by
  induction cs with
  | nil => rfl
  | cons c cs ih =>
    rw [List.flatMap_cons, List.append_assoc, units?_escapeChar, ih]
    rfl

/-- No character is half of a surrogate pair. -/
theorem toNat_not_surrogate (c : Char) : ¬(0xd800 ≤ c.toNat ∧ c.toNat < 0xe000) := by
  have h : c.toNat < 0xd800 ∨ 0xdfff < c.toNat ∧ c.toNat < 0x110000 := c.valid
  omega

theorem joinUnits?_toNat (cs : List Char) : joinUnits? (cs.map Char.toNat) = some cs := by
  induction cs with
  | nil => rfl
  | cons c cs ih =>
    have hc := toNat_not_surrogate c
    cases cs with
    | nil =>
      rw [List.map_singleton, joinUnits?, if_neg hc, Char.ofNat_toNat]
    | cons d cs =>
      rw [List.map_cons] at ih ⊢
      rw [List.map_cons, joinUnits?, if_neg (by omega), if_neg (by omega), ih, Char.ofNat_toNat]
      rfl

theorem lexeme?_of_isDigit {c : Char} (hc : c.isDigit = true) (cs : List Char) :
    lexeme? (c :: cs) =
      (figures? false (c :: cs)).map fun (f, rest) => (.number f.value?, rest) := by
  unfold lexeme?
  split
  case h_12 => rfl
  all_goals
    rename_i heq
    cases heq
    exact absurd hc (by decide)

theorem lexeme?_number {value : Int}
    (h : -9223372036854775808 ≤ value ∧ value < 18446744073709551616) {rest : List Char}
    (hrest : Stops rest) :
    lexeme? ((Number.integer value h).toChars ++ rest) =
      some (.number (some (.integer value h)), rest) := by
  rw [← value?_integer h, Number.toChars]
  split
  · rename_i hneg
    rw [List.cons_append, lexeme?, figures?_toDigits true _ hrest, decide_eq_true hneg]
    rfl
  · rename_i hneg
    have hne : Nat.toDigits 10 value.natAbs ≠ [] := Nat.toDigits_ne_nil
    obtain ⟨c, cs, hcs⟩ := List.exists_cons_of_ne_nil hne
    have hc : c.isDigit = true :=
      Nat.isDigit_of_mem_toDigits (by omega) (by omega) (hcs ▸ List.mem_cons_self)
    have hlex := lexeme?_of_isDigit hc (cs ++ rest)
    rw [← List.cons_append, ← hcs, figures?_toDigits false _ hrest] at hlex
    rw [hlex, decide_eq_false hneg]
    rfl

theorem lexeme?_textChars (s : String) (rest : List Char) :
    lexeme? (textChars s ++ rest) = some (.text (some s), rest) := by
  have hunits := units?_textChars s.toList rest
  rw [textChars, List.append_assoc, List.cons_append, List.singleton_append, lexeme?, hunits]
  simp [joinUnits?_toNat]

/-- No token begins with a blank. -/
theorem lexeme?_of_isGap {c : Char} (hc : isGap c = true) (cs : List Char) :
    lexeme? (c :: cs) = none := by
  simp only [isGap, Bool.or_eq_true, beq_iff_eq] at hc
  rcases hc with ((rfl | rfl) | rfl) | rfl <;> rfl

theorem scan_lexeme {cs rest : List Char} {t : Token} (h : lexeme? cs = some (t, rest)) :
    scan cs = t :: scan rest := by
  cases cs with
  | nil => cases h
  | cons c cs =>
    have hgap : ¬isGap c = true := by
      intro hc
      rw [lexeme?_of_isGap hc] at h
      cases h
    rw [scan, if_neg hgap]
    split
    · rename_i hnone
      cases h.symm.trans hnone
    · rename_i u behind hsome
      cases h.symm.trans hsome
      rfl

/-- Is the token spelled in one way only? -/
def isFixed : Token → Bool
  | .number _ | .text _ | .broken => false
  | _ => true

theorem scan_fixed (t : Token) (ht : t.isFixed = true) (rest : List Char) :
    scan (t.spell ++ rest) = t :: scan rest := by
  cases t with
  | number _ | text _ | broken => cases ht
  | bool b => cases b <;> exact scan_lexeme rfl
  | _ => exact scan_lexeme rfl

theorem scan_text (s : String) (rest : List Char) :
    scan ((text (some s)).spell ++ rest) = .text (some s) :: scan rest :=
  scan_lexeme (lexeme?_textChars s rest)

theorem scan_integer {value : Int}
    (h : -9223372036854775808 ≤ value ∧ value < 18446744073709551616) {rest : List Char}
    (hrest : Stops rest) :
    scan ((number (some (.integer value h))).spell ++ rest) =
      .number (some (.integer value h)) :: scan rest :=
  scan_lexeme (lexeme?_number h hrest)

end Token

namespace Value

mutual

/-- Is no number of the value a double? -/
def isFloatFree : Value → Bool
  | .number (.float _) => false
  | .array items => allFloatFree items
  | .object members => allMembersFloatFree members
  | _ => true

/-- Are all values of the list free of doubles? -/
def allFloatFree : List Value → Bool
  | [] => true
  | v :: rest => v.isFloatFree && allFloatFree rest

/-- Are the values of all members free of doubles? -/
def allMembersFloatFree : List (String × Value) → Bool
  | [] => true
  | (_, v) :: rest => v.isFloatFree && allMembersFloatFree rest

end

open Token

theorem stops_cons {c : Char} (h : c.isDigit = false ∧ c ≠ '.' ∧ c ≠ 'e' ∧ c ≠ 'E')
    (cs : List Char) : Stops (c :: cs) := by
  intro d hd
  cases hd
  exact h

/-- Behind a value inside a container stands a comma or what closes the container. -/
theorem stops_itemTokens (items : List Value) {rest : List Char} (hrest : Stops rest) :
    Stops ((itemTokens items).flatMap spell ++ rest) := by
  cases items with
  | nil => exact hrest
  | cons v items => exact stops_cons (by decide) _

theorem stops_memberTokens (members : List (String × Value)) {rest : List Char}
    (hrest : Stops rest) : Stops ((memberTokens members).flatMap spell ++ rest) := by
  cases members with
  | nil => exact hrest
  | cons m members => exact stops_cons (by decide) _

mutual

theorem scan_tokens {v : Value} (hv : v.isFloatFree = true) {rest : List Char}
    (hrest : Stops rest) : scan (v.tokens.flatMap spell ++ rest) = v.tokens ++ scan rest := by
  cases v with
  | null => exact scan_fixed .null rfl rest
  | bool b =>
    rw [tokens, List.flatMap_singleton]
    exact scan_fixed (.bool b) rfl rest
  | number n =>
    cases n with
    | float value => cases hv
    | integer value h =>
      rw [tokens, List.flatMap_singleton]
      exact scan_integer h hrest
  | text s =>
    rw [tokens, List.flatMap_singleton]
    exact scan_text s rest
  | array items =>
    have hclose := scan_fixed .closeArray rfl rest
    cases items with
    | nil =>
      simp only [tokens, List.flatMap_cons, List.flatMap_nil, List.append_nil, List.append_assoc]
      rw [scan_fixed .openArray rfl, hclose]
      rfl
    | cons v items =>
      simp only [isFloatFree, allFloatFree, Bool.and_eq_true] at hv
      -- The bracket stops the last element, a comma every other one.
      have hstops : Stops (spell .closeArray ++ rest) := stops_cons (by decide) rest
      have hitems := scan_itemTokens hv.2 hstops
      have hfirst := scan_tokens hv.1 (stops_itemTokens items hstops)
      simp only [tokens, List.cons_append, List.flatMap_cons, List.flatMap_append,
        List.flatMap_nil, List.append_nil, List.append_assoc]
      rw [scan_fixed .openArray rfl, hfirst, hitems, hclose]
      rfl
  | object members =>
    have hclose := scan_fixed .closeObject rfl rest
    cases members with
    | nil =>
      simp only [tokens, List.flatMap_cons, List.flatMap_nil, List.append_nil, List.append_assoc]
      rw [scan_fixed .openObject rfl, hclose]
      rfl
    | cons m members =>
      obtain ⟨name, v⟩ := m
      simp only [isFloatFree, allMembersFloatFree, Bool.and_eq_true] at hv
      have hstops : Stops (spell .closeObject ++ rest) := stops_cons (by decide) rest
      have hmembers := scan_memberTokens hv.2 hstops
      have hfirst := scan_tokens hv.1 (stops_memberTokens members hstops)
      simp only [tokens, List.cons_append, List.flatMap_cons, List.flatMap_append,
        List.flatMap_nil, List.append_nil, List.append_assoc]
      rw [scan_fixed .openObject rfl, scan_text, scan_fixed .colon rfl, hfirst, hmembers, hclose]
      rfl

theorem scan_itemTokens {items : List Value} (hitems : allFloatFree items = true)
    {rest : List Char} (hrest : Stops rest) :
    scan ((itemTokens items).flatMap spell ++ rest) = itemTokens items ++ scan rest := by
  cases items with
  | nil => rfl
  | cons v items =>
    simp only [allFloatFree, Bool.and_eq_true] at hitems
    have hlater := scan_itemTokens hitems.2 hrest
    have hfirst := scan_tokens hitems.1 (stops_itemTokens items hrest)
    simp only [itemTokens, List.cons_append, List.flatMap_cons, List.flatMap_append,
      List.append_assoc]
    rw [scan_fixed .comma rfl, hfirst, hlater]

theorem scan_memberTokens {members : List (String × Value)}
    (hmembers : allMembersFloatFree members = true) {rest : List Char} (hrest : Stops rest) :
    scan ((memberTokens members).flatMap spell ++ rest) = memberTokens members ++ scan rest := by
  cases members with
  | nil => rfl
  | cons m members =>
    obtain ⟨name, v⟩ := m
    simp only [allMembersFloatFree, Bool.and_eq_true] at hmembers
    have hlater := scan_memberTokens hmembers.2 hrest
    have hfirst := scan_tokens hmembers.1 (stops_memberTokens members hrest)
    simp only [memberTokens, List.cons_append, List.flatMap_cons, List.flatMap_append,
      List.append_assoc]
    rw [scan_fixed .comma rfl, scan_text, scan_fixed .colon rfl, hfirst, hlater]

end

/-- **The compact text of a value without doubles has the value's tokens.** -/
theorem scan_render {v : Value} (hv : v.isFloatFree = true) :
    scan v.render.toList = v.tokens := by
  have hend : Stops [] := nofun
  have hscan := scan_tokens hv hend
  rw [List.append_nil, scan, List.append_nil] at hscan
  rw [render, String.toList_ofList, hscan]

end Value

end Replica.Json
