import Replica.Proofs.Query.Template

/-!
# A statement can be read in one way only

The text of a statement determines its tables, their aliases and its conditions, down to each
literal. A text in single quotes may hold anything that a statement is made of, so the argument is
about tokens: each clause says where it ends, and the marks between clauses (`JOIN`, `WHERE`,
`AND`, the comma) never begin what stands behind the last one. What a literal stands for in a
binding is not in the text, and nothing is said of it.
-/
namespace Replica

open Sql

section Codes

variable {α τ : Type}

/-- Behind the code of a thing anything may stand: the thing and the rest are still known. -/
def SelfDelimiting (code : α → List τ) : Prop :=
  ∀ ⦃a b : α⦄ ⦃rest rest' : List τ⦄,
    code a ++ rest = code b ++ rest' → a = b ∧ rest = rest'

/-- A list of codes, each with a mark in front, is known together with what stands behind it, as
long as that does not begin with the mark. -/
theorem SelfDelimiting.marked {code : α → List τ} {mark : τ} (h : SelfDelimiting code)
    {as bs : List α} {rest rest' : List τ} (hrest : rest.head? ≠ some mark)
    (hrest' : rest'.head? ≠ some mark)
    (heq : (as.flatMap fun a => mark :: code a) ++ rest =
      (bs.flatMap fun b => mark :: code b) ++ rest') : as = bs ∧ rest = rest' := by
  induction as generalizing bs with
  | nil =>
    cases bs with
    | nil => exact ⟨rfl, heq⟩
    | cons b others =>
      obtain rfl : rest = _ := heq
      exact absurd rfl hrest
  | cons a others ih =>
    cases bs with
    | nil =>
      obtain rfl : _ = rest' := heq
      exact absurd rfl hrest'
    | cons b others' =>
      simp only [List.flatMap_cons, List.cons_append, List.append_assoc] at heq
      obtain ⟨rfl, hothers⟩ := h (List.cons.inj heq).2
      obtain ⟨rfl, hrest⟩ := ih hothers
      exact ⟨rfl, hrest⟩

end Codes

/-- A predicate as the text shows it: its operands are their literals. -/
inductive Condition where
  | compare (row : Alias) (op : Comparison) (literal : Literal)
  | among (row : Alias) (literals : List Literal)
  deriving DecidableEq

def Predicate.condition : Predicate → Condition
  | .compare row op o => .compare row op o.literal
  | .among row os => .among row (os.map (·.literal))

/-- A way of writing templates in which a value is seen by its literal only. -/
structure Spelling (τ : Type) where
  fixed : List Char → List τ
  literal : Literal → List τ

section Spellings

variable {τ : Type} (s : Spelling τ)

def Piece.spelled : Piece → List τ
  | .fixed chars => s.fixed chars
  | .operand o => s.literal o.literal

namespace Condition

def spelledSet : List Literal → List τ
  | [] => []
  | l :: rest => s.literal l ++ rest.flatMap fun l => s.fixed [',', ' '] ++ s.literal l

def spelled : Condition → List τ
  | .compare row op l =>
    s.fixed (row.toChars ++ ".value ".toList ++ [op.symbol, ' ']) ++ s.literal l
  | .among row ls =>
    s.fixed (row.toChars ++ ".value IN (".toList) ++ spelledSet s ls ++ s.fixed [')']

def spelledAll : List Condition → List τ
  | [] => []
  | c :: rest => s.fixed " WHERE ".toList ++ c.spelled s ++
      rest.flatMap fun c => s.fixed " AND ".toList ++ c.spelled s

end Condition

namespace Select

open Condition

theorem spelled_memberPieces (os : List Operand) :
    (memberPieces os).flatMap (Piece.spelled s) =
      (os.map (·.literal)).flatMap fun l => s.fixed [',', ' '] ++ s.literal l := by
  induction os with
  | nil => rfl
  | cons o rest ih => simp [memberPieces, Piece.spelled, ih]

theorem spelled_setPieces (os : List Operand) :
    (setPieces os).flatMap (Piece.spelled s) = spelledSet s (os.map (·.literal)) := by
  cases os with
  | nil => rfl
  | cons o rest => simp [setPieces, spelledSet, Piece.spelled, spelled_memberPieces]

theorem spelled_predicatePieces (p : Predicate) :
    (predicatePieces p).flatMap (Piece.spelled s) = p.condition.spelled s := by
  cases p with
  | compare row op o => simp [predicatePieces, Piece.spelled, Predicate.condition, spelled]
  | among row os =>
    simp [predicatePieces, Piece.spelled, Predicate.condition, spelled, spelled_setPieces]

theorem spelled_conjunctPieces (ps : List Predicate) :
    (conjunctPieces ps).flatMap (Piece.spelled s) =
      (ps.map Predicate.condition).flatMap fun c => s.fixed " AND ".toList ++ c.spelled s := by
  induction ps with
  | nil => rfl
  | cons p rest ih => simp [conjunctPieces, Piece.spelled, spelled_predicatePieces, ih]

theorem spelled_filterPieces (ps : List Predicate) :
    (filterPieces ps).flatMap (Piece.spelled s) = spelledAll s (ps.map Predicate.condition) := by
  cases ps with
  | nil => rfl
  | cons p rest =>
    simp [filterPieces, spelledAll, Piece.spelled, spelled_predicatePieces, spelled_conjunctPieces]

/-- A spelling sees a statement's tables and conditions, and nothing else of it. -/
theorem spelled_template (q : Select) :
    q.template.flatMap (Piece.spelled s) =
      s.fixed (headChars q.primary) ++
        (q.joins.flatMap fun t => s.fixed (joinChars q.primary.row t)) ++
        spelledAll s (q.predicates.map Predicate.condition) := by
  have hjoins : (q.joins.map fun t => Piece.fixed (joinChars q.primary.row t)).flatMap
      (Piece.spelled s) = q.joins.flatMap fun t => s.fixed (joinChars q.primary.row t) := by
    rw [List.flatMap_map]
    rfl
  rw [template, List.cons_append, List.flatMap_cons, List.flatMap_append, hjoins,
    spelled_filterPieces, List.append_assoc]
  rfl

end Select

end Spellings

theorem Alias.text_injective : Function.Injective Alias.text := by
  intro a b h
  have hchars := String.ofList_injective h
  have hdigits : Nat.toDigits 10 a.index = Nat.toDigits 10 b.index :=
    List.append_cancel_left hchars
  have hnumber := congrArg number hdigits
  rw [number_numeral, number_numeral] at hnumber
  cases a
  cases b
  exact congrArg Alias.mk (Int.ofNat.inj hnumber)

theorem TableRef.eq_of_text {t t' : TableRef} (htable : t.table.text = t'.table.text)
    (hrow : t.row.text = t'.row.text) : t = t' := by
  obtain ⟨⟨text, _⟩, row⟩ := t
  obtain ⟨⟨text', _⟩, row'⟩ := t'
  obtain rfl : text = text' := htable
  obtain rfl := Alias.text_injective hrow
  rfl

theorem Comparison.symbol_injective : Function.Injective Comparison.symbol := by
  intro a b h
  cases a <;> cases b <;> simp_all [Comparison.symbol]

theorem Literal.token_injective : Function.Injective Literal.token := by
  intro l l' h
  cases l <;> cases l' <;> simp only [Literal.token, Token.integer.injEq, Token.text.injEq,
    reduceCtorEq] at h
  · rw [Int64.toInt_inj.mp h]
  · subst h
    rfl

/-- The tokens of a text, and each literal as the token that it is. -/
def Sql.reading : Spelling Token where
  fixed chars := (lex chars).getD []
  literal l := [l.token]

theorem Sql.tokens_eq_reading :
    Piece.tokens (fun o => o.literal.token) = Piece.spelled reading := by
  funext p
  cases p <;> rfl

theorem Sql.reading_fixed {chars : List Char} {ts : List Token} (h : lex chars = some ts) :
    reading.fixed chars = ts := by
  simp [reading, h]

namespace Condition

theorem reading_members (ls : List Literal) :
    (ls.flatMap fun l => reading.fixed [',', ' '] ++ reading.literal l) =
      ls.flatMap fun l => .symbol ',' :: [l.token] := by
  have hcomma : lex [',', ' '] = some [.symbol ','] := by cbv
  rw [reading_fixed hcomma]
  rfl

/-- The members of a set are known together with what stands behind its bracket. -/
theorem spelledSet_inj {ls ls' : List Literal} {rest rest' : List Token}
    (h : spelledSet reading ls ++ .symbol ')' :: rest =
      spelledSet reading ls' ++ .symbol ')' :: rest') : ls = ls' ∧ rest = rest' := by
  have hdelimits : SelfDelimiting fun l : Literal => [l.token] := by
    intro l l' a b hcode
    obtain ⟨htoken, hrest⟩ := List.cons.inj hcode
    exact ⟨Literal.token_injective htoken, hrest⟩
  have hbracket (l : Literal) : l.token ≠ .symbol ')' := by cases l <;> exact nofun
  have hend (rest : List Token) : (Token.symbol ')' :: rest).head? ≠ some (.symbol ',') := by simp
  cases ls with
  | nil =>
    cases ls' with
    | nil => exact ⟨rfl, (List.cons.inj h).2⟩
    | cons l' others' => exact absurd (List.cons.inj h).1.symm (hbracket l')
  | cons l others =>
    cases ls' with
    | nil => exact absurd (List.cons.inj h).1 (hbracket l)
    | cons l' others' =>
      simp only [spelledSet, reading_members] at h
      obtain ⟨htoken, hmembers⟩ := List.cons.inj h
      obtain ⟨rfl, hrest⟩ := hdelimits.marked (hend rest) (hend rest') hmembers
      exact ⟨congrArg (· :: others) (Literal.token_injective htoken), (List.cons.inj hrest).2⟩

theorem reading_compare (row : Alias) (op : Comparison) (l : Literal) :
    (compare row op l).spelled reading =
      [.word row.text, .symbol '.', .word "value", .symbol op.symbol, l.token] := by
  rw [spelled, reading_fixed (Select.closes_compare row op).lex_self]
  rfl

theorem reading_among (row : Alias) (ls : List Literal) :
    (among row ls).spelled reading =
      ([.word row.text, .symbol '.', .word "value", .word "IN", .symbol '('] : List Token) ++
        (spelledSet reading ls ++ ([.symbol ')'] : List Token)) := by
  have hclose : lex [')'] = some [.symbol ')'] := by cbv
  rw [spelled, reading_fixed (Select.closes_among row).lex_self, reading_fixed hclose,
    List.append_assoc]

theorem selfDelimiting : SelfDelimiting (Condition.spelled reading) := by
  intro c c' rest rest' h
  cases c with
  | compare row op l =>
    cases c' with
    | compare row' op' l' =>
      rw [reading_compare, reading_compare] at h
      simp only [List.cons_append, List.nil_append, List.cons.injEq, Token.word.injEq,
        Token.symbol.injEq, true_and] at h
      obtain ⟨hrow, hop, hliteral, hrest⟩ := h
      rw [Alias.text_injective hrow, Comparison.symbol_injective hop,
        Literal.token_injective hliteral]
      exact ⟨rfl, hrest⟩
    | among row' ls' =>
      rw [reading_compare, reading_among] at h
      simp at h
  | among row ls =>
    cases c' with
    | compare row' op' l' =>
      rw [reading_compare, reading_among] at h
      simp at h
    | among row' ls' =>
      rw [reading_among, reading_among] at h
      simp only [List.cons_append, List.nil_append, List.append_assoc, List.cons.injEq,
        Token.word.injEq, true_and] at h
      obtain ⟨hrow, hset⟩ := h
      obtain ⟨rfl, hrest⟩ := spelledSet_inj hset
      rw [Alias.text_injective hrow]
      exact ⟨rfl, hrest⟩

end Condition

namespace Select

open Condition

theorem reading_head (t : TableRef) :
    reading.fixed (headChars t) = [.word "SELECT", .word "DISTINCT", .word t.row.text, .symbol '.',
      .word "docid", .word "FROM", .word t.table.text, .word "AS", .word t.row.text] :=
  reading_fixed (lex_headChars t)

/-- The tokens that join a table, behind the first one. -/
def joinTokens (primary : Alias) (t : TableRef) : List Token :=
  [.word t.table.text, .word "AS", .word t.row.text, .word "ON", .word primary.text, .symbol '.',
    .word "docid", .symbol '=', .word t.row.text, .symbol '.', .word "docid"]

theorem reading_joins (primary : Alias) (ts : List TableRef) :
    (ts.flatMap fun t => reading.fixed (joinChars primary t)) =
      ts.flatMap fun t => .word "JOIN" :: joinTokens primary t := by
  congr 1
  funext t
  exact reading_fixed (lex_joinChars primary t)

theorem selfDelimiting_joinTokens (primary : Alias) : SelfDelimiting (joinTokens primary) := by
  intro t t' rest rest' h
  simp only [joinTokens, List.cons_append, List.nil_append, List.cons.injEq, Token.word.injEq,
    true_and] at h
  obtain ⟨htable, hrow, -, hrest⟩ := h
  exact ⟨TableRef.eq_of_text htable hrow, hrest⟩

theorem reading_conditions (c : Condition) (cs : List Condition) :
    spelledAll reading (c :: cs) = .word "WHERE" :: (c.spelled reading ++
      cs.flatMap fun c => .word "AND" :: c.spelled reading) := by
  have hwhere : lex " WHERE ".toList = some [.word "WHERE"] := by cbv
  have hand : lex " AND ".toList = some [.word "AND"] := by cbv
  rw [spelledAll, reading_fixed hwhere, reading_fixed hand]
  rfl

theorem head?_conditions (cs : List Condition) :
    (spelledAll reading cs).head? ≠ some (.word "JOIN") := by
  cases cs with
  | nil => exact nofun
  | cons c rest =>
    rw [reading_conditions]
    simp

theorem conditions_injective : Function.Injective (spelledAll reading) := by
  intro cs cs' h
  cases cs with
  | nil =>
    cases cs' with
    | nil => rfl
    | cons c' rest' =>
      rw [reading_conditions] at h
      cases h
  | cons c rest =>
    cases cs' with
    | nil =>
      rw [reading_conditions] at h
      cases h
    | cons c' rest' =>
      rw [reading_conditions, reading_conditions] at h
      obtain ⟨rfl, hrest⟩ := Condition.selfDelimiting (List.cons.inj h).2
      -- Nothing stands behind the last condition.
      have hend : ([] : List Token).head? ≠ some (.word "AND") := nofun
      rw [← List.append_nil (List.flatMap _ rest), ← List.append_nil (List.flatMap _ rest')]
        at hrest
      rw [(Condition.selfDelimiting.marked hend hend hrest).1]

/-- **A statement can be read in one way only.** Two statements have the same text exactly if they
have the same tables under the same aliases, in the same order, and the same conditions, in the same
order: alias, operator or set, and each literal. -/
theorem toSql_eq_iff (q q' : Select) :
    q.toSql = q'.toSql ↔ q.primary = q'.primary ∧ q.joins = q'.joins ∧
      q.predicates.map Predicate.condition = q'.predicates.map Predicate.condition := by
  constructor
  · intro h
    have htokens := congrArg (fun sql : String => lex sql.toList) h
    simp only [lex_toSql, Option.some.injEq, tokens_eq_reading, spelled_template, reading_head,
      reading_joins, List.cons_append, List.nil_append, List.cons.injEq, Token.word.injEq,
      true_and] at htokens
    obtain ⟨hrow, htable, -, hrest⟩ := htokens
    have hprimary := TableRef.eq_of_text htable hrow
    rw [hprimary] at hrest
    obtain ⟨hjoins, hconditions⟩ := (selfDelimiting_joinTokens q'.primary.row).marked
      (head?_conditions _) (head?_conditions _) hrest
    exact ⟨hprimary, hjoins, conditions_injective hconditions⟩
  · rintro ⟨hprimary, hjoins, hconditions⟩
    have hinlined : Piece.inlined = Piece.spelled ⟨id, Literal.toChars⟩ := by
      funext p
      cases p <;> rfl
    rw [toSql, toSql, hinlined, spelled_template, spelled_template, hprimary, hjoins, hconditions]

end Select

end Replica
