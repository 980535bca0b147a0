import Mathlib.Tactic.Tauto
import Replica.Proofs.Query.Clauses

/-!
# Which criteria are accepted

A criterion is accepted if its table has a bare name and its index type supports what the criterion
needs: the value, both bounds as far as they are given, or the members of the set. Of a set the
strict policy needs every member and the permissive one any member; dropping the others is all that
the permissive policy does. That a supported value can always be stored and written as a literal is
shown for the built-in types and assumed of no other.
-/
namespace Replica

/-- A letter from `A` to `Z` in either case, or an underscore. -/
def IsNameStart (c : Char) : Prop := 'A' ≤ c ∧ c ≤ 'Z' ∨ 'a' ≤ c ∧ c ≤ 'z' ∨ c = '_'

/-- The same, or a digit from `0` to `9`. -/
def IsNamePart (c : Char) : Prop := IsNameStart c ∨ '0' ≤ c ∧ c ≤ '9'

/-- The text matches `[A-Za-z_][A-Za-z0-9_]*`. -/
def IsBareName (s : String) : Prop :=
  ∃ c rest, s.toList = c :: rest ∧ IsNameStart c ∧ ∀ d ∈ rest, IsNamePart d

theorem isIdentifierStart_iff {c : Char} : isIdentifierStart c = true ↔ IsNameStart c := by
  delta isIdentifierStart IsNameStart Char.isAlpha Char.isUpper Char.isLower
  simp only [Char.le_def, Bool.or_eq_true, Bool.and_eq_true, decide_eq_true_eq, beq_iff_eq,
    ge_iff_le, or_assoc]

theorem isIdentifierPart_iff {c : Char} : isIdentifierPart c = true ↔ IsNamePart c := by
  have hstart := isIdentifierStart_iff (c := c)
  simp only [isIdentifierStart, Bool.or_eq_true, beq_iff_eq] at hstart
  simp only [isIdentifierPart, IsNamePart, ← hstart, Char.isAlphanum, Char.isDigit, Char.le_def,
    Bool.or_eq_true, Bool.and_eq_true, decide_eq_true_eq, beq_iff_eq, ge_iff_le]
  tauto

theorem isIdentifier_iff {s : String} : isIdentifier s.toList = true ↔ IsBareName s := by
  unfold IsBareName
  cases s.toList with
  | nil => simp [isIdentifier]
  | cons c rest =>
    simp [isIdentifier, isIdentifierStart_iff, isIdentifierPart_iff]

theorem TableName.parse_accepts_iff {name : String} :
    (∃ table, TableName.parse name = .ok table) ↔ IsBareName name := by
  rw [← isIdentifier_iff]
  unfold TableName.parse
  split <;> simp [*]

namespace IndexType

/-- The type can store what it supports, and write what it stores. -/
def Coherent (t : IndexType) : Prop :=
  ∀ v, t.supports v = true → ∃ stored, t.convertAndEscape v = .ok stored

theorem coherent_integer : integer.Coherent := by
  intro v hv
  obtain ⟨i, hi⟩ := Option.isSome_iff_exists.mp hv
  have hconvert : integer.convert v = .ok (.integer i) := by simp only [integer, hi]
  exact ⟨(.integer i, .integer i), bind_eq_ok.mpr ⟨_, hconvert, rfl⟩⟩

theorem nul_notMem_integerChars (i : Int64) : '\x00' ∉ IndexValue.integerChars i := by
  have hdigits : '\x00' ∉ Nat.toDigits 10 i.toInt.natAbs := fun h =>
    absurd (Nat.isDigit_of_mem_toDigits (by omega) (by omega) h) (by decide)
  unfold IndexValue.integerChars
  split
  · exact List.not_mem_cons_of_ne_of_not_mem (by decide) hdigits
  · exact hdigits

/-- Whatever stands for a value of an index over texts has no NUL. -/
theorem nul_notMem_textOf {v : IndexValue} {s : String} (h : textOf? v = some s) :
    '\x00' ∉ s.toList := by
  cases v with
  | bool b =>
    obtain rfl := Option.some.inj h
    cases b <;> decide
  | integer i =>
    obtain rfl := Option.some.inj h
    rw [String.toList_ofList]
    exact nul_notMem_integerChars i
  | text text =>
    by_cases hnul : '\x00' ∈ text.toList
    · simp [textOf?, hnul] at h
    · simp only [textOf?, if_neg hnul] at h
      obtain rfl := Option.some.inj h
      exact hnul

theorem coherent_string : string.Coherent := by
  intro v hv
  obtain ⟨s, hs⟩ := Option.isSome_iff_exists.mp hv
  have hconvert : string.convert v = .ok (.text s) := by simp only [string, hs]
  have hescape : string.escape (.text s) = .ok (.text s (nul_notMem_textOf hs)) := by
    simp only [string, Literal.quoted, dif_neg (nul_notMem_textOf hs)]
  exact ⟨_, bind_eq_ok.mpr ⟨_, hconvert, bind_eq_ok.mpr ⟨_, hescape, rfl⟩⟩⟩

end IndexType

/-- What the criterion needs is supported. -/
def Criterion.Supported (t : IndexType) (policy : MembershipPolicy) : Criterion → Prop
  | .equality v => t.supports v = true
  | .membership vs =>
    match policy with
    | .strict => vs ≠ [] ∧ ∀ v ∈ vs, t.supports v = true
    | .permissive => ∃ v ∈ vs, t.supports v = true
  | .range min max =>
    (min ≠ none ∨ max ≠ none) ∧ (∀ v, min = some v → t.supports v = true) ∧
      ∀ v, max = some v → t.supports v = true

namespace Plan

variable {t : IndexType}

/-- To drop unsupported members is to add the others under the strict policy. -/
theorem operands_permissive (t : IndexType) (vs : List IndexValue) :
    operands .permissive t vs = operands .strict t (vs.filter t.supports) := by
  induction vs with
  | nil => rfl
  | cons v rest ih =>
    by_cases hv : t.supports v = true
    · rw [List.filter_cons_of_pos hv, operands, operands, if_pos hv, if_pos hv, ih]
    · rw [List.filter_cons_of_neg hv, operands, if_neg hv]
      exact ih

theorem add_permissive (p : Plan) (table : String) (vs : List IndexValue) (t : IndexType) :
    (p.withPolicy .permissive).add table (.membership vs) t =
      ((p.withPolicy .strict).add table (.membership (vs.filter t.supports)) t).map
        (·.withPolicy .permissive) := by
  simp only [add, withPolicy, predicates, operands_permissive]
  cases TableName.parse table with
  | error e => rfl
  | ok name =>
    cases operands .strict t (vs.filter t.supports) with
    | error e => rfl
    | ok os => cases os <;> rfl

/-- Under the strict policy no member is lost. -/
theorem length_operands_strict {vs : List IndexValue} {os : List Operand}
    (h : operands .strict t vs = .ok os) : os.length = vs.length := by
  induction vs generalizing os with
  | nil =>
    obtain rfl := Except.ok.inj h
    rfl
  | cons v rest ih =>
    rw [operands] at h
    split at h
    · obtain ⟨o, -, h⟩ := bind_eq_ok.mp h
      obtain ⟨others, hothers, h⟩ := bind_eq_ok.mp h
      obtain rfl := Except.ok.inj h
      rw [List.length_cons, List.length_cons, ih hothers]
    · contradiction

section Coherent

variable (ht : t.Coherent)

include ht

theorem operand_accepts_iff {v : IndexValue} :
    (∃ o, operand t v = .ok o) ↔ t.supports v = true := by
  constructor
  · rintro ⟨o, ho⟩
    exact (operand_eq_ok ho).1
  · intro hv
    obtain ⟨⟨value, literal⟩, hstored⟩ := ht v hv
    exact ⟨⟨literal, value⟩, by rw [operand, if_pos hv, hstored]; rfl⟩

theorem operands_strict_accepts_iff {vs : List IndexValue} :
    (∃ os, operands .strict t vs = .ok os) ↔ ∀ v ∈ vs, t.supports v = true := by
  induction vs with
  | nil => exact ⟨nofun, fun _ => ⟨[], rfl⟩⟩
  | cons v rest ih =>
    rw [List.forall_mem_cons, ← ih, operands]
    split
    · rename_i hv
      obtain ⟨o, ho⟩ := (operand_accepts_iff ht).mpr hv
      simp only [bind_eq_ok, ho, hv, true_and]
      exact ⟨fun ⟨_, _, _, others, hothers, _⟩ => ⟨others, hothers⟩,
        fun ⟨others, hothers⟩ => ⟨o :: others, o, rfl, others, hothers, rfl⟩⟩
    · rename_i hv
      simp [hv, unsupported]

theorem boundPredicate_accepts_iff (row : Alias) (op : Comparison) {bound : Option IndexValue} :
    (∃ ps, boundPredicate row t op bound = .ok ps) ↔
      ∀ v, bound = some v → t.supports v = true := by
  cases bound with
  | none => exact ⟨fun _ => nofun, fun _ => ⟨[], rfl⟩⟩
  | some v => simp [boundPredicate, map_eq_ok, ← operand_accepts_iff ht]

theorem membership_strict_accepts_iff (row : Alias) {vs : List IndexValue} :
    (∃ ps, predicates .strict row t (.membership vs) = .ok ps) ↔
      vs ≠ [] ∧ ∀ v ∈ vs, t.supports v = true := by
  rw [← operands_strict_accepts_iff ht]
  constructor
  · rintro ⟨ps, hps⟩
    obtain ⟨os, hos, hps⟩ := bind_eq_ok.mp hps
    refine ⟨?_, os, hos⟩
    rintro rfl
    obtain rfl := Except.ok.inj hos
    contradiction
  · rintro ⟨hne, os, hos⟩
    have hlength := length_operands_strict hos
    cases os with
    | nil => exact absurd (List.length_eq_zero_iff.mp hlength.symm) hne
    | cons o rest => exact ⟨[.among row (o :: rest)], bind_eq_ok.mpr ⟨_, hos, rfl⟩⟩

theorem range_accepts_iff (policy : MembershipPolicy) (row : Alias)
    {min max : Option IndexValue} :
    (∃ ps, predicates policy row t (.range min max) = .ok ps) ↔
      (min ≠ none ∨ max ≠ none) ∧ (∀ v, min = some v → t.supports v = true) ∧
        ∀ v, max = some v → t.supports v = true := by
  rw [← boundPredicate_accepts_iff ht row .gt, ← boundPredicate_accepts_iff ht row .lt]
  constructor
  · rintro ⟨ps, hps⟩
    obtain ⟨below, hb, h⟩ := bind_eq_ok.mp hps
    obtain ⟨above, ha, h⟩ := bind_eq_ok.mp h
    refine ⟨?_, ⟨above, ha⟩, ⟨below, hb⟩⟩
    by_contra hnone
    obtain ⟨rfl, rfl⟩ : min = none ∧ max = none := by simpa using hnone
    contradiction
  · rintro ⟨hbound, ⟨above, ha⟩, ⟨below, hb⟩⟩
    cases hall : below ++ above with
    | cons p rest =>
      exact ⟨p :: rest, bind_eq_ok.mpr ⟨below, hb, bind_eq_ok.mpr ⟨above, ha, by rw [hall]; rfl⟩⟩⟩
    | nil =>
      obtain ⟨rfl, rfl⟩ := List.append_eq_nil_iff.mp hall
      rcases boundPredicate_eq_ok hb with ⟨rfl, -⟩ | ⟨v, o, -, -, h⟩
      · rcases boundPredicate_eq_ok ha with ⟨rfl, -⟩ | ⟨v, o, -, -, h⟩
        · exact absurd hbound (by simp)
        · cases h
      · cases h

theorem predicates_accepts_iff {policy : MembershipPolicy} (row : Alias) {c : Criterion} :
    (∃ ps, predicates policy row t c = .ok ps) ↔ c.Supported t policy := by
  cases c with
  | equality v => simp [predicates, map_eq_ok, operand_accepts_iff ht, Criterion.Supported]
  | range min max => exact range_accepts_iff ht policy row
  | membership vs =>
    cases policy with
    | strict => exact membership_strict_accepts_iff ht row
    | permissive =>
      have hsame : predicates .permissive row t (.membership vs) =
          predicates .strict row t (.membership (vs.filter t.supports)) := by
        simp only [predicates, operands_permissive]
      rw [hsame, membership_strict_accepts_iff ht row]
      simp [Criterion.Supported, List.filter_eq_nil_iff]

theorem add_accepts_iff (p : Plan) (table : String) (c : Criterion) :
    (∃ p', p.add table c t = .ok p') ↔ IsBareName table ∧ c.Supported t p.policy := by
  rw [← TableName.parse_accepts_iff, ← predicates_accepts_iff ht ⟨p.size⟩]
  constructor
  · rintro ⟨p', hp⟩
    obtain ⟨name, hname, hp⟩ := bind_eq_ok.mp hp
    obtain ⟨ps, hps, -⟩ := bind_eq_ok.mp hp
    exact ⟨⟨name, hname⟩, ⟨ps, hps⟩⟩
  · rintro ⟨⟨name, hname⟩, ⟨ps, hps⟩⟩
    exact ⟨_, bind_eq_ok.mpr ⟨name, hname, bind_eq_ok.mpr ⟨ps, hps, rfl⟩⟩⟩

end Coherent

/-- **Exactly the supported criteria are accepted.** A plan takes a criterion on an index over
integers or texts if the table has a bare name and the type supports what the criterion needs under
the policy of the plan, and in no other case. Under the permissive policy a set makes the same plan,
or is refused with the same words, as its supported members alone under the strict one. -/
theorem accepts_exactly (ht : t = .integer ∨ t = .string) (p : Plan) (table : String) :
    (∀ c : Criterion,
      (∃ p', p.add table c t = .ok p') ↔ IsBareName table ∧ c.Supported t p.policy) ∧
    ∀ vs : List IndexValue, (p.withPolicy .permissive).add table (.membership vs) t =
      ((p.withPolicy .strict).add table (.membership (vs.filter t.supports)) t).map
        (·.withPolicy .permissive) := by
  have hcoherent : t.Coherent := by
    rcases ht with rfl | rfl
    · exact IndexType.coherent_integer
    · exact IndexType.coherent_string
  exact ⟨add_accepts_iff hcoherent p table, fun vs => add_permissive p table vs t⟩

/-- Members of which an index over texts supports all but the second. -/
def halfSupported : List IndexValue := [.text "a", .text "\x00", .bool true]

theorem accepts_exactly_halfSupported :
    IsBareName "tags_2" ∧
    (¬∃ p', ({} : Plan).add "tags_2" (.membership halfSupported) .string = .ok p') ∧
    (∃ p', ({ policy := .permissive } : Plan).add "tags_2" (.membership halfSupported) .string =
      .ok p') ∧
    ({ policy := .permissive } : Plan).add "tags_2" (.membership halfSupported) .string =
      (({} : Plan).add "tags_2" (.membership [.text "a", .bool true]) .string).map
        (·.withPolicy .permissive) := by
  have hname : IsBareName "tags_2" := isIdentifier_iff.mp (by decide)
  have hstring : IndexType.string = .integer ∨ IndexType.string = .string := Or.inr rfl
  obtain ⟨hstrict, hsame⟩ := accepts_exactly hstring {} "tags_2"
  obtain ⟨hpermissive, -⟩ := accepts_exactly hstring { policy := .permissive } "tags_2"
  refine ⟨hname, ?_, (hpermissive _).mpr ⟨hname, .text "a", List.mem_cons_self, rfl⟩, hsame _⟩
  rw [hstrict]
  rintro ⟨-, -, hall⟩
  have hnul := hall (.text "\x00") (List.mem_cons_of_mem _ List.mem_cons_self)
  contradiction

end Plan

end Replica
