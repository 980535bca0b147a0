import Mathlib
import Replica.Proofs.Numerals
import Replica.Proofs.Query.Acceptance
import Replica.Proofs.Query.Rendering

/-!
# What index types keep to

An index type supports exactly the values that it converts, and exactly those whose stored form it
writes as a literal. A stored form is supported and stored as it is, and its literal is read as it.
Both built-in types keep to this, each with one kind of stored form. An index over integers takes
the numerals of signed 64-bit words, among them those that an index over texts stores for integers.
-/
namespace Replica.IndexType

open Sql (lex)

/-- What a query relies on in an index type whose stored forms are of one kind. -/
structure Lawful (t : IndexType) (IsStored : IndexValue → Prop) : Prop where
  converts_iff (v : IndexValue) : t.supports v = true ↔ ∃ c, t.convert v = .ok c
  escapes_iff (v : IndexValue) : t.supports v = true ↔ ∃ out, t.convertAndEscape v = .ok out
  stored {v c : IndexValue} : t.convert v = .ok c →
    IsStored c ∧ t.supports c = true ∧ t.convert c = .ok c
  denotes {v c : IndexValue} {l : Literal} : t.convertAndEscape v = .ok (c, l) →
    t.convert v = .ok c ∧ ∃ token, lex l.render.toList = some [token] ∧ token.Denotes c

/-- The type reads a content off a value, if it can, and stores the content under one kind. -/
structure StoresBy {γ : Type} (t : IndexType) (content? : IndexValue → Option γ)
    (store : γ → IndexValue) : Prop where
  supports (v : IndexValue) : t.supports v = (content? v).isSome
  convert {v : IndexValue} {x : γ} : content? v = some x → t.convert v = .ok (store x)
  refuse {v : IndexValue} : content? v = none → ∃ e, t.convert v = .error e
  /-- The content of what is stored is what was read. -/
  settled {v : IndexValue} {x : γ} : content? v = some x → content? (store x) = some x

variable {t : IndexType} {v c : IndexValue}

theorem storesBy_integer : integer.StoresBy integerOf? .integer where
  supports _ := rfl
  convert h := by simp only [integer, h]
  refuse h := by simp only [integer, h]; exact ⟨_, rfl⟩
  settled _ := rfl

theorem storesBy_string : string.StoresBy textOf? .text where
  supports _ := rfl
  convert h := by simp only [string, h]
  refuse h := by simp only [string, h]; exact ⟨_, rfl⟩
  settled h := if_neg (nul_notMem_textOf h)

section StoresBy

variable {γ : Type} {content? : IndexValue → Option γ} {store : γ → IndexValue}
  (ht : t.StoresBy content? store)

include ht

theorem convert_eq_ok_iff : t.convert v = .ok c ↔ ∃ x, content? v = some x ∧ c = store x := by
  cases hx : content? v with
  | none =>
    obtain ⟨e, he⟩ := ht.refuse hx
    simp [he]
  | some x => simp [ht.convert hx, eq_comm]

theorem supports_iff_convert : t.supports v = true ↔ ∃ c, t.convert v = .ok c := by
  simp only [convert_eq_ok_iff ht, ht.supports, Option.isSome_iff_exists]
  exact ⟨fun ⟨x, hx⟩ => ⟨store x, x, hx, rfl⟩, fun ⟨_, x, hx, _⟩ => ⟨x, hx⟩⟩

theorem stored_of_convert (h : t.convert v = .ok c) :
    (∃ x, c = store x) ∧ t.supports c = true ∧ t.convert c = .ok c := by
  obtain ⟨x, hx, rfl⟩ := (convert_eq_ok_iff ht).mp h
  have hagain := ht.convert (ht.settled hx)
  exact ⟨⟨x, rfl⟩, (supports_iff_convert ht).mpr ⟨_, hagain⟩, hagain⟩

/-- Besides the kind of its stored forms, a lawful type needs literals for them that denote them. -/
theorem lawful_of_storesBy (hcoherent : t.Coherent)
    (hdenotes : ∀ (c : IndexValue) (l : Literal), t.escape c = .ok l → l.token.Denotes c) :
    t.Lawful fun c => ∃ x, c = store x where
  converts_iff _ := supports_iff_convert ht
  escapes_iff v := by
    refine ⟨hcoherent v, fun ⟨out, hout⟩ => ?_⟩
    obtain ⟨c, hc, -⟩ := bind_eq_ok.mp hout
    exact (supports_iff_convert ht).mpr ⟨c, hc⟩
  stored := stored_of_convert ht
  denotes {v c l} h := by
    obtain ⟨stored, hstored, h⟩ := bind_eq_ok.mp h
    obtain ⟨literal, hliteral, h⟩ := bind_eq_ok.mp h
    obtain ⟨rfl, rfl⟩ := Prod.mk.inj (Except.ok.inj h)
    have hread := literal.lex_toChars
    exact ⟨hstored, literal.token, by rw [Literal.render, String.toList_ofList, hread],
      hdenotes _ _ hliteral⟩

end StoresBy

theorem denotes_of_escape (ht : t = .integer ∨ t = .string) (c : IndexValue) (l : Literal)
    (h : t.escape c = .ok l) : l.token.Denotes c :=
  Plan.denotes_of_escape (o := ⟨l, c⟩) ht h

theorem lawful_integer : integer.Lawful fun c => ∃ i, c = .integer i :=
  lawful_of_storesBy storesBy_integer coherent_integer (denotes_of_escape (Or.inl rfl))

theorem lawful_string : string.Lawful fun c => ∃ s, c = .text s :=
  lawful_of_storesBy storesBy_string coherent_string (denotes_of_escape (Or.inr rfl))

theorem integer_convert_text_iff {s : String} :
    integer.convert (.text s) = .ok c ↔
      ∃ i : Int64, c = .integer i ∧ Numeral.Spells s.toList i.toInt := by
  rw [convert_eq_ok_iff storesBy_integer]
  refine exists_congr fun i => ?_
  rw [and_comm, ← Numeral.integer?_eq_some_iff]
  rfl

/-- The characters that an integer is written as are a numeral of it. -/
theorem spells_integerChars (i : Int64) : Numeral.Spells (IndexValue.integerChars i) i.toInt := by
  have hdigits := Numeral.digits_toDigits i.toInt.natAbs
  unfold IndexValue.integerChars
  split
  · exact ⟨_, _, hdigits, Or.inr ⟨rfl, by omega⟩⟩
  · exact ⟨_, _, hdigits, Or.inl ⟨Or.inl rfl, by omega⟩⟩

/-- **The built-in types are lawful.** Of texts an index over integers takes the numerals of the
integers from `-2 ^ 63` to `2 ^ 63 - 1` and no other, and stores the integers that they spell. An
integer that an index over texts has stored is an integer again for an index over integers. -/
theorem builtIn_lawful :
    (integer.Lawful fun c => ∃ i, c = .integer i) ∧ (string.Lawful fun c => ∃ s, c = .text s) ∧
    (∀ s : String, integer.supports (.text s) = true ↔
      ∃ i : Int, Numeral.Spells s.toList i ∧ -2 ^ 63 ≤ i ∧ i ≤ 2 ^ 63 - 1) ∧
    (∀ (s : String) (c : IndexValue), integer.convert (.text s) = .ok c ↔
      ∃ i : Int64, c = .integer i ∧ Numeral.Spells s.toList i.toInt) ∧
    ∀ i : Int64, ∃ s, string.convert (.integer i) = .ok (.text s) ∧
      integer.convert (.text s) = .ok (.integer i) := by
  refine ⟨lawful_integer, lawful_string, fun s => Numeral.integer?_isSome_iff,
    fun _ _ => integer_convert_text_iff,
    fun i => ⟨String.ofList (IndexValue.integerChars i), rfl, ?_⟩⟩
  refine integer_convert_text_iff.mpr ⟨i, rfl, ?_⟩
  rw [String.toList_ofList]
  exact spells_integerChars i

end Replica.IndexType
