import Mathlib.Tactic.IntervalCases
import Replica.Digest.Hex
import Replica.Digest.Sha256

/-!
# Digits that spell bytes

Two lowercase digits spell a byte, the first of them its upper half. Bytes have one spelling, the
one that is written; it is read back, and no other text is read.
-/
namespace Replica.Hex

def IsDigit (c : Char) : Prop := '0' ≤ c ∧ c ≤ '9' ∨ 'a' ≤ c ∧ c ≤ 'f'

/-- The text consists of lowercase digits, two for each byte, and is read as the bytes. -/
structure Spells (text : String) (bytes : ByteArray) : Prop where
  digits : ∀ c ∈ text.toList, IsDigit c
  length : text.length = 2 * bytes.size
  value : decode? text = some bytes

theorem isDigit_digitChar {n : Nat} (h : n < 16) : IsDigit (Nat.digitChar n) := by
  unfold IsDigit
  interval_cases n <;> decide

theorem digit?_digitChar {n : Nat} (h : n < 16) : digit? (Nat.digitChar n) = some n := by
  interval_cases n <;> rfl

/-- A digit that is read is the one its value is written as. -/
theorem digitChar_of_digit? {c : Char} {n : Nat} (h : digit? c = some n) :
    n < 16 ∧ Nat.digitChar n = c := by
  have hc : Char.ofNat c.toNat = c := Char.ofNat_toNat c
  unfold digit? at h
  split_ifs at h with hnumber hletter
  · have hmin : 48 ≤ c.toNat := hnumber.1
    have hmax : c.toNat ≤ 57 := hnumber.2
    obtain rfl := Option.some.inj h
    rw [← hc]
    generalize c.toNat = code at hmin hmax
    interval_cases code <;> decide
  · have hmin : 97 ≤ c.toNat := hletter.1
    have hmax : c.toNat ≤ 102 := hletter.2
    obtain rfl := Option.some.inj h
    rw [← hc]
    generalize c.toNat = code at hmin hmax
    interval_cases code <;> decide

theorem byteChars_halves {upper lower : Nat} (hupper : upper < 16) (hlower : lower < 16) :
    byteChars (UInt8.ofNat (upper * 16 + lower)) = [Nat.digitChar upper, Nat.digitChar lower] := by
  have hbyte : (UInt8.ofNat (upper * 16 + lower)).toNat = upper * 16 + lower :=
    UInt8.toNat_ofNat_of_lt (by simp only [UInt8.size]; omega)
  have hdiv : (upper * 16 + lower) / 16 = upper := by omega
  have hmod : (upper * 16 + lower) % 16 = lower := by omega
  rw [byteChars, hbyte, hdiv, hmod]

theorem decodeChars?_flatMap (bytes : List UInt8) :
    decodeChars? (bytes.flatMap byteChars) = some bytes := by
  induction bytes with
  | nil => rfl
  | cons b rest ih =>
    have hb := b.toNat_lt
    have hupper : b.toNat / 16 < 16 := by omega
    have hlower : b.toNat % 16 < 16 := by omega
    have hvalue : b.toNat / 16 * 16 + b.toNat % 16 = b.toNat := by omega
    rw [List.flatMap_cons, byteChars, List.cons_append, List.cons_append, List.nil_append,
      decodeChars?, digit?_digitChar hupper, digit?_digitChar hlower, ih]
    simp only [Option.bind_some, Option.map_some, hvalue, UInt8.ofNat_toNat]

theorem eq_of_decodeChars? {cs : List Char} {bytes : List UInt8}
    (h : decodeChars? cs = some bytes) : cs = bytes.flatMap byteChars := by
  fun_induction decodeChars? cs generalizing bytes with
  | case1 =>
    obtain rfl := Option.some.inj h
    rfl
  | case2 => cases h
  | case3 a b rest ih =>
    obtain ⟨upper, ha, h⟩ := Option.bind_eq_some_iff.mp h
    obtain ⟨lower, hb, h⟩ := Option.bind_eq_some_iff.mp h
    obtain ⟨others, hothers, rfl⟩ := Option.map_eq_some_iff.mp h
    obtain ⟨hupper, rfl⟩ := digitChar_of_digit? ha
    obtain ⟨hlower, rfl⟩ := digitChar_of_digit? hb
    rw [List.flatMap_cons, byteChars_halves hupper hlower, ih hothers]
    rfl

/-- What is read is exactly what is written. -/
theorem decode?_eq_some_iff {text : String} {bytes : ByteArray} :
    decode? text = some bytes ↔ text = encode bytes := by
  unfold decode? encode
  rw [Option.map_eq_some_iff]
  constructor
  · rintro ⟨list, hlist, rfl⟩
    rw [List.toList_data_toByteArray, ← eq_of_decodeChars? hlist, String.ofList_toList]
  · rintro rfl
    refine ⟨bytes.data.toList, ?_, ByteArray.ext List.data_toByteArray⟩
    rw [String.toList_ofList, decodeChars?_flatMap]

theorem isDigit_of_mem_byteChars {b : UInt8} {c : Char} (h : c ∈ byteChars b) : IsDigit c := by
  have hb := b.toNat_lt
  rcases List.mem_cons.mp h with rfl | h
  · exact isDigit_digitChar (by omega)
  · obtain rfl := List.mem_singleton.mp h
    exact isDigit_digitChar (by omega)

theorem length_flatMap_byteChars (bytes : List UInt8) :
    (bytes.flatMap byteChars).length = 2 * bytes.length := by
  induction bytes with
  | nil => rfl
  | cons b rest ih =>
    rw [List.flatMap_cons, List.length_append, ih, List.length_cons, byteChars]
    simp only [List.length_cons, List.length_nil]
    omega

/-- **Bytes have one spelling.** It is the one that is written. -/
theorem spells_iff {text : String} {bytes : ByteArray} :
    Spells text bytes ↔ text = encode bytes := by
  refine ⟨fun h => decode?_eq_some_iff.mp h.value, ?_⟩
  rintro rfl
  refine ⟨fun c hc => ?_, ?_, decode?_eq_some_iff.mpr rfl⟩
  · rw [encode, String.toList_ofList] at hc
    obtain ⟨b, -, hc⟩ := List.mem_flatMap.mp hc
    exact isDigit_of_mem_byteChars hc
  · rw [encode, String.length_ofList, length_flatMap_byteChars]
    rfl

theorem spells_encode (bytes : ByteArray) : Spells (encode bytes) bytes := spells_iff.mpr rfl

theorem Spells.unique {text other : String} {bytes : ByteArray} (h : Spells text bytes)
    (h' : Spells other bytes) : text = other :=
  (spells_iff.mp h).trans (spells_iff.mp h').symm

/-- The first example of the standard: the digest of the letters a, b and c. -/
theorem spells_digest_abc :
    Spells "ba7816bf8f01cfea414140de5dae2223b00361a396177a9cb410ff61f20015ad"
      (Sha256.digest ⟨#[97, 98, 99]⟩) :=
  spells_iff.mpr (by decide +kernel)

end Replica.Hex
