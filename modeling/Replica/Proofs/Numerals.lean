import Mathlib
import Replica.Numeral

/-!
# What numerals are read as

A numeral is one or more ASCII digits, perhaps behind a sign. It is read as the number that its
digits stand for, if that lies in the range asked for, and nothing else is read. Among the numerals
of a number one is its own: the one without a sign and without a zero in front.
-/
namespace Replica.Numeral

/-- One or more digits from `0` to `9` that stand for the number. -/
structure Digits (cs : List Char) (n : Nat) : Prop where
  ne_nil : cs ≠ []
  digits : ∀ c ∈ cs, '0' ≤ c ∧ c ≤ '9'
  value : Nat.ofDigitChars 10 cs 0 = n

variable {cs : List Char} {n : Nat}

theorem isDigit_iff {c : Char} : c.isDigit = true ↔ '0' ≤ c ∧ c ≤ '9' := by
  simp only [Char.isDigit, Char.le_def, Bool.and_eq_true, decide_eq_true_eq, ge_iff_le]

theorem digitsValue?_eq_some_iff {acc : Nat} :
    digitsValue? acc cs = some n ↔
      (∀ c ∈ cs, '0' ≤ c ∧ c ≤ '9') ∧ Nat.ofDigitChars 10 cs acc = n := by
  induction cs generalizing acc with
  | nil => simp [digitsValue?]
  | cons c rest ih =>
    rw [digitsValue?, Nat.ofDigitChars_cons, List.forall_mem_cons, ← isDigit_iff, Nat.mul_comm 10]
    by_cases hc : c.isDigit = true
    · rw [if_pos hc, ih, and_iff_right hc]
      rfl
    · simp [hc]

theorem unsigned?_eq_some_iff : unsigned? cs = some n ↔ Digits cs n := by
  cases cs with
  | nil => exact iff_of_false (by simp [unsigned?]) fun h => h.ne_nil rfl
  | cons c rest =>
    rw [unsigned?, digitsValue?_eq_some_iff]
    constructor
    · rintro ⟨hdigits, hvalue⟩
      exact ⟨List.cons_ne_nil c rest, hdigits, hvalue⟩
    · intro h
      exact ⟨h.digits, h.value⟩

theorem Digits.notMem (h : Digits cs n) {c : Char} (hc : c.isDigit = false) : c ∉ cs := by
  intro hmem
  have hdigit := isDigit_iff.mpr (h.digits c hmem)
  exact Bool.false_ne_true (hc.symm.trans hdigit)

/-- The digits of a numeral are what is left without a plus sign. -/
theorem digits_dropPlus_iff :
    Digits (dropPlus cs) n ↔ ∃ digits, (cs = digits ∨ cs = '+' :: digits) ∧ Digits digits n := by
  constructor
  · intro h
    refine ⟨dropPlus cs, ?_, h⟩
    unfold dropPlus
    split
    · exact Or.inr rfl
    · exact Or.inl rfl
  · rintro ⟨digits, rfl | rfl, h⟩
    · cases cs with
      | nil => exact h
      | cons c rest =>
        have hc : c ≠ '+' := (List.ne_of_not_mem_cons (h.notMem rfl)).symm
        simpa [dropPlus, hc] using h
    · exact h

theorem naturalChars?_eq_some_iff {limit : Nat} :
    naturalChars? limit cs = some n ↔
      (∃ digits, (cs = digits ∨ cs = '+' :: digits) ∧ Digits digits n) ∧ n ≤ limit := by
  rw [naturalChars?, Option.filter_eq_some_iff, unsigned?_eq_some_iff, digits_dropPlus_iff,
    decide_eq_true_eq]

/-- The text is a numeral of the integer: digits, perhaps behind a plus sign, or behind a minus
sign. -/
def Spells (cs : List Char) (i : Int) : Prop :=
  ∃ digits n, Digits digits n ∧
    ((cs = digits ∨ cs = '+' :: digits) ∧ i = n ∨ cs = '-' :: digits ∧ i = -n)

theorem signed?_minus (rest : List Char) :
    signed? ('-' :: rest) = (unsigned? rest).map fun n : Nat => -(n : Int) := by
  rw [signed?]
  cases unsigned? rest <;> rfl

theorem signed?_of_ne_minus (h : ∀ rest, cs ≠ '-' :: rest) :
    signed? cs = (unsigned? (dropPlus cs)).map fun n : Nat => (n : Int) := by
  rw [signed?]
  · cases unsigned? (dropPlus cs) <;> rfl
  · exact h

theorem signed?_eq_some_iff {i : Int} : signed? cs = some i ↔ Spells cs i := by
  by_cases hminus : ∃ rest, cs = '-' :: rest
  · obtain ⟨rest, rfl⟩ := hminus
    rw [signed?_minus, Option.map_eq_some_iff]
    constructor
    · rintro ⟨n, hn, rfl⟩
      exact ⟨rest, n, unsigned?_eq_some_iff.mp hn, Or.inr ⟨rfl, rfl⟩⟩
    · rintro ⟨digits, n, hdigits, ⟨rfl | hplus, -⟩ | ⟨hrest, rfl⟩⟩
      · exact absurd List.mem_cons_self (hdigits.notMem (c := '-') rfl)
      · exact absurd (List.cons.inj hplus).1 (by decide)
      · obtain rfl := (List.cons.inj hrest).2
        exact ⟨n, unsigned?_eq_some_iff.mpr hdigits, rfl⟩
  · rw [signed?_of_ne_minus (not_exists.mp hminus), Option.map_eq_some_iff]
    simp only [unsigned?_eq_some_iff, digits_dropPlus_iff]
    constructor
    · rintro ⟨n, ⟨digits, hcs, hdigits⟩, rfl⟩
      exact ⟨digits, n, hdigits, Or.inl ⟨hcs, rfl⟩⟩
    · rintro ⟨digits, n, hdigits, ⟨hcs, rfl⟩ | ⟨hrest, -⟩⟩
      · exact ⟨n, ⟨digits, hcs, hdigits⟩, rfl⟩
      · exact absurd ⟨digits, hrest⟩ hminus

theorem integer?_eq_some_iff {s : String} {i : Int64} :
    integer? s = some i ↔ Spells s.toList i.toInt := by
  rw [integer?, Option.bind_eq_some_iff]
  constructor
  · rintro ⟨j, hj, hi⟩
    split at hi
    · rename_i hrange
      obtain rfl := Option.some.inj hi
      rw [Int64.toInt_ofInt_of_le hrange.1 hrange.2]
      exact signed?_eq_some_iff.mp hj
    · contradiction
  · intro h
    refine ⟨i.toInt, signed?_eq_some_iff.mpr h, ?_⟩
    rw [if_pos ⟨i.le_toInt, i.toInt_lt⟩, Int64.ofInt_toInt]

/-- An integer is read if a signed 64-bit word holds it. -/
theorem integer?_isSome_iff {s : String} :
    (integer? s).isSome = true ↔ ∃ i : Int, Spells s.toList i ∧ -2 ^ 63 ≤ i ∧ i ≤ 2 ^ 63 - 1 := by
  rw [Option.isSome_iff_exists]
  constructor
  · rintro ⟨i, hi⟩
    exact ⟨i.toInt, integer?_eq_some_iff.mp hi, i.le_toInt, Int.le_sub_one_of_lt i.toInt_lt⟩
  · rintro ⟨i, hi, hmin, hmax⟩
    refine ⟨Int64.ofInt i, integer?_eq_some_iff.mpr ?_⟩
    rw [Int64.toInt_ofInt_of_le hmin (Int.lt_of_le_sub_one hmax)]
    exact hi

theorem digitChar_sub {c : Char} (h : '0' ≤ c ∧ c ≤ '9') : Nat.digitChar (c.toNat - 48) = c := by
  have hrange := Char.isDigit_iff_toNat.mp (isDigit_iff.mpr h)
  simp only [Char.reduceToNat] at hrange
  apply Char.toNat_inj.mp
  rw [Nat.toNat_digitChar_of_lt_ten (by omega)]
  omega

theorem digits_toDigits (n : Nat) : Digits (Nat.toDigits 10 n) n where
  ne_nil := Nat.toDigits_ne_nil
  digits _ hc := isDigit_iff.mp (Nat.isDigit_of_mem_toDigits (by omega) (by omega) hc)
  value := Nat.ofDigitChars_ten_toDigits

theorem Digits.padded (h : Digits cs n) (zeros : Nat) :
    Digits (List.replicate zeros '0' ++ cs) n where
  ne_nil := List.append_ne_nil_of_right_ne_nil _ h.ne_nil
  digits c hc := by
    rcases List.mem_append.mp hc with hc | hc
    · rw [List.eq_of_mem_replicate hc]
      decide
    · exact h.digits c hc
  value := by
    rw [Nat.ofDigitChars_append, Nat.ofDigitChars_replicate_zero, Nat.mul_zero, h.value]

/-- Digits behind the numeral of a number other than zero continue it. -/
theorem toDigits_append {acc : Nat} (hacc : 0 < acc) (h : ∀ c ∈ cs, '0' ≤ c ∧ c ≤ '9') :
    Nat.toDigits 10 acc ++ cs = Nat.toDigits 10 (Nat.ofDigitChars 10 cs acc) := by
  induction cs generalizing acc with
  | nil => simp
  | cons c rest ih =>
    obtain ⟨hc, hrest⟩ := List.forall_mem_cons.mp h
    have hlt : c.toNat - 48 < 10 := by
      have hrange := Char.isDigit_iff_toNat.mp (isDigit_iff.mpr hc)
      simp only [Char.reduceToNat] at hrange
      omega
    have hstep : Nat.toDigits 10 acc ++ [c] = Nat.toDigits 10 (10 * acc + (c.toNat - 48)) := by
      rw [← Nat.toDigits_append_toDigits (by omega) hacc hlt, Nat.toDigits_of_lt_base hlt,
        digitChar_sub hc]
    -- The induction goes from the front, so what has been read is a numeral all the time.
    rw [List.append_cons, hstep, ih (by omega) hrest]
    rfl

theorem head?_toDigits_ne {n : Nat} (hpos : 0 < n) : (Nat.toDigits 10 n).head? ≠ some '0' := by
  induction n using Nat.strong_induction_on with
  | _ n ih =>
    rw [Nat.toDigits_eq_if (by omega)]
    split
    · rename_i hlt
      intro h
      have hzero := congrArg Char.toNat (Option.some.inj h)
      rw [Nat.toNat_digitChar_of_lt_ten hlt] at hzero
      change 48 + n = 48 at hzero
      omega
    · rename_i hge
      rw [List.head?_append_of_ne_nil _ Nat.toDigits_ne_nil]
      exact ih (n / 10) (by omega) (by omega)

/-- A numeral without a zero in front is the one that the number is written as. -/
theorem Digits.toDigits_eq_iff (h : Digits cs n) (hpos : 0 < n) :
    Nat.toDigits 10 n = cs ↔ cs.head? ≠ some '0' := by
  constructor
  · rintro rfl
    exact head?_toDigits_ne hpos
  · intro hhead
    cases cs with
    | nil => exact absurd rfl h.ne_nil
    | cons c rest =>
      obtain ⟨hc, hrest⟩ := List.forall_mem_cons.mp h.digits
      have hrange := Char.isDigit_iff_toNat.mp (isDigit_iff.mpr hc)
      simp only [Char.reduceToNat] at hrange
      have hne : c.toNat ≠ 48 := fun heq => hhead (congrArg some (Char.toNat_inj.mp heq))
      have hfirst : Nat.toDigits 10 (c.toNat - 48) = [c] := by
        rw [Nat.toDigits_of_lt_base (by omega), digitChar_sub hc]
      have hpositive : 0 < c.toNat - 48 := by omega
      have hall := toDigits_append hpositive hrest
      rw [hfirst] at hall
      rw [← h.value, Nat.ofDigitChars_cons, Nat.mul_zero, Nat.zero_add]
      exact hall.symm

end Replica.Numeral
