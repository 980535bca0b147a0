import Mathlib
import Replica.Proofs.Numerals
import Replica.Revision.Id

/-!
# Reading revision ids

The text of an id is read up to its first dash as the generation, and all behind that dash is the
hash, so further dashes do no harm. Nothing else is accepted. A plus sign or zeros in front of the
generation are read over; a valid id is written without them, and that text is read as the id.
-/
namespace Replica.RevisionId

theorem splitAtDash_append {before : List Char} (h : '-' ∉ before) (behind : List Char) :
    splitAtDash (before ++ '-' :: behind) = some (before, behind) := by
  induction before with
  | nil => rfl
  | cons c rest ih =>
    obtain ⟨hc, hrest⟩ := not_or.mp (mt List.mem_cons.mpr h)
    rw [List.cons_append, splitAtDash, ih hrest]
    · rfl
    · exact fun heq => hc heq.symm

theorem splitAtDash_eq_some_iff {cs before behind : List Char} :
    splitAtDash cs = some (before, behind) ↔ cs = before ++ '-' :: behind ∧ '-' ∉ before := by
  constructor
  · intro h
    fun_induction splitAtDash cs generalizing before with
    | case1 => contradiction
    | case2 rest =>
      obtain ⟨rfl, rfl⟩ := Prod.mk.inj (Option.some.inj h)
      exact ⟨rfl, List.not_mem_nil⟩
    | case3 c rest hc ih =>
      obtain ⟨⟨inner, tail⟩, hinner, heq⟩ := Option.map_eq_some_iff.mp h
      obtain ⟨rfl, rfl⟩ := Prod.mk.inj heq
      obtain ⟨rfl, hdash⟩ := ih hinner
      exact ⟨rfl, List.not_mem_cons_of_ne_of_not_mem (fun heq => hc heq.symm) hdash⟩
  · rintro ⟨rfl, h⟩
    exact splitAtDash_append h behind

/-- The text spells the id: one or more digits for the generation, perhaps behind a plus sign, then
the first dash of the text, then the hash. -/
def Spells (s : String) (r : RevisionId) : Prop :=
  ∃ before behind, s.toList = before ++ '-' :: behind ∧ '-' ∉ before ∧
    (∃ digits, (before = digits ∨ before = '+' :: digits) ∧
      Numeral.Digits digits r.generation) ∧
    1 ≤ r.generation ∧ r.generation ≤ 2 ^ 64 - 1 ∧ behind ≠ [] ∧ r.hash = String.ofList behind

theorem new_eq_ok_iff {generation : UInt64} {hash : String} {r : RevisionId} :
    new generation hash = .ok r ↔
      generation ≠ 0 ∧ hash ≠ "" ∧ r = ⟨generation.toNat, hash⟩ := by
  unfold new
  split_ifs with hzero hempty
  · simp [hzero]
  · simp [hempty]
  · simp [hzero, hempty, eq_comm]

theorem new_ofNat_eq_ok_iff {n : Nat} (h : n ≤ Numeral.maxWord) {hash : String} {r : RevisionId} :
    new (UInt64.ofNat n) hash = .ok r ↔ 1 ≤ n ∧ hash ≠ "" ∧ r = ⟨n, hash⟩ := by
  have hword : (UInt64.ofNat n).toNat = n := UInt64.toNat_ofNat_of_lt (Nat.lt_succ_of_le h)
  have hzero : UInt64.ofNat n ≠ 0 ↔ 1 ≤ n := by
    rw [Ne, ← UInt64.toNat_inj, hword]
    exact Nat.one_le_iff_ne_zero.symm
  rw [new_eq_ok_iff, hword, hzero]

/-- **Exactly the spelled ids are read.** -/
theorem parse_eq_ok_iff {s : String} {r : RevisionId} : parse s = .ok r ↔ Spells s r := by
  constructor
  · intro h
    unfold parse at h
    split at h
    · contradiction
    · rename_i before behind hsplit
      split at h
      · contradiction
      · rename_i n hn
        obtain ⟨hchars, hdash⟩ := splitAtDash_eq_some_iff.mp hsplit
        obtain ⟨hnumeral, hmax⟩ := Numeral.naturalChars?_eq_some_iff.mp hn
        obtain ⟨hpos, hhash, rfl⟩ := (new_ofNat_eq_ok_iff hmax).mp h
        exact ⟨before, behind, hchars, hdash, hnumeral, hpos, hmax,
          fun hnil => hhash (congrArg String.ofList hnil), rfl⟩
  · rintro ⟨before, behind, hchars, hdash, hnumeral, hpos, hmax, hne, hhash⟩
    have hread : Numeral.naturalChars? Numeral.maxWord before = some r.generation :=
      Numeral.naturalChars?_eq_some_iff.mpr ⟨hnumeral, hmax⟩
    unfold parse
    rw [splitAtDash_eq_some_iff.mpr ⟨hchars, hdash⟩]
    dsimp only
    rw [hread]
    refine (new_ofNat_eq_ok_iff hmax).mpr ⟨hpos, ?_, hhash ▸ rfl⟩
    simpa using hne

/-- The text of an id with a plus sign or zeros in front of the generation. -/
def padded (r : RevisionId) (plus : Bool) (zeros : Nat) : String :=
  String.ofList ((if plus then ['+'] else []) ++ (List.replicate zeros '0' ++ r.toChars))

theorem parse_padded {r : RevisionId} (hpos : r.generation ≠ 0)
    (hlt : r.generation < UInt64.size) (hhash : r.hash ≠ "") (plus : Bool) (zeros : Nat) :
    parse (r.padded plus zeros) = .ok r := by
  have hdigits := (Numeral.digits_toDigits r.generation).padded zeros
  refine parse_eq_ok_iff.mpr ⟨(if plus then ['+'] else []) ++ (List.replicate zeros '0' ++
    Nat.toDigits 10 r.generation), r.hash.toList, ?_, ?_, ⟨_, ?_, hdigits⟩,
    Nat.one_le_iff_ne_zero.mpr hpos, Nat.le_of_lt_succ hlt, ?_, ?_⟩
  · rw [padded, String.toList_ofList, toChars]
    simp only [List.append_assoc]
  · have hdash := hdigits.notMem (c := '-') rfl
    cases plus
    · exact hdash
    · exact List.not_mem_cons_of_ne_of_not_mem (by decide) hdash
  · cases plus
    · exact Or.inl rfl
    · exact Or.inr rfl
  · simpa using hhash
  · exact String.ofList_toList.symm

variable {r : RevisionId}

/-- The id can be made. -/
def Valid (r : RevisionId) : Prop := ∃ generation hash, new generation hash = .ok r

theorem valid_iff :
    r.Valid ↔ r.generation ≠ 0 ∧ r.generation < UInt64.size ∧ r.hash ≠ "" := by
  constructor
  · rintro ⟨generation, hash, h⟩
    obtain ⟨hpos, hhash, rfl⟩ := new_eq_ok_iff.mp h
    exact ⟨fun hzero => hpos (UInt64.toNat_inj.mp hzero), generation.toNat_lt, hhash⟩
  · rintro ⟨hpos, hlt, hhash⟩
    exact ⟨UInt64.ofNat r.generation, r.hash, (new_ofNat_eq_ok_iff (Nat.le_of_lt_succ hlt)).mpr
      ⟨Nat.one_le_iff_ne_zero.mpr hpos, hhash, rfl⟩⟩

theorem Spells.valid {s : String} (h : Spells s r) : r.Valid := by
  obtain ⟨before, behind, -, -, -, hpos, hmax, hne, hhash⟩ := h
  refine valid_iff.mpr ⟨Nat.one_le_iff_ne_zero.mp hpos, Nat.lt_succ_of_le hmax, ?_⟩
  simpa [hhash] using hne

theorem parse_text (h : r.Valid) : parse r.text = .ok r := by
  obtain ⟨hpos, hlt, hhash⟩ := valid_iff.mp h
  exact parse_padded hpos hlt hhash false 0

/-- An id is written as it was spelled if there was no plus sign and no zero in front. A plus sign
in the hash does not count. -/
theorem text_eq_iff {s : String} (h : Spells s r) :
    r.text = s ↔ '+' ∉ s.toList.takeWhile (· ≠ '-') ∧ s.toList.head? ≠ some '0' := by
  obtain ⟨before, behind, hchars, hdash, ⟨digits, hbefore, hdigits⟩, hpos, -, -, hhash⟩ := h
  have hne : before ≠ [] := by
    rcases hbefore with rfl | rfl
    · exact hdigits.ne_nil
    · exact List.cons_ne_nil _ _
  have htake : s.toList.takeWhile (· ≠ '-') = before := by
    have hall : ∀ c ∈ before, decide (c ≠ '-') = true := fun c hc =>
      decide_eq_true fun heq => hdash (heq ▸ hc)
    rw [hchars, List.takeWhile_append_of_pos hall]
    exact List.append_nil before
  have hhead : s.toList.head? = before.head? := by
    rw [hchars, List.head?_append_of_ne_nil _ hne]
  have htext : r.text = s ↔ Nat.toDigits 10 r.generation = before := by
    rw [← String.toList_inj, text, String.toList_ofList, toChars, hchars, hhash,
      String.toList_ofList, List.append_cancel_right_eq]
  rw [htake, hhead, htext]
  -- Behind the dash both texts are the same, so only the numerals of the generation are compared.
  rcases hbefore with rfl | rfl
  · rw [hdigits.toDigits_eq_iff hpos]
    exact (and_iff_right (hdigits.notMem rfl)).symm
  · refine iff_of_false (fun heq => ?_) fun hplus => hplus.1 List.mem_cons_self
    have hplus := (Numeral.digits_toDigits r.generation).notMem (c := '+') rfl
    rw [heq] at hplus
    exact hplus List.mem_cons_self

/-- **What the texts of revision ids are.** A text is read as an id exactly if it spells that id.
The text of a valid id is read as that id, so no two valid ids have the same. What has been read is
written in a text that is read as the same id again, and this is the text that was read unless there
was a plus sign or a zero in front of the generation. -/
theorem spelling_exact :
    (∀ s r, parse s = .ok r ↔ Spells s r) ∧
    (∀ r : RevisionId, r.Valid → parse r.text = .ok r) ∧
    (∀ r r' : RevisionId, r.Valid → r'.Valid → r.text = r'.text → r = r') ∧
    ∀ s r, parse s = .ok r → parse r.text = .ok r ∧
      (r.text = s ↔ '+' ∉ s.toList.takeWhile (· ≠ '-') ∧ s.toList.head? ≠ some '0') := by
  refine ⟨fun _ _ => parse_eq_ok_iff, fun _ => parse_text, fun r r' hr hr' htext => ?_,
    fun s r h => ?_⟩
  · have hread := parse_text hr
    rw [htext, parse_text hr'] at hread
    exact (Except.ok.inj hread).symm
  · have hspells := parse_eq_ok_iff.mp h
    exact ⟨parse_text hspells.valid, text_eq_iff hspells⟩

example : (parse "+007-a-b").map (·.text) = .ok "7-a-b" := by cbv

end Replica.RevisionId
