import Mathlib
import Replica.Pull.Retry

/-!
# How long the pauses are

Without jitter the pause doubles with every failure until it reaches its cap, where it stays. A
multiple of the base that is cut off at the longest duration never shows in a pause, as the cap is
no longer than that. The doublings end with the thirty-first, though: a cap that is longer than the
base doubled that often is never reached.

The random part of a pause is left out.
-/
namespace Replica

namespace Duration

/-- The seconds of the duration fit into 64 bits. -/
def Fits (d : Duration) : Prop := d.nanoseconds ≤ longest.nanoseconds

/-- Under a cap it is not seen that a multiple ends at the longest duration. -/
theorem times_shorter {cap : Duration} (hcap : cap.Fits) (d : Duration) (n : Nat) :
    (d.times n).shorter cap = ⟨min (d.nanoseconds * n) cap.nanoseconds⟩ := by
  unfold Fits at hcap
  unfold times ofNanoseconds shorter
  rw [min_assoc, min_eq_right hcap]

end Duration

/-- Doublings that are left out are not missed just if there are none, if there is nothing to
double, or if the cap is reached without them. -/
theorem min_mul_pow_eq_iff {base cap most k : Nat} :
    min (base * 2 ^ min k most) cap = min (base * 2 ^ k) cap ↔
      k ≤ most ∨ base = 0 ∨ cap ≤ base * 2 ^ most := by
  constructor
  · -- Otherwise the pause without the further doublings lies below the cap and below the other.
    intro heq
    by_contra! h
    obtain ⟨hk, hbase, hcap⟩ := h
    have hlt : base * 2 ^ most < base * 2 ^ k :=
      Nat.mul_lt_mul_of_pos_left (Nat.pow_lt_pow_right (by omega) hk) (Nat.pos_of_ne_zero hbase)
    rw [min_eq_right hk.le, min_eq_left hcap.le] at heq
    omega
  · rintro (hk | rfl | hcap)
    · rw [min_eq_left hk]
    · simp
    · rcases le_total k most with hk | hk
      · rw [min_eq_left hk]
      · have hle : base * 2 ^ most ≤ base * 2 ^ k :=
          Nat.mul_le_mul_left base (Nat.pow_le_pow_right (by omega) hk)
        rw [min_eq_right hk, min_eq_right hcap, min_eq_right (hcap.trans hle)]

namespace RetryPolicy

variable {p : RetryPolicy} {failures : Nat}

/-- How often the pause has been doubled after a number of failures. -/
def doublings (failures : Nat) : Nat := min (failures - 1) mostDoublings

theorem doublings_mono {f g : Nat} (h : f ≤ g) : doublings f ≤ doublings g := by
  unfold doublings
  omega

theorem doublings_succ (hpos : 0 < failures) (hmost : failures ≤ mostDoublings) :
    doublings (failures + 1) = doublings failures + 1 := by
  unfold doublings
  omega

/-- The factor of the base in a 32-bit word. -/
def factor (failures : UInt32) : UInt32 := 1 <<< min (failures - 1) (UInt32.ofNat mostDoublings)

/-- The thirty-first doubling still fits into the word. -/
theorem toNat_factor {failures : UInt32} (hpos : failures ≠ 0) :
    (factor failures).toNat = 2 ^ doublings failures.toNat := by
  have hone : 1 ≤ failures.toNat :=
    Nat.one_le_iff_ne_zero.mpr fun h => hpos (UInt32.toNat_inj.mp h)
  have hsub : (failures - 1).toNat = failures.toNat - 1 :=
    UInt32.toNat_sub_of_le failures 1 (UInt32.le_iff_toNat_le.mpr hone)
  have hmin : (min (failures - 1) (UInt32.ofNat mostDoublings)).toNat =
      doublings failures.toNat := by
    change (if failures - 1 ≤ UInt32.ofNat mostDoublings then _ else _ : UInt32).toNat = _
    simp only [UInt32.le_iff_toNat_le, apply_ite UInt32.toNat, hsub, doublings, min_def]
    rfl
  have hmost : doublings failures.toNat ≤ 31 := min_le_right _ _
  rw [factor, UInt32.toNat_shiftLeft, hmin, UInt32.toNat_one, Nat.one_shiftLeft,
    Nat.mod_eq_of_lt (by omega : doublings failures.toNat < 32)]
  exact Nat.mod_eq_of_lt (Nat.pow_lt_pow_right (by omega) (by omega))

/-- The pause, with the factor of the base formed in a word. -/
def pauseOfWord (p : RetryPolicy) (failures : UInt32) : Option Duration :=
  if failures = 0 ∨ p.attempts ≤ failures.toNat then none
  else some ((p.base.times (factor failures).toNat).shorter p.cap)

theorem pauseOfWord_eq (p : RetryPolicy) (failures : UInt32) :
    p.pauseOfWord failures = p.pause failures.toNat := by
  have hzero : failures = 0 ↔ failures.toNat = 0 := UInt32.toNat_inj.symm
  unfold pauseOfWord pause
  simp only [hzero]
  split
  · rfl
  · rename_i h
    rw [toNat_factor fun h0 => h (.inl (hzero.mp h0))]
    rfl

theorem backoff_of_not_jitter (hjitter : p.jitter = false) (drawn : Duration) :
    p.backoff drawn = p.pause := by
  funext failures
  unfold backoff
  simp [hjitter]

theorem pause_eq_none_iff : p.pause failures = none ↔ failures = 0 ∨ p.attempts ≤ failures := by
  unfold pause
  split <;> simp [*]

theorem pause_eq_some_iff (hcap : p.cap.Fits) {d : Duration} :
    p.pause failures = some d ↔ (0 < failures ∧ failures < p.attempts) ∧
      d = ⟨min (p.base.nanoseconds * 2 ^ doublings failures) p.cap.nanoseconds⟩ := by
  have hpow : Nat.pow 2 (min (failures - 1) mostDoublings) = 2 ^ doublings failures := rfl
  unfold pause
  rw [hpow, Duration.times_shorter hcap]
  split
  · rename_i h
    simp only [reduceCtorEq, false_iff, not_and]
    omega
  · rename_i h
    rw [Option.some.injEq, eq_comm, iff_and_self]
    omega

section Fits

variable (hcap : p.cap.Fits)

include hcap

theorem fits_of_pause {d : Duration} (h : p.pause failures = some d) : d.Fits := by
  obtain ⟨-, rfl⟩ := (pause_eq_some_iff hcap).mp h
  exact (min_le_right _ _).trans hcap

theorem pause_mono {f g : Nat} (hle : f ≤ g) {d e : Duration} (hd : p.pause f = some d)
    (he : p.pause g = some e) : d.nanoseconds ≤ e.nanoseconds := by
  obtain ⟨-, rfl⟩ := (pause_eq_some_iff hcap).mp hd
  obtain ⟨-, rfl⟩ := (pause_eq_some_iff hcap).mp he
  have hfactor : 2 ^ doublings f ≤ 2 ^ doublings g :=
    Nat.pow_le_pow_right (by omega) (doublings_mono hle)
  exact min_le_min_right _ (Nat.mul_le_mul_left _ hfactor)

theorem pause_succ (hmost : failures ≤ mostDoublings) {d e : Duration}
    (hd : p.pause failures = some d) (he : p.pause (failures + 1) = some e) :
    e.nanoseconds = min (2 * d.nanoseconds) p.cap.nanoseconds := by
  obtain ⟨⟨hpos, -⟩, rfl⟩ := (pause_eq_some_iff hcap).mp hd
  obtain ⟨-, rfl⟩ := (pause_eq_some_iff hcap).mp he
  rw [doublings_succ hpos hmost, pow_succ, ← mul_assoc]
  dsimp only
  omega

/-- Once the cap is reached, all further pauses are as long. -/
theorem pause_stays {f g : Nat} (hle : f ≤ g) (hlt : g < p.attempts)
    (h : p.pause f = some p.cap) : p.pause g = some p.cap := by
  have hpos := ((pause_eq_some_iff hcap).mp h).1.1
  have hg := (pause_eq_some_iff hcap).mpr ⟨⟨hpos.trans_le hle, hlt⟩, rfl⟩
  have hreached := pause_mono hcap hle h hg
  rw [hg, min_eq_right (hreached.trans (min_le_left _ _))]

theorem pause_eq_doubled_iff (hpos : 0 < failures) (hlt : failures < p.attempts) :
    p.pause failures =
        some ⟨min (p.base.nanoseconds * 2 ^ (failures - 1)) p.cap.nanoseconds⟩ ↔
      failures ≤ 32 ∨ p.base.nanoseconds = 0 ∨
        p.cap.nanoseconds ≤ p.base.nanoseconds * 2 ^ 31 := by
  have hle : failures - 1 ≤ 31 ↔ failures ≤ 32 := by omega
  rw [pause_eq_some_iff hcap, ← hle, ← min_mul_pow_eq_iff, Duration.mk.injEq, eq_comm]
  exact and_iff_right ⟨hpos, hlt⟩

end Fits

/-- **Pauses double up to the cap, thirty-one times at most.** Without jitter there is a pause after
the failures that leave an attempt, and it is the base doubled with every failure behind the first,
or the cap if that is shorter. This is exact up to the thirty-second failure, and further on just if
the cap lies within thirty-one doublings of the base. No pause is too long for a duration, none is
shorter than one before, and behind the cap none changes. The factor fits into a word of 32 bits. -/
theorem pauses_double (hjitter : p.jitter = false) (hcap : p.cap.Fits) (drawn : Duration) :
    (∀ f, p.backoff drawn f = none ↔ f = 0 ∨ p.attempts ≤ f) ∧
    (∀ f, 0 < f → f < p.attempts → p.backoff drawn f =
      some ⟨min (p.base.nanoseconds * 2 ^ min (f - 1) 31) p.cap.nanoseconds⟩) ∧
    (∀ f, 0 < f → f < p.attempts →
      (p.backoff drawn f = some ⟨min (p.base.nanoseconds * 2 ^ (f - 1)) p.cap.nanoseconds⟩ ↔
        f ≤ 32 ∨ p.base.nanoseconds = 0 ∨ p.cap.nanoseconds ≤ p.base.nanoseconds * 2 ^ 31)) ∧
    (∀ f d, p.backoff drawn f = some d → d.Fits) ∧
    (∀ f g d e, f ≤ g → p.backoff drawn f = some d → p.backoff drawn g = some e →
      d.nanoseconds ≤ e.nanoseconds) ∧
    (∀ f d e, f < 32 → p.backoff drawn f = some d → p.backoff drawn (f + 1) = some e →
      e.nanoseconds = min (2 * d.nanoseconds) p.cap.nanoseconds) ∧
    (∀ f g, f ≤ g → g < p.attempts → p.backoff drawn f = some p.cap →
      p.backoff drawn g = some p.cap) ∧
    ∀ f : UInt32, p.pauseOfWord f = p.backoff drawn f.toNat := by
  rw [backoff_of_not_jitter hjitter]
  exact ⟨fun _ => pause_eq_none_iff,
    fun _ hpos hlt => (pause_eq_some_iff hcap).mpr ⟨⟨hpos, hlt⟩, rfl⟩,
    fun _ => pause_eq_doubled_iff hcap,
    fun _ _ => fits_of_pause hcap,
    fun _ _ _ _ hle => pause_mono hcap hle,
    fun _ _ _ hlt => pause_succ hcap (Nat.le_of_lt_succ hlt),
    fun _ _ hle => pause_stays hcap hle,
    p.pauseOfWord_eq⟩

/-- As many attempts as a word counts, and a cap that the last doubling reaches. -/
def farCap : RetryPolicy := ⟨4294967295, ⟨3⟩, ⟨6442450944⟩, false⟩

theorem pauses_double_farCap :
    (farCap.jitter = false ∧ farCap.cap.Fits) ∧
      farCap.backoff ⟨0⟩ 31 = some ⟨3221225472⟩ ∧
      farCap.backoff ⟨0⟩ 32 = some farCap.cap ∧
      farCap.backoff ⟨0⟩ 4294967294 = some farCap.cap ∧
      farCap.backoff ⟨0⟩ 4294967295 = none := by
  have hfits : farCap.cap.Fits := by unfold Duration.Fits; decide
  obtain ⟨hnone, hsome, -, -, -, -, hstays, -⟩ := pauses_double (p := farCap) rfl hfits ⟨0⟩
  have hreached : farCap.backoff ⟨0⟩ 32 = some farCap.cap :=
    (hsome 32 (by decide) (by decide)).trans (by norm_num [farCap])
  have hbefore : farCap.backoff ⟨0⟩ 31 = some ⟨3221225472⟩ :=
    (hsome 31 (by decide) (by decide)).trans (by norm_num [farCap])
  refine ⟨⟨rfl, hfits⟩, hbefore, hreached, ?_, ?_⟩
  · exact hstays 32 _ (by decide) (by decide) hreached
  · exact (hnone _).mpr (Or.inr (by decide))

/-- A base of one nanosecond under a cap of thirty seconds. -/
def shortBase : RetryPolicy := ⟨4294967295, ⟨1⟩, .ofParts 30 0, false⟩

/-- The pause after the thirty-third failure should be more than four seconds, which the cap
allows. It is as long as the one before. -/
theorem pauses_stall_shortBase :
    (shortBase.jitter = false ∧ shortBase.cap.Fits) ∧
      shortBase.backoff ⟨0⟩ 32 = some ⟨2147483648⟩ ∧
      shortBase.backoff ⟨0⟩ 33 = some ⟨2147483648⟩ ∧
      min (shortBase.base.nanoseconds * 2 ^ (33 - 1)) shortBase.cap.nanoseconds = 4294967296 := by
  have hfits : shortBase.cap.Fits := by unfold Duration.Fits; decide
  exact ⟨⟨rfl, hfits⟩, by decide +kernel, by decide +kernel, by decide +kernel⟩

end RetryPolicy

end Replica
