import Mathlib.Data.ENat.Lattice
import Replica.Proofs.Pull.Preservation

/-!
# How often something is attempted

Attempts follow one another until one of them succeeds, fails for good, or is the last one allowed.
Their number is decided by how many failures that may pass come first, and by the policy; the number
of repetitions fits into the word that counts it.
-/
namespace Replica

/-- A failure that may pass. -/
def RetryableFailure {α : Type} (result : Except PullError α) : Prop :=
  ∃ e, result = .error e ∧ e.isRetryable = true

@[simp]
theorem not_retryableFailure_ok {α : Type} (a : α) : ¬ RetryableFailure (.ok a) := nofun

@[simp]
theorem retryableFailure_error_iff {α : Type} {e : PullError} :
    RetryableFailure (.error e : Except PullError α) ↔ e.isRetryable = true :=
  ⟨fun ⟨_, he, h⟩ => Except.error.inj he ▸ h, fun h => ⟨e, rfl, h⟩⟩

/-- Attempts that are made one after another, whatever they come to. -/
structure Attempts (σ α : Type) where
  attempt : σ → Except PullError α × σ
  start : σ

namespace Attempts

variable {σ α : Type} {t : Attempts σ α} {n : Nat}

/-- The state behind so many attempts. -/
def behind (t : Attempts σ α) (n : Nat) : σ := (fun s => (t.attempt s).2)^[n] t.start

/-- What the attempt comes to that is made after so many others. -/
def outcome (t : Attempts σ α) (n : Nat) : Except PullError α := (t.attempt (t.behind n)).1

/-- How many failures that may pass come first. -/
noncomputable def leadingFailures (t : Attempts σ α) : ℕ∞ :=
  ⨅ (n : Nat) (_ : ¬ RetryableFailure (t.outcome n)), (n : ℕ∞)

/-- The attempts behind the first one. -/
def rest (t : Attempts σ α) : Attempts σ α := ⟨t.attempt, (t.attempt t.start).2⟩

theorem behind_succ (t : Attempts σ α) (n : Nat) : t.behind (n + 1) = (t.attempt (t.behind n)).2 :=
  Function.iterate_succ_apply' _ n _

theorem outcome_rest (t : Attempts σ α) (n : Nat) : t.rest.outcome n = t.outcome (n + 1) := rfl

theorem le_leadingFailures_iff :
    (n : ℕ∞) ≤ t.leadingFailures ↔ ∀ i < n, RetryableFailure (t.outcome i) := by
  simp only [leadingFailures, le_iInf_iff, Nat.cast_le]
  refine forall_congr' fun i => ⟨fun h hi => ?_, fun h hfailure => ?_⟩
  · by_contra hfailure
    exact Nat.not_lt.mpr (h hfailure) hi
  · by_contra hi
    exact hfailure (h (Nat.not_le.mp hi))

theorem leadingFailures_eq (hbefore : ∀ i < n, RetryableFailure (t.outcome i))
    (hend : ¬ RetryableFailure (t.outcome n)) : t.leadingFailures = n :=
  le_antisymm (iInf₂_le n hend) (le_leadingFailures_iff.mpr hbefore)

theorem leadingFailures_congr {τ : Type} {u : Attempts τ α}
    (h : ∀ n, t.outcome n = u.outcome n) : t.leadingFailures = u.leadingFailures := by
  simp only [leadingFailures, h]

end Attempts

namespace RetryPolicy

variable {σ α : Type} {p : RetryPolicy} {t : Attempts σ α}

theorem pause_isSome_iff {failures : Nat} :
    (p.pause failures).isSome = true ↔ failures ≠ 0 ∧ failures < p.attempts := by
  unfold pause
  split
  · rename_i h
    exact ⟨nofun, fun ⟨hne, hlt⟩ => by omega⟩
  · rename_i h
    exact ⟨fun _ => by omega, fun _ => rfl⟩

/-- The attempt after so many others is the last one to be made, if `retries` of the repetitions
were made before the first. -/
structure Last (p : RetryPolicy) (t : Attempts σ α) (retries last : Nat) : Prop where
  before : ∀ i < last, RetryableFailure (t.outcome i) ∧ retries + i + 1 < p.attempts
  spent : RetryableFailure (t.outcome last) → p.attempts ≤ retries + last + 1

theorem Last.again {retries last : Nat} (h : p.Last t.rest (retries + 1) last)
    (hfirst : RetryableFailure (t.outcome 0)) (hleft : retries + 1 < p.attempts) :
    p.Last t retries (last + 1) where
  before i hi := by
    cases i with
    | zero => exact ⟨hfirst, hleft⟩
    | succ i =>
      obtain ⟨hfailure, hlt⟩ := h.before i (Nat.lt_of_succ_lt_succ hi)
      exact ⟨hfailure, by omega⟩
  spent hfailure := by
    have hle := h.spent hfailure
    omega

/-- Attempts are made up to the last one, and what that one comes to is the result. -/
theorem persist_last (p : RetryPolicy) (attempt : σ → Except PullError α × σ) (retries : Nat)
    (s : σ) : ∃ last, p.Last ⟨attempt, s⟩ retries last ∧
      p.persist attempt retries s =
        (((⟨attempt, s⟩ : Attempts σ α).outcome last).map (·, retries + last),
          (⟨attempt, s⟩ : Attempts σ α).behind (last + 1)) := by
  fun_induction persist p attempt retries s with
  | case1 retries s a next hnow =>
    have hok : (⟨attempt, s⟩ : Attempts σ α).outcome 0 = .ok a := congrArg Prod.fst hnow
    refine ⟨0, ⟨fun i hi => absurd hi (Nat.not_lt_zero i), fun hfailure => ?_⟩, ?_⟩
    · rw [hok] at hfailure
      exact absurd hfailure (not_retryableFailure_ok a)
    · rw [hok]
      exact Prod.ext rfl (congrArg Prod.snd hnow).symm
  | case2 retries s e next hnow hagain ih =>
    obtain ⟨last, hlast, hrun⟩ := ih
    have hrest : (⟨attempt, s⟩ : Attempts σ α).rest = ⟨attempt, next⟩ :=
      congrArg (Attempts.mk attempt) (congrArg Prod.snd hnow)
    have hfirst : RetryableFailure ((⟨attempt, s⟩ : Attempts σ α).outcome 0) :=
      ⟨e, congrArg Prod.fst hnow, hagain.1⟩
    rw [← hrest] at hlast hrun
    refine ⟨last + 1, hlast.again hfirst (pause_isSome_iff.mp hagain.2).2, hrun.trans ?_⟩
    rw [Attempts.outcome_rest, Nat.add_right_comm, Nat.add_assoc]
    rfl
  | case3 retries s e next hnow hstop =>
    have herror : (⟨attempt, s⟩ : Attempts σ α).outcome 0 = .error e := congrArg Prod.fst hnow
    refine ⟨0, ⟨fun i hi => absurd hi (Nat.not_lt_zero i), fun hfailure => ?_⟩, ?_⟩
    · rw [herror] at hfailure
      have hretryable := retryableFailure_error_iff.mp hfailure
      by_contra hlt
      exact hstop ⟨hretryable, pause_isSome_iff.mpr ⟨Nat.succ_ne_zero retries, by omega⟩⟩
    · rw [herror]
      exact Prod.ext rfl (congrArg Prod.snd hnow).symm

theorem Last.le_leadingFailures {last : Nat} (h : p.Last t 0 last) :
    (last : ℕ∞) ≤ t.leadingFailures :=
  Attempts.le_leadingFailures_iff.mpr fun i hi => (h.before i hi).1

theorem Last.lt_attempts {last : Nat} (h : p.Last t 0 last) : last < max 1 p.attempts := by
  cases last with
  | zero => omega
  | succ last =>
    have := (h.before last (Nat.lt_succ_self last)).2
    omega

/-- The number of attempts: one more than the failures that come first, but not more than the
policy allows. -/
theorem Last.count {last : Nat} (h : p.Last t 0 last) :
    ((last + 1 : Nat) : ℕ∞) = min (t.leadingFailures + 1) (max 1 p.attempts : Nat) := by
  have hle : ((last + 1 : Nat) : ℕ∞) ≤ t.leadingFailures + 1 := by
    rw [Nat.cast_succ]
    exact add_le_add_left h.le_leadingFailures 1
  have hlt := h.lt_attempts
  by_cases hend : RetryableFailure (t.outcome last)
  · have hspent := h.spent hend
    have hmost : max 1 p.attempts = last + 1 := by omega
    rw [hmost, min_eq_right hle]
  · have hfailures : t.leadingFailures = last :=
      Attempts.leadingFailures_eq (fun i hi => (h.before i hi).1) hend
    rw [hfailures, ← Nat.cast_succ, min_eq_left (Nat.cast_le.mpr hlt)]

theorem toNat_next {n : UInt32} (hfits : n.toNat + 1 < UInt32.size) :
    (n + 1).toNat = n.toNat + 1 := by
  rw [UInt32.toNat_add, UInt32.toNat_one]
  exact Nat.mod_eq_of_lt hfits

/-- Attempts something with the repetitions counted in a word; nothing comes of it if the next
number does not fit. -/
def persistCounted (p : RetryPolicy) (attempt : σ → Except PullError α × σ) (retries : UInt32)
    (s : σ) : Option (Except PullError (α × UInt32) × σ) :=
  match attempt s with
  | (.ok a, s) => some (.ok (a, retries), s)
  | (.error e, s) =>
    if e.isRetryable = true then
      if hfits : retries.toNat + 1 < UInt32.size then
        if hagain : (p.pause (retries + 1).toNat).isSome = true then
          persistCounted p attempt (retries + 1) s
        else some (.error e, s)
      else none
    else some (.error e, s)
  termination_by p.attempts - retries.toNat
  decreasing_by
    have hlt := lt_attempts_of_pause hagain
    have hnext := toNat_next hfits
    omega

/-- Where the number of attempts fits into a word, so do all numbers of repetitions. -/
theorem persistCounted_eq (hbound : p.attempts < UInt32.size)
    (attempt : σ → Except PullError α × σ) (retries : UInt32) (s : σ)
    (hretries : retries.toNat < max 1 p.attempts) :
    ∃ result next, p.persistCounted attempt retries s = some (result, next) ∧
      p.persist attempt retries.toNat s = (result.map (Prod.map id UInt32.toNat), next) := by
  fun_induction persistCounted p attempt retries s with
  | case1 retries s a next hnow => exact ⟨_, next, rfl, persist_ok hnow⟩
  | case2 retries s e next hnow hretryable hfits hagain ih =>
    have hnext := toNat_next hfits
    have hlt := (pause_isSome_iff.mp hagain).2
    obtain ⟨result, last, hcounted, hrun⟩ := ih (by omega)
    rw [hnext] at hrun hagain
    exact ⟨result, last, hcounted, (persist_again hnow ⟨hretryable, hagain⟩).trans hrun⟩
  | case3 retries s e next hnow hretryable hfits hspent =>
    rw [toNat_next hfits] at hspent
    exact ⟨_, next, rfl, persist_stop hnow fun h => hspent h.2⟩
  | case4 retries s e next hnow hretryable hfull =>
    simp only [UInt32.size] at hbound hfull
    omega
  | case5 retries s e next hnow hfinal =>
    exact ⟨_, next, rfl, persist_stop hnow fun h => hfinal h.1⟩

/-- The attempts end with the one after `last` others. -/
structure EndsWith (p : RetryPolicy) (t : Attempts σ α) (last : Nat) : Prop where
  /-- One attempt more than failures that come first, but not more than the policy allows. -/
  count : ((last + 1 : Nat) : ℕ∞) = min (t.leadingFailures + 1) (max 1 p.attempts : Nat)
  result : p.persist t.attempt 0 t.start = ((t.outcome last).map (·, last), t.behind (last + 1))
  /-- A success comes behind all failures that come first. -/
  success : ∀ a, t.outcome last = .ok a → t.leadingFailures = last
  /-- The numbers of repetitions fit into a word. -/
  counted : ∃ result next, p.persistCounted t.attempt 0 t.start = some (result, next) ∧
    p.persist t.attempt 0 t.start = (result.map (Prod.map id UInt32.toNat), next)

theorem persist_endsWith (hbound : p.attempts < UInt32.size) (t : Attempts σ α) :
    ∃ last, p.EndsWith t last := by
  obtain ⟨last, hlast, hrun⟩ := p.persist_last t.attempt 0 t.start
  refine ⟨last, hlast.count, ?_, fun a ha => ?_,
    persistCounted_eq hbound t.attempt 0 t.start (by simp)⟩
  · simpa only [Nat.zero_add] using hrun
  · refine Attempts.leadingFailures_eq (fun i hi => (hlast.before i hi).1) ?_
    rw [ha]
    exact not_retryableFailure_ok a

theorem EndsWith.last_eq {τ : Type} {u : Attempts τ α} {last last' : Nat}
    (h : p.EndsWith t last) (h' : p.EndsWith u last') (heq : ∀ n, t.outcome n = u.outcome n) :
    last = last' := by
  have hcount := h.count
  rw [Attempts.leadingFailures_congr heq, ← h'.count, Nat.cast_inj] at hcount
  exact Nat.succ.inj hcount

end RetryPolicy

end Replica
