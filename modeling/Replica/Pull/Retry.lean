import Replica.Pull.Error

/-!
# Retrying

An attachment that fails in a way that may pass is fetched again, a limited number of times. The
pause before each further attempt doubles, up to a cap; it is doubled at most thirty-one times.
Durations are whole nanoseconds and stop at the largest that 64-bit seconds can count.
-/
namespace Replica

structure Duration where
  nanoseconds : Nat
  deriving DecidableEq

namespace Duration

def perSecond : Nat := 1000000000

def longest : Duration := ⟨UInt64.size * perSecond - 1⟩

/-- The duration of so many nanoseconds, or the longest one. -/
def ofNanoseconds (n : Nat) : Duration := ⟨min n longest.nanoseconds⟩

def ofParts (seconds nanoseconds : Nat) : Duration :=
  ofNanoseconds (seconds * perSecond + nanoseconds)

def seconds (d : Duration) : Nat := d.nanoseconds / perSecond

def subseconds (d : Duration) : Nat := d.nanoseconds % perSecond

def times (d : Duration) (n : Nat) : Duration := ofNanoseconds (d.nanoseconds * n)

def plus (d e : Duration) : Duration := ofNanoseconds (d.nanoseconds + e.nanoseconds)

def shorter (d e : Duration) : Duration := ⟨min d.nanoseconds e.nanoseconds⟩

end Duration

/-- How often an attachment is fetched, and how long the pauses are. -/
structure RetryPolicy where
  /-- The number of attempts, the first included. -/
  attempts : Nat
  base : Duration
  cap : Duration
  /-- Is a random part added to each pause? -/
  jitter : Bool
  deriving DecidableEq

namespace RetryPolicy

/-- The policy of so many attempts, at least one. -/
def new (attempts : Nat) : RetryPolicy :=
  ⟨max attempts 1, .ofNanoseconds 100000000, .ofParts 30 0, true⟩

def disabled : RetryPolicy := { new 1 with base := ⟨0⟩, jitter := false }

/-- How often a pause is doubled at most. -/
def mostDoublings : Nat := 31

/-- The pause after a number of failures, without its random part; none when the attempts are used
up, or when nothing has failed. -/
def pause (p : RetryPolicy) (failures : Nat) : Option Duration :=
  if failures = 0 ∨ p.attempts ≤ failures then none
  else some ((p.base.times (Nat.pow 2 (min (failures - 1) mostDoublings))).shorter p.cap)

/-- The pause after a number of failures. The random part that was drawn counts only under jitter,
and up to a quarter of the pause. -/
def backoff (p : RetryPolicy) (drawn : Duration) (failures : Nat) : Option Duration :=
  (p.pause failures).map fun delay =>
    if p.jitter then delay.plus (drawn.shorter ⟨delay.nanoseconds / 4⟩) else delay

theorem lt_attempts_of_pause {p : RetryPolicy} {failures : Nat}
    (h : (p.pause failures).isSome = true) : failures < p.attempts := by
  unfold pause at h
  split at h
  · contradiction
  · omega

/-- Attempts something until it succeeds, fails for good, or has used all attempts; `retries` of
them have been repetitions. Gives back the result with the number of repetitions. -/
def persist {σ α : Type} (p : RetryPolicy) (attempt : σ → Except PullError α × σ) (retries : Nat)
    (s : σ) : Except PullError (α × Nat) × σ :=
  match attempt s with
  | (.ok a, s) => (.ok (a, retries), s)
  | (.error e, s) =>
    if _h : e.isRetryable = true ∧ (p.pause (retries + 1)).isSome = true then
      persist p attempt (retries + 1) s
    else (.error e, s)
  termination_by p.attempts - retries
  decreasing_by have := lt_attempts_of_pause _h.2; omega

end RetryPolicy

end Replica
