import Replica.Proofs.Pull.Staging

/-!
# Openings of different attachments do not meet

A source in memory keeps one list of failures to come, but an opening takes the first one of its own
attachment and leaves those of all others in their order. So what an attachment meets, through all
its repetitions, is decided by its own content and its own failures. The number of openings is the
only thing that all of them change; it decides nothing.
-/
namespace Replica

namespace MemorySource

/-- The failures to come of an attachment, in order. -/
def failuresOf (key : AttachmentKey) (failures : List (AttachmentKey × InjectedFailure)) :
    List InjectedFailure := (failures.filter fun entry => entry.1 = key).map (·.2)

theorem failuresOf_cons (key : AttachmentKey) (entry : AttachmentKey × InjectedFailure)
    (rest : List (AttachmentKey × InjectedFailure)) :
    failuresOf key (entry :: rest) =
      if entry.1 = key then entry.2 :: failuresOf key rest else failuresOf key rest := by
  by_cases h : entry.1 = key <;> simp [failuresOf, h]

theorem takeFailure_head (key : AttachmentKey)
    (failures : List (AttachmentKey × InjectedFailure)) :
    (takeFailure key failures).1 = (failuresOf key failures).head? := by
  induction failures with
  | nil => rfl
  | cons entry rest ih =>
    rw [takeFailure, failuresOf_cons]
    by_cases h : entry.1 = key
    · rw [if_pos h, if_pos h, List.head?_cons]
    · rw [if_neg h, if_neg h]
      exact ih

theorem failuresOf_takeFailure (key other : AttachmentKey)
    (failures : List (AttachmentKey × InjectedFailure)) :
    failuresOf other (takeFailure key failures).2 =
      if key = other then (failuresOf other failures).tail else failuresOf other failures := by
  induction failures with
  | nil => by_cases h : key = other <;> simp [takeFailure, failuresOf]
  | cons entry rest ih =>
    rw [takeFailure, failuresOf_cons]
    by_cases hentry : entry.1 = key
    · rw [if_pos hentry, hentry]
      by_cases h : key = other
      · rw [if_pos h, if_pos h, List.tail_cons]
      · rw [if_neg h, if_neg h]
    · rw [if_neg hentry, failuresOf_cons, ih]
      by_cases h : key = other
      · rw [if_pos h, if_pos h, ← h, if_neg hentry, if_neg hentry]
      · rw [if_neg h, if_neg h]

/-- Different attachments may take their failures in either order. -/
theorem takeFailure_comm {key other : AttachmentKey} (hne : key ≠ other)
    (failures : List (AttachmentKey × InjectedFailure)) :
    (takeFailure key (takeFailure other failures).2).2 =
      (takeFailure other (takeFailure key failures).2).2 := by
  induction failures with
  | nil => rfl
  | cons entry rest ih =>
    by_cases hkey : entry.1 = key
    · have hother : entry.1 ≠ other := fun h => hne (hkey.symm.trans h)
      simp only [takeFailure, if_pos hkey, if_neg hother]
    · by_cases hother : entry.1 = other
      · simp only [takeFailure, if_neg hkey, if_pos hother]
      · simp only [takeFailure, if_neg hkey, if_neg hother, ih]

/-- What an opening answers that meets this failure and this content. -/
def answer (key : AttachmentKey) : Option InjectedFailure → Option ByteArray →
    Except IoError Stream
  | some (.opening kind), _ => .error (refusal key kind)
  | _, none => .error (absence key)
  | some (.midStream after kind), some content => .ok (breakingOff content after kind)
  | none, some content => .ok (.ofBytes content)

theorem openStream_eq (s : MemorySource) (key : AttachmentKey) :
    s.openStream key =
      (answer key (failuresOf key s.failures).head? (s.content? key),
        ⟨s.contents, (takeFailure key s.failures).2, s.opens + 1⟩) := by
  rw [← takeFailure_head]
  unfold openStream
  change (match (takeFailure key s.failures).1, s.content? key with
    | some (.opening kind), _ => _
    | _, none => _
    | some (.midStream after kind), some content => _
    | none, some content => _) = _
  cases (takeFailure key s.failures).1 with
  | none => cases s.content? key <;> rfl
  | some failure => cases failure <;> cases s.content? key <;> rfl

end MemorySource

/-- The opening of an attachment that a source has answered for. -/
def Opening.ofAnswer : Except IoError Stream → Opening
  | .ok s => .stream s
  | .error e => .failed e

namespace Session

/-- The sessions have the same in store for an attachment. -/
structure Agree (key : AttachmentKey) (s t : Session) : Prop where
  cancelled : s.cancelled = t.cancelled
  content : s.source.content? key = t.source.content? key
  failures : MemorySource.failuresOf key s.source.failures =
    MemorySource.failuresOf key t.source.failures

variable {key other : AttachmentKey} {s t u : Session}

theorem Agree.refl (key : AttachmentKey) (s : Session) : Agree key s s := ⟨rfl, rfl, rfl⟩

theorem Agree.trans (h : Agree key s t) (h' : Agree key t u) : Agree key s u :=
  ⟨h.cancelled.trans h'.cancelled, h.content.trans h'.content, h.failures.trans h'.failures⟩

theorem openStream_eq (key : AttachmentKey) (s : Session) :
    openStream key s =
      (Opening.ofAnswer (s.source.openStream key).1,
        { s with source := (s.source.openStream key).2 }) := by
  unfold openStream
  cases s.source.openStream key with
  | mk answer source => cases answer <;> rfl

/-- What an attachment meets in one session it meets in the other. -/
theorem respects_agree (key : AttachmentKey) : surroundings.Respects (Agree key) key where
  look h := ⟨h.cancelled, h⟩
  opening {s t} h := by
    change InStep (Agree key) (openStream key s) (openStream key t)
    simp only [openStream_eq, MemorySource.openStream_eq]
    rw [h.failures, h.content]
    refine ⟨rfl, h.cancelled, h.content, ?_⟩
    rw [MemorySource.failuresOf_takeFailure, MemorySource.failuresOf_takeFailure, h.failures]

/-- What an attachment meets is not changed by an opening of another one. -/
theorem preserves_agree (hne : key ≠ other) (s : Session) :
    surroundings.Preserves (Agree other s) key where
  look h := h
  opening {o} h := by
    change Agree other s (openStream key o).2
    rw [openStream_eq, MemorySource.openStream_eq]
    refine h.trans ⟨rfl, rfl, ?_⟩
    rw [MemorySource.failuresOf_takeFailure, if_neg hne]

/-- The session behind an opening of the attachment. -/
def opened (key : AttachmentKey) (s : Session) : Session := (openStream key s).2

theorem agree_opened (hne : key ≠ other) (s : Session) : Agree other s (opened key s) :=
  (preserves_agree hne s).opening (.refl other s)

/-- An opening of another attachment might as well come later. -/
theorem respects_opened (hne : key ≠ other) :
    surroundings.Respects (fun s t => t = opened other s) key where
  look {s t} h := by
    subst h
    exact ⟨(agree_opened hne.symm s).cancelled, rfl⟩
  opening {s t} h := by
    subst h
    refine ⟨((respects_agree key).opening (agree_opened hne.symm s)).1, ?_⟩
    change opened key (opened other s) = opened other (opened key s)
    simp only [opened, openStream_eq, MemorySource.openStream_eq,
      MemorySource.takeFailure_comm hne]

end Session

namespace Processor

variable {key : AttachmentKey} {s t : Session}

theorem checkCancelled_session (s : Session) :
    checkCancelled Session.surroundings s =
      (if s.cancelled then .error .cancelled else .ok (), s) := by
  obtain ⟨source, cancelled⟩ := s
  cases cancelled <;> rfl

theorem attempt_session (stager : Stager) (metadata : Metadata) (s : Session) :
    attempt Session.surroundings stager key metadata s =
      if s.cancelled then (.error .cancelled, s)
      else ((Session.openStream key s).1.staged stager metadata, (Session.openStream key s).2) := by
  rw [attempt_eq, checkCancelled_session]
  cases s.cancelled <;> rfl

theorem stageOne_agree (config : PullConfig) (reference : Reference) (h : Session.Agree key s t) :
    (stageOne Session.surroundings config key reference s).1 =
      (stageOne Session.surroundings config key reference t).1 :=
  ((Session.respects_agree key).stageOne reference h).1

end Processor

end Replica
