import Replica.Proofs.Pull.Openings

/-!
# Workers that take turns

The members of a group are staged side by side: which of them makes the next attempt is up to a
schedule. A worker makes finitely many attempts, so whatever happens in a group is some finite list
of turns; what a shorter list leaves undone is done afterwards, worker by worker. An attempt is one
turn: the flag is still, so nothing depends on who comes between a look at it and an opening. For a
source in memory no turn changes what comes of any worker, nor what they leave behind together:
a turn might as well be put off until the workers in front have finished.
-/
namespace Replica

/-- A worker of a group: still at work after so many repetitions, or through with its attachment. -/
inductive Worker where
  | atWork (key : AttachmentKey) (metadata : Metadata) (retries : Nat)
  | through (key : AttachmentKey) (result : Except PullError StagedItem)

namespace Worker

def key : Worker → AttachmentKey
  | atWork key _ _ => key
  | through key _ => key

/-- A worker that has not begun. An encoding that is not known ends its work at once. -/
def start (document : String) (revision : RevisionId) (member : String × Reference) : Worker :=
  match member.2.metadata with
  | .error e => through ⟨document, revision, member.1⟩ (.error (.document e))
  | .ok metadata => atWork ⟨document, revision, member.1⟩ metadata 0

variable {σ : Type}

/-- One attempt. A worker that is through has none to make. -/
def turn (env : Surroundings σ) (config : PullConfig) : Worker → σ → Worker × σ
  | through key result, s => (through key result, s)
  | atWork key metadata retries, s =>
    match Processor.attempt env config.stager key metadata s with
    | (.ok staged, s) => (through key (.ok ⟨key.name, staged, retries⟩), s)
    | (.error e, s) =>
      if e.isRetryable && (config.retry.pause (retries + 1)).isSome then
        (atWork key metadata (retries + 1), s)
      else (through key (.error e), s)

/-- All attempts that are left. -/
def finish (env : Surroundings σ) (config : PullConfig) :
    Worker → σ → Except PullError StagedItem × σ
  | through _ result, s => (result, s)
  | atWork key metadata retries, s =>
    let (result, s) :=
      config.retry.persist (Processor.attempt env config.stager key metadata) retries s
    (result.map fun (staged, retries) => ⟨key.name, staged, retries⟩, s)

/-- The worker at a place takes a turn, if there is one at that place. -/
def turnAt (env : Surroundings σ) (config : PullConfig) : List Worker → Nat → σ → List Worker × σ
  | [], _, s => ([], s)
  | w :: rest, 0, s =>
    let (w, s) := w.turn env config s
    (w :: rest, s)
  | w :: rest, place + 1, s =>
    let (rest, s) := turnAt env config rest place s
    (w :: rest, s)

/-- The workers take turns as the schedule says. -/
def takeTurns (env : Surroundings σ) (config : PullConfig) :
    List Nat → List Worker → σ → List Worker × σ
  | [], ws, s => (ws, s)
  | place :: schedule, ws, s =>
    let (ws, s) := turnAt env config ws place s
    takeTurns env config schedule ws s

/-- The workers finish one after another. -/
def finishAll (env : Surroundings σ) (config : PullConfig) :
    List Worker → σ → List (Except PullError StagedItem) × σ
  | [], s => ([], s)
  | w :: rest, s =>
    let (result, s) := w.finish env config s
    let (results, s) := finishAll env config rest s
    (result :: results, s)

theorem key_start (document : String) (revision : RevisionId) (member : String × Reference) :
    (start document revision member).key = ⟨document, revision, member.1⟩ := by
  unfold start
  split <;> rfl

variable {env : Surroundings σ} {config : PullConfig} {R : σ → σ → Prop} {inv : σ → Prop}
  {w : Worker} {ws : List Worker} {s t : σ}

theorem finish_start (document : String) (revision : RevisionId) (member : String × Reference)
    (s : σ) :
    (start document revision member).finish env config s =
      Processor.stageOne env config ⟨document, revision, member.1⟩ member.2 s := by
  unfold start Processor.stageOne
  cases member.2.metadata with
  | error e => rfl
  | ok metadata =>
    unfold finish
    dsimp only
    split <;> rename_i hpersist <;> rw [hpersist] <;> rfl

theorem key_turn (w : Worker) (s : σ) : (w.turn env config s).1.key = w.key := by
  cases w with
  | through => rfl
  | atWork key metadata retries =>
    unfold turn
    dsimp only
    split
    · rfl
    · split <;> rfl

/-- A turn does not change what comes of the worker. -/
theorem finish_turn (w : Worker) (s : σ) :
    (w.turn env config s).1.finish env config (w.turn env config s).2 = w.finish env config s := by
  cases w with
  | through => rfl
  | atWork key metadata retries =>
    cases hnow : Processor.attempt env config.stager key metadata s with
    | mk result next =>
      cases result with
      | ok staged =>
        simp only [turn, hnow, finish, RetryPolicy.persist_ok hnow]
        rfl
      | error e =>
        by_cases hagain : config.retry.Allows retries e
        · have hyes := Bool.and_eq_true_iff.mpr hagain
          simp only [turn, hnow, finish, hyes, RetryPolicy.persist_again hnow hagain, if_true]
        · have hno := mt Bool.and_eq_true_iff.mp hagain
          simp only [turn, hnow, finish, hno, RetryPolicy.persist_stop hnow hagain]
          rfl

theorem preserves_turn (h : env.Preserves inv w.key) (hs : inv s) :
    inv (w.turn env config s).2 := by
  cases w with
  | through => exact hs
  | atWork key metadata retries =>
    have hnext := h.attempt config.stager metadata hs
    unfold turn
    dsimp only [Worker.key] at hnext ⊢
    split <;> rename_i hnow <;> rw [hnow] at hnext
    · exact hnext
    · split <;> exact hnext

theorem respects_turn (h : env.Respects R w.key) (hR : R s t) :
    InStep R (w.turn env config s) (w.turn env config t) := by
  cases w with
  | through => exact ⟨rfl, hR⟩
  | atWork k metadata retries =>
    have hkey : env.Respects R k := h
    cases hs : Processor.attempt env config.stager k metadata s with
    | mk result s' =>
      obtain ⟨t', ht, hnext⟩ := (hkey.attempt config.stager metadata hR).of_left hs
      unfold turn
      dsimp only
      rw [hs, ht]
      cases result with
      | ok staged => exact ⟨rfl, hnext⟩
      | error e =>
        dsimp only
        split <;> exact ⟨rfl, hnext⟩

theorem respects_finish (h : env.Respects R w.key) (hR : R s t) :
    InStep R (w.finish env config s) (w.finish env config t) := by
  cases w with
  | through => exact ⟨rfl, hR⟩
  | atWork key metadata retries =>
    obtain ⟨hsame, hend⟩ :=
      config.retry.persist_inStep (h.attempt config.stager metadata) retries hR
    exact ⟨congrArg (Except.map _) hsame, hend⟩

theorem keys_turnAt (ws : List Worker) (place : Nat) (s : σ) :
    (turnAt env config ws place s).1.map key = ws.map key := by
  induction ws generalizing place with
  | nil => rfl
  | cons w rest ih =>
    cases place with
    | zero =>
      change (w.turn env config s).1.key :: rest.map key = _
      rw [key_turn, List.map_cons]
    | succ place =>
      change w.key :: (turnAt env config rest place s).1.map key = _
      rw [ih, List.map_cons]

/-- Workers leave alone whatever their attachments leave alone. -/
theorem preserves_turnAt (place : Nat) (h : ∀ k ∈ ws.map key, env.Preserves inv k) (hs : inv s) :
    inv (turnAt env config ws place s).2 := by
  induction ws generalizing place with
  | nil => exact hs
  | cons w rest ih =>
    obtain ⟨hw, hrest⟩ := List.forall_mem_cons.mp h
    cases place with
    | zero => exact preserves_turn hw hs
    | succ place => exact ih place hrest

theorem respects_turnAt (place : Nat) (h : ∀ k ∈ ws.map key, env.Respects R k) (hR : R s t) :
    InStep R (turnAt env config ws place s) (turnAt env config ws place t) := by
  induction ws generalizing place with
  | nil => exact ⟨rfl, hR⟩
  | cons w rest ih =>
    obtain ⟨hw, hrest⟩ := List.forall_mem_cons.mp h
    cases place with
    | zero =>
      obtain ⟨hsame, hend⟩ := @respects_turn _ env config R w s t hw hR
      exact ⟨congrArg (· :: rest) hsame, hend⟩
    | succ place =>
      obtain ⟨hsame, hend⟩ := ih place hrest
      exact ⟨congrArg (w :: ·) hsame, hend⟩

/-- A turn of another worker might as well come later, and comes to the same. -/
theorem respects_turned {ws' : List Worker} {place : Nat} {k : AttachmentKey}
    (hk : k ∉ ws.map key) :
    Session.surroundings.Respects
      (fun s t => turnAt Session.surroundings config ws place s = (ws', t)) k := by
  have hne {other : AttachmentKey} (hother : other ∈ ws.map key) : other ≠ k :=
    ne_of_mem_of_not_mem hother hk
  have hagree {s t : Session}
      (h : turnAt Session.surroundings config ws place s = (ws', t)) : Session.Agree k s t := by
    have hturned := @preserves_turnAt _ Session.surroundings config _ ws s place
      (fun other hother => Session.preserves_agree (hne hother) s) (.refl k s)
    rwa [h] at hturned
  constructor
  · intro s t h
    exact ⟨(hagree h).cancelled, h⟩
  · intro s t h
    refine ⟨((Session.respects_agree k).opening (hagree h)).1, ?_⟩
    have hlater := @respects_turnAt _ Session.surroundings config _ ws s _ place
      (fun other hother => Session.respects_opened (hne hother)) (rfl : Session.opened k s = _)
    rw [h] at hlater
    exact Prod.ext hlater.1.symm hlater.2

/-- A turn of one of the workers changes nothing in the end. -/
theorem finishAll_turnAt (hkeys : (ws.map key).Nodup) (place : Nat) (s : Session) :
    finishAll Session.surroundings config (turnAt Session.surroundings config ws place s).1
        (turnAt Session.surroundings config ws place s).2 =
      finishAll Session.surroundings config ws s := by
  induction ws generalizing place s with
  | nil => rfl
  | cons w rest ih =>
    obtain ⟨hfresh, hrest⟩ := List.nodup_cons.mp hkeys
    cases place with
    | zero =>
      simp only [turnAt, finishAll, finish_turn]
    | succ place =>
      -- The worker in front finishes first, so the turn behind it is put off until then.
      have hfinish := @respects_finish _ _ config _ w _ _ (respects_turned hfresh)
        (rfl : turnAt Session.surroundings config rest place s = (_, _))
      have hlater := ih hrest place (w.finish Session.surroundings config s).2
      rw [hfinish.2] at hlater
      simp only [turnAt, finishAll, ← hfinish.1, hlater]

theorem finishAll_takeTurns (hkeys : (ws.map key).Nodup) (schedule : List Nat) (s : Session) :
    finishAll Session.surroundings config (takeTurns Session.surroundings config schedule ws s).1
        (takeTurns Session.surroundings config schedule ws s).2 =
      finishAll Session.surroundings config ws s := by
  induction schedule generalizing ws s with
  | nil => rfl
  | cons place schedule ih =>
    have hnext : ((turnAt Session.surroundings config ws place s).1.map key).Nodup := by
      rwa [keys_turnAt]
    exact (ih hnext _).trans (finishAll_turnAt hkeys place s)

end Worker

end Replica
