import Replica.Proofs.Pull.Schedules

/-!
# Scheduled pulls and their records

A pull under schedules: one for each group of each fragment. Without turns to begin with it is the
pull as it runs, and in a session it is so under all schedules. Surroundings that answer as others
do, whatever else they keep in mind, give the same pull; so a record of what was opened can be kept
beside it.
-/
namespace Replica

namespace Processor

variable {σ : Type}

/-- Stages one fragment under schedules and inserts it. -/
def processFragmentUnder (env : Surroundings σ) (config : PullConfig) (schedules : Nat → List Nat)
    (p : Processor σ) (f : Fragment) : Except PullError Nat × Processor σ :=
  match checkCancelled env p.outside with
  | (.error e, outside) => (.error e, { p with outside })
  | (.ok (), outside) =>
    match stageUnder env config schedules f outside with
    | (.error e, outside) => (.error e, { p with outside })
    | (.ok items, outside) =>
      match p.store.insert f (items.map fun i => (i.name, i.staged)) with
      | (.error e, store) => (.error e, { p with store, outside })
      | (.ok (), store) => (.ok items.length, ⟨store, p.stats.countInserted items, outside⟩)

/-- Processes fragments in order, each under its schedules, up to the first that fails. -/
def processFragmentsUnder (env : Surroundings σ) (config : PullConfig)
    (schedules : Nat → Nat → List Nat) (p : Processor σ) :
    List Fragment → Except PullError (List RevisionId × Nat) × Processor σ
  | [] => (.ok ([], 0), p)
  | f :: rest =>
    match processFragmentUnder env config (schedules 0) p f with
    | (.error e, p) => (.error e, p)
    | (.ok n, p) =>
      let (result, p) :=
        processFragmentsUnder env config (fun place => schedules (place + 1)) p rest
      (result.map fun (leaves, count) => (f.leaf :: leaves, n + count), p)

/-- Puts the fragments of a document in order and processes them under schedules. -/
def processDocumentUnder (env : Surroundings σ) (config : PullConfig)
    (schedules : Nat → Nat → List Nat) (p : Processor σ) (fragments : List Fragment) :
    Except PullError DocumentPull × Processor σ :=
  match checkCancelled env p.outside with
  | (.error e, outside) => (.error e, { p with outside })
  | (.ok (), outside) =>
    let p := { p with outside }
    match Batch.new fragments with
    | .error e => (.error (.document e), p)
    | .ok batch =>
      let (result, p) := processFragmentsUnder env config schedules p batch.fragments
      (result.map fun (leaves, count) => ⟨batch.document, leaves, count⟩, p)

/-- Processes a document under schedules and counts it. -/
def processUnder (env : Surroundings σ) (config : PullConfig) (schedules : Nat → Nat → List Nat)
    (p : Processor σ) (fragments : List Fragment) : Except PullError DocumentPull × Processor σ :=
  match processDocumentUnder env config schedules p fragments with
  | (.error e, p) =>
    (.error e, { p with stats := { p.stats with failedDocuments := p.stats.failedDocuments + 1 } })
  | (.ok pull, p) =>
    (.ok pull, { p with stats := { p.stats with documents := p.stats.documents + 1 } })

variable {env : Surroundings σ} {config : PullConfig}

theorem processFragmentUnder_of_eq {schedules : Nat → List Nat} {f : Fragment}
    (h : ∀ s, stageUnder env config schedules f s = stageAttachments env config f s)
    (p : Processor σ) :
    processFragmentUnder env config schedules p f = processFragment env config p f := by
  simp only [processFragmentUnder, h]
  rfl

theorem processFragmentsUnder_of_eq {schedules : Nat → Nat → List Nat}
    (h : ∀ place f s, stageUnder env config (schedules place) f s = stageAttachments env config f s)
    (p : Processor σ) (fragments : List Fragment) :
    processFragmentsUnder env config schedules p fragments =
      processFragments env config p fragments := by
  induction fragments generalizing schedules p with
  | nil => rfl
  | cons f rest ih =>
    have hrest := @ih (fun place => schedules (place + 1)) fun place => h (place + 1)
    simp only [processFragmentsUnder, processFragmentUnder_of_eq (h 0 f), hrest]
    rfl

/-- Schedules that do not show in the staging do not show in the pull. -/
theorem processUnder_of_eq {schedules : Nat → Nat → List Nat}
    (h : ∀ place f s, stageUnder env config (schedules place) f s = stageAttachments env config f s)
    (p : Processor σ) (fragments : List Fragment) :
    processUnder env config schedules p fragments = process env config p fragments := by
  simp only [processUnder, processDocumentUnder, processFragmentsUnder_of_eq h]
  rfl

theorem processFragmentUnder_nil (p : Processor σ) (f : Fragment) :
    processFragmentUnder env config (fun _ => []) p f = processFragment env config p f :=
  processFragmentUnder_of_eq (stageUnder_nil env f) p

theorem processUnder_nil (env : Surroundings σ) (config : PullConfig) (p : Processor σ)
    (fragments : List Fragment) :
    processUnder env config (fun _ _ => []) p fragments = process env config p fragments :=
  processUnder_of_eq (fun _ => stageUnder_nil env) p fragments

/-- **A pull from a session is the same under all schedules.** It has the same result, and leaves
behind the same store, the same counts, and the same source with as many openings made and the same
failures to come. So what is proved of pulls from a session, of repeated ones and of those of
different documents, holds of them under every schedule. -/
theorem processUnder_session (config : PullConfig) (schedules : Nat → Nat → List Nat)
    (p : Processor Session) (fragments : List Fragment) :
    processUnder Session.surroundings config schedules p fragments =
      process Session.surroundings config p fragments :=
  processUnder_of_eq (fun place => stageUnder_eq config (schedules place)) p fragments

/-- The processor in the surroundings that a view shows. -/
def viewed {τ : Type} (view : τ → σ) (p : Processor τ) : Processor σ :=
  ⟨p.store, p.stats, view p.outside⟩

end Processor

/-- The surroundings answer as others do in the states that the view shows. -/
structure Surroundings.Mirrors {σ τ : Type} (env' : Surroundings τ) (env : Surroundings σ)
    (view : τ → σ) : Prop where
  look : ∀ t, (env'.isCancelled t).map id view = env.isCancelled (view t)
  opening : ∀ key t, (env'.openStream key t).map id view = env.openStream key (view t)

section Mirrors

variable {σ τ α : Type} {view : τ → σ}

theorem RetryPolicy.persist_mirrors {p : RetryPolicy} {attempt' : τ → Except PullError α × τ}
    {attempt : σ → Except PullError α × σ}
    (h : ∀ t, (attempt' t).map id view = attempt (view t)) (retries : Nat) (t : τ) :
    (p.persist attempt' retries t).map id view = p.persist attempt retries (view t) := by
  fun_induction persist p attempt' retries t with
  | case1 retries t a next hnow =>
    have hother := h t
    rw [hnow] at hother
    exact (persist_ok hother.symm).symm
  | case2 retries t e next hnow hagain ih =>
    have hother := h t
    rw [hnow] at hother
    exact ih.trans (persist_again hother.symm hagain).symm
  | case3 retries t e next hnow hstop =>
    have hother := h t
    rw [hnow] at hother
    exact (persist_stop hother.symm hstop).symm

namespace Surroundings.Mirrors

open Processor

variable {env' : Surroundings τ} {env : Surroundings σ} (h : env'.Mirrors env view)
  {config : PullConfig}

include h

theorem check (t : τ) : (checkCancelled env' t).map id view = checkCancelled env (view t) := by
  unfold checkCancelled
  rw [← h.look]
  cases env'.isCancelled t with
  | mk cancelled next => cases cancelled <;> rfl

theorem attempt (stager : Stager) (key : AttachmentKey) (metadata : Metadata) (t : τ) :
    (attempt env' stager key metadata t).map id view =
      Processor.attempt env stager key metadata (view t) := by
  unfold Processor.attempt
  rw [← h.check]
  cases checkCancelled env' t with
  | mk result looked =>
    cases result with
    | error e => rfl
    | ok _ =>
      dsimp only [Prod.map, id]
      rw [← h.opening]
      cases env'.openStream key looked with
      | mk opening next => cases opening <;> rfl

theorem turn (w : Worker) (t : τ) :
    (w.turn env' config t).map id view = w.turn env config (view t) := by
  cases w with
  | through => rfl
  | atWork key metadata retries =>
    unfold Worker.turn
    dsimp only
    rw [← h.attempt]
    cases Processor.attempt env' config.stager key metadata t with
    | mk result next =>
      cases result with
      | ok staged => rfl
      | error e =>
        dsimp only [Prod.map, id]
        split <;> rfl

theorem finish (w : Worker) (t : τ) :
    (w.finish env' config t).map id view = w.finish env config (view t) := by
  cases w with
  | through => rfl
  | atWork key metadata retries =>
    unfold Worker.finish
    dsimp only
    rw [← RetryPolicy.persist_mirrors (h.attempt config.stager key metadata)]
    rfl

theorem turnAt (ws : List Worker) (place : Nat) (t : τ) :
    (Worker.turnAt env' config ws place t).map id view =
      Worker.turnAt env config ws place (view t) := by
  induction ws generalizing place with
  | nil => rfl
  | cons w rest ih =>
    cases place with
    | zero =>
      simp only [Worker.turnAt, ← h.turn]
      rfl
    | succ place =>
      simp only [Worker.turnAt, ← ih]
      rfl

theorem takeTurns (schedule : List Nat) (ws : List Worker) (t : τ) :
    (Worker.takeTurns env' config schedule ws t).map id view =
      Worker.takeTurns env config schedule ws (view t) := by
  induction schedule generalizing ws t with
  | nil => rfl
  | cons place schedule ih =>
    simp only [Worker.takeTurns, ← h.turnAt]
    exact ih _ _

theorem finishAll (ws : List Worker) (t : τ) :
    (Worker.finishAll env' config ws t).map id view = Worker.finishAll env config ws (view t) := by
  induction ws generalizing t with
  | nil => rfl
  | cons w rest ih =>
    have hrest := ih (w.finish env' config t).2
    simp only [Worker.finishAll, ← h.finish, Prod.map] at hrest ⊢
    rw [← hrest]
    rfl

theorem runGroupUnder {document : String} {revision : RevisionId} (schedule : List Nat) (t : τ)
    (group : List (String × Reference)) :
    (runGroupUnder env' config document revision schedule t group).map id view =
      Processor.runGroupUnder env config document revision schedule (view t) group := by
  unfold Processor.runGroupUnder
  rw [← h.takeTurns]
  exact h.finishAll _ _

theorem runGroupsUnder {document : String} {revision : RevisionId} (schedules : Nat → List Nat)
    (t : τ) (groups : List (List (String × Reference))) :
    (runGroupsUnder env' config document revision schedules t groups).map id view =
      Processor.runGroupsUnder env config document revision schedules (view t) groups := by
  induction groups generalizing schedules t with
  | nil => rfl
  | cons group rest ih =>
    unfold Processor.runGroupsUnder
    rw [← h.runGroupUnder]
    cases Processor.runGroupUnder env' config document revision (schedules 0) t group with
    | mk results next =>
      dsimp only [Prod.map, id]
      cases collect results with
      | error e => rfl
      | ok items =>
        dsimp only
        rw [← ih]
        rfl

theorem processFragmentUnder (schedules : Nat → List Nat) (p : Processor τ) (f : Fragment) :
    (processFragmentUnder env' config schedules p f).map id (viewed view) =
      Processor.processFragmentUnder env config schedules (p.viewed view) f := by
  unfold Processor.processFragmentUnder
  dsimp only [viewed]
  rw [← h.check]
  cases checkCancelled env' p.outside with
  | mk result looked =>
    cases result with
    | error e => rfl
    | ok _ =>
      dsimp only [Prod.map, id, stageUnder]
      rw [← h.runGroupsUnder]
      cases Processor.runGroupsUnder env' config f.document f.leaf schedules looked
          (groups (config.maxConcurrent - 1) f.pending) with
      | mk result next =>
        cases result with
        | error e => rfl
        | ok items =>
          dsimp only [Prod.map, id]
          cases p.store.insert f (items.map fun i => (i.name, i.staged)) with
          | mk result store => cases result <;> rfl

theorem processFragmentsUnder (schedules : Nat → Nat → List Nat) (p : Processor τ)
    (fragments : List Fragment) :
    (processFragmentsUnder env' config schedules p fragments).map id (viewed view) =
      Processor.processFragmentsUnder env config schedules (p.viewed view) fragments := by
  induction fragments generalizing schedules p with
  | nil => rfl
  | cons f rest ih =>
    unfold Processor.processFragmentsUnder
    rw [← h.processFragmentUnder]
    cases Processor.processFragmentUnder env' config (schedules 0) p f with
    | mk result q =>
      cases result with
      | error e => rfl
      | ok n =>
        dsimp only [Prod.map, id]
        rw [← ih]
        rfl

/-- Surroundings that answer alike give the same pull. -/
theorem processUnder (schedules : Nat → Nat → List Nat) (p : Processor τ)
    (fragments : List Fragment) :
    (processUnder env' config schedules p fragments).map id (viewed view) =
      Processor.processUnder env config schedules (p.viewed view) fragments := by
  have hdocument : (processDocumentUnder env' config schedules p fragments).map id (viewed view) =
      processDocumentUnder env config schedules (p.viewed view) fragments := by
    unfold processDocumentUnder
    dsimp only [viewed]
    rw [← h.check]
    cases checkCancelled env' p.outside with
    | mk result looked =>
      cases result with
      | error e => rfl
      | ok _ =>
        dsimp only [Prod.map, id]
        cases Batch.new fragments with
        | error e => rfl
        | ok batch =>
          have hrun : (Processor.processFragmentsUnder env' config schedules
              { p with outside := looked } batch.fragments).map id (viewed view) = _ :=
            h.processFragmentsUnder schedules _ _
          dsimp only [viewed] at hrun ⊢
          rw [← hrun]
          rfl
  unfold Processor.processUnder
  rw [← hdocument]
  cases processDocumentUnder env' config schedules p fragments with
  | mk result q => cases result <;> rfl

end Surroundings.Mirrors

end Mirrors

/-- The surroundings together with a record of what was opened, in order. -/
def Surroundings.recorded {σ : Type} (env : Surroundings σ) :
    Surroundings (σ × List AttachmentKey) where
  isCancelled s := ((env.isCancelled s.1).1, (env.isCancelled s.1).2, s.2)
  openStream key s := ((env.openStream key s.1).1, (env.openStream key s.1).2, s.2 ++ [key])

theorem Surroundings.recorded_mirrors {σ : Type} (env : Surroundings σ) :
    env.recorded.Mirrors env Prod.fst := ⟨fun _ => rfl, fun _ _ => rfl⟩

/-- A look at the flag opens nothing. -/
theorem Processor.record_check {σ : Type} (env : Surroundings σ) (s : σ × List AttachmentKey) :
    (checkCancelled env.recorded s).2.2 = s.2 := by
  rw [checkCancelled_snd]
  rfl

end Replica
