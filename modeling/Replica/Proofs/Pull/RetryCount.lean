import Replica.Proofs.Pull.Delivery
import Replica.Proofs.Pull.Ledger
import Replica.Proofs.Pull.Recording

/-!
# Which repetitions are counted

The number of repetitions travels with the attachment that was staged in the end, and is counted
with its fragment once the store has accepted it. What was repeated for a fragment that was given up
is counted nowhere. The repetitions themselves are read off a record of the openings: for one
fragment each attachment is opened once, and once more for each repetition.
-/
namespace Replica

/-- How many of the openings repeat an earlier one of the same attachment. -/
def repeated (opened : List AttachmentKey) : Nat := opened.length - opened.toFinset.card

namespace Processor

variable {σ : Type} {env : Surroundings σ} {config : PullConfig} {document : String}
  {revision : RevisionId} {s s' : σ × List AttachmentKey}

theorem attempt_opened {stager : Stager} {key : AttachmentKey} {metadata : Metadata}
    {result : Except PullError Staged}
    (h : attempt env.recorded stager key metadata s = (result, s'))
    (hresult : result ≠ .error .cancelled) : s'.2 = s.2 ++ [key] := by
  have hlooked := record_check env s
  rw [attempt_eq] at h
  split at h <;> rename_i hcheck <;> rw [hcheck] at hlooked
  · obtain rfl := (Prod.mk.inj h).1
    exact absurd (by rw [checkCancelled_error hcheck]) hresult
  · obtain rfl := (Prod.mk.inj h).2
    exact congrArg (· ++ [key]) hlooked

/-- Behind a success there is one opening, and one more for each repetition that was needed. -/
theorem persist_opened {p : RetryPolicy} {stager : Stager} {key : AttachmentKey}
    {metadata : Metadata} {retries n : Nat} {staged : Staged}
    (h : p.persist (attempt env.recorded stager key metadata) retries s = (.ok (staged, n), s')) :
    ∃ more, n = retries + more ∧ s'.2 = s.2 ++ List.replicate (more + 1) key := by
  fun_induction RetryPolicy.persist p (attempt env.recorded stager key metadata) retries s with
  | case1 retries s a next hnow =>
    obtain ⟨hresult, rfl⟩ := Prod.mk.inj h
    obtain ⟨rfl, rfl⟩ := Prod.mk.inj (Except.ok.inj hresult)
    exact ⟨0, rfl, attempt_opened hnow fun hcancelled => by cases hcancelled⟩
  | case2 retries s e next hnow hagain ih =>
    obtain ⟨more, rfl, hopened⟩ := ih h
    have hfirst : next.2 = s.2 ++ [key] := by
      refine attempt_opened hnow fun hcancelled => ?_
      rw [Except.error.inj hcancelled] at hagain
      exact absurd hagain.1 (by decide)
    refine ⟨more + 1, Nat.add_right_comm retries 1 more, ?_⟩
    rw [hopened, hfirst, List.append_assoc, List.singleton_append, ← List.replicate_succ]
  | case3 => cases (Prod.mk.inj h).1

/-- The openings that have led to the items. -/
def openings (document : String) (revision : RevisionId) (items : List StagedItem) :
    List AttachmentKey :=
  items.flatMap fun i => List.replicate (i.retries + 1) ⟨document, revision, i.name⟩

theorem stageOne_opened {key : AttachmentKey} {reference : Reference} {item : StagedItem}
    (h : stageOne env.recorded config key reference s = (.ok item, s')) :
    s'.2 = s.2 ++ List.replicate (item.retries + 1) key := by
  unfold stageOne at h
  split at h
  · cases h
  · split at h
    · cases h
    · rename_i hpersist
      obtain ⟨hitem, rfl⟩ := Prod.mk.inj h
      obtain rfl := Except.ok.inj hitem
      obtain ⟨more, rfl, hopened⟩ := persist_opened hpersist
      rwa [Nat.zero_add]

theorem runGroup_opened {group : List (String × Reference)} {items : List StagedItem}
    (h : collect (runGroup env.recorded config document revision s group).1 = .ok items) :
    (runGroup env.recorded config document revision s group).2.2 =
      s.2 ++ openings document revision items := by
  induction group generalizing s items with
  | nil =>
    obtain rfl := Except.ok.inj h
    exact (List.append_nil s.2).symm
  | cons m rest ih =>
    rw [runGroup_cons] at h ⊢
    obtain ⟨item, others, hitem, hothers, rfl⟩ := collect_cons_eq_ok h
    have hone := stageOne_opened (Prod.ext hitem rfl)
    have hname := stageOne_name (Prod.ext hitem rfl)
    dsimp only at hname ⊢
    rw [ih hothers, hone, List.append_assoc, openings, openings, List.flatMap_cons, hname]

theorem runGroups_opened {groups : List (List (String × Reference))} {items : List StagedItem}
    (h : runGroups env.recorded config document revision s groups = (.ok items, s')) :
    s'.2 = s.2 ++ openings document revision items := by
  induction groups generalizing s s' items with
  | nil =>
    obtain ⟨hitems, rfl⟩ := Prod.mk.inj h
    obtain rfl := Except.ok.inj hitems
    exact (List.append_nil s.2).symm
  | cons group rest ih =>
    unfold runGroups at h
    dsimp only at h
    split at h
    · cases (Prod.mk.inj h).1
    · rename_i first hfirst
      obtain ⟨hitems, rfl⟩ := Prod.mk.inj h
      obtain ⟨others, hothers, rfl⟩ := map_eq_ok.mp hitems
      rw [ih (Prod.ext hothers rfl), runGroup_opened hfirst, List.append_assoc, openings, openings,
        openings, List.flatMap_append]

/-- As the names differ, what the items were repeated is what of their openings is repeated. -/
theorem repeated_openings {items : List StagedItem} (h : (items.map (·.name)).Nodup) :
    repeated (openings document revision items) = (items.map (·.retries)).sum := by
  have hkeys : (openings document revision items).toFinset =
      (items.map fun i => (⟨document, revision, i.name⟩ : AttachmentKey)).toFinset := by
    ext key
    simp [openings, eq_comm]
  have hinjective : Function.Injective fun n => (⟨document, revision, n⟩ : AttachmentKey) :=
    fun _ _ heq => (AttachmentKey.mk.inj heq).2.2
  have hnodup : (items.map fun i => (⟨document, revision, i.name⟩ : AttachmentKey)).Nodup := by
    have hmap := h.map hinjective
    rwa [List.map_map] at hmap
  rw [repeated, hkeys, List.toFinset_card_of_nodup hnodup, List.length_map, openings,
    List.length_flatMap]
  simp [List.sum_map_add]

/-- A fragment that a pull has come to: what was opened for it, and whether the store took it. -/
structure Visit where
  opened : List AttachmentKey
  inserted : Bool

/-- What was repeated for the fragments, in all. -/
def repetitions (visits : List Visit) : Nat := (visits.map fun v => repeated v.opened).sum

/-- The visit to a fragment. -/
def visit (env : Surroundings σ) (config : PullConfig) (p : Processor σ) (f : Fragment) : Visit :=
  let (result, q) := processFragment env.recorded config ⟨p.store, p.stats, p.outside, []⟩ f
  ⟨q.outside.2, result.isOk⟩

/-- The visits to fragments, up to the first that fails. -/
def visits (env : Surroundings σ) (config : PullConfig) (p : Processor σ) :
    List Fragment → List Visit
  | [] => []
  | f :: rest =>
    match processFragment env config p f with
    | (.error _, _) => [visit env config p f]
    | (.ok _, q) => visit env config p f :: visits env config q rest

/-- The visits to the fragments of a document. -/
def documentVisits (env : Surroundings σ) (config : PullConfig) (p : Processor σ)
    (fragments : List Fragment) : List Visit :=
  match checkCancelled env p.outside with
  | (.error _, _) => []
  | (.ok (), outside) =>
    match Batch.new fragments with
    | .error _ => []
    | .ok batch => visits env config { p with outside } batch.fragments

/-- The visits of documents that are processed one after another. -/
def documentsVisits (env : Surroundings σ) (config : PullConfig) (p : Processor σ) :
    List (List Fragment) → List Visit
  | [] => []
  | fragments :: rest =>
    match process env config p fragments with
    | (.error _, _) => documentVisits env config p fragments
    | (.ok _, q) => documentVisits env config p fragments ++ documentsVisits env config q rest

/-- The visits that a request leads to. -/
def visitsOf (env : Surroundings σ) (config : PullConfig) (p : Processor σ) :
    Request σ → List Visit
  | .pull fragments => documentVisits env config p fragments
  | .pullAll documents => documentsVisits env config p documents
  | .meanwhile _ => []

/-- The visits that the requests lead to, in all. -/
def visitsOfAll (env : Surroundings σ) (config : PullConfig) (p : Processor σ) :
    List (Request σ) → List Visit
  | [] => []
  | request :: rest =>
    visitsOf env config p request ++ visitsOfAll env config (serve env config p request) rest

/-- What was repeated for the fragments that were inserted. -/
def countedRepetitions (visits : List Visit) : Nat := repetitions (visits.filter (·.inserted))

theorem countedRepetitions_cons (v : Visit) (rest : List Visit) :
    countedRepetitions (v :: rest) =
      (if v.inserted then repeated v.opened else 0) + countedRepetitions rest := by
  obtain ⟨opened, inserted⟩ := v
  cases inserted
  · exact (Nat.zero_add _).symm
  · rfl

theorem countedRepetitions_append (before after : List Visit) :
    countedRepetitions (before ++ after) =
      countedRepetitions before + countedRepetitions after := by
  rw [countedRepetitions, List.filter_append, repetitions, List.map_append, List.sum_append]
  rfl

variable {p : Processor σ}

theorem processFragment_recorded (env : Surroundings σ) (config : PullConfig) (p : Processor σ)
    (f : Fragment) :
    (processFragment env.recorded config ⟨p.store, p.stats, p.outside, []⟩ f).map id
      (viewed Prod.fst) = processFragment env config p f := by
  rw [← processFragmentUnder_nil, ← processFragmentUnder_nil]
  exact env.recorded_mirrors.processFragmentUnder (fun _ => []) _ f

/-- The repetitions of a fragment are counted if the store takes it. -/
theorem processFragment_retries (env : Surroundings σ) (config : PullConfig) (p : Processor σ)
    (f : Fragment) :
    (processFragment env config p f).2.stats.retries =
      p.stats.retries + countedRepetitions [visit env config p f] := by
  rw [countedRepetitions_cons, ← processFragment_recorded, visit]
  cases hrun : processFragment env.recorded config ⟨p.store, p.stats, p.outside, []⟩ f with
  | mk result q =>
    cases result with
    | error e =>
      change q.stats.retries = _
      rw [(processFragment_error hrun).2]
      rfl
    | ok n =>
      obtain ⟨looked, items, o, store, hclear, hstage, -, -, rfl⟩ := processFragment_eq_ok.mp hrun
      have hlooked : looked.2 = [] := by
        have hrecord := record_check env (p.outside, [])
        rwa [hclear] at hrecord
      have hopened : o.2 = openings f.document f.leaf items := by
        rw [runGroups_opened hstage, hlooked, List.nil_append]
      have hnames : (items.map (·.name)).Nodup := by
        rw [stageAttachments_names hstage]
        exact f.pendingNames_nodup
      change (p.stats.countInserted items).retries = _ + (repeated o.2 + 0)
      rw [PullStats.countInserted_eq, hopened, repeated_openings hnames]
      rfl

theorem processFragments_retries (p : Processor σ) (fragments : List Fragment) :
    (processFragments env config p fragments).2.stats.retries =
      p.stats.retries + countedRepetitions (visits env config p fragments) := by
  induction fragments generalizing p with
  | nil => rfl
  | cons f rest ih =>
    have hfirst := processFragment_retries env config p f
    unfold processFragments visits
    cases hrun : processFragment env config p f with
    | mk result q =>
      rw [hrun] at hfirst
      cases result with
      | error e => exact hfirst
      | ok n =>
        dsimp only at hfirst ⊢
        rw [ih, hfirst, Nat.add_assoc, ← countedRepetitions_append, List.singleton_append]

theorem process_retries (p : Processor σ) (fragments : List Fragment) :
    (process env config p fragments).2.stats.retries =
      p.stats.retries + countedRepetitions (documentVisits env config p fragments) := by
  have hdocument : (processDocument env config p fragments).2.stats.retries =
      p.stats.retries + countedRepetitions (documentVisits env config p fragments) := by
    unfold processDocument documentVisits
    cases checkCancelled env p.outside with
    | mk result looked =>
      cases result with
      | error e => rfl
      | ok _ =>
        dsimp only
        cases Batch.new fragments with
        | error e => rfl
        | ok batch => exact processFragments_retries { p with outside := looked } batch.fragments
  rw [← hdocument]
  unfold process
  cases processDocument env config p fragments with
  | mk result q => cases result <;> rfl

theorem processAll_retries (p : Processor σ) (documents : List (List Fragment)) :
    (processAll env config p documents).2.stats.retries =
      p.stats.retries + countedRepetitions (documentsVisits env config p documents) := by
  induction documents generalizing p with
  | nil => rfl
  | cons fragments rest ih =>
    have hfirst := @process_retries _ env config p fragments
    unfold processAll documentsVisits
    cases hrun : process env config p fragments with
    | mk result q =>
      rw [hrun] at hfirst
      cases result with
      | error e => exact hfirst
      | ok pull =>
        dsimp only at hfirst ⊢
        rw [ih, hfirst, countedRepetitions_append, Nat.add_assoc]

theorem serve_retries (p : Processor σ) (request : Request σ) :
    (serve env config p request).stats.retries =
      p.stats.retries + countedRepetitions (visitsOf env config p request) := by
  cases request with
  | pull fragments => exact process_retries p fragments
  | pullAll documents => exact processAll_retries p documents
  | meanwhile change => rfl

theorem serveAll_retries (p : Processor σ) (requests : List (Request σ)) :
    (serveAll env config p requests).stats.retries =
      p.stats.retries + countedRepetitions (visitsOfAll env config p requests) := by
  induction requests generalizing p with
  | nil => rfl
  | cons request rest ih =>
    rw [visitsOfAll, countedRepetitions_append, ← Nat.add_assoc, ← serve_retries]
    exact ih (serve env config p request)

theorem repetitions_split (visits : List Visit) :
    repetitions visits =
      countedRepetitions visits + repetitions (visits.filter (!·.inserted)) := by
  have h := List.sum_map_filter_add_sum_map_filter_not (fun v : Visit => v.inserted = true)
    (fun v => repeated v.opened) visits
  simp only [Bool.decide_eq_true, Bool.not_eq_true, Bool.decide_eq_false] at h
  exact h.symm

/-- **Repetitions are counted with the fragments that are inserted.** After any requests to a new
processor, and whatever it met outside, its count is what was repeated for the fragments that the
store took. It falls short of all repetitions by those for fragments that were given up. -/
theorem retries_counted (env : Surroundings σ) (config : PullConfig) (strict : Bool)
    (capacity : Option Nat) (outside : σ) (requests : List (Request σ)) :
    let new : Processor σ := ⟨{ strict, capacity }, {}, outside⟩
    let visits := visitsOfAll env config new requests
    (serveAll env config new requests).stats.retries = repetitions (visits.filter (·.inserted)) ∧
      repetitions visits = (serveAll env config new requests).stats.retries +
        repetitions (visits.filter (!·.inserted)) := by
  intro new visits
  have hcount : (serveAll env config new requests).stats.retries = countedRepetitions visits :=
    (serveAll_retries new requests).trans (Nat.zero_add _)
  exact ⟨hcount, by rw [hcount, repetitions_split]⟩

/-- Three attempts at each attachment, without pauses. -/
def thrice : PullConfig := ⟨⟨.memory, 2⟩, { RetryPolicy.new 3 with base := ⟨0⟩ }, 4⟩

/-- A session that refuses the picture five times. -/
def reluctant : Session :=
  ⟨({ contents := [(scan, ⟨#[1, 2]⟩)] } : MemorySource).inject scan (.opening .timedOut) 5, false⟩

/-- Two attempts are repeated before the fragment is given up, and neither is counted. -/
theorem retries_uncounted_reluctant :
    let new : Processor Session := ⟨{ strict := true }, {}, reluctant⟩
    let p := serveAll Session.surroundings thrice new [.pull [illustrated]]
    let visits := visitsOfAll Session.surroundings thrice new [.pull [illustrated]]
    p.stats.failedDocuments = 1 ∧ repetitions visits = 2 ∧ p.stats.retries = 0 := by
  refine ⟨by cbv, ?_, by cbv⟩
  have hvisits : visitsOfAll Session.surroundings thrice ⟨{ strict := true }, {}, reluctant⟩
      [.pull [illustrated]] = [⟨[scan, scan, scan], false⟩] := by cbv
  rw [hvisits]
  decide

end Processor

end Replica
