import Mathlib.Logic.Function.Iterate
import Replica.Proofs.Outcome
import Replica.Proofs.Pull.Insertion
import Replica.Pull.Processor

/-!
# The steps of a pull

What one fragment costs: a look at the cancel flag, the staging of its attachments, an insertion. If
one of the three fails, the store is what it was. What staging hands over carries the names of the
attachments that had to be fetched, in their order, whatever the groups.
-/
namespace Replica.Processor

variable {σ : Type} {env : Surroundings σ} {config : PullConfig}

/-- The surroundings behind a look at the flag. -/
def look (env : Surroundings σ) (o : σ) : σ := (env.isCancelled o).2

/-- The flag is clear, however often it is looked at. -/
def NeverCancelled (env : Surroundings σ) (o : σ) : Prop :=
  ∀ n, (env.isCancelled ((look env)^[n] o)).1 = false

theorem checkCancelled_eq_ok {o o' : σ} :
    checkCancelled env o = (.ok (), o') ↔ (env.isCancelled o).1 = false ∧ o' = look env o := by
  unfold checkCancelled look
  cases h : env.isCancelled o with
  | mk cancelled next => cases cancelled <;> simp [eq_comm]

theorem checkCancelled_error {o o' : σ} {e : PullError}
    (h : checkCancelled env o = (.error e, o')) : e = .cancelled := by
  unfold checkCancelled at h
  split at h
  · exact (Except.error.inj (Prod.mk.inj h).1).symm
  · cases h

theorem checkCancelled_snd (env : Surroundings σ) (o : σ) :
    (checkCancelled env o).2 = look env o := by
  unfold checkCancelled look
  split <;> rename_i hflag <;> rw [hflag]

theorem NeverCancelled.check {o : σ} (h : NeverCancelled env o) :
    checkCancelled env o = (.ok (), look env o) := checkCancelled_eq_ok.mpr ⟨h 0, rfl⟩

theorem NeverCancelled.look {o : σ} (h : NeverCancelled env o) :
    NeverCancelled env (look env o) := fun n => h (n + 1)

theorem flatten_groups {α : Type} (spare : Nat) (l : List α) : (groups spare l).flatten = l := by
  fun_induction groups spare l with
  | case1 => rfl
  | case2 a rest ih => rw [List.flatten_cons, ih, List.cons_append, List.take_append_drop]

theorem stageOne_name {key : AttachmentKey} {reference : Reference} {o o' : σ} {item : StagedItem}
    (h : stageOne env config key reference o = (.ok item, o')) : item.name = key.name := by
  unfold stageOne at h
  split at h
  · cases h
  · split at h
    · cases h
    · obtain rfl := Except.ok.inj (Prod.mk.inj h).1
      rfl

theorem collect_cons_eq_ok {result : Except PullError StagedItem}
    {results : List (Except PullError StagedItem)} {items : List StagedItem}
    (h : collect (result :: results) = .ok items) :
    ∃ item others, result = .ok item ∧ collect results = .ok others ∧ items = item :: others := by
  cases result with
  | error e => contradiction
  | ok item =>
    obtain ⟨others, hothers, rfl⟩ := map_eq_ok.mp h
    exact ⟨item, others, rfl, hothers, rfl⟩

theorem runGroup_cons (env : Surroundings σ) (config : PullConfig) (document : String)
    (revision : RevisionId) (o : σ) (m : String × Reference) (rest : List (String × Reference)) :
    runGroup env config document revision o (m :: rest) =
      let first := stageOne env config ⟨document, revision, m.1⟩ m.2 o
      let others := runGroup env config document revision first.2 rest
      (first.1 :: others.1, others.2) := by
  rw [runGroup]

theorem runGroup_names {document : String} {revision : RevisionId}
    {group : List (String × Reference)} {o : σ} {items : List StagedItem}
    (h : collect (runGroup env config document revision o group).1 = .ok items) :
    items.map (·.name) = group.map (·.1) := by
  induction group generalizing o items with
  | nil =>
    obtain rfl := Except.ok.inj h
    rfl
  | cons member rest ih =>
    rw [runGroup_cons] at h
    obtain ⟨item, others, hitem, hothers, rfl⟩ := collect_cons_eq_ok h
    have hname := stageOne_name (Prod.ext hitem rfl)
    rw [List.map_cons, List.map_cons, ih hothers, hname]

theorem runGroups_names {document : String} {revision : RevisionId}
    {groups : List (List (String × Reference))} {o o' : σ} {items : List StagedItem}
    (h : runGroups env config document revision o groups = (.ok items, o')) :
    items.map (·.name) = groups.flatten.map (·.1) := by
  induction groups generalizing o o' items with
  | nil =>
    obtain rfl := Except.ok.inj (Prod.mk.inj h).1
    rfl
  | cons group rest ih =>
    unfold runGroups at h
    dsimp only at h
    split at h
    · have herror := (Prod.mk.inj h).1
      contradiction
    · rename_i staged hstaged
      obtain ⟨others, hothers, rfl⟩ := map_eq_ok.mp (Prod.mk.inj h).1
      rw [List.map_append, List.flatten_cons, List.map_append, runGroup_names hstaged,
        ih (Prod.ext hothers rfl)]

theorem stageAttachments_names {f : Fragment} {o o' : σ} {items : List StagedItem}
    (h : stageAttachments env config f o = (.ok items, o')) :
    items.map (·.name) = f.pending.map (·.1) := by
  rw [runGroups_names h, flatten_groups]

/-- Where nothing has to be fetched, nothing is met outside. -/
theorem stageAttachments_bare {f : Fragment} (h : f.pending = []) (o : σ) :
    stageAttachments env config f o = (.ok [], o) := by
  unfold stageAttachments
  rw [h, groups]
  rfl

theorem processFragment_eq_ok {p q : Processor σ} {f : Fragment} {n : Nat} :
    processFragment env config p f = (.ok n, q) ↔
      ∃ outside items outside' store,
        checkCancelled env p.outside = (.ok (), outside) ∧
        stageAttachments env config f outside = (.ok items, outside') ∧
        p.store.insert f (items.map fun i => (i.name, i.staged)) = (.ok (), store) ∧
        n = items.length ∧ q = ⟨store, p.stats.countInserted items, outside'⟩ := by
  unfold processFragment
  cases hcheck : checkCancelled env p.outside with
  | mk result outside =>
    cases result with
    | error e => simp
    | ok _ =>
      cases hstage : stageAttachments env config f outside with
      | mk result outside' =>
        cases result with
        | error e => simp [hstage]
        | ok items =>
          cases hinsert : p.store.insert f (items.map fun i => (i.name, i.staged)) with
          | mk result store =>
            cases result with
            | error e => simp [hstage, hinsert]
            | ok _ => simp [hstage, hinsert, eq_comm]

theorem processFragment_error {p q : Processor σ} {f : Fragment} {e : PullError}
    (h : processFragment env config p f = (.error e, q)) :
    q.store = p.store ∧ q.stats = p.stats := by
  unfold processFragment at h
  split at h
  · obtain rfl := (Prod.mk.inj h).2
    exact ⟨rfl, rfl⟩
  · split at h
    · obtain rfl := (Prod.mk.inj h).2
      exact ⟨rfl, rfl⟩
    · split at h
      · rename_i items _ _ _ _ store hinsert
        obtain rfl := (Prod.mk.inj h).2
        refine ⟨?_, rfl⟩
        rcases p.store.insert_cases f (items.map fun i => (i.name, i.staged)) with
          ⟨e', hrefused⟩ | ⟨t, haccepted⟩
        · exact (Prod.mk.inj (hinsert.symm.trans hrefused)).2
        · cases hinsert.symm.trans haccepted
      · have hok := (Prod.mk.inj h).1
        contradiction

end Replica.Processor
