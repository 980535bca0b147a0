import Replica.Proofs.Entries
import Replica.Proofs.Pull.Cancellation
import Replica.Proofs.Revision.AncestorOrder

/-!
# Whole fragments only

However a pull ends, its store stands between two fragments of the batch: those before have been
inserted with all their attachments, of the others nothing can be seen. The surroundings may answer
every look at the flag and every opening as they like, so they also give whatever the members of a
group meet when they run side by side.
-/
namespace Replica

namespace Fragment

/-- The names of the attachments that have to be fetched. -/
def pendingNames (f : Fragment) : List String := f.pending.map (·.1)

theorem pendingNames_rising (f : Fragment) : f.pendingNames.Pairwise (· < ·) :=
  List.pairwise_map.mpr (f.attachments.rising.sublist List.filter_sublist)

theorem pendingNames_nodup (f : Fragment) : f.pendingNames.Nodup :=
  f.pendingNames_rising.imp String.ne_of_lt

theorem mem_pendingNames {f : Fragment} {name : String} :
    name ∈ f.pendingNames ↔ ∃ r, f.attachments.get? name = some r ∧ r.stub = false := by
  simp only [pendingNames, pending, List.mem_map, List.mem_filter, Prod.exists, exists_and_right,
    exists_eq_right, Keyed.get?_eq_some_iff, Reference.needsDownload, Bool.not_eq_true']

end Fragment

namespace Batch

theorem fragments_eq_sorted {fragments : List Fragment} {batch : Batch}
    (h : new fragments = .ok batch) : batch.fragments = sorted fragments := by
  unfold new at h
  split at h
  · cases h
  · split at h
    · cases h
    · obtain rfl := Except.ok.inj h
      rfl

theorem mem_fragments {fragments : List Fragment} {batch : Batch} (h : new fragments = .ok batch)
    {f : Fragment} : f ∈ batch.fragments ↔ f ∈ fragments := by
  rw [fragments_eq_sorted h]
  exact (sorted_perm fragments).mem_iff

theorem fragments_ne_nil {fragments : List Fragment} {batch : Batch}
    (h : new fragments = .ok batch) : batch.fragments ≠ [] := by
  cases fragments with
  | nil => cases h
  | cons first rest =>
    unfold new at h
    dsimp only at h
    split at h
    · cases h
    · obtain rfl := Except.ok.inj h
      intro hnil
      change sorted (first :: rest) = [] at hnil
      have hlength := (sorted_perm (first :: rest)).length_eq
      rw [hnil] at hlength
      cases hlength

end Batch

namespace Processor

variable {σ : Type}

/-- Fragments pulled whole, one after another: for each of them the flag is found clear, all its
attachments are staged, and the store accepts it with them. -/
inductive Delivers (env : Surroundings σ) (config : PullConfig) :
    RevisionStore → σ → List Fragment → RevisionStore → σ → Prop
  | nil (s : RevisionStore) (o : σ) : Delivers env config s o [] s o
  | cons {s t u : RevisionStore} {o o₁ o₂ o₃ : σ} {f : Fragment} {rest : List Fragment}
      {items : List StagedItem}
      (clear : checkCancelled env o = (.ok (), o₁))
      (staged : stageAttachments env config f o₁ = (.ok items, o₂))
      (accepted : s.insert f (items.map fun i => (i.name, i.staged)) = (.ok (), t))
      (others : Delivers env config t o₂ rest u o₃) :
      Delivers env config s o (f :: rest) u o₃

variable {env : Surroundings σ} {config : PullConfig}

/-- The fragments alone say which store they leave behind. -/
theorem Delivers.unique {s t t' : RevisionStore} {o o' o'' : σ} {done : List Fragment}
    (h : Delivers env config s o done t o') (h' : Delivers env config s o done t' o'') :
    t' = t := by
  induction h with
  | nil =>
    cases h'
    rfl
  | cons hclear hstage haccept _ ih =>
    cases h' with
    | cons hclear' hstage' haccept' hrest' =>
      obtain rfl := (Prod.mk.inj (hclear.symm.trans hclear')).2
      obtain ⟨hitems, rfl⟩ := Prod.mk.inj (hstage.symm.trans hstage')
      obtain rfl := Except.ok.inj hitems
      obtain rfl := (Prod.mk.inj (haccept.symm.trans haccept')).2
      exact ih hrest'

/-- What was delivered was delivered before the first look that was answered with yes. -/
theorem Delivers.untold {told : σ → Prop} {s t : RevisionStore} {o o' : σ} {done : List Fragment}
    (h : Delivers env config s o done t o') (hmem : env.Remembers told) (ho : ¬ told o) :
    ¬ told o' := by
  induction h with
  | nil => exact ho
  | cons hclear hstage _ _ ih =>
    exact ih (untold_stageAttachments hmem hstage (untold_check hmem hclear ho))

theorem names_handedOver {o o' : σ} {f : Fragment} {items : List StagedItem}
    (h : stageAttachments env config f o = (.ok items, o')) :
    (items.map fun i => (i.name, i.staged)).map (·.1) = f.pendingNames := by
  rw [List.map_map]
  exact stageAttachments_names h

theorem length_handedOver {o o' : σ} {f : Fragment} {items : List StagedItem}
    (h : stageAttachments env config f o = (.ok items, o')) :
    items.length = f.pendingNames.length := by
  rw [Fragment.pendingNames, ← stageAttachments_names h, List.length_map]

/-- The store after an accepted fragment, by what was staged for it. -/
theorem accepted_eq {s t : RevisionStore} {o o' : σ} {f : Fragment} {items : List StagedItem}
    (hstage : stageAttachments env config f o = (.ok items, o'))
    (haccept : s.insert f (items.map fun i => (i.name, i.staged)) = (.ok (), t)) :
    ∃ committed blobs, committed.map (·.1) = f.pendingNames ∧
      t = s.extended f f.pendingNames committed blobs := by
  have hnames := names_handedOver hstage
  obtain ⟨_, _, committed, blobs, hcommit, rfl⟩ := RevisionStore.insert_eq_ok.mp haccept
  exact ⟨committed, blobs, (RevisionStore.commitAll_names hcommit).trans hnames, by rw [hnames]⟩

/-- A store that has been left behind with some whole fragments and nothing else. -/
structure LeftWith (s t : RevisionStore) (done : List Fragment) : Prop where
  log : t.log = s.log ++ done.map fun f => f.entry f.pendingNames
  revisions : ∀ document r, t.contains document r = true ↔ s.KnownAfter done document r
  attachments : ∀ entry ∈ t.attachments, entry ∈ s.attachments ∨
    ∃ f ∈ done, ∃ name ∈ f.pendingNames, entry.1 = ⟨f.document, f.leaf, name⟩

theorem Delivers.leftWith {s t : RevisionStore} {o o' : σ} {done : List Fragment}
    (h : Delivers env config s o done t o') : LeftWith s t done := by
  induction h with
  | nil =>
    constructor
    · simp
    · simp [RevisionStore.KnownAfter]
    · exact fun entry hentry => Or.inl hentry
  | @cons s t u o o₁ o₂ o₃ f rest items _ hstage haccept _ ih =>
    obtain ⟨committed, blobs, hnames, rfl⟩ := accepted_eq hstage haccept
    constructor
    · rw [ih.log, List.map_cons]
      simp [RevisionStore.extended]
    · intro document r
      rw [ih.revisions, RevisionStore.knownAfter_extended]
    · intro entry hentry
      rcases ih.attachments entry hentry with hold | ⟨g, hg, hname⟩
      · simp only [RevisionStore.extended, RevisionStore.addAttachments_eq, List.mem_append,
          List.mem_reverse, List.mem_map] at hold
        rcases hold with ⟨c, hc, rfl⟩ | hold
        · refine Or.inr ⟨f, List.mem_cons_self, c.1, ?_, rfl⟩
          rw [← hnames]
          exact List.mem_map_of_mem hc
        · exact Or.inl hold
      · exact Or.inr ⟨g, List.mem_cons_of_mem _ hg, hname⟩

section Invariant

variable {inv : Processor σ → Prop} {p : Processor σ} {fragments : List Fragment}

theorem processFragments_invariant
    (hstep : ∀ {p}, ∀ f ∈ fragments, inv p → inv (processFragment env config p f).2)
    (h : inv p) : inv (processFragments env config p fragments).2 := by
  induction fragments generalizing p with
  | nil => exact h
  | cons f rest ih =>
    have hfirst := hstep f List.mem_cons_self h
    unfold processFragments
    split <;> rename_i hrun <;> rw [hrun] at hfirst
    · exact hfirst
    · exact ih (fun g hg => hstep g (List.mem_cons_of_mem f hg)) hfirst

/-- What a look at the flag and each of the fragments leave alone, the document leaves alone. -/
theorem processDocument_invariant
    (hlook : ∀ {p}, inv p → inv { p with outside := look env p.outside })
    (hstep : ∀ {p}, ∀ f ∈ fragments, inv p → inv (processFragment env config p f).2)
    (h : inv p) : inv (processDocument env config p fragments).2 := by
  have hlooked : inv { p with outside := (checkCancelled env p.outside).2 } := by
    rw [checkCancelled_snd]
    exact hlook h
  unfold processDocument
  split <;> rename_i hcheck <;> rw [hcheck] at hlooked
  · exact hlooked
  · dsimp only
    split
    · exact hlooked
    · rename_i batch hbatch
      have hbatched : ∀ {p}, ∀ f ∈ batch.fragments, inv p →
          inv (processFragment env config p f).2 := fun f hf =>
        hstep f ((Batch.mem_fragments hbatch).mp hf)
      exact processFragments_invariant hbatched hlooked

end Invariant

/-- The number of attachments that fragments have to fetch. -/
def countPending (fragments : List Fragment) : Nat :=
  (fragments.map fun f => f.pendingNames.length).sum

theorem processFragments_delivers (p : Processor σ) (fragments : List Fragment) :
    ∃ done later o,
      fragments = done ++ later ∧
      Delivers env config p.store p.outside done
        (processFragments env config p fragments).2.store o ∧
      match (processFragments env config p fragments).1 with
      | .ok result => later = [] ∧ result = (done.map (·.leaf), countPending done)
      | .error _ => later ≠ [] := by
  induction fragments generalizing p with
  | nil => exact ⟨[], [], p.outside, rfl, .nil _ _, rfl, rfl⟩
  | cons f rest ih =>
    cases hf : processFragment env config p f with
    | mk result q =>
      cases result with
      | error e =>
        refine ⟨[], f :: rest, p.outside, rfl, ?_, ?_⟩
        · simp only [processFragments, hf, (processFragment_error hf).1]
          exact .nil _ _
        · simp [processFragments, hf]
      | ok n =>
        obtain ⟨o₁, items, o₂, store, hclear, hstage, haccept, rfl, rfl⟩ :=
          processFragment_eq_ok.mp hf
        obtain ⟨done, later, o, rfl, hrest, hresult⟩ :=
          ih ⟨store, p.stats.countInserted items, o₂⟩
        refine ⟨f :: done, later, o, rfl, ?_, ?_⟩
        · simp only [processFragments, hf]
          exact .cons hclear hstage haccept hrest
        · have hcount := length_handedOver hstage
          simp only [processFragments, hf]
          cases hrun : (processFragments env config ⟨store, p.stats.countInserted items, o₂⟩
              (done ++ later)).1 with
          | error e =>
            rw [hrun] at hresult
            exact hresult
          | ok result =>
            rw [hrun] at hresult
            obtain ⟨hlater, rfl⟩ := hresult
            exact ⟨hlater, by simp [countPending, hcount]⟩

/-- What a pull reports agrees with the fragments it delivered. -/
def Reports (fragments done : List Fragment) (result : Except PullError DocumentPull) : Prop :=
  match result, Batch.new fragments with
  | .ok pull, .ok batch =>
    done = batch.fragments ∧
      pull = ⟨batch.document, batch.fragments.map (·.leaf), countPending batch.fragments⟩
  | .ok _, .error _ => False
  | .error _, .ok batch => done <+: batch.fragments ∧ done ≠ batch.fragments
  | .error _, .error _ => done = []

theorem reports_nil (fragments : List Fragment) (e : PullError) :
    Reports fragments [] (.error e) := by
  unfold Reports
  cases hbatch : Batch.new fragments with
  | error _ => rfl
  | ok batch => exact ⟨List.nil_prefix, (Batch.fragments_ne_nil hbatch).symm⟩

theorem processDocument_delivers (p : Processor σ) (fragments : List Fragment) :
    ∃ done o,
      Delivers env config p.store (look env p.outside) done
        (processDocument env config p fragments).2.store o ∧
      ((env.isCancelled p.outside).1 = true → done = []) ∧
      Reports fragments done (processDocument env config p fragments).1 := by
  cases hcheck : checkCancelled env p.outside with
  | mk result outside =>
    cases result with
    | error e =>
      refine ⟨[], look env p.outside, ?_, fun _ => rfl, ?_⟩
      · simp only [processDocument, hcheck]
        exact .nil _ _
      · simp only [processDocument, hcheck]
        exact reports_nil fragments e
    | ok _ =>
      obtain ⟨hclear, rfl⟩ := checkCancelled_eq_ok.mp hcheck
      have hnot : (env.isCancelled p.outside).1 = true → ∀ done : List Fragment, done = [] := by
        rw [hclear]
        exact nofun
      cases hbatch : Batch.new fragments with
      | error e =>
        refine ⟨[], look env p.outside, ?_, fun _ => rfl, ?_⟩
        · simp only [processDocument, hcheck, hbatch]
          exact .nil _ _
        · simp only [processDocument, hcheck, hbatch]
          exact reports_nil fragments _
      | ok batch =>
        obtain ⟨done, later, o, hsplit, hdelivers, hresult⟩ :=
          @processFragments_delivers _ env config { p with outside := look env p.outside }
            batch.fragments
        refine ⟨done, o, ?_, fun h => hnot h done, ?_⟩
        · simpa only [processDocument, hcheck, hbatch] using hdelivers
        · simp only [processDocument, hcheck, hbatch, Reports]
          cases hrun : (processFragments env config { p with outside := look env p.outside }
              batch.fragments).1 with
          | error e =>
            rw [hrun] at hresult
            refine ⟨⟨later, hsplit.symm⟩, fun heq => hresult ?_⟩
            rw [← heq] at hsplit
            exact List.self_eq_append_right.mp hsplit
          | ok result =>
            rw [hrun] at hresult
            obtain ⟨rfl, rfl⟩ := hresult
            rw [List.append_nil] at hsplit
            exact ⟨hsplit.symm, by rw [hsplit]⟩

/-- Counting the document changes neither its result nor the store. -/
theorem process_eq (p : Processor σ) (fragments : List Fragment) :
    (process env config p fragments).1 = (processDocument env config p fragments).1 ∧
      (process env config p fragments).2.store =
        (processDocument env config p fragments).2.store := by
  unfold process
  cases processDocument env config p fragments with
  | mk result q => cases result <;> exact ⟨rfl, rfl⟩

theorem process_delivers (env : Surroundings σ) (config : PullConfig) (p : Processor σ)
    (fragments : List Fragment) :
    ∃ done o,
      Delivers env config p.store (look env p.outside) done
        (process env config p fragments).2.store o ∧
      ((env.isCancelled p.outside).1 = true → done = []) ∧
      Reports fragments done (process env config p fragments).1 := by
  obtain ⟨hresult, hstore⟩ := @process_eq _ env config p fragments
  rw [hresult, hstore]
  exact processDocument_delivers p fragments

/-- **Whole fragments only.** A pull delivers some of the batch's fragments from the beginning, all
of them exactly if it succeeds, and none of them after a look at the flag that was answered with
yes. Its store is the one that these fragments alone leave behind, each logged with the names of the
attachments that had to be fetched, in order. -/
theorem process_whole_fragments (env : Surroundings σ) (config : PullConfig) (p : Processor σ)
    (fragments : List Fragment) :
    (∀ f : Fragment, f.pendingNames.Pairwise (· < ·) ∧ ∀ name, name ∈ f.pendingNames ↔
      ∃ r, f.attachments.get? name = some r ∧ r.stub = false) ∧
    ∃ done,
      (∃ o, Delivers env config p.store (look env p.outside) done
          (process env config p fragments).2.store o ∧
        ∀ told, env.Remembers told → ¬ told p.outside → done ≠ [] → ¬ told o) ∧
      (∀ t o, Delivers env config p.store (look env p.outside) done t o →
        t = (process env config p fragments).2.store) ∧
      LeftWith p.store (process env config p fragments).2.store done ∧
      ((env.isCancelled p.outside).1 = true → done = []) ∧
      Reports fragments done (process env config p fragments).1 := by
  obtain ⟨hresult, hstore⟩ := @process_eq _ env config p fragments
  obtain ⟨done, o, hdelivers, hcancel, hreports⟩ :=
    @processDocument_delivers _ env config p fragments
  rw [hresult, hstore]
  refine ⟨fun f => ⟨f.pendingNames_rising, fun name => f.mem_pendingNames⟩, done, ?_⟩
  refine ⟨⟨o, hdelivers, fun told hmem hbefore hdone => ?_⟩, fun t o' h => hdelivers.unique h,
    hdelivers.leftWith, hcancel, hreports⟩
  have hclear : ¬ told (look env p.outside) := by
    rw [hmem.look]
    exact fun h => h.elim hbefore fun hyes => hdone (hcancel hyes)
  exact hdelivers.untold hmem hclear

/-- Surroundings with nothing to open, whose flag is set after a number of looks. -/
def impatient (patience : Nat) : Surroundings Nat where
  isCancelled looks := (patience ≤ looks, looks + 1)
  openStream _ looks := (.broke, looks)

theorem remembers_impatient (patience : Nat) : (impatient patience).Remembers (patience < ·) where
  look looks := by
    simp only [look, impatient, decide_eq_true_eq]
    omega
  opening _ _ := Iff.rfl

def second : Fragment :=
  ⟨"note", 2, ["b"], false, .empty, .empty, RevisionStore.root.document_ne, by decide, by decide,
    by decide, by decide⟩

/-- One attempt at each attachment, in memory. -/
def once : PullConfig := ⟨⟨.memory, 1⟩, .disabled, 1⟩

/-- A pull whose flag is set between its two fragments, which were received in the wrong order. -/
def interrupted : Except PullError DocumentPull × Processor Nat :=
  process (impatient 2) once ⟨{ strict := true }, {}, 0⟩ [second, RevisionStore.root]

theorem process_whole_fragments_interrupted :
    interrupted.1 = .error .cancelled ∧ ∃ done o, done.length = 1 ∧
      Delivers (impatient 2) once { strict := true } 1 done interrupted.2.store o ∧ o ≤ 2 ∧
      LeftWith { strict := true } interrupted.2.store done := by
  obtain ⟨_, done, ⟨o, hdelivers, htold⟩, _, hleft, _⟩ := process_whole_fragments (impatient 2)
    once ⟨{ strict := true }, {}, 0⟩ [second, RevisionStore.root]
  have hlog : interrupted.2.store.log.length = 1 := by cbv
  have hlength : done.length = 1 := by
    have hnames : interrupted.2.store.log.length = 0 + done.length := by
      rw [interrupted, hleft.log, List.length_append, List.length_map, List.length_nil]
    omega
  have hdone : done ≠ [] := by
    rintro rfl
    cases hlength
  have hbefore : ¬ 2 < o := htold _ (remembers_impatient 2) (by decide) hdone
  exact ⟨by cbv, done, o, hlength, hdelivers, Nat.le_of_not_lt hbefore, hleft⟩

end Processor

end Replica
