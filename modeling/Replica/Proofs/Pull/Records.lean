import Replica.Proofs.Pull.Integrity
import Replica.Proofs.Pull.Staging
import Replica.Proofs.Pull.WholeFragments

/-!
# What a pull adds to a store

Fragments that are pulled add their revisions, and for each attachment that they have to fetch a
record of the bytes that were staged. Of a key that is recorded again the latest record counts; the
earlier ones stay behind it, and so do their bytes.
-/
namespace Replica

/-- The attachment is one that the fragment has to fetch. -/
def Fragment.Fetches (f : Fragment) (key : AttachmentKey) : Prop :=
  ∃ name ∈ f.pendingNames, key = ⟨f.document, f.leaf, name⟩

namespace RevisionStore

/-- The latest record of a key. -/
def latest (records : List (AttachmentKey × Committed)) (key : AttachmentKey) : Option Committed :=
  (records.find? fun entry => entry.1 = key).map (·.2)

theorem latest_cons (entry : AttachmentKey × Committed) (rest : List (AttachmentKey × Committed))
    (key : AttachmentKey) :
    latest (entry :: rest) key = if entry.1 = key then some entry.2 else latest rest key := by
  by_cases h : entry.1 = key <;> simp [latest, h]

theorem latest_addAttachments_other {known : List (AttachmentKey × Committed)} {document : String}
    {leaf : RevisionId} {committed : List (String × Committed)} {key : AttachmentKey}
    (h : ∀ name ∈ committed.map (·.1), key ≠ ⟨document, leaf, name⟩) :
    latest (addAttachments known document leaf committed) key = latest known key := by
  induction committed generalizing known with
  | nil => rfl
  | cons entry rest ih =>
    obtain ⟨hentry, hrest⟩ := List.forall_mem_cons.mp h
    rw [addAttachments, ih hrest, latest_cons, if_neg hentry.symm]

/-- Of attachments of one name the last one counts. -/
theorem latest_addAttachments_last {known : List (AttachmentKey × Committed)} {document : String}
    {leaf : RevisionId} {before after : List (String × Committed)} {name : String} {c : Committed}
    (h : name ∉ after.map (·.1)) :
    latest (addAttachments known document leaf (before ++ (name, c) :: after))
      ⟨document, leaf, name⟩ = some c := by
  induction before generalizing known with
  | nil =>
    have hothers : ∀ other ∈ after.map (·.1),
        (⟨document, leaf, name⟩ : AttachmentKey) ≠ ⟨document, leaf, other⟩ := by
      rintro other hother ⟨⟩
      exact h hother
    rw [List.nil_append, addAttachments, latest_addAttachments_other hothers, latest_cons,
      if_pos rfl]
  | cons entry rest ih =>
    rw [List.cons_append, addAttachments]
    exact ih

theorem latest_addAttachments {known : List (AttachmentKey × Committed)} {document : String}
    {leaf : RevisionId} {committed : List (String × Committed)} {name : String} {c : Committed}
    (hnames : (committed.map (·.1)).Nodup) (h : (name, c) ∈ committed) :
    latest (addAttachments known document leaf committed) ⟨document, leaf, name⟩ = some c := by
  obtain ⟨before, after, rfl⟩ := List.append_of_mem h
  rw [List.map_append, List.map_cons] at hnames
  exact latest_addAttachments_last (List.nodup_cons.mp (List.nodup_append.mp hnames).2.1).1

section Insertion

variable {s t : RevisionStore} {f : Fragment} {attachments : List (String × Staged)}

theorem commitAll_keeps {capacity : Option Nat} {blobs blobs' : Memory}
    {committed : List (String × Committed)} {name : String} {staged : Staged} {bytes : ByteArray}
    (h : commitAll capacity blobs attachments = (.ok committed, blobs'))
    (hmem : (name, staged) ∈ attachments) (hseals : staged.Seals bytes) :
    ∃ c, (name, c) ∈ committed ∧ c.metadata = staged.metadata ∧ blobs'.Keeps c bytes := by
  induction attachments generalizing blobs committed with
  | nil => cases hmem
  | cons attachment rest ih =>
    obtain ⟨c, between, others, _, hone, hrest, rfl⟩ := commitAll_cons_eq_ok h
    rcases List.mem_cons.mp hmem with rfl | hlater
    · obtain ⟨hmetadata, hkeeps⟩ := Staged.keeps_commit hseals hone
      have hext := commitAll_extends capacity between rest
      rw [hrest] at hext
      exact ⟨c, List.mem_cons_self, hmetadata, hkeeps.of_extends hext⟩
    · obtain ⟨c', hc', hkept⟩ := ih hrest hlater
      exact ⟨c', List.mem_cons_of_mem _ hc', hkept⟩

theorem commitAll_inside {capacity : Option Nat} {blobs blobs' : Memory}
    {committed : List (String × Committed)}
    (h : commitAll capacity blobs attachments = (.ok committed, blobs'))
    (hseals : ∀ a ∈ attachments, ∃ bytes, a.2.Seals bytes) :
    ∀ c ∈ committed, c.2.offset + c.2.length ≤ blobs'.bytes.size := by
  induction attachments generalizing blobs committed with
  | nil =>
    obtain rfl := Except.ok.inj (Prod.mk.inj h).1
    exact nofun
  | cons attachment rest ih =>
    obtain ⟨⟨bytes, hbytes⟩, hothers⟩ := List.forall_mem_cons.mp hseals
    obtain ⟨c, between, others, _, hone, hrest, rfl⟩ := commitAll_cons_eq_ok h
    have hext := commitAll_extends capacity between rest
    rw [hrest] at hext
    have hkeeps := (Staged.keeps_commit hbytes hone).2.of_extends hext
    exact List.forall_mem_cons.mpr ⟨hkeeps.inside, ih hrest hothers⟩

/-- The bytes are recorded under the key, with what was declared about them. -/
def Has (s : RevisionStore) (key : AttachmentKey) (metadata : Metadata) (bytes : ByteArray) :
    Prop :=
  ∃ c, s.attachment? key = some c ∧ c.metadata = metadata ∧ s.blobs.Keeps c bytes

theorem insert_has {name : String} {staged : Staged} {bytes : ByteArray}
    (h : s.insert f attachments = (.ok (), t)) (hnames : (attachments.map (·.1)).Nodup)
    (hmem : (name, staged) ∈ attachments) (hseals : staged.Seals bytes) :
    t.Has ⟨f.document, f.leaf, name⟩ staged.metadata bytes := by
  obtain ⟨_, _, committed, blobs, hcommit, rfl⟩ := insert_eq_ok.mp h
  obtain ⟨c, hc, hmetadata, hkeeps⟩ := commitAll_keeps hcommit hmem hseals
  rw [← commitAll_names hcommit] at hnames
  exact ⟨c, latest_addAttachments hnames hc, hmetadata, hkeeps⟩

/-- All records lie within the blob area. -/
def Intact (s : RevisionStore) : Prop :=
  ∀ entry ∈ s.attachments, entry.2.offset + entry.2.length ≤ s.blobs.bytes.size

/-- Stores that began empty are intact, whatever was requested of them. -/
theorem intact_submitAll (strict : Bool) (capacity : Option Nat) (calls : List Submission)
    (hcarries : ∀ call ∈ calls, ∀ a ∈ call.attachments, ∃ bytes, a.2.Carries bytes) :
    (({ strict, capacity } : RevisionStore).submitAll calls).Intact := by
  intro entry hentry
  have hsound := Sound.of_empty strict capacity calls hcarries
  obtain ⟨bytes, _, hkeeps⟩ := hsound.packed.kept entry hentry
  exact hkeeps.inside

/-- The later store has more than the earlier one by some of the fragments. -/
structure Advances (fragments : List Fragment) (s t : RevisionStore) : Prop where
  strict : t.strict = s.strict
  capacity : t.capacity = s.capacity
  blobs : t.blobs.Extends s.blobs
  intact : s.Intact → t.Intact
  keeps : ∀ document r, s.contains document r = true → t.contains document r = true
  known : ∀ document r, t.contains document r = true → s.KnownAfter fragments document r
  others : ∀ key, (∀ g ∈ fragments, ¬ g.Fetches key) → t.attachment? key = s.attachment? key

theorem Advances.refl (fragments : List Fragment) (s : RevisionStore) : Advances fragments s s :=
  ⟨rfl, rfl, .refl _, id, fun _ _ h => h, fun _ _ h => Or.inl h, fun _ _ => rfl⟩

theorem Advances.attachmentBytes {fragments : List Fragment} (h : Advances fragments s t)
    {c : Committed} (hc : c.offset + c.length ≤ s.blobs.bytes.size) :
    t.attachmentBytes c = s.attachmentBytes c := by
  obtain ⟨tail, htail⟩ := h.blobs
  have hsize := h.blobs.size_le
  have hbehind : tail.extract (c.offset - s.blobs.bytes.size)
      (c.offset + c.length - s.blobs.bytes.size) = .empty := by
    rw [ByteArray.extract_eq_empty_iff]
    omega
  unfold RevisionStore.attachmentBytes Memory.slice
  rw [if_neg (by omega), if_neg (by omega), htail, ByteArray.extract_append, hbehind,
    ByteArray.append_empty]

theorem Advances.mono {fragments more : List Fragment} (h : Advances fragments s t)
    (hsub : fragments ⊆ more) : Advances more s t := by
  refine { h with known := fun document r hr => ?_, others := fun key hkey => ?_ }
  · exact (h.known document r hr).imp_right fun ⟨g, hg, hmem⟩ => ⟨g, hsub hg, hmem⟩
  · exact h.others key fun g hg => hkey g (hsub hg)

theorem Advances.trans {u : RevisionStore} {fragments : List Fragment} (h : Advances fragments s t)
    (h' : Advances fragments t u) : Advances fragments s u where
  strict := h'.strict.trans h.strict
  capacity := h'.capacity.trans h.capacity
  blobs := h'.blobs.trans h.blobs
  intact hs := h'.intact (h.intact hs)
  keeps document r hr := h'.keeps document r (h.keeps document r hr)
  known document r hr := (h'.known document r hr).elim (h.known document r) Or.inr
  others key hkey := (h'.others key hkey).trans (h.others key hkey)

theorem Has.advance {u : RevisionStore} {fragments : List Fragment} {key : AttachmentKey}
    {metadata : Metadata} {bytes : ByteArray} (h : t.Has key metadata bytes)
    (hmore : Advances fragments t u) (hkey : ∀ g ∈ fragments, ¬ g.Fetches key) :
    u.Has key metadata bytes := by
  obtain ⟨c, hc, hmetadata, hkeeps⟩ := h
  exact ⟨c, (hmore.others key hkey).trans hc, hmetadata, hkeeps.of_extends hmore.blobs⟩

theorem insert_advances (h : s.insert f attachments = (.ok (), t))
    (hnames : attachments.map (·.1) = f.pendingNames)
    (hseals : ∀ a ∈ attachments, ∃ bytes, a.2.Seals bytes) : Advances [f] s t := by
  obtain ⟨_, _, committed, blobs, hcommit, rfl⟩ := insert_eq_ok.mp h
  have hext := commitAll_extends s.capacity s.blobs attachments
  rw [hcommit] at hext
  have hcontains := contains_extended s f (attachments.map (·.1)) committed blobs
  refine ⟨rfl, rfl, hext, fun hs entry hentry => ?_, fun d r hr => (hcontains d r).mpr (Or.inl hr),
    fun d r hr => ?_, fun key hkey => ?_⟩
  · simp only [extended, addAttachments_eq, List.mem_append, List.mem_reverse,
      List.mem_map] at hentry
    rcases hentry with ⟨c, hc, rfl⟩ | hold
    · exact commitAll_inside hcommit hseals c hc
    · exact (hs entry hold).trans hext.size_le
  · exact ((hcontains d r).mp hr).imp_right fun hf => ⟨f, List.mem_singleton_self f, hf⟩
  · refine latest_addAttachments_other fun name hname heq => ?_
    rw [commitAll_names hcommit, hnames] at hname
    exact hkey f (List.mem_singleton_self f) ⟨name, hname, heq⟩

end Insertion

end RevisionStore

namespace Processor

variable {σ : Type} {env : Surroundings σ} {config : PullConfig}

theorem preserves_trivial (key : AttachmentKey) : env.Preserves (fun _ => True) key :=
  ⟨fun _ => trivial, fun _ => trivial⟩

theorem stageAttachments_seals {f : Fragment} {o o' : σ} {items : List StagedItem}
    (h : stageAttachments env config f o = (.ok items, o')) :
    ∀ a ∈ items.map fun i => (i.name, i.staged), ∃ bytes, a.2.Seals bytes := by
  have hitems := stageAttachments_comesOf preserves_trivial trivial h
  intro a ha
  obtain ⟨item, hitem, rfl⟩ := List.mem_map.mp ha
  obtain ⟨m, _, hfrom⟩ := exists_partner hitems.flip item hitem
  exact ComesOf.seals hfrom

theorem Delivers.advances {s t : RevisionStore} {o o' : σ} {done : List Fragment}
    (h : Delivers env config s o done t o') : RevisionStore.Advances done s t := by
  induction h with
  | nil => exact .refl _ _
  | @cons s t u o o₁ o₂ o₃ f rest items _ hstage haccept _ ih =>
    have hfirst := RevisionStore.insert_advances haccept (names_handedOver hstage)
      (stageAttachments_seals hstage)
    exact (hfirst.mono (by simp)).trans (ih.mono (List.subset_cons_self f rest))

theorem Reports.subset {fragments done : List Fragment} {result : Except PullError DocumentPull}
    (h : Reports fragments done result) : done ⊆ fragments := by
  unfold Reports at h
  split at h
  · rename_i hnew
    rw [h.1]
    exact fun f => (Batch.mem_fragments hnew).mp
  · exact h.elim
  · rename_i hnew
    exact fun f hf => (Batch.mem_fragments hnew).mp (h.1.subset hf)
  · rw [h]
    exact List.nil_subset fragments

/-- However a pull ends, it adds to the store only what is its own. -/
theorem process_advances (env : Surroundings σ) (config : PullConfig) (p : Processor σ)
    (fragments : List Fragment) :
    RevisionStore.Advances fragments p.store (process env config p fragments).2.store := by
  obtain ⟨done, o, hdelivers, _, hreports⟩ := process_delivers env config p fragments
  exact hdelivers.advances.mono hreports.subset

/-- A pull that succeeds has delivered its whole batch. -/
theorem process_ok_delivers {p q : Processor σ} {fragments : List Fragment} {pull : DocumentPull}
    (h : process env config p fragments = (.ok pull, q)) :
    ∃ batch o, Batch.new fragments = .ok batch ∧
      pull = ⟨batch.document, batch.fragments.map (·.leaf), countPending batch.fragments⟩ ∧
      Delivers env config p.store (look env p.outside) batch.fragments q.store o := by
  obtain ⟨done, o, hdelivers, _, hreports⟩ := process_delivers env config p fragments
  rw [h] at hdelivers hreports
  unfold Reports at hreports
  cases hbatch : Batch.new fragments with
  | error e =>
    rw [hbatch] at hreports
    exact hreports.elim
  | ok batch =>
    rw [hbatch] at hreports
    obtain ⟨rfl, hpull⟩ := hreports
    exact ⟨batch, o, rfl, hpull, hdelivers⟩

theorem Delivers.processFragments {s t : RevisionStore} {o o' : σ} {done : List Fragment}
    (h : Delivers env config s o done t o') (stats : PullStats) :
    ∃ stats', processFragments env config ⟨s, stats, o⟩ done =
      (.ok (done.map (·.leaf), countPending done), ⟨t, stats', o'⟩) := by
  induction h generalizing stats with
  | nil => exact ⟨stats, rfl⟩
  | @cons s t u o o₁ o₂ o₃ f rest items hclear hstage haccept _ ih =>
    obtain ⟨stats', hrest⟩ := ih (stats.countInserted items)
    have hfirst : processFragment env config ⟨s, stats, o⟩ f =
        (.ok items.length, ⟨t, stats.countInserted items, o₂⟩) :=
      processFragment_eq_ok.mpr ⟨o₁, items, o₂, t, hclear, hstage, haccept, rfl, rfl⟩
    have hcount := length_handedOver hstage
    refine ⟨stats', ?_⟩
    simp only [Processor.processFragments, hfirst, hrest]
    simp [countPending, hcount, Except.map]

/-- A pull whose batch can be delivered succeeds, and delivers it. -/
theorem Delivers.process {p : Processor σ} {fragments : List Fragment} {batch : Batch}
    {t : RevisionStore} {o : σ} (hclear : (env.isCancelled p.outside).1 = false)
    (hbatch : Batch.new fragments = .ok batch)
    (h : Delivers env config p.store (look env p.outside) batch.fragments t o) :
    ∃ stats, process env config p fragments =
      (.ok ⟨batch.document, batch.fragments.map (·.leaf), countPending batch.fragments⟩,
        ⟨t, stats, o⟩) := by
  obtain ⟨stats, hrun⟩ := h.processFragments p.stats
  have hcheck := checkCancelled_eq_ok.mpr ⟨hclear, rfl⟩
  exact ⟨{ stats with documents := stats.documents + 1 }, by
    simp only [Processor.process, processDocument, hcheck, hbatch, hrun, Except.map]⟩

end Processor

end Replica
