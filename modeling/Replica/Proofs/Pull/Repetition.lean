import Replica.Proofs.Pull.Delivery
import Replica.Proofs.Pull.InsertionOrder
import Replica.Proofs.Pull.Schedules

/-!
# A failed pull can be repeated

A pull that fails leaves a beginning of its batch behind. The next pull of the batch begins again
with the first fragment: what is known already is no hindrance, since more that is known anchors
more, and what was recorded already is recorded once more, with the bytes that are staged this time.
So when nothing is in the way any longer, the batch arrives where one pull would have brought it.
Nothing is claimed for a store with a capacity: the bytes of earlier records stay in the blob area.
The pulls take their turns in order here; that schedules make no difference to pulls from a session
is `Processor.processUnder_session`.
-/
namespace Replica

namespace RevisionStore

/-- What a reader sees of an attachment: what was declared, the digest, and the bytes. -/
def shown (s : RevisionStore) (key : AttachmentKey) :
    Option (Metadata × String × Except PullError ByteArray) :=
  (s.attachment? key).map fun c => (c.metadata, c.digest, s.attachmentBytes c)

variable {s t s' : RevisionStore} {f : Fragment} {fragments : List Fragment} {key : AttachmentKey}
  {attachments : List (String × Staged)}

theorem Has.shown {metadata : Metadata} {bytes : ByteArray} (h : s.Has key metadata bytes) :
    s.shown key = some (metadata, Hex.encode (Sha256.digest bytes), .ok bytes) := by
  obtain ⟨c, hc, rfl, hkeeps⟩ := h
  rw [RevisionStore.shown, hc, Option.map_some, Hex.spells_iff.mp hkeeps.digest_spells,
    attachmentBytes_of_keeps hkeeps]

theorem mem_of_attachment? {c : Committed} (h : s.attachment? key = some c) :
    (key, c) ∈ s.attachments := by
  obtain ⟨entry, hfind, rfl⟩ := Option.map_eq_some_iff.mp h
  have hkey : decide (entry.1 = key) = true :=
    List.find?_some (p := fun entry : AttachmentKey × Committed => decide (entry.1 = key)) hfind
  rw [← of_decide_eq_true hkey]
  exact List.mem_of_find?_eq_some hfind

theorem Advances.shown (h : Advances fragments s t) (hs : s.Intact)
    (hkey : ∀ g ∈ fragments, ¬ g.Fetches key) : t.shown key = s.shown key := by
  rw [RevisionStore.shown, RevisionStore.shown, h.others key hkey]
  cases hc : s.attachment? key with
  | none => rfl
  | some c =>
    have hinside := hs _ (mem_of_attachment? hc)
    rw [Option.map_some, Option.map_some, h.attachmentBytes hinside]

end RevisionStore

/-- Memory takes every append, so what is copied into it does not matter to the copying. -/
theorem copyChunks_elsewhere (source : Backend) (target other : Memory) (copied total : Nat) :
    (copyChunks source other copied total).1 = (copyChunks source target copied total).1 := by
  fun_induction copyChunks source target copied total generalizing other with
  | case1 source target copied hlt length e source' hread =>
    rw [copyChunks, dif_pos hlt]
    simp only [length] at hread
    simp only [hread]
  | case2 source target copied hlt length chunk source' hread e target'' happend => cases happend
  | case3 source target copied hlt length chunk source' hread offset target'' happend ih =>
    rw [copyChunks, dif_pos hlt]
    simp only [length] at hread
    simp only [hread]
    exact ih (Storage.append other chunk).2
  | case4 source target copied hge => rw [copyChunks, dif_neg hge]

theorem Staged.commit_elsewhere (s : Staged) (blobs other : Memory) :
    (s.commit other).1.map (fun _ => ()) = (s.commit blobs).1.map (fun _ => ()) := by
  have hcopy := copyChunks_elsewhere s.storage blobs other 0 s.storedLength
  unfold Staged.commit
  cases s.verify with
  | error e => rfl
  | ok _ =>
    cases hother : copyChunks s.storage other 0 s.storedLength with
    | mk result other' =>
      cases hblobs : copyChunks s.storage blobs 0 s.storedLength with
      | mk result' blobs' =>
        rw [hother, hblobs] at hcopy
        obtain rfl : result = result' := hcopy
        cases result <;> rfl

namespace RevisionStore

variable {s t s' : RevisionStore} {f : Fragment} {fragments : List Fragment} {key : AttachmentKey}
  {attachments : List (String × Staged)}

theorem commitAll_uncapped {capacity : Option Nat} {blobs blobs' : Memory}
    {committed : List (String × Committed)}
    (h : commitAll capacity blobs attachments = (.ok committed, blobs')) :
    commitAll none blobs attachments = (.ok committed, blobs') := by
  induction attachments generalizing blobs committed with
  | nil => exact h
  | cons attachment rest ih =>
    obtain ⟨name, staged⟩ := attachment
    obtain ⟨c, between, others, _, hone, hrest, rfl⟩ := commitAll_cons_eq_ok h
    simp only [commitAll, checkCapacity, hone, ih hrest]

/-- Without a capacity it does not matter to the committing what the blob area holds. -/
theorem commitAll_elsewhere (attachments : List (String × Staged)) (blobs other : Memory) :
    (commitAll none other attachments).1.map (fun _ => ()) =
      (commitAll none blobs attachments).1.map (fun _ => ()) := by
  induction attachments generalizing blobs other with
  | nil => rfl
  | cons attachment rest ih =>
    obtain ⟨name, staged⟩ := attachment
    have hfirst := staged.commit_elsewhere blobs other
    simp only [commitAll, checkCapacity]
    rcases hother : staged.commit other with ⟨_ | c', between'⟩ <;>
      rcases hblobs : staged.commit blobs with ⟨_ | c, between⟩ <;>
      rw [hother, hblobs] at hfirst
    case error.error =>
      obtain rfl := Except.error.inj hfirst
      rfl
    case ok.ok =>
      have hrest := ih between between'
      dsimp only
      rcases hother' : commitAll none between' rest with ⟨_ | others', last'⟩ <;>
        rcases hblobs' : commitAll none between rest with ⟨_ | others, last⟩ <;>
        rw [hother', hblobs'] at hrest <;> cases hrest <;> rfl
    all_goals cases hfirst

/-- What one store takes, a store that knows more takes too. -/
theorem insert_elsewhere (h : s.insert f attachments = (.ok (), s')) (hstrict : t.strict = s.strict)
    (hcapacity : t.capacity = none)
    (hknown : ∀ document r, s.contains document r = true → t.contains document r = true) :
    ∃ t', t.insert f attachments = (.ok (), t') := by
  obtain ⟨hadmits, hverify, committed, blobs, hcommit, _⟩ := insert_eq_ok.mp h
  have hsame := commitAll_elsewhere attachments s.blobs t.blobs
  rw [commitAll_uncapped hcommit] at hsame
  obtain ⟨committed', hcommit', _⟩ := map_eq_ok.mp hsame
  rw [← hcapacity] at hcommit'
  refine ⟨_, insert_eq_ok.mpr ⟨fun ht => ?_, hverify, committed', _, Prod.ext hcommit' rfl, rfl⟩⟩
  have hanchored := (isAnchored_iff s f).mp (hadmits (hstrict ▸ ht))
  refine (isAnchored_iff t f).mpr (hanchored.mono fun r hr => ?_)
  exact hr.imp (hknown f.document r) fun ⟨g, hg, _⟩ => nomatch hg

/-- The second store knows all that the first one knows, and they show the same attachments, apart
from those that the fragments fetch. -/
structure Ahead (fragments : List Fragment) (s t : RevisionStore) : Prop where
  strict : t.strict = s.strict
  capacity : t.capacity = none
  known : ∀ document r, s.contains document r = true → t.contains document r = true
  intact : s.Intact ∧ t.Intact
  shown : ∀ key, (∀ f ∈ fragments, ¬ f.Fetches key) → t.shown key = s.shown key

theorem contains_insert (h : s.insert f attachments = (.ok (), s')) (document : String)
    (r : RevisionId) :
    s'.contains document r = true ↔
      s.contains document r = true ∨ f.document = document ∧ r ∈ f.revisions := by
  obtain ⟨_, _, committed, blobs, _, rfl⟩ := insert_eq_ok.mp h
  exact contains_extended s f _ committed blobs document r

/-- What the fragment fetches shows in both stores as it was staged; the rest is as it was. -/
theorem shown_insert {t' : RevisionStore} (h : s.insert f attachments = (.ok (), s'))
    (h' : t.insert f attachments = (.ok (), t')) (hintact : s.Intact ∧ t.Intact)
    (hnames : attachments.map (·.1) = f.pendingNames)
    (hseals : ∀ a ∈ attachments, ∃ bytes, a.2.Seals bytes)
    (hkey : ¬ f.Fetches key → t.shown key = s.shown key) : t'.shown key = s'.shown key := by
  by_cases hfetches : f.Fetches key
  · obtain ⟨name, hname, rfl⟩ := hfetches
    rw [← hnames] at hname
    obtain ⟨⟨_, staged⟩, hmem, rfl⟩ := List.mem_map.mp hname
    obtain ⟨bytes, hbytes⟩ := hseals _ hmem
    have hnodup : (attachments.map (·.1)).Nodup := hnames ▸ f.pendingNames_nodup
    rw [(insert_has h' hnodup hmem hbytes).shown, (insert_has h hnodup hmem hbytes).shown]
  · have hone : ∀ g ∈ [f], ¬ g.Fetches key := fun g hg => List.mem_singleton.mp hg ▸ hfetches
    rw [(insert_advances h' hnames hseals).shown hintact.2 hone,
      (insert_advances h hnames hseals).shown hintact.1 hone]
    exact hkey hfetches

/-- A fragment that the first store takes is taken by both, and need not be fetched any more. -/
theorem Ahead.insert {rest : List Fragment} (hahead : Ahead (f :: rest) s t)
    (h : s.insert f attachments = (.ok (), s')) (hnames : attachments.map (·.1) = f.pendingNames)
    (hseals : ∀ a ∈ attachments, ∃ bytes, a.2.Seals bytes) :
    ∃ t', t.insert f attachments = (.ok (), t') ∧ Ahead rest s' t' := by
  obtain ⟨t', ht'⟩ := insert_elsewhere h hahead.strict hahead.capacity hahead.known
  have hs := insert_advances h hnames hseals
  have ht := insert_advances ht' hnames hseals
  refine ⟨t', ht', ?_, ht.capacity.trans hahead.capacity, fun d r hr => ?_,
    ⟨hs.intact hahead.intact.1, ht.intact hahead.intact.2⟩, fun key hkey => ?_⟩
  · rw [ht.strict, hs.strict, hahead.strict]
  · have hr' := (contains_insert h d r).mp hr
    exact (contains_insert ht' d r).mpr (hr'.imp_left (hahead.known d r))
  · refine shown_insert h ht' hahead.intact hnames hseals fun hfetches => ?_
    exact hahead.shown key (List.forall_mem_cons.mpr ⟨hfetches, hkey⟩)

end RevisionStore

namespace Session

/-- Nobody cancels the session, and nothing fails in it any more. -/
structure Calm (contents : List (AttachmentKey × ByteArray)) (s : Session) : Prop where
  clear : s.cancelled = false
  failures : s.source.failures = []
  contents : s.source.contents = contents

theorem Calm.agree {contents : List (AttachmentKey × ByteArray)} {a b : Session}
    (ha : a.Calm contents) (hb : b.Calm contents) (key : AttachmentKey) : Agree key a b where
  cancelled := ha.clear.trans hb.clear.symm
  content := by rw [MemorySource.content?, ha.contents, MemorySource.content?, hb.contents]
  failures := by rw [ha.failures, hb.failures]

theorem preserves_calm (contents : List (AttachmentKey × ByteArray)) (key : AttachmentKey) :
    surroundings.Preserves (Calm contents) key where
  look h := h
  opening {o} h := by
    change Calm contents (openStream key o).2
    rw [openStream_eq, MemorySource.openStream_eq]
    refine ⟨h.clear, ?_, h.contents⟩
    have hsub := MemorySource.takeFailure_sublist key o.source.failures
    rw [h.failures] at hsub ⊢
    exact List.sublist_nil.mp hsub

end Session

namespace Processor

variable {config : PullConfig} {contents : List (AttachmentKey × ByteArray)} {a b : Session}

/-- In calm sessions the same attachments are staged. -/
theorem stageAttachments_calm (ha : a.Calm contents) (hb : b.Calm contents) (f : Fragment) :
    (stageAttachments Session.surroundings config f b).1 =
      (stageAttachments Session.surroundings config f a).1 := by
  rw [stageAttachments_alone, stageAttachments_alone, alone_agree fun name _ => hb.agree ha _]

/-- What is delivered to a store is delivered to one ahead of it, and brings the two together. -/
theorem Delivers.again {s t s' : RevisionStore} {a' : Session} {fragments : List Fragment}
    (h : Delivers Session.surroundings config s a fragments s' a') (ha : a.Calm contents)
    (hb : b.Calm contents) (hahead : RevisionStore.Ahead fragments s t) :
    ∃ t' b', Delivers Session.surroundings config t b fragments t' b' ∧
      RevisionStore.Ahead [] s' t' := by
  induction h generalizing t b with
  | nil => exact ⟨t, b, .nil t b, hahead⟩
  | @cons s s₁ s' a a₁ a₂ a₃ f rest items hclear hstage haccept _ ih =>
    obtain ⟨_, rfl⟩ := checkCancelled_eq_ok.mp hclear
    obtain ⟨t₁, haccept', hnext⟩ := hahead.insert haccept (names_handedOver hstage)
      (stageAttachments_seals hstage)
    have hitems : (stageAttachments Session.surroundings config f b).1 = .ok items := by
      rw [stageAttachments_calm ha hb, hstage]
    have ha₂ : (stageAttachments Session.surroundings config f _).2.Calm contents :=
      Surroundings.Preserves.stageAttachments (Session.preserves_calm contents) f ha
    rw [hstage] at ha₂
    have hb₂ : (stageAttachments Session.surroundings config f b).2.Calm contents :=
      Surroundings.Preserves.stageAttachments (Session.preserves_calm contents) f hb
    obtain ⟨t', b', hothers, hlast⟩ := ih ha₂ hb₂ hnext
    have hclear' : checkCancelled Session.surroundings b = (.ok (), b) := by
      rw [checkCancelled_session, hb.clear]
      rfl
    exact ⟨t', b', .cons hclear' (Prod.ext hitems rfl) haccept' hothers, hlast⟩

/-- What failed pulls of the fragments can make of a store, each failing for any reason, whatever it
met outside. -/
inductive AfterFailures (fragments : List Fragment) (s : RevisionStore) : RevisionStore → Prop
  | none : AfterFailures fragments s s
  | again {σ : Type} {env : Surroundings σ} {config : PullConfig} {p q : Processor σ}
      {e : PullError} (before : AfterFailures fragments s p.store)
      (failed : process env config p fragments = (.error e, q)) :
      AfterFailures fragments s q.store

theorem AfterFailures.advances {fragments : List Fragment} {s t : RevisionStore}
    (h : AfterFailures fragments s t) : RevisionStore.Advances fragments s t := by
  induction h with
  | none => exact .refl fragments s
  | @again _ env config p q _ _ hfailed ih =>
    have hlast := process_advances env config p fragments
    rw [hfailed] at hlast
    exact ih.trans hlast

/-- **A failed pull can be repeated.** However many pulls of a batch have failed, for whatever
reason: if from the store at the beginning a pull of the batch succeeds where nothing fails, it
succeeds from the store they have left behind, with the same result. The two stores know the same
revisions and show the same attachments. The store at the beginning is intact, as every store is
that began empty, by `intact_submitAll`. -/
theorem process_after_failures {fragments : List Fragment} {s t : RevisionStore}
    {stats stats' : PullStats} {pull : DocumentPull} {q : Processor Session}
    (hcapacity : s.capacity = none) (hintact : s.Intact) (hfailures : AfterFailures fragments s t)
    (ha : a.Calm contents) (hb : b.Calm contents)
    (h : process Session.surroundings config ⟨s, stats, a⟩ fragments = (.ok pull, q)) :
    ∃ q', process Session.surroundings config ⟨t, stats', b⟩ fragments = (.ok pull, q') ∧
      (∀ document r, q'.store.contains document r = q.store.contains document r) ∧
      ∀ key, q'.store.shown key = q.store.shown key := by
  obtain ⟨batch, o, hbatch, rfl, hdelivers⟩ := process_ok_delivers h
  have hadvances := hfailures.advances
  have hmem (f : Fragment) : f ∈ batch.fragments ↔ f ∈ fragments := Batch.mem_fragments hbatch
  have hahead : RevisionStore.Ahead batch.fragments s t := by
    refine ⟨hadvances.strict, hadvances.capacity.trans hcapacity, hadvances.keeps,
      ⟨hintact, hadvances.intact hintact⟩, fun key hkey => ?_⟩
    exact hadvances.shown hintact fun f hf => hkey f ((hmem f).mpr hf)
  obtain ⟨t', b', hagain, hlast⟩ := Delivers.again hdelivers ha hb hahead
  obtain ⟨stats'', hrun⟩ := Delivers.process (p := ⟨t, stats', b⟩) hb.clear hbatch hagain
  refine ⟨_, hrun, fun document r => ?_, fun key => hlast.shown key nofun⟩
  refine Bool.eq_iff_iff.mpr ⟨fun hr => ?_, hlast.known document r⟩
  have hbefore := (hagain.leftWith.revisions document r).mp hr
  refine (hdelivers.leftWith.revisions document r).mpr ?_
  rcases hbefore with hknown | hbatched
  · exact (hadvances.known document r hknown).imp_right
      fun ⟨f, hf, hrest⟩ => ⟨f, (hmem f).mpr hf, hrest⟩
  · exact Or.inr hbatched

/-- A pull that inserts its first fragment and has no content for its second one. -/
def cut : Except PullError DocumentPull × Processor Session :=
  process Session.surroundings twice ⟨{ strict := true }, {}, {}⟩ [RevisionStore.root, illustrated]

theorem calm_calmed (opens : Nat) : (calmed opens).Calm [(scan, ⟨#[1, 2]⟩)] := ⟨rfl, rfl, rfl⟩

theorem delivers_both : ∃ t, Delivers Session.surroundings twice { strict := true } (calmed 0)
    [RevisionStore.root, illustrated] t (calmed 1) := by
  have hfirst : ({ strict := true } : RevisionStore).insert RevisionStore.root [] =
      (.ok (), ({ strict := true } : RevisionStore).extended RevisionStore.root [] [] {}) :=
    RevisionStore.insert_bare _ _ fun _ => rfl
  obtain ⟨t, hsecond⟩ : ∃ t, (({ strict := true } : RevisionStore).extended
      RevisionStore.root [] [] {}).insert illustrated [("scan", pictured)] = (.ok (), t) := by
    unfold pictured wholly
    generalize Sha256.digest = digest
    exact ⟨_, by cbv⟩
  have hstage := stage_illustrated (RetryPolicy.persist_ok (attempt_calmed 0))
  exact ⟨t, .cons rfl (stageAttachments_bare rfl _) hfirst
    (.cons rfl hstage hsecond (.nil t (calmed 1)))⟩

theorem process_after_failures_cut :
    cut.2.store.log.length = 1 ∧ ∃ pull q q',
      process Session.surroundings twice ⟨{ strict := true }, {}, calmed 0⟩
        [RevisionStore.root, illustrated] = (.ok pull, q) ∧
      process Session.surroundings twice ⟨cut.2.store, {}, calmed 7⟩
        [RevisionStore.root, illustrated] = (.ok pull, q') ∧
      ∀ key, q'.store.shown key = q.store.shown key := by
  obtain ⟨e, hfailed⟩ : ∃ e, cut.1 = .error e := ⟨_, by cbv⟩
  have hfailures : AfterFailures [RevisionStore.root, illustrated] { strict := true } cut.2.store :=
    .again .none (Prod.ext hfailed rfl)
  have hintact : ({ strict := true } : RevisionStore).Intact :=
    RevisionStore.intact_submitAll true none [] fun _ hcall => absurd hcall List.not_mem_nil
  have hbatch : Batch.new [RevisionStore.root, illustrated] =
      .ok ⟨"note", [RevisionStore.root, illustrated]⟩ := by cbv
  obtain ⟨t, hdelivers⟩ := delivers_both
  obtain ⟨stats, hrun⟩ := Delivers.process (p := ⟨{ strict := true }, {}, calmed 0⟩) rfl hbatch
    hdelivers
  obtain ⟨q', hagain, _, hshown⟩ := process_after_failures rfl hintact hfailures
    (calm_calmed 0) (calm_calmed 7) hrun
  exact ⟨by cbv, _, _, q', hrun, hagain, hshown⟩

end Processor

end Replica
