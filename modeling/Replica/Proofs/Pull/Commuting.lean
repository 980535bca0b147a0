import Replica.Proofs.Pull.Ledger
import Replica.Proofs.Pull.OtherDocuments

/-!
# Pulls of different documents commute

What a pull comes to is decided by what its store knows of its own documents and by what the source
has for them. So behind a pull of other documents it comes to the same, adds the same to the counts,
and makes as many openings; and of two pulls that have no document in common each may be the first.
The order can be seen in the log as a whole and in the places of the blobs, not in what belongs to
one document. A capacity would be shared, and is left out. Each pull takes its turns in order here;
`Processor.processUnder_session` says that it comes to the same under every schedule.
-/
namespace Replica

namespace PullStats

theorem plus_comm (a b : PullStats) : a.plus b = b.plus a := by
  simp only [plus, PullStats.mk.injEq]
  omega

theorem plus_right_comm (a b c : PullStats) : (a.plus b).plus c = (a.plus c).plus b := by
  simp only [plus, PullStats.mk.injEq]
  omega

theorem plus_right_cancel {a b c : PullStats} (h : a.plus c = b.plus c) : a = b := by
  cases a
  cases b
  simp only [plus, PullStats.mk.injEq, Nat.add_right_cancel_iff] at h ⊢
  exact h

/-- What both counts gain keeps them as far apart as they were. -/
theorem plus_gain {a b a₀ b₀ : PullStats} (h : a.plus b₀ = b.plus a₀) (gain : PullStats) :
    (a.plus gain).plus b₀ = (b.plus gain).plus a₀ := by
  rw [plus_right_comm, h, plus_right_comm]

end PullStats

namespace RevisionStore

variable {mine : String → Prop} {s t s' t' : RevisionStore} {f : Fragment}
  {attachments : List (String × Staged)}

/-- The checks and the committing decide together, the first of them that fails. -/
theorem insert_fst (s : RevisionStore) (f : Fragment) (attachments : List (String × Staged)) :
    (s.insert f attachments).1 =
      (if s.strict then s.checkAncestry f else .ok ()) >>= fun _ =>
        verifyAll attachments >>= fun _ =>
          (commitAll s.capacity s.blobs attachments).1.map fun _ => () := by
  unfold insert
  cases hancestry : (if s.strict then s.checkAncestry f else .ok ()) with
  | error e => rfl
  | ok _ =>
    cases hverify : verifyAll attachments with
    | error e => rfl
    | ok _ =>
      cases hcommit : commitAll s.capacity s.blobs attachments with
      | mk result blobs => cases result <;> rfl

theorem Alike.checkAncestry (h : Alike mine s t) (hmine : mine f.document) :
    s.checkAncestry f = t.checkAncestry f := by
  have hknown (r : RevisionId) : s.KnownAfter [] f.document r ↔ t.KnownAfter [] f.document r := by
    rw [KnownAfter, KnownAfter, h.contains f.document hmine r]
  have hanchored : s.isAnchored f = t.isAnchored f := by
    rw [Bool.eq_iff_iff, isAnchored_iff, isAnchored_iff]
    exact ⟨fun hs => hs.mono fun r => (hknown r).mp, fun ht => ht.mono fun r => (hknown r).mpr⟩
  rw [RevisionStore.checkAncestry, RevisionStore.checkAncestry, hanchored]

theorem Alike.insert_fst (h : Alike mine s t) (hmine : mine f.document)
    (attachments : List (String × Staged)) :
    (s.insert f attachments).1 = (t.insert f attachments).1 := by
  rw [RevisionStore.insert_fst, RevisionStore.insert_fst, h.strict, h.checkAncestry hmine,
    h.capacity.1, h.capacity.2, commitAll_elsewhere attachments s.blobs t.blobs]

theorem logOf_insert (h : s.insert f attachments = (.ok (), s')) (document : String) :
    s'.logOf document = s.logOf document ++
      [f.entry (attachments.map (·.1))].filter fun entry => entry.document = document := by
  obtain ⟨_, _, committed, blobs, _, rfl⟩ := insert_eq_ok.mp h
  exact List.filter_append ..

/-- Both stores take a fragment of one of the documents or neither does, and they stay alike. -/
theorem Alike.insert (h : Alike mine s t) (hmine : mine f.document)
    (hnames : attachments.map (·.1) = f.pendingNames)
    (hseals : ∀ a ∈ attachments, ∃ bytes, a.2.Seals bytes) :
    InStep (Alike mine) (s.insert f attachments) (t.insert f attachments) := by
  have hsame := h.insert_fst hmine attachments
  refine ⟨hsame, ?_⟩
  rcases s.insert_cases f attachments with ⟨e, hs⟩ | ⟨s', hs⟩ <;>
    rcases t.insert_cases f attachments with ⟨e', ht⟩ | ⟨t', ht⟩ <;> rw [hs, ht] at hsame ⊢
  case inl.inl => exact h
  case inr.inr =>
    have hadds := insert_advances hs hnames hseals
    have hadds' := insert_advances ht hnames hseals
    constructor
    · rw [hadds.strict, hadds'.strict, h.strict]
    · exact ⟨hadds.capacity.trans h.capacity.1, hadds'.capacity.trans h.capacity.2⟩
    · exact ⟨hadds.intact h.intact.1, hadds'.intact h.intact.2⟩
    · intro d hd r
      rw [Bool.eq_iff_iff, contains_insert hs, contains_insert ht, h.contains d hd r]
    · intro key hkey
      exact shown_insert ht hs h.intact.symm hnames hseals fun _ => h.shown key hkey
    · intro d hd
      rw [logOf_insert hs, logOf_insert ht, h.log d hd]
  all_goals cases hsame

end RevisionStore

namespace Session

/-- Sessions that are alike for the documents in question, and have made as many openings since they
had made `m` and `n`. -/
structure Abreast (mine : String → Prop) (m n : Nat) (s t : Session) : Prop where
  alike : Alike mine s t
  opens : s.source.opens + n = t.source.opens + m

theorem respects_abreast {mine : String → Prop} {m n : Nat} {key : AttachmentKey}
    (hmine : mine key.document) : surroundings.Respects (Abreast mine m n) key where
  look h := ⟨h.alike.cancelled, h⟩
  opening {s t} h := by
    have hopens := h.opens
    refine ⟨((respects_agree key).opening (h.alike.agree key hmine)).1, ?_⟩
    change Abreast mine m n (openStream key s).2 (openStream key t).2
    simp only [openStream_eq, MemorySource.openStream_eq]
    refine ⟨⟨h.alike.cancelled, fun other hother => ?_⟩, ?_⟩
    · have hagree := h.alike.agree other hother
      refine ⟨hagree.cancelled, hagree.content, ?_⟩
      rw [MemorySource.failuresOf_takeFailure, MemorySource.failuresOf_takeFailure,
        hagree.failures]
    · show s.source.opens + 1 + n = t.source.opens + 1 + m
      omega

end Session

namespace Processor

variable {σ : Type} {env : Surroundings σ} {config : PullConfig} {R : σ → σ → Prop}
  {mine : String → Prop} {a b : PullStats}

/-- Processors with stores that are alike for the documents in question, in related surroundings,
whose counts have grown alike since they were `a` and `b`. -/
structure Abreast (R : σ → σ → Prop) (mine : String → Prop) (a b : PullStats) (p q : Processor σ) :
    Prop where
  store : p.store.Alike mine q.store
  outside : R p.outside q.outside
  stats : p.stats.plus b = q.stats.plus a

theorem Abreast.processFragment {p q : Processor σ} (h : Abreast R mine a b p q)
    (hkeys : ∀ key, mine key.document → env.Respects R key) {f : Fragment}
    (hmine : mine f.document) :
    InStep (Abreast R mine a b) (processFragment env config p f)
      (processFragment env config q f) := by
  have hfetched (name : String) : env.Respects R ⟨f.document, f.leaf, name⟩ := hkeys _ hmine
  unfold Processor.processFragment
  cases hp : checkCancelled env p.outside with
  | mk result o =>
    obtain ⟨o', hq, hlooked⟩ := ((hfetched "").check h.outside).of_left hp
    rw [hq]
    cases result with
    | error e => exact ⟨rfl, h.store, hlooked, h.stats⟩
    | ok _ =>
      dsimp only
      cases hstage : stageAttachments env config f o with
      | mk result o₂ =>
        have hstages : InStep R (stageAttachments env config f o)
            (stageAttachments env config f o') :=
          Surroundings.Respects.stageAttachments hfetched hlooked
        obtain ⟨o₂', hstage', hstaged⟩ := hstages.of_left hstage
        rw [hstage']
        cases result with
        | error e => exact ⟨rfl, h.store, hstaged, h.stats⟩
        | ok items =>
          dsimp only
          have hinserts := h.store.insert hmine (names_handedOver hstage)
            (stageAttachments_seals hstage)
          cases hinsert : p.store.insert f (items.map fun i => (i.name, i.staged)) with
          | mk result s =>
            obtain ⟨t, hinsert', hstores⟩ := hinserts.of_left hinsert
            rw [hinsert']
            cases result with
            | error e => exact ⟨rfl, hstores, hstaged, h.stats⟩
            | ok _ =>
              refine ⟨rfl, hstores, hstaged, ?_⟩
              rw [PullStats.countInserted_eq, PullStats.countInserted_eq]
              exact PullStats.plus_gain h.stats _

theorem Abreast.processFragments {p q : Processor σ} (h : Abreast R mine a b p q)
    (hkeys : ∀ key, mine key.document → env.Respects R key) {fragments : List Fragment}
    (hmine : ∀ f ∈ fragments, mine f.document) :
    InStep (Abreast R mine a b) (processFragments env config p fragments)
      (processFragments env config q fragments) := by
  induction fragments generalizing p q with
  | nil => exact ⟨rfl, h⟩
  | cons f rest ih =>
    obtain ⟨hf, hrest⟩ := List.forall_mem_cons.mp hmine
    unfold Processor.processFragments
    cases hp : Processor.processFragment env config p f with
    | mk result p' =>
      obtain ⟨q', hq, hnext⟩ := (h.processFragment hkeys hf).of_left hp
      rw [hq]
      cases result with
      | error e => exact ⟨rfl, hnext⟩
      | ok n =>
        obtain ⟨hothers, hlast⟩ := ih hnext hrest
        exact ⟨congrArg (Except.map _) hothers, hlast⟩

theorem Abreast.processDocument {p q : Processor σ} (h : Abreast R mine a b p q)
    (hlook : ∀ {s t}, R s t → InStep R (env.isCancelled s) (env.isCancelled t))
    (hkeys : ∀ key, mine key.document → env.Respects R key) {fragments : List Fragment}
    (hmine : ∀ f ∈ fragments, mine f.document) :
    InStep (Abreast R mine a b) (processDocument env config p fragments)
      (processDocument env config q fragments) := by
  unfold Processor.processDocument
  cases hp : checkCancelled env p.outside with
  | mk result o =>
    obtain ⟨o', hq, hlooked⟩ := (InStep.check (hlook h.outside)).of_left hp
    have hnext : Abreast R mine a b { p with outside := o } { q with outside := o' } :=
      ⟨h.store, hlooked, h.stats⟩
    rw [hq]
    cases result with
    | error e => exact ⟨rfl, hnext⟩
    | ok _ =>
      dsimp only
      split
      · exact ⟨rfl, hnext⟩
      · rename_i batch hbatch
        have hbatched : ∀ f ∈ batch.fragments, mine f.document := fun f hf =>
          hmine f ((Batch.mem_fragments hbatch).mp hf)
        obtain ⟨hsame, hlast⟩ := hnext.processFragments hkeys hbatched
        exact ⟨congrArg (Except.map _) hsame, hlast⟩

/-- Where the stores and the surroundings are alike for the documents of a pull, it comes to the
same, and brings both processors equally far. -/
theorem Abreast.process {p q : Processor σ} (h : Abreast R mine a b p q)
    (hlook : ∀ {s t}, R s t → InStep R (env.isCancelled s) (env.isCancelled t))
    (hkeys : ∀ key, mine key.document → env.Respects R key) {fragments : List Fragment}
    (hmine : ∀ f ∈ fragments, mine f.document) :
    InStep (Abreast R mine a b) (process env config p fragments)
      (process env config q fragments) := by
  unfold Processor.process
  cases hp : Processor.processDocument env config p fragments with
  | mk result p' =>
    obtain ⟨q', hq, hnext⟩ := (h.processDocument hlook hkeys hmine).of_left hp
    rw [hq]
    have hstats := PullStats.plus_gain hnext.stats
    cases result with
    | error e => exact ⟨rfl, hnext.store, hnext.outside, hstats { failedDocuments := 1 }⟩
    | ok pull => exact ⟨rfl, hnext.store, hnext.outside, hstats { documents := 1 }⟩

end Processor

namespace RevisionStore

variable {s t : RevisionStore} {key : AttachmentKey}

/-- The record of a key, apart from its place in the blob area, and the bytes that it reads. -/
def recorded (s : RevisionStore) (key : AttachmentKey) :
    Option (Committed × Except PullError ByteArray) :=
  (s.attachment? key).map fun c => ({ c with offset := 0 }, s.attachmentBytes c)

theorem Intact.attachmentBytes (hs : s.Intact) {c : Committed} (hc : s.attachment? key = some c) :
    ∃ bytes, s.attachmentBytes c = .ok bytes ∧ bytes.size = c.length := by
  have hinside : c.offset + c.length ≤ s.blobs.bytes.size := hs _ (mem_of_attachment? hc)
  refine ⟨s.blobs.bytes.extract c.offset (c.offset + c.length), ?_, ?_⟩
  · unfold RevisionStore.attachmentBytes Memory.slice
    rw [if_neg (by omega)]
    rfl
  · rw [ByteArray.size_extract]
    omega

/-- All that is recorded can be seen: the length is the number of bytes. -/
theorem recorded_of_shown (hs : s.Intact) (ht : t.Intact) (h : s.shown key = t.shown key) :
    s.recorded key = t.recorded key := by
  unfold shown at h
  unfold recorded
  cases hc : s.attachment? key with
  | none =>
    rw [hc] at h
    rw [Option.map_eq_none_iff.mp h.symm]
    rfl
  | some c =>
    rw [hc] at h
    obtain ⟨d, hd, hsame⟩ := Option.map_eq_some_iff.mp h.symm
    obtain ⟨bytes, hbytes, hlength⟩ := hs.attachmentBytes hc
    obtain ⟨bytes', hbytes', hlength'⟩ := ht.attachmentBytes hd
    simp only [Prod.mk.injEq, hbytes, hbytes', Except.ok.injEq] at hsame
    obtain ⟨hmetadata, hdigest, rfl⟩ := hsame
    simp only [hd, Option.map_some, hbytes, hbytes', hmetadata, hdigest, ← hlength, hlength']

end RevisionStore

namespace Processor

/-- The processors have come to the same, up to the order in which documents came to their logs and
blob areas. -/
structure UpToOrder (p q : Processor Session) : Prop where
  revisions : ∀ document r, p.store.contains document r = q.store.contains document r
  attachments : ∀ key, p.store.recorded key = q.store.recorded key
  log : ∀ document, p.store.logOf document = q.store.logOf document
  stats : p.stats = q.stats
  opens : p.outside.source.opens = q.outside.source.opens
  failures : ∀ key, MemorySource.failuresOf key p.outside.source.failures =
    MemorySource.failuresOf key q.outside.source.failures

variable {config : PullConfig} {p : Processor Session} {mine : String → Prop}
  {ours theirs : List Fragment}

/-- The processor behind a pull from its session. -/
def after (config : PullConfig) (fragments : List Fragment) (p : Processor Session) :
    Processor Session := (process Session.surroundings config p fragments).2

/-- Processors that have come equally far since they were `p₀` and `q₀`. -/
def AbreastSince (mine : String → Prop) (p₀ q₀ p q : Processor Session) : Prop :=
  Abreast (Session.Abreast mine p₀.outside.source.opens q₀.outside.source.opens) mine p₀.stats
    q₀.stats p q

/-- Behind a pull of other documents a pull comes to what it comes to without. -/
theorem process_behind (hcapacity : p.store.capacity = none) (hintact : p.store.Intact)
    (hours : ∀ f ∈ ours, mine f.document) (htheirs : ∀ f ∈ theirs, ¬ mine f.document) :
    InStep (AbreastSince mine p (after config theirs p))
      (process Session.surroundings config p ours)
      (process Session.surroundings config (after config theirs p) ours) := by
  have hstart : AbreastSince mine p (after config theirs p) p (after config theirs p) := by
    refine ⟨alike_process hcapacity hintact htheirs, ⟨alike_process_outside htheirs, ?_⟩, ?_⟩
    · exact Nat.add_comm _ _
    · exact PullStats.plus_comm _ _
  exact hstart.process (fun h => ⟨h.alike.cancelled, h⟩) (fun _ => Session.respects_abreast) hours

/-- As far as the documents of one of the pulls go, either may be the first. -/
theorem alike_either_order (hcapacity : p.store.capacity = none) (hintact : p.store.Intact)
    (hours : ∀ f ∈ ours, mine f.document) (htheirs : ∀ f ∈ theirs, ¬ mine f.document) :
    (after config ours (after config theirs p)).store.Alike mine
        (after config theirs (after config ours p)).store ∧
      (after config ours (after config theirs p)).outside.Alike mine
        (after config theirs (after config ours p)).outside := by
  obtain ⟨_, hbehind⟩ := @process_behind config p mine ours theirs hcapacity hintact hours htheirs
  have hstore : (after config ours p).store.Alike mine
      (after config ours (after config theirs p)).store := hbehind.store
  have hlast : (after config ours p).store.Alike mine
      (after config theirs (after config ours p)).store :=
    alike_process hstore.capacity.1 hstore.intact.1 htheirs
  exact ⟨hstore.symm.trans hlast,
    hbehind.outside.alike.symm.trans (alike_process_outside htheirs)⟩

/-- The document is not one of the fragments'. -/
def Apart (fragments : List Fragment) (document : String) : Prop :=
  ∀ f ∈ fragments, f.document ≠ document

theorem apart_of_ne (hapart : ∀ f ∈ ours, ∀ g ∈ theirs, f.document ≠ g.document) :
    ∀ f ∈ ours, Apart theirs f.document := fun f hf g hg => (hapart f hf g hg).symm

theorem not_apart (fragments : List Fragment) : ∀ f ∈ fragments, ¬ Apart fragments f.document :=
  fun f hf hapart => hapart f hf rfl

theorem apart_or_apart (hapart : ∀ f ∈ ours, ∀ g ∈ theirs, f.document ≠ g.document)
    (document : String) : Apart theirs document ∨ Apart ours document := by
  by_cases h : Apart theirs document
  · exact Or.inl h
  · simp only [Apart, not_forall, not_not] at h
    obtain ⟨g, hg, rfl⟩ := h
    exact Or.inr fun f hf => hapart f hf g hg

/-- **Pulls of different documents commute.** From a session, and into a store without a capacity
and all of whose records lie within its blob area, as they do in every store that began empty, by
`intact_submitAll`: of two pulls without a common document, valid or not, each comes to the same
whether it is the first or the second, and both orders leave behind the same, up to the order of
different documents. -/
theorem process_commute (config : PullConfig) {p : Processor Session}
    (hcapacity : p.store.capacity = none) (hintact : p.store.Intact) {ours theirs : List Fragment}
    (hapart : ∀ f ∈ ours, ∀ g ∈ theirs, f.document ≠ g.document) :
    (process Session.surroundings config (after config theirs p) ours).1 =
        (process Session.surroundings config p ours).1 ∧
      (process Session.surroundings config (after config ours p) theirs).1 =
        (process Session.surroundings config p theirs).1 ∧
      UpToOrder (after config ours (after config theirs p))
        (after config theirs (after config ours p)) := by
  have hapart' : ∀ g ∈ theirs, ∀ f ∈ ours, g.document ≠ f.document :=
    fun g hg f hf => (hapart f hf g hg).symm
  have hours := apart_of_ne hapart
  have htheirs := apart_of_ne hapart'
  obtain ⟨hsame, habreast⟩ := @process_behind config p _ ours theirs hcapacity hintact hours
    (not_apart theirs)
  obtain ⟨hsame', habreast'⟩ := @process_behind config p _ theirs ours hcapacity hintact htheirs
    (not_apart ours)
  obtain ⟨hstore, houtside⟩ := @alike_either_order config p _ ours theirs hcapacity hintact hours
    (not_apart theirs)
  obtain ⟨hstore', houtside'⟩ := @alike_either_order config p _ theirs ours hcapacity hintact
    htheirs (not_apart ours)
  refine ⟨hsame.symm, hsame'.symm, ?_⟩
  constructor
  · intro document r
    rcases apart_or_apart hapart document with h | h
    · exact hstore.contains document h r
    · exact (hstore'.contains document h r).symm
  · intro key
    apply RevisionStore.recorded_of_shown hstore.intact.1 hstore.intact.2
    rcases apart_or_apart hapart key.document with h | h
    · exact hstore.shown key h
    · exact (hstore'.shown key h).symm
  · intro document
    rcases apart_or_apart hapart document with h | h
    · exact hstore.log document h
    · exact (hstore'.log document h).symm
  · -- Both orders have gained what the two pulls gain alone.
    have hgained : (after config ours p).stats.plus (after config theirs p).stats =
      (after config ours (after config theirs p)).stats.plus p.stats := habreast.stats
    have hgained' : (after config theirs p).stats.plus (after config ours p).stats =
      (after config theirs (after config ours p)).stats.plus p.stats := habreast'.stats
    apply PullStats.plus_right_cancel (c := p.stats)
    rw [← hgained, ← hgained', PullStats.plus_comm]
  · have hopens := habreast.outside.opens
    have hopens' := habreast'.outside.opens
    unfold after at hopens hopens' ⊢
    omega
  · intro key
    rcases apart_or_apart hapart key.document with h | h
    · exact (houtside.agree key h).failures
    · exact (houtside'.agree key h).failures.symm

/-- A strict processor whose first stream will break off. -/
def strictly : Processor Session := ⟨{ strict := true }, {}, shaky⟩

theorem intact_strictly : strictly.store.Intact :=
  RevisionStore.intact_submitAll true none [] fun _ hcall => absurd hcall List.not_mem_nil

theorem process_strictly : ∃ pull,
    (process Session.surroundings twice strictly [illustrated]).1 = .ok pull := by
  obtain ⟨t, haccept⟩ : ∃ t, ({ strict := true } : RevisionStore).insert illustrated
      [("scan", pictured)] = (.ok (), t) := by
    unfold pictured wholly
    generalize Sha256.digest = digest
    exact ⟨_, by cbv⟩
  have hbatch : Batch.new [illustrated] = .ok ⟨"note", [illustrated]⟩ := by cbv
  have hdelivers : Delivers Session.surroundings twice strictly.store strictly.outside
      [illustrated] t (calmed 2) := .cons rfl stage_shaky haccept (.nil t (calmed 2))
  obtain ⟨stats, hrun⟩ := Delivers.process rfl hbatch hdelivers
  exact ⟨_, congrArg Prod.fst hrun⟩

/-- One pull has to repeat an attempt and succeeds, the other one inserts its first fragment and
fails. -/
theorem process_commute_halfway :
    (∀ f ∈ [illustrated], ∀ g ∈ [RevisionStore.fifth, Batch.trunk], f.document ≠ g.document) ∧
    ∃ pull e,
      (process Session.surroundings twice
        (after twice [RevisionStore.fifth, Batch.trunk] strictly) [illustrated]).1 = .ok pull ∧
      (process Session.surroundings twice (after twice [illustrated] strictly)
        [RevisionStore.fifth, Batch.trunk]).1 = .error e ∧
      UpToOrder
        (after twice [illustrated] (after twice [RevisionStore.fifth, Batch.trunk] strictly))
        (after twice [RevisionStore.fifth, Batch.trunk] (after twice [illustrated] strictly)) := by
  have hapart : ∀ f ∈ [illustrated], ∀ g ∈ [RevisionStore.fifth, Batch.trunk],
      f.document ≠ g.document := by decide
  obtain ⟨pull, hpull⟩ := process_strictly
  obtain ⟨e, hrefused⟩ : ∃ e, (process Session.surroundings twice strictly
      [RevisionStore.fifth, Batch.trunk]).1 = .error e := ⟨_, by cbv⟩
  obtain ⟨hsame, hsame', hend⟩ := process_commute twice rfl intact_strictly hapart
  exact ⟨hapart, pull, e, hsame.trans hpull, hsame'.trans hrefused, hend⟩

end Processor

end Replica
