import Replica.Proofs.Pull.Openings
import Replica.Proofs.Pull.Records

/-!
# A successful pull delivers everything

What is staged from a source in memory is the content of the attachment, whole: a stream that was
told to break off never ends, so no attempt that met one succeeds, and the bytes it gave go with its
storage. What is committed is what was staged, and has the length that was declared. If fragments of
the batch have a leaf in common, its attachments are fetched for each of them, from one content.
-/
namespace Replica

/-- The number of bytes that the reference declares, coded like that. -/
def Reference.declaredLength (r : Reference) : Encoding → UInt64
  | .identity => r.length
  | .gzip => r.encodedLength.getD r.length

theorem Reference.metadata_declared {r : Reference} {metadata : Metadata}
    (h : r.metadata = .ok metadata) :
    ∃ encoding, Encoding.ofName r.encoding = .ok encoding ∧
      metadata.declaredLength = (r.declaredLength encoding).toNat := by
  obtain ⟨encoding, hencoding, rfl⟩ := map_eq_ok.mp h
  refine ⟨encoding, hencoding, ?_⟩
  cases encoding <;> rfl

namespace Stream

theorem delivered_ofBytes (content : ByteArray) : (ofBytes content).delivered = content := by
  by_cases h : content.size = 0
  · simp only [delivered, ofBytes, deliveredBy, if_pos h]
    exact (ByteArray.size_eq_zero_iff.mp h).symm
  · simp only [delivered, ofBytes, deliveredBy, if_neg h, ByteArray.append_empty]

/-- A read of a stream that breaks off fails, or gives bytes and leaves such a stream. -/
theorem read_breakOff {s t : Stream} {content : ByteArray} {e : IoError} {capacity : Nat}
    {result : Except IoError ByteArray} (hs : s.events = [.breakOff content e])
    (h : s.read (capacity + 1) = (result, t)) :
    result = .error e ∨
      ∃ bytes left, result = .ok bytes ∧ bytes.size ≠ 0 ∧ t.events = [.breakOff left e] := by
  unfold read at h
  rw [hs] at h
  dsimp only at h
  split at h
  · exact Or.inl (Prod.mk.inj h).1.symm
  · obtain ⟨rfl, rfl⟩ := Prod.mk.inj h
    refine Or.inr ⟨_, _, rfl, ?_, rfl⟩
    rw [ByteArray.size_extract]
    omega

end Stream

namespace Stager

/-- A stream that breaks off has no end that a copy could come to. -/
theorem copyStream_breakOff {spare : Nat} {stream rest : Stream} {storage : Backend}
    {received content : ByteArray} {e : IoError} {copied : Backend × ByteArray}
    (hstream : stream.events = [.breakOff content e]) (hkind : e.kind ≠ .interrupted) :
    copyStream spare stream storage received ≠ (.ok copied, rest) := by
  intro h
  fun_induction copyStream spare stream storage received generalizing content with
  | case1 stream storage received failure stream' hread hagain =>
    rcases Stream.read_breakOff hstream hread with hfailed | ⟨_, _, hgiven, _⟩
    · rw [Except.error.inj hfailed] at hagain
      exact hkind hagain
    · cases hgiven
  | case2 => cases h
  | case3 stream storage received bytes stream' hread hend =>
    rcases Stream.read_breakOff hstream hread with hfailed | ⟨_, _, hgiven, hne, _⟩
    · cases hfailed
    · cases hgiven
      exact hne hend
  | case4 => cases h
  | case5 stream storage received bytes stream' hread hne offset storage' happend ih =>
    rcases Stream.read_breakOff hstream hread with hfailed | ⟨_, left, _, _, hleft⟩
    · cases hfailed
    · exact ih hleft h

theorem stage_breakingOff {s : Stager} {content : ByteArray} {after : Nat} {kind : IoErrorKind}
    {metadata : Metadata} {staged : Staged} (hkind : kind ≠ .interrupted) :
    (s.stage (MemorySource.breakingOff content after kind) metadata).1 ≠ .ok staged := by
  intro h
  unfold stage at h
  split at h
  · cases h
  · split at h
    · cases h
    · rename_i hcopy
      exact copyStream_breakOff rfl hkind hcopy

end Stager

namespace MemorySource

/-- No stream is told to break off with an interruption, which a reader takes for a pause. -/
def Uninterrupted (s : MemorySource) : Prop :=
  ∀ entry ∈ s.failures, ∀ after, entry.2 ≠ .midStream after .interrupted

/-- Only whole contents are staged. -/
theorem staged_answer {key : AttachmentKey} {failure : Option InjectedFailure}
    {content? : Option ByteArray} {stager : Stager} {metadata : Metadata} {staged : Staged}
    (hfailure : ∀ after, failure ≠ some (.midStream after .interrupted))
    (h : (Opening.ofAnswer (answer key failure content?)).staged stager metadata = .ok staged) :
    ∃ content, content? = some content ∧ staged.metadata = metadata ∧ staged.Seals content := by
  cases content? with
  | none => rcases failure with _ | kind | ⟨after, kind⟩ <;> cases h
  | some content =>
    rcases failure with _ | kind | ⟨after, kind⟩
    · have hstage := mapError_eq_ok.mp h
      obtain ⟨hmetadata, hseals⟩ := Stager.stage_eq_ok (Prod.ext hstage rfl)
      rw [Stream.delivered_ofBytes] at hseals
      exact ⟨content, rfl, hmetadata, hseals⟩
    · cases h
    · have hkind : kind ≠ .interrupted := fun heq => hfailure after (by rw [heq])
      exact absurd (mapError_eq_ok.mp h) (Stager.stage_breakingOff hkind)

theorem takeFailure_sublist (key : AttachmentKey)
    (failures : List (AttachmentKey × InjectedFailure)) :
    (takeFailure key failures).2.Sublist failures := by
  induction failures with
  | nil => exact .refl _
  | cons entry rest ih =>
    rw [takeFailure]
    by_cases h : entry.1 = key
    · rw [if_pos h]
      exact List.sublist_cons_self entry rest
    · rw [if_neg h]
      exact ih.cons_cons entry

theorem mem_of_failuresOf {key : AttachmentKey} {failure : InjectedFailure}
    {failures : List (AttachmentKey × InjectedFailure)} (h : failure ∈ failuresOf key failures) :
    (key, failure) ∈ failures := by
  obtain ⟨entry, hentry, rfl⟩ := List.mem_map.mp h
  obtain ⟨hmem, hkey⟩ := List.mem_filter.mp hentry
  rwa [← of_decide_eq_true hkey]

end MemorySource

/-- The surroundings open attachments of the source: each opening meets one of the failures that the
source had to begin with, or none. The openings may come in any order, and the flag is not bound. -/
structure Surroundings.Serves {σ : Type} (env : Surroundings σ) (source : MemorySource)
    (inv : σ → Prop) : Prop where
  look : ∀ {o}, inv o → inv (Processor.look env o)
  opening : ∀ key {o}, inv o → inv (env.openStream key o).2
  answers : ∀ key {o}, inv o → ∃ failure : Option InjectedFailure,
    (∀ x, failure = some x → (key, x) ∈ source.failures) ∧
      (env.openStream key o).1 =
        .ofAnswer (MemorySource.answer key failure (source.content? key))

theorem Surroundings.Serves.preserves {σ : Type} {env : Surroundings σ} {source : MemorySource}
    {inv : σ → Prop} (h : env.Serves source inv) (key : AttachmentKey) : env.Preserves inv key :=
  ⟨h.look, h.opening key⟩

namespace Session

/-- The session has the contents of the source, and no failures but those of the source. -/
def Draws (source : MemorySource) (s : Session) : Prop :=
  s.source.contents = source.contents ∧ s.source.failures ⊆ source.failures

/-- A session serves whatever its source has. -/
theorem serves (source : MemorySource) : surroundings.Serves source (Draws source) where
  look h := h
  opening key o h := by
    obtain ⟨hcontents, hfailures⟩ := h
    change Draws source (openStream key o).2
    rw [openStream_eq, MemorySource.openStream_eq]
    exact ⟨hcontents, List.Subset.trans (MemorySource.takeFailure_sublist key _).subset hfailures⟩
  answers key o h := by
    obtain ⟨hcontents, hfailures⟩ := h
    have hcontent : o.source.content? key = source.content? key := by
      rw [MemorySource.content?, hcontents, MemorySource.content?]
    refine ⟨(MemorySource.failuresOf key o.source.failures).head?, fun x hx => ?_, ?_⟩
    · exact hfailures (MemorySource.mem_of_failuresOf (List.mem_of_head? hx))
    · change (openStream key o).1 = _
      rw [openStream_eq, MemorySource.openStream_eq, hcontent]

end Session

namespace MemorySource

/-- The store has the content of the attachment, of the length that the reference declares. -/
def Delivered (source : MemorySource) (s : RevisionStore) (key : AttachmentKey)
    (reference : Reference) : Prop :=
  ∃ metadata content, reference.metadata = .ok metadata ∧ source.content? key = some content ∧
    content.size = metadata.declaredLength ∧ ∃ latest, s.Has key latest content

end MemorySource

namespace Memory

theorem Keeps.size_eq {blobs : Memory} {c : Committed} {bytes : ByteArray}
    (h : blobs.Keeps c bytes) : bytes.size = c.length := by
  have hinside := h.inside
  rw [← h.bytes_eq, ByteArray.size_extract]
  omega

end Memory

namespace Processor

variable {σ : Type} {env : Surroundings σ} {source : MemorySource} {inv : σ → Prop}
  {config : PullConfig}

theorem ComesOf.fetched {stager : Stager} {key : AttachmentKey} {reference : Reference}
    {item : StagedItem} (hserves : env.Serves source inv) (hsource : source.Uninterrupted)
    (h : ComesOf env inv stager key reference item) :
    ∃ metadata content, reference.metadata = .ok metadata ∧ source.content? key = some content ∧
      item.staged.metadata = metadata ∧ item.staged.Seals content := by
  obtain ⟨_, metadata, o, hmetadata, ho, hstaged⟩ := h
  obtain ⟨failure, hfailure, hanswer⟩ := hserves.answers key ho
  rw [hanswer] at hstaged
  have hkind : ∀ after, failure ≠ some (.midStream after .interrupted) := fun after heq =>
    hsource _ (hfailure _ heq) after rfl
  obtain ⟨content, hcontent, hmeta, hseals⟩ := MemorySource.staged_answer hkind hstaged
  exact ⟨metadata, content, hmetadata, hcontent, hmeta, hseals⟩

theorem accepted_delivered {s t : RevisionStore} {o o' : σ} {f : Fragment} {items : List StagedItem}
    (hserves : env.Serves source inv) (hsource : source.Uninterrupted) (ho : inv o)
    (hstage : stageAttachments env config f o = (.ok items, o'))
    (haccept : s.insert f (items.map fun i => (i.name, i.staged)) = (.ok (), t))
    {m : String × Reference} (hm : m ∈ f.pending) :
    source.Delivered t ⟨f.document, f.leaf, m.1⟩ m.2 := by
  have hitems := stageAttachments_comesOf hserves.preserves ho hstage
  obtain ⟨item, hitem, hfrom⟩ := exists_partner hitems m hm
  obtain ⟨metadata, content, hmetadata, hcontent, hmeta, hseals⟩ :=
    ComesOf.fetched hserves hsource hfrom
  have hnames : ((items.map fun i => (i.name, i.staged)).map (·.1)).Nodup := by
    rw [names_handedOver hstage]
    exact f.pendingNames_nodup
  have hmem : (m.1, item.staged) ∈ items.map fun i => (i.name, i.staged) := by
    rw [← show item.name = m.1 from hfrom.1]
    exact List.mem_map_of_mem hitem
  have hhas := RevisionStore.insert_has haccept hnames hmem hseals
  refine ⟨metadata, content, hmetadata, hcontent, ?_, _, hhas⟩
  obtain ⟨c, _, hc, hkeeps⟩ := hhas
  rw [hkeeps.size_eq, hkeeps.length_eq, hc, hmeta]

theorem Delivers.delivered {s t : RevisionStore} {o o' : σ} {done : List Fragment}
    (hserves : env.Serves source inv) (hsource : source.Uninterrupted) (ho : inv o)
    (h : Delivers env config s o done t o') :
    ∀ f ∈ done, ∀ m ∈ f.pending, source.Delivered t ⟨f.document, f.leaf, m.1⟩ m.2 := by
  induction h with
  | nil => exact nofun
  | @cons s t u o o₁ o₂ o₃ f rest items hclear hstage haccept hothers ih =>
    have ho₁ : inv o₁ := by
      obtain ⟨_, rfl⟩ := checkCancelled_eq_ok.mp hclear
      exact hserves.look ho
    have ho₂ : inv o₂ := by
      have hend : inv (stageAttachments env config f o₁).2 :=
        Surroundings.Preserves.stageAttachments hserves.preserves f ho₁
      rwa [hstage] at hend
    have hlater := ih ho₂
    refine List.forall_mem_cons.mpr ⟨fun m hm => ?_, hlater⟩
    obtain ⟨metadata, content, hmetadata, hcontent, hsize, latest, hhas⟩ :=
      accepted_delivered hserves hsource ho₁ hstage haccept hm
    refine ⟨metadata, content, hmetadata, hcontent, hsize, ?_⟩
    -- A later fragment with the same leaf records the attachment again, from the same content.
    by_cases hagain : ∃ g ∈ rest, g.Fetches ⟨f.document, f.leaf, m.1⟩
    · obtain ⟨g, hg, name, hname, hkey⟩ := hagain
      obtain ⟨m', hm', rfl⟩ := List.mem_map.mp hname
      obtain ⟨_, content', _, hcontent', _, hhas'⟩ := hlater g hg m' hm'
      rw [← hkey, hcontent] at hcontent'
      obtain rfl := Option.some.inj hcontent'
      rwa [hkey]
    · exact ⟨latest, hhas.advance hothers.advances fun g hg hfetches => hagain ⟨g, hg, hfetches⟩⟩

/-- **A successful pull delivers everything.** From a source in memory, whatever surroundings serve
it, as a session does by `Session.serves`, and whatever fails on the way: afterwards all revisions
of the batch are known, and every attachment that had to be fetched is recorded, has the bytes of
the source, and as many of them as its coding says. Of other documents no revision is added, and no
other attachment is changed. -/
theorem process_delivers_all (hserves : env.Serves source inv) (hsource : source.Uninterrupted)
    {p q : Processor σ} (hout : inv p.outside) {fragments : List Fragment} {pull : DocumentPull}
    (h : process env config p fragments = (.ok pull, q)) :
    (∀ f ∈ fragments, ∀ r ∈ f.revisions, q.store.contains f.document r = true) ∧
    (∀ f ∈ fragments, ∀ name reference, f.attachments.get? name = some reference →
      reference.stub = false → ∃ c content encoding,
        q.store.attachment? ⟨f.document, f.leaf, name⟩ = some c ∧
        source.content? ⟨f.document, f.leaf, name⟩ = some content ∧
        q.store.attachmentBytes c = .ok content ∧
        Encoding.ofName reference.encoding = .ok encoding ∧
        c.length = (reference.declaredLength encoding).toNat) ∧
    (∀ document r, (∀ f ∈ fragments, f.document ≠ document) →
      q.store.contains document r = p.store.contains document r) ∧
    ∀ key, (∀ f ∈ fragments, ¬ f.Fetches key) →
      q.store.attachment? key = p.store.attachment? key := by
  obtain ⟨batch, o, hbatch, _, hdelivers⟩ := process_ok_delivers h
  have hmem (f : Fragment) : f ∈ fragments → f ∈ batch.fragments := (Batch.mem_fragments hbatch).mpr
  have hadvances := process_advances env config p fragments
  rw [h] at hadvances
  refine ⟨fun f hf r hr => ?_, fun f hf name reference hget hstub => ?_, fun d r hd => ?_,
    fun key hkey => ?_⟩
  · exact (hdelivers.leftWith.revisions f.document r).mpr (Or.inr ⟨f, hmem f hf, rfl, hr⟩)
  · have hpending : (name, reference) ∈ f.pending :=
      List.mem_filter.mpr ⟨Keyed.get?_eq_some_iff.mp hget, by simp [Reference.needsDownload, hstub]⟩
    obtain ⟨metadata, content, hmetadata, hcontent, hsize, _, c, hc, _, hkeeps⟩ :=
      hdelivers.delivered hserves hsource (hserves.look hout) f (hmem f hf) _ hpending
    obtain ⟨encoding, hencoding, hlength⟩ := Reference.metadata_declared hmetadata
    refine ⟨c, content, encoding, hc, hcontent, RevisionStore.attachmentBytes_of_keeps hkeeps,
      hencoding, ?_⟩
    rw [← hkeeps.size_eq, hsize, hlength]
  · refine Bool.eq_iff_iff.mpr ⟨fun hr => ?_, hadvances.keeps d r⟩
    rcases hadvances.known d r hr with hknown | ⟨f, hf, hdoc, _⟩
    · exact hknown
    · exact absurd hdoc (hd f hf)
  · exact hadvances.others key hkey

/-- What is staged in memory from content that is read at once. -/
def wholly (metadata : Metadata) (content : ByteArray) : Staged :=
  ⟨metadata, .memory ⟨content⟩, content.size, Sha256.digest content⟩

theorem attempt_memory {key : AttachmentKey} {content : ByteArray} {s : Session}
    (hclear : s.cancelled = false) (hcontent : s.source.content? key = some content)
    (hcalm : MemorySource.failuresOf key s.source.failures = []) (hne : content.size ≠ 0)
    (metadata : Metadata) :
    attempt Session.surroundings ⟨.memory, content.size⟩ key metadata s =
      (.ok (wholly metadata content), (Session.openStream key s).2) := by
  rw [attempt_session, hclear, Session.openStream_eq, MemorySource.openStream_eq, hcalm, hcontent]
  simp only [Bool.false_eq_true, if_false, List.head?_nil, MemorySource.answer, Opening.ofAnswer,
    Opening.staged, Stager.stage_memory hne metadata]
  rfl

def scan : AttachmentKey := ⟨"note", ⟨1, "a"⟩, "scan"⟩

def picture : Reference :=
  { contentType := "image/png", length := 9, encodedLength := some 2, encoding := some "gzip" }

/-- A fragment that has to fetch the picture. -/
def illustrated : Fragment :=
  { RevisionStore.root with attachments := Keyed.empty.insert "scan" picture }

/-- A session whose first stream breaks off. -/
def shaky : Session :=
  ⟨{ contents := [(scan, ⟨#[1, 2]⟩)], failures := [(scan, .midStream 1 .connectionReset)] }, false⟩

/-- The session after so many openings, its failure spent. -/
def calmed (opens : Nat) : Session := ⟨{ contents := [(scan, ⟨#[1, 2]⟩)], opens }, false⟩

/-- Two attempts at each attachment, in memory. -/
def twice : PullConfig := ⟨⟨.memory, 2⟩, .new 2, 4⟩

def pictured : Staged := wholly ⟨"image/png", .gzip, 9, 2⟩ ⟨#[1, 2]⟩

theorem attempt_calmed (opens : Nat) :
    attempt Session.surroundings ⟨.memory, 2⟩ scan ⟨"image/png", .gzip, 9, 2⟩ (calmed opens) =
      (.ok pictured, calmed (opens + 1)) :=
  @attempt_memory scan ⟨#[1, 2]⟩ (calmed opens) rfl rfl rfl (by decide) _

theorem stage_illustrated {s s' : Session} {retries : Nat}
    (h : twice.retry.persist (attempt Session.surroundings ⟨.memory, 2⟩ scan
      ⟨"image/png", .gzip, 9, 2⟩) 0 s = (.ok (pictured, retries), s')) :
    stageAttachments Session.surroundings twice illustrated s =
      (.ok [⟨"scan", pictured, retries⟩], s') := by
  have hmetadata : picture.metadata = .ok ⟨"image/png", .gzip, 9, 2⟩ := by cbv
  have hone : stageOne Session.surroundings twice scan picture s =
      (.ok ⟨"scan", pictured, retries⟩, s') := by
    unfold stageOne
    rw [hmetadata]
    dsimp only
    rw [show twice.stager = ⟨.memory, 2⟩ from rfl, h]
    rfl
  have hgroups : groups 3 illustrated.pending = [[("scan", picture)]] := by cbv
  change runGroups Session.surroundings twice "note" ⟨1, "a"⟩ s (groups 3 illustrated.pending) = _
  rw [hgroups]
  have hscan : (⟨"note", ⟨1, "a"⟩, "scan"⟩ : AttachmentKey) = scan := rfl
  simp only [runGroups, runGroup, hscan, hone, collect]
  rfl

theorem stage_shaky : stageAttachments Session.surroundings twice illustrated shaky =
    (.ok [⟨"scan", pictured, 1⟩], calmed 2) := by
  have hfirst : attempt Session.surroundings ⟨.memory, 2⟩ scan ⟨"image/png", .gzip, 9, 2⟩ shaky =
      (.error (.document (.attachmentIo ⟨.connectionReset, "injected stream failure"⟩)),
        calmed 1) := by cbv
  have hagain : twice.retry.Allows 0
      (.document (.attachmentIo ⟨.connectionReset, "injected stream failure"⟩)) := ⟨rfl, rfl⟩
  exact stage_illustrated ((RetryPolicy.persist_again hfirst hagain).trans
    (RetryPolicy.persist_ok (attempt_calmed 1)))

/-- An empty store with room for four bytes. -/
def small : RevisionStore := { strict := true, capacity := some 4 }

theorem insert_illustrated : ∃ t, small.insert illustrated [("scan", pictured)] = (.ok (), t) := by
  unfold pictured wholly
  -- The digest need not be known to commit.
  generalize Sha256.digest = digest
  exact ⟨_, by cbv⟩

theorem process_delivers_all_shaky :
    shaky.source.Uninterrupted ∧ Session.Draws shaky.source shaky ∧
    ∃ pull q, process Session.surroundings twice ⟨small, {}, shaky⟩ [illustrated] = (.ok pull, q) ∧
      q.store.contains "note" ⟨1, "a"⟩ = true ∧
      ∃ c, q.store.attachment? scan = some c ∧ q.store.attachmentBytes c = .ok ⟨#[1, 2]⟩ ∧
        c.length = 2 := by
  have hquiet : shaky.source.Uninterrupted := by
    intro entry hentry after
    obtain rfl := List.mem_singleton.mp hentry
    exact nofun
  have hdraws : Session.Draws shaky.source shaky := ⟨rfl, List.Subset.refl _⟩
  obtain ⟨t, haccept⟩ := insert_illustrated
  have hbatch : Batch.new [illustrated] = .ok ⟨"note", [illustrated]⟩ := by cbv
  have hdelivers : Delivers Session.surroundings twice small shaky [illustrated] t (calmed 2) :=
    .cons rfl stage_shaky haccept (.nil t (calmed 2))
  obtain ⟨stats, hrun⟩ := Delivers.process (p := ⟨small, {}, shaky⟩) rfl hbatch hdelivers
  obtain ⟨hrevisions, hattachments, _⟩ :=
    process_delivers_all (Session.serves shaky.source) hquiet hdraws hrun
  obtain ⟨c, content, encoding, hc, hcontent, hbytes, hencoding, hlength⟩ :=
    hattachments illustrated List.mem_cons_self "scan" picture (by decide) rfl
  have hgzip : Encoding.ofName picture.encoding = .ok .gzip := by cbv
  obtain rfl := Except.ok.inj (hgzip.symm.trans hencoding)
  obtain rfl := Option.some.inj hcontent
  exact ⟨hquiet, hdraws, _, _, hrun, hrevisions illustrated List.mem_cons_self _ (by decide), c, hc,
    hbytes, hlength⟩

end Processor

end Replica
