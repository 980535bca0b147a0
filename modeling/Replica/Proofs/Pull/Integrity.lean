import Replica.Proofs.Attachment.Contents
import Replica.Proofs.Digest.Hex
import Replica.Proofs.Pull.Insertion

/-!
# Committed attachments are never damaged

Attachments are committed one behind the other, and a refused insertion cuts the blob area back to
where it began, which is never in front of the end of an attachment that was recorded before. So
what was recorded stays readable for good, under whatever insertions follow, also when another
attachment takes its name. Of the digest only this is used: it is taken of all bytes put together.
-/
namespace Replica

/-- The attachment was staged from a stream that delivered the bytes. Reading it since then may have
moved the cursor of its file, and the disk may fail in any way from now on. -/
def Staged.Carries (s : Staged) (bytes : ByteArray) : Prop :=
  ∃ (stager : Stager) (stream rest : Stream) (metadata : Metadata) (staged : Staged) (cursor : Nat)
    (faults : List (Option FileFault)),
    stager.stage stream metadata = (.ok staged, rest) ∧ bytes = stream.delivered ∧
      s = { staged with storage := staged.storage.disturbed cursor faults }

theorem Staged.Carries.seals {s : Staged} {bytes : ByteArray} (h : s.Carries bytes) :
    s.Seals bytes := by
  obtain ⟨stager, stream, rest, metadata, staged, cursor, faults, hstage, rfl, rfl⟩ := h
  obtain ⟨_, hseals⟩ := Stager.stage_eq_ok hstage
  exact ⟨hseals.storage.disturbed cursor faults, hseals.length, hseals.digest⟩

/-- The places of the blob area that belong to an attachment. -/
def Committed.range (c : Committed) : Set Nat := Set.Ico c.offset (c.offset + c.length)

namespace Memory

/-- The blob area holds the bytes of a committed attachment, as its record says. -/
structure Keeps (blobs : Memory) (c : Committed) (bytes : ByteArray) : Prop where
  bytes_eq : blobs.bytes.extract c.offset (c.offset + c.length) = bytes
  inside : c.offset + c.length ≤ blobs.bytes.size
  length_eq : c.length = c.metadata.declaredLength
  digest_spells : Hex.Spells c.digest (Sha256.digest bytes)

theorem Extends.size_le {later earlier : Memory} (h : later.Extends earlier) :
    earlier.bytes.size ≤ later.bytes.size := by
  obtain ⟨tail, htail⟩ := h
  rw [htail, ByteArray.size_append]
  omega

theorem Keeps.of_extends {later earlier : Memory} {c : Committed} {bytes : ByteArray}
    (h : earlier.Keeps c bytes) (hext : later.Extends earlier) : later.Keeps c bytes := by
  have hsize := hext.size_le
  have hinside := h.inside
  refine ⟨?_, by omega, h.length_eq, h.digest_spells⟩
  obtain ⟨tail, htail⟩ := hext
  have hbehind : tail.extract (c.offset - earlier.bytes.size)
      (c.offset + c.length - earlier.bytes.size) = .empty := by
    rw [ByteArray.extract_eq_empty_iff]
    omega
  rw [htail, ByteArray.extract_append, hbehind, ByteArray.append_empty, h.bytes_eq]

end Memory

theorem Staged.keeps_commit {s : Staged} {bytes : ByteArray} {blobs blobs' : Memory} {c : Committed}
    (hseals : s.Seals bytes) (h : s.commit blobs = (.ok c, blobs')) :
    c.metadata = s.metadata ∧ blobs'.Keeps c bytes := by
  obtain ⟨hblobs, hdeclared, rfl⟩ := Staged.commit_eq_ok hseals h
  refine ⟨rfl, ?_, ?_, hdeclared, Hex.spells_encode _⟩
  · rw [hblobs]
    exact ByteArray.extract_append_eq_right rfl rfl
  · rw [hblobs, ByteArray.size_append]

/-- A request to insert a fragment with attachments. -/
structure Submission where
  fragment : Fragment
  attachments : List (String × Staged)

namespace RevisionStore

/-- The store after a request, whether it was accepted or not. -/
def submit (s : RevisionStore) (call : Submission) : RevisionStore :=
  (s.insert call.fragment call.attachments).2

/-- The store after requests one after another. -/
def submitAll (s : RevisionStore) (calls : List Submission) : RevisionStore := calls.foldl submit s

/-- The store accepts the request and makes the record of the attachment in it. -/
def Records (s : RevisionStore) (call : Submission) (attachment : String × Staged)
    (c : Committed) : Prop :=
  (s.insert call.fragment call.attachments).1 = .ok () ∧
    ∃ committed blobs, commitAll s.capacity s.blobs call.attachments = (.ok committed, blobs) ∧
      (attachment, (attachment.1, c)) ∈ call.attachments.zip committed

/-- The record was made in one of the requests, of an attachment staged from the bytes. -/
def StagedFor (start : RevisionStore) (calls : List Submission) (key : AttachmentKey)
    (c : Committed) (bytes : ByteArray) : Prop :=
  ∃ before call after name staged, calls = before ++ call :: after ∧
    (start.submitAll before).Records call (name, staged) c ∧ staged.Carries bytes ∧
    key = ⟨call.fragment.document, call.fragment.leaf, name⟩ ∧ c.metadata = staged.metadata

theorem StagedFor.append {start : RevisionStore} {calls : List Submission} {key : AttachmentKey}
    {c : Committed} {bytes : ByteArray} (h : StagedFor start calls key c bytes)
    (later : List Submission) : StagedFor start (calls ++ later) key c bytes := by
  obtain ⟨before, call, after, name, staged, rfl, hrest⟩ := h
  exact ⟨before, call, after ++ later, name, staged, by simp, hrest⟩

/-- Records, latest first, that lie one behind the other in the blob area, each of the bytes that
belong to it. -/
structure Packed (belongs : AttachmentKey → Committed → ByteArray → Prop)
    (records : List (AttachmentKey × Committed)) (blobs : Memory) : Prop where
  kept : ∀ entry ∈ records, ∃ bytes, belongs entry.1 entry.2 bytes ∧ blobs.Keeps entry.2 bytes
  apart : records.Pairwise fun late early => early.2.offset + early.2.length ≤ late.2.offset

theorem Packed.mono {belongs belongs' : AttachmentKey → Committed → ByteArray → Prop}
    {records : List (AttachmentKey × Committed)} {blobs : Memory} (h : Packed belongs records blobs)
    (hmore : ∀ key c bytes, belongs key c bytes → belongs' key c bytes) :
    Packed belongs' records blobs := by
  refine ⟨fun entry hentry => ?_, h.apart⟩
  obtain ⟨bytes, hbelongs, hkeeps⟩ := h.kept entry hentry
  exact ⟨bytes, hmore _ _ _ hbelongs, hkeeps⟩

theorem Packed.commit {belongs : AttachmentKey → Committed → ByteArray → Prop}
    {records : List (AttachmentKey × Committed)} {blobs blobs' : Memory} {key : AttachmentKey}
    {staged : Staged} {bytes : ByteArray} {c : Committed} (h : Packed belongs records blobs)
    (hcarries : staged.Carries bytes) (hcommit : staged.commit blobs = (.ok c, blobs'))
    (hbelongs : c.metadata = staged.metadata → belongs key c bytes) :
    Packed belongs ((key, c) :: records) blobs' := by
  have hext := staged.commit_extends blobs
  rw [hcommit] at hext
  obtain ⟨-, -, hrecord⟩ := Staged.commit_eq_ok hcarries.seals hcommit
  obtain ⟨hmetadata, hkept⟩ := Staged.keeps_commit hcarries.seals hcommit
  constructor
  · intro entry hentry
    rcases List.mem_cons.mp hentry with rfl | hold
    · exact ⟨bytes, hbelongs hmetadata, hkept⟩
    · obtain ⟨old, hfor, hkeeps⟩ := h.kept entry hold
      exact ⟨old, hfor, hkeeps.of_extends hext⟩
  · refine List.pairwise_cons.mpr ⟨fun entry hold => ?_, h.apart⟩
    obtain ⟨old, _, hkeeps⟩ := h.kept entry hold
    rw [hrecord]
    exact hkeeps.inside

theorem Packed.commitAll {belongs : AttachmentKey → Committed → ByteArray → Prop}
    {records : List (AttachmentKey × Committed)} {capacity : Option Nat} {blobs blobs' : Memory}
    {document : String} {leaf : RevisionId} {attachments : List (String × Staged)}
    {committed : List (String × Committed)} (h : Packed belongs records blobs)
    (hcarries : ∀ a ∈ attachments, ∃ bytes, a.2.Carries bytes)
    (hcommit : RevisionStore.commitAll capacity blobs attachments = (.ok committed, blobs'))
    (hbelongs : ∀ name staged c bytes, ((name, staged), (name, c)) ∈ attachments.zip committed →
      staged.Carries bytes → c.metadata = staged.metadata →
        belongs ⟨document, leaf, name⟩ c bytes) :
    Packed belongs (addAttachments records document leaf committed) blobs' := by
  induction attachments generalizing blobs records committed with
  | nil =>
    obtain ⟨hcommitted, rfl⟩ := Prod.mk.inj hcommit
    obtain rfl := Except.ok.inj hcommitted
    exact h
  | cons attachment rest ih =>
    obtain ⟨name, staged⟩ := attachment
    obtain ⟨⟨bytes, hbytes⟩, hcarries⟩ := List.forall_mem_cons.mp hcarries
    obtain ⟨c, between, others, _, hone, hrest, rfl⟩ := commitAll_cons_eq_ok hcommit
    have hnext := h.commit hbytes hone (hbelongs name staged c bytes List.mem_cons_self hbytes)
    rw [addAttachments]
    exact ih hnext hcarries hrest fun name staged c bytes hmem =>
      hbelongs name staged c bytes (List.mem_cons_of_mem _ hmem)

/-- Every attachment is checked against the capacity before it is committed. -/
theorem commitAll_fits {limit : Nat} {blobs blobs' : Memory} {attachments : List (String × Staged)}
    {committed : List (String × Committed)} (hfits : blobs.bytes.size ≤ limit)
    (hcarries : ∀ a ∈ attachments, ∃ bytes, a.2.Carries bytes)
    (hcommit : commitAll (some limit) blobs attachments = (.ok committed, blobs')) :
    blobs'.bytes.size ≤ limit := by
  induction attachments generalizing blobs committed with
  | nil =>
    obtain rfl := (Prod.mk.inj hcommit).2
    exact hfits
  | cons attachment rest ih =>
    obtain ⟨name, staged⟩ := attachment
    obtain ⟨⟨bytes, hbytes⟩, hcarries⟩ := List.forall_mem_cons.mp hcarries
    obtain ⟨c, between, others, hchecked, hone, hrest, rfl⟩ := commitAll_cons_eq_ok hcommit
    refine ih ?_ hcarries hrest
    have hlength : staged.storedLength = bytes.size := hbytes.seals.length
    unfold checkCapacity at hchecked
    dsimp only at hchecked
    split at hchecked
    · cases hchecked
    · rw [(Staged.commit_eq_ok hbytes.seals hone).1, ByteArray.size_append]
      omega

/-- Nothing recorded and no byte is lost by a request. -/
theorem submit_grows (s : RevisionStore) (call : Submission) :
    (s.submit call).capacity = s.capacity ∧ (s.submit call).blobs.Extends s.blobs ∧
      ∀ entry ∈ s.attachments, entry ∈ (s.submit call).attachments := by
  unfold submit
  rcases s.insert_cases call.fragment call.attachments with ⟨e, hinsert⟩ | ⟨t, hinsert⟩ <;>
    rw [hinsert]
  · exact ⟨rfl, .refl _, fun entry hentry => hentry⟩
  · obtain ⟨_, _, committed, blobs, hcommit, rfl⟩ := insert_eq_ok.mp hinsert
    have hext := commitAll_extends s.capacity s.blobs call.attachments
    rw [hcommit] at hext
    refine ⟨rfl, hext, fun entry hentry => ?_⟩
    simp only [extended, addAttachments_eq]
    exact List.mem_append_right _ hentry

/-- What holds after requests, and one more request preserves. -/
structure Sound (start : RevisionStore) (calls : List Submission) : Prop where
  packed : Packed (StagedFor start calls) (start.submitAll calls).attachments
    (start.submitAll calls).blobs
  fits : ∀ limit, (start.submitAll calls).capacity = some limit →
    (start.submitAll calls).blobs.bytes.size ≤ limit

theorem Sound.submit {start : RevisionStore} {calls : List Submission} (h : Sound start calls)
    (call : Submission) (hcarries : ∀ a ∈ call.attachments, ∃ bytes, a.2.Carries bytes) :
    Sound start (calls ++ [call]) := by
  have hpacked := h.packed.mono fun _ _ _ hfor => hfor.append [call]
  have hsubmit : start.submitAll (calls ++ [call]) =
      ((start.submitAll calls).insert call.fragment call.attachments).2 := by
    simp only [submitAll, List.foldl_append, List.foldl_cons, List.foldl_nil, RevisionStore.submit]
  rcases (start.submitAll calls).insert_cases call.fragment call.attachments with
    ⟨e, hinsert⟩ | ⟨t, hinsert⟩
  · constructor <;> rw [hsubmit, hinsert]
    · exact hpacked
    · exact h.fits
  · obtain ⟨_, _, committed, blobs, hcommit, ht⟩ := insert_eq_ok.mp hinsert
    constructor <;> rw [hsubmit, hinsert, ht]
    · refine hpacked.commitAll hcarries hcommit fun name staged c bytes hmem hbytes hmeta => ?_
      refine ⟨calls, call, [], name, staged, rfl, ?_, hbytes, rfl, hmeta⟩
      exact ⟨by rw [hinsert], committed, blobs, hcommit, hmem⟩
    · intro limit hlimit
      change (start.submitAll calls).capacity = some limit at hlimit
      rw [hlimit] at hcommit
      exact commitAll_fits (h.fits limit hlimit) hcarries hcommit

theorem submitAll_grows (s : RevisionStore) (calls : List Submission) :
    (s.submitAll calls).capacity = s.capacity ∧ (s.submitAll calls).blobs.Extends s.blobs ∧
      ∀ entry ∈ s.attachments, entry ∈ (s.submitAll calls).attachments := by
  induction calls generalizing s with
  | nil => exact ⟨rfl, .refl _, fun entry hentry => hentry⟩
  | cons call rest ih =>
    obtain ⟨hcapacity, hext, hmem⟩ := s.submit_grows call
    obtain ⟨hcapacity', hext', hmem'⟩ := ih (s.submit call)
    exact ⟨hcapacity'.trans hcapacity, hext'.trans hext,
      fun entry hentry => hmem' entry (hmem entry hentry)⟩

theorem sound_empty (strict : Bool) (capacity : Option Nat) :
    Sound { strict, capacity } [] where
  packed := ⟨nofun, List.Pairwise.nil⟩
  fits := fun _ _ => Nat.zero_le _

theorem Sound.of_empty (strict : Bool) (capacity : Option Nat) (calls : List Submission)
    (hcarries : ∀ call ∈ calls, ∀ a ∈ call.attachments, ∃ bytes, a.2.Carries bytes) :
    Sound { strict, capacity } calls := by
  induction calls using List.reverseRecOn with
  | nil => exact sound_empty strict capacity
  | append_singleton calls call ih =>
    obtain ⟨hcalls, hcall⟩ := List.forall_mem_append.mp hcarries
    exact (ih hcalls).submit call (hcall call List.mem_cons_self)

theorem attachmentBytes_of_keeps {s : RevisionStore} {c : Committed} {bytes : ByteArray}
    (h : s.blobs.Keeps c bytes) : s.attachmentBytes c = .ok bytes := by
  unfold attachmentBytes Memory.slice
  rw [if_neg (by have hinside := h.inside; omega), h.bytes_eq]
  rfl

/-- **Committed attachments stay intact.** In a store that began empty, every attachment that was
ever recorded can be read back in every later state, byte by byte as it was staged. Its length is
the one that was declared for its coding, and its record spells the digest of its bytes. No two of
them overlap, and the blob area keeps to its capacity. -/
theorem attachments_intact (strict : Bool) (capacity : Option Nat) (calls later : List Submission)
    (hcarries : ∀ call ∈ calls ++ later, ∀ a ∈ call.attachments, ∃ bytes, a.2.Carries bytes) :
    let early := ({ strict, capacity } : RevisionStore).submitAll calls
    let now := early.submitAll later
    (∀ key c, (key, c) ∈ early.attachments → (key, c) ∈ now.attachments ∧
      ∃ bytes, StagedFor { strict, capacity } calls key c bytes ∧
        now.attachmentBytes c = .ok bytes ∧ now.blobs.Keeps c bytes) ∧
    now.attachments.Pairwise (fun a b => Disjoint a.2.range b.2.range) ∧
    ∀ limit, capacity = some limit → now.blobs.bytes.size ≤ limit := by
  intro early now
  have hearly : Sound { strict, capacity } calls := Sound.of_empty strict capacity calls
    fun call hcall => hcarries call (List.mem_append_left _ hcall)
  have hall := Sound.of_empty strict capacity (calls ++ later) hcarries
  have hnow : ({ strict, capacity } : RevisionStore).submitAll (calls ++ later) = now :=
    List.foldl_append
  obtain ⟨_, hext, hmem⟩ := early.submitAll_grows later
  refine ⟨?_, ?_, ?_⟩
  · intro key c hrecorded
    obtain ⟨bytes, hstaged, hkeeps⟩ := hearly.packed.kept _ hrecorded
    have hstill := hkeeps.of_extends hext
    exact ⟨hmem _ hrecorded, bytes, hstaged, attachmentBytes_of_keeps hstill, hstill⟩
  · rw [← hnow]
    refine hall.packed.apart.imp fun {a b} hle => Set.disjoint_left.mpr fun i ha hb => ?_
    have hfrom := (Set.mem_Ico.mp ha).1
    have hto := (Set.mem_Ico.mp hb).2
    omega
  · intro limit hlimit
    rw [← hnow]
    exact hall.fits limit ((submitAll_grows _ (calls ++ later)).1.trans hlimit)

def stagedAs (metadata : Metadata) (content : ByteArray) : Staged :=
  ⟨metadata, .memory ⟨content⟩, content.size, Sha256.digest content⟩

/-- Bytes staged in memory as they are, with a declared length. -/
def stagedBytes (content : ByteArray) (declared : UInt64) : Staged :=
  stagedAs (.identity "text/plain" declared) content

theorem carries_stagedAs (metadata : Metadata) {content : ByteArray} (hne : content.size ≠ 0) :
    ∃ bytes, (stagedAs metadata content).Carries bytes :=
  ⟨_, _, _, _, _, _, 0, [], Stager.stage_memory hne metadata, rfl, rfl⟩

/-- A compressed attachment is committed, one of wrong length is refused, and so is one that is too
long, when the one before it has already been copied. -/
def mixed : List Submission := [
  ⟨root, [("a", stagedAs zipped ⟨#[97, 98, 99]⟩)]⟩,
  ⟨root, [("b", stagedBytes ⟨#[4]⟩ 1), ("c", stagedBytes ⟨#[5, 6]⟩ 9)]⟩,
  ⟨root, [("b", stagedBytes ⟨#[4]⟩ 1), ("c", stagedBytes ⟨#[5, 6, 7]⟩ 3)]⟩]

/-- The first name is given other bytes. -/
def replacing : List Submission := [⟨root, [("a", stagedBytes ⟨#[7, 8]⟩ 2)]⟩]

theorem attachments_intact_mixed :
    (∀ call ∈ mixed ++ replacing, ∀ a ∈ call.attachments, ∃ bytes, a.2.Carries bytes) ∧
    let early := ({ strict := true, capacity := some 6 } : RevisionStore).submitAll mixed
    let now := early.submitAll replacing
    early.attachments = [(⟨"note", ⟨1, "a"⟩, "a"⟩, ⟨zipped, 0, 3,
      "ba7816bf8f01cfea414140de5dae2223b00361a396177a9cb410ff61f20015ad"⟩)] ∧
    now.attachments.length = 2 ∧
    (∀ key c, (key, c) ∈ early.attachments → (key, c) ∈ now.attachments ∧
      ∃ bytes, StagedFor { strict := true, capacity := some 6 } mixed key c bytes ∧
        now.attachmentBytes c = .ok bytes ∧ now.blobs.Keeps c bytes) ∧
    now.attachments.Pairwise (fun a b => Disjoint a.2.range b.2.range) ∧
    ∀ limit, some 6 = some limit → now.blobs.bytes.size ≤ limit := by
  have hcarries : ∀ call ∈ mixed ++ replacing, ∀ a ∈ call.attachments,
      ∃ bytes, a.2.Carries bytes := by
    have hall : ∀ a ∈ (mixed ++ replacing).flatMap (·.attachments), ∃ metadata content,
        content.size ≠ 0 ∧ a.2 = stagedAs metadata content := by
      simp only [mixed, replacing, List.cons_append, List.nil_append, List.flatMap_cons,
        List.flatMap_nil, List.append_nil, List.forall_mem_cons]
      refine ⟨⟨_, _, ?_, rfl⟩, ⟨_, _, ?_, rfl⟩, ⟨_, _, ?_, rfl⟩, ⟨_, _, ?_, rfl⟩, ⟨_, _, ?_, rfl⟩,
        ⟨_, _, ?_, rfl⟩, nofun⟩ <;> decide
    intro call hcall a ha
    obtain ⟨metadata, content, hne, heq⟩ := hall a (List.mem_flatMap.mpr ⟨call, hcall, ha⟩)
    rw [heq]
    exact carries_stagedAs metadata hne
  refine ⟨hcarries, ?_, ?_, attachments_intact true (some 6) mixed replacing hcarries⟩
  -- Which record is made does not depend on what the digests are.
  · rw [Hex.spells_iff.mp Hex.spells_digest_abc]
    unfold mixed stagedBytes stagedAs
    generalize Sha256.digest = digest
    cbv
  · unfold mixed replacing stagedBytes stagedAs
    generalize Sha256.digest = digest
    cbv

end RevisionStore

end Replica
