import Replica.Proofs.Attachment.Contents
import Replica.Proofs.Digest.Hex
import Replica.Proofs.Storage.Reading

/-!
# Staging and committing, step by step to the end

Where storage meets no failure of its own, the stream alone decides what staging gives: its failure,
or all its bytes. How they were cut into reads, how often a read was interrupted, how large the
buffer is and where the bytes are kept does not show. Committing then compares a length and copies,
or copies nothing.
-/
namespace Replica

namespace StreamEvent

/-- A reader who repeats interrupted reads goes on behind the event. -/
def Passes : StreamEvent → Prop
  | .data bytes => bytes.size ≠ 0
  | .failure e | .breakOff _ e => e.kind = .interrupted

/-- The bytes that the event brings. -/
def bytes : StreamEvent → ByteArray
  | .data bytes | .breakOff bytes _ => bytes
  | .failure _ => .empty

end StreamEvent

namespace Stream

/-- The failure at which a reader gives up who repeats interrupted reads. -/
def failureBy : List StreamEvent → Option IoError
  | [] => none
  | .data bytes :: rest => if bytes.size = 0 then none else failureBy rest
  | .failure e :: rest => if e.kind = .interrupted then failureBy rest else some e
  | .breakOff _ e :: rest => if e.kind = .interrupted then failureBy rest else some e

/-- The failure in which the stream ends, if it does not simply end. -/
def failure? (s : Stream) : Option IoError := failureBy s.events

theorem deliveredBy_append {pieces : List StreamEvent} (h : ∀ p ∈ pieces, p.Passes)
    (ending : List StreamEvent) :
    deliveredBy (pieces ++ ending) =
      (pieces.map StreamEvent.bytes).foldr (· ++ ·) (deliveredBy ending) := by
  induction pieces with
  | nil => rfl
  | cons p pieces ih =>
    obtain ⟨hp, hpieces⟩ := List.forall_mem_cons.mp h
    rw [List.map_cons, List.foldr_cons, ← ih hpieces]
    cases p with
    | data bytes => exact if_neg hp
    | failure e => exact (if_pos hp).trans ByteArray.empty_append.symm
    | breakOff bytes e => exact congrArg (bytes ++ ·) (if_pos hp)

theorem failureBy_append {pieces : List StreamEvent} (h : ∀ p ∈ pieces, p.Passes)
    (ending : List StreamEvent) : failureBy (pieces ++ ending) = failureBy ending := by
  induction pieces with
  | nil => rfl
  | cons p pieces ih =>
    obtain ⟨hp, hpieces⟩ := List.forall_mem_cons.mp h
    rw [← ih hpieces]
    cases p with
    | data bytes => exact if_neg hp
    | failure e => exact if_pos hp
    | breakOff bytes e => exact if_pos hp

/-- The stream of such pieces, ended by a failure or by itself. -/
def ofPieces (pieces : List StreamEvent) (ending : Option IoError) : Stream :=
  ⟨pieces ++ ending.toList.map .failure, 0⟩

theorem delivered_ofPieces {pieces : List StreamEvent} (h : ∀ p ∈ pieces, p.Passes)
    (ending : Option IoError) :
    (ofPieces pieces ending).delivered =
      (pieces.map StreamEvent.bytes).foldr (· ++ ·) .empty := by
  have hending : deliveredBy (ending.toList.map .failure) = .empty := by
    cases ending with
    | none => rfl
    | some e => exact ite_self _
  rw [delivered, ofPieces, deliveredBy_append h, hending]

theorem failure?_ofPieces {pieces : List StreamEvent} (h : ∀ p ∈ pieces, p.Passes)
    {ending : Option IoError} (hending : ∀ e ∈ ending, e.kind ≠ .interrupted) :
    (ofPieces pieces ending).failure? = ending := by
  rw [failure?, ofPieces, failureBy_append h]
  cases ending with
  | none => rfl
  | some e => exact if_neg (hending e rfl)

variable {s t : Stream} {capacity : Nat}

theorem failure?_ok {bytes : ByteArray} (h : s.read (capacity + 1) = (.ok bytes, t)) :
    s.failure? = if bytes.size = 0 then none else t.failure? := by
  unfold read at h
  split at h
  · rename_i hevents
    obtain rfl := Except.ok.inj (Prod.mk.inj h).1
    rw [failure?, hevents]
    rfl
  · cases h
  · rename_i run rest hevents
    split at h
    · obtain ⟨hbytes, rfl⟩ := Prod.mk.inj h
      obtain rfl := Except.ok.inj hbytes
      rw [failure?, hevents]
      rfl
    · obtain ⟨hbytes, rfl⟩ := Prod.mk.inj h
      obtain rfl := Except.ok.inj hbytes
      have hrun : run.size ≠ 0 := by omega
      have hread : (run.extract 0 (capacity + 1)).size ≠ 0 := by
        rw [ByteArray.size_extract]
        omega
      have hleft : (run.extract (capacity + 1) run.size).size ≠ 0 := by
        rw [ByteArray.size_extract]
        omega
      simp only [failure?, hevents, failureBy, if_neg hrun, if_neg hread, if_neg hleft]
  · rename_i run e rest hevents
    split at h
    · cases h
    · obtain ⟨hbytes, rfl⟩ := Prod.mk.inj h
      obtain rfl := Except.ok.inj hbytes
      have hread : (run.extract 0 (capacity + 1)).size ≠ 0 := by
        rw [ByteArray.size_extract]
        omega
      simp only [failure?, hevents, failureBy, if_neg hread]

theorem failure?_error {e : IoError} (h : s.read (capacity + 1) = (.error e, t)) :
    s.failure? = if e.kind = .interrupted then t.failure? else some e := by
  unfold read at h
  split at h
  · cases h
  · rename_i hevents
    obtain ⟨herror, rfl⟩ := Prod.mk.inj h
    obtain rfl := Except.error.inj herror
    rw [failure?, hevents]
    rfl
  · split at h <;> cases h
  · rename_i hevents
    split at h
    · obtain ⟨herror, rfl⟩ := Prod.mk.inj h
      obtain rfl := Except.error.inj herror
      rw [failure?, hevents]
      rfl
    · cases h

end Stream

namespace Stager

/-- The failure of the stream ends the copying. -/
theorem copyStream_fails (spare : Nat) {stream : Stream} {storage : Backend}
    {received : ByteArray} {e : IoError} (hretains : storage.Retains received)
    (hfailure : stream.failure? = some e) :
    (copyStream spare stream storage received).1 = .error (.attachmentIo e) := by
  fun_induction copyStream spare stream storage received with
  | case1 stream storage received e' stream' hread hkind ih =>
    rw [Stream.failure?_error hread, if_pos hkind] at hfailure
    exact ih hretains hfailure
  | case2 stream storage received e' stream' hread hkind =>
    rw [Stream.failure?_error hread, if_neg hkind] at hfailure
    obtain rfl := Option.some.inj hfailure
    rfl
  | case3 stream storage received bytes stream' hread hend =>
    rw [Stream.failure?_ok hread, if_pos hend] at hfailure
    cases hfailure
  | case4 stream storage received bytes stream' hread hne e' storage' happend =>
    obtain ⟨b, hok, -⟩ := Backend.faithful.append hretains bytes
    cases happend.symm.trans hok
  | case5 stream storage received bytes stream' hread hne offset storage' happend ih =>
    rw [Stream.failure?_ok hread, if_neg hne] at hfailure
    obtain ⟨b, hok, hretains'⟩ := Backend.faithful.append hretains bytes
    obtain ⟨-, rfl⟩ := Prod.mk.inj (happend.symm.trans hok)
    exact ih hretains' hfailure

/-- A stream that does not fail is copied to its end. -/
theorem copyStream_ends (spare : Nat) {stream : Stream} {storage : Backend}
    {received : ByteArray} (hretains : storage.Retains received)
    (hfailure : stream.failure? = none) :
    ∃ storage' rest, copyStream spare stream storage received =
        (.ok (storage', received ++ stream.delivered), rest) ∧
      storage'.Retains (received ++ stream.delivered) := by
  fun_induction copyStream spare stream storage received with
  | case1 stream storage received e stream' hread hkind ih =>
    rw [Stream.failure?_error hread, if_pos hkind] at hfailure
    rw [Stream.delivered_interrupted hread hkind]
    exact ih hretains hfailure
  | case2 stream storage received e stream' hread hkind =>
    rw [Stream.failure?_error hread, if_neg hkind] at hfailure
    cases hfailure
  | case3 stream storage received bytes stream' hread hend =>
    rw [Stream.delivered_end hread hend, ByteArray.append_empty]
    exact ⟨storage, stream', rfl, hretains⟩
  | case4 stream storage received bytes stream' hread hne e storage' happend =>
    obtain ⟨b, hok, -⟩ := Backend.faithful.append hretains bytes
    cases happend.symm.trans hok
  | case5 stream storage received bytes stream' hread hne offset storage' happend ih =>
    rw [Stream.failure?_ok hread, if_neg hne] at hfailure
    obtain ⟨b, hok, hretains'⟩ := Backend.faithful.append hretains bytes
    obtain ⟨-, rfl⟩ := Prod.mk.inj (happend.symm.trans hok)
    rw [Stream.delivered_read hread hne, ← ByteArray.append_assoc]
    exact ih hretains' hfailure

end Stager

/-- Temporary storage is to be had. -/
def StagingLocation.Open : StagingLocation → Prop
  | .memory => True
  | .directory d => d.refusal = none

theorem StagingLocation.Open.allocate {location : StagingLocation} (h : location.Open) :
    ∃ storage, location.allocate = .ok storage ∧ storage.Retains .empty := by
  cases location with
  | memory => exact ⟨_, rfl, rfl⟩
  | directory d =>
    refine ⟨.file {}, ?_, ⟨rfl, rfl⟩, rfl⟩
    simp only [StagingLocation.allocate, TempFile.create, show d.refusal = none from h]
    rfl

/-- The storage keeps the bytes, and their number and digest are recorded. -/
structure Staged.Preserves (s : Staged) (bytes : ByteArray) : Prop where
  storage : s.storage.Retains bytes
  length : s.storedLength = bytes.size
  digest : s.digest = Sha256.digest bytes

theorem Staged.Preserves.readAll {s : Staged} {bytes : ByteArray} (h : s.Preserves bytes) :
    s.readAll = .ok bytes := by
  rw [Staged.readAll, readAll_eq_ok Backend.faithful h.storage]
  rfl

namespace Stager

variable {s : Stager} {stream : Stream} (hopen : s.location.Open) (metadata : Metadata)

include hopen

theorem stage_fails {e : IoError} (hfailure : stream.failure? = some e) :
    (s.stage stream metadata).1 = .error (.attachmentIo e) := by
  obtain ⟨storage, hallocate, hempty⟩ := hopen.allocate
  have hcopy : (copyStream (s.bufferSize - 1) stream storage .empty).1 = _ :=
    copyStream_fails _ hempty hfailure
  rcases hrun : copyStream (s.bufferSize - 1) stream storage .empty with ⟨result, rest⟩
  rw [hrun] at hcopy
  obtain rfl := hcopy
  simp only [stage, hallocate, hrun]

theorem stage_ends (hfailure : stream.failure? = none) :
    ∃ staged rest, s.stage stream metadata = (.ok staged, rest) ∧ staged.metadata = metadata ∧
      staged.Preserves stream.delivered := by
  obtain ⟨storage, hallocate, hempty⟩ := hopen.allocate
  obtain ⟨storage', rest, hcopy, hretains⟩ :=
    copyStream_ends (s.bufferSize - 1) hempty hfailure
  rw [ByteArray.empty_append] at hcopy hretains
  obtain ⟨storage'', hflush, hretains'⟩ := Backend.faithful.flush hretains
  refine ⟨⟨metadata, storage'', stream.delivered.size, Sha256.digest stream.delivered⟩, rest, ?_,
    rfl, hretains', rfl, rfl⟩
  simp only [stage, hallocate, hcopy, hflush]

end Stager

section Committing

variable {σ β : Type} [Storage σ] [Storage β] {held : σ → ByteArray → Prop}
  {holds : β → ByteArray → Prop} {bytes content : ByteArray}

/-- What is left to copy is put at the end, whatever chunks it takes. -/
theorem copyChunks_ends (hsources : Storage.Faithful held) (htargets : Storage.Faithful holds)
    {source : σ} {target : β} (hsource : held source bytes) (htarget : holds target content)
    {copied : Nat} (hle : copied ≤ bytes.size) :
    ∃ target', copyChunks source target copied bytes.size = (.ok bytes.size, target') ∧
      holds target' (content ++ bytes.extract copied bytes.size) := by
  -- Each chunk moves on both the place in the source and what the target holds.
  revert content
  fun_induction copyChunks source target copied bytes.size with
  | case1 source target copied hlt length e source' hread =>
    intro content htarget
    have hfits : copied + length ≤ bytes.size := by
      simp only [length]
      omega
    obtain ⟨s, hok, -⟩ := hsources.readAt hsource hfits
    cases hread.symm.trans hok
  | case2 source target copied hlt length chunk source' hread e target' happend =>
    intro content htarget
    obtain ⟨t, hok, -⟩ := htargets.append htarget chunk
    cases happend.symm.trans hok
  | case3 source target copied hlt length chunk source' hread offset target' happend ih =>
    intro content htarget
    have hfits : copied + length ≤ bytes.size := by
      simp only [length]
      omega
    obtain ⟨s, hreadOk, hsource'⟩ := hsources.readAt hsource hfits
    obtain ⟨hchunk, rfl⟩ := Prod.mk.inj (hread.symm.trans hreadOk)
    obtain rfl := Except.ok.inj hchunk
    obtain ⟨t, happendOk, htarget'⟩ := htargets.append htarget _
    obtain ⟨-, rfl⟩ := Prod.mk.inj (happend.symm.trans happendOk)
    rw [ByteArray.extract_eq_extract_append_extract _ (Nat.le_add_right copied _) hfits,
      ← ByteArray.append_assoc]
    exact ih hsource' hfits htarget'
  | case4 source target copied hge =>
    intro content htarget
    obtain rfl : copied = bytes.size := by omega
    rw [ByteArray.extract_same, ByteArray.append_empty]
    exact ⟨target, rfl, htarget⟩

variable {s : Staged} {blobs : β}

/-- A length that is not the declared one is refused before anything is copied. -/
theorem Staged.Preserves.commit_refused (h : s.Preserves bytes)
    (hne : bytes.size ≠ s.metadata.declaredLength) :
    s.commit blobs =
      (.error (.lengthMismatch s.metadata.declaredLength bytes.size s.metadata.encoding),
        blobs) := by
  rw [← h.length, ← Metadata.expectedLength_eq] at hne ⊢
  rw [Staged.commit, Staged.verify, if_neg hne]

/-- Bytes of the declared length are put at the end of the blob area, if they can be read back. -/
theorem Staged.commit_retained (hretains : s.storage.Retains bytes)
    (hlength : s.storedLength = bytes.size) (hverify : s.verify = .ok ())
    (hblobs : Storage.Faithful holds) (hcontent : holds blobs content) :
    ∃ blobs', s.commit blobs = (.ok ⟨s.metadata, content.size, bytes.size, s.digestHex⟩, blobs') ∧
      holds blobs' (content ++ bytes) := by
  obtain ⟨copy, hcopy, hcopied⟩ :=
    copyChunks_ends Backend.faithful hblobs hretains hcontent (Nat.zero_le _)
  rw [ByteArray.extract_zero_size] at hcopied
  obtain ⟨blobs', hflush, hholds⟩ := hblobs.flush hcopied
  refine ⟨blobs', ?_, hholds⟩
  simp only [Staged.commit, hverify, hblobs.size hcontent, hlength, hcopy, hflush]

theorem Staged.Preserves.commit_accepted (h : s.Preserves bytes)
    (hblobs : Storage.Faithful holds) (hcontent : holds blobs content)
    (heq : bytes.size = s.metadata.declaredLength) :
    ∃ digest blobs', s.commit blobs =
        (.ok ⟨s.metadata, content.size, bytes.size, digest⟩, blobs') ∧
      Hex.Spells digest (Sha256.digest bytes) ∧ holds blobs' (content ++ bytes) := by
  have hverify : s.verify = .ok () :=
    if_pos (h.length.trans (heq.trans s.metadata.expectedLength_eq.symm))
  obtain ⟨blobs', hcommit, hholds⟩ :=
    commit_retained h.storage h.length hverify hblobs hcontent
  rw [Staged.digestHex, h.digest] at hcommit
  exact ⟨_, blobs', hcommit, Hex.spells_encode _, hholds⟩

/-- **Staging and committing move the bytes of the stream as they are, or touch nothing.** Staging
fails if the stream ends in a failure, and only then. Else what is staged has the number, the digest
and the content of the bytes that the stream brought. If their number is the one that is declared
for the coding, committing puts them at the end of the blob area and records where they are, their
number, and the digits that spell their digest; if it is not, the blob area is left alone. -/
theorem Stager.stage_then_commit (stager : Stager) (hopen : stager.location.Open)
    (stream : Stream) (metadata : Metadata) (hblobs : Storage.Faithful holds)
    (hcontent : holds blobs content) :
    match stream.failure? with
    | some e => (stager.stage stream metadata).1 = .error (.attachmentIo e)
    | none => ∃ staged, (stager.stage stream metadata).1 = .ok staged ∧
      staged.storedLength = stream.delivered.size ∧
      staged.digest = Sha256.digest stream.delivered ∧
      staged.readAll = .ok stream.delivered ∧
      if stream.delivered.size = metadata.declaredLength then
        ∃ digest blobs', staged.commit blobs =
            (.ok ⟨metadata, content.size, stream.delivered.size, digest⟩, blobs') ∧
          Hex.Spells digest (Sha256.digest stream.delivered) ∧
          holds blobs' (content ++ stream.delivered)
      else staged.commit blobs =
        (.error (.lengthMismatch metadata.declaredLength stream.delivered.size metadata.encoding),
          blobs) := by
  cases hfailure : stream.failure? with
  | some e => exact stage_fails hopen metadata hfailure
  | none =>
    obtain ⟨staged, rest, hstage, rfl, hpreserves⟩ := stage_ends hopen metadata hfailure
    refine ⟨staged, congrArg Prod.fst hstage, hpreserves.length, hpreserves.digest,
      hpreserves.readAll, ?_⟩
    split
    · rename_i heq
      exact hpreserves.commit_accepted hblobs hcontent heq
    · rename_i hne
      exact hpreserves.commit_refused hne

end Committing

/-- Three bytes in two pieces, with an interruption between them. -/
def interruptedPieces : List StreamEvent :=
  [.data ⟨#[97, 98]⟩, .failure ⟨.interrupted, "interrupted"⟩, .data ⟨#[99]⟩]

/-- Read byte by byte into a file, the three bytes are found behind the one that was there. -/
theorem Stager.stage_then_commit_interrupted :
    ∃ staged, (stage ⟨.directory ⟨"staging", none⟩, 0⟩ (.ofPieces interruptedPieces none)
        zipped).1 = .ok staged ∧
      staged.storedLength = 3 ∧ staged.readAll = .ok ⟨#[97, 98, 99]⟩ ∧
      ∃ blobs, staged.commit (⟨⟨#[9]⟩⟩ : Memory) = (.ok ⟨zipped, 1, 3,
          "ba7816bf8f01cfea414140de5dae2223b00361a396177a9cb410ff61f20015ad"⟩, blobs) ∧
        blobs.bytes = ⟨#[9, 97, 98, 99]⟩ := by
  have hpasses : ∀ p ∈ interruptedPieces, p.Passes := by
    simp only [interruptedPieces, List.forall_mem_cons]
    exact ⟨nofun, rfl, nofun, nofun⟩
  have hfailure : (Stream.ofPieces interruptedPieces none).failure? = none :=
    Stream.failure?_ofPieces hpasses nofun
  have hdelivered : (Stream.ofPieces interruptedPieces none).delivered = ⟨#[97, 98, 99]⟩ :=
    Stream.delivered_ofPieces hpasses none
  have h := stage_then_commit ⟨.directory ⟨"staging", none⟩, 0⟩ rfl
    (.ofPieces interruptedPieces none) zipped Memory.faithful
    (rfl : (⟨⟨#[9]⟩⟩ : Memory).bytes = _)
  rw [hfailure, hdelivered] at h
  obtain ⟨staged, hstage, hlength, -, hread, digest, blobs, hcommit, hdigest, hblobs⟩ := h
  obtain rfl := hdigest.unique Hex.spells_digest_abc
  exact ⟨staged, hstage, hlength, hread, blobs, hcommit, hblobs⟩

end Replica
