import Replica.Attachment.Stager
import Replica.Proofs.Attachment.Copying
import Replica.Proofs.Storage.Holding

/-!
# From the stream to the blob area

What is staged is what the stream delivered, and what is committed is what was staged: the same
bytes, their number and their digest. Where temporary storage or the stream fails there is no
attachment; nothing is said here of when that happens.
-/
namespace Replica

/-- The number of bytes that are to be stored, as the coding of the content selects it. -/
def Metadata.declaredLength (m : Metadata) : Nat :=
  match m.encoding with
  | .identity => m.length.toNat
  | .gzip => m.encodedLength.toNat

theorem Metadata.expectedLength_eq (m : Metadata) : m.expectedLength = m.declaredLength := by
  unfold expectedLength declaredLength
  cases m.encoding <;> rfl

/-- Compressed content of seven bytes, of which three are stored. -/
def zipped : Metadata := ⟨"text/plain", .gzip, 7, 3⟩

namespace Stream

/-- What events give to a reader who repeats interrupted reads, up to the end or a failure. -/
def deliveredBy : List StreamEvent → ByteArray
  | [] => .empty
  | .data bytes :: rest => if bytes.size = 0 then .empty else bytes ++ deliveredBy rest
  | .failure e :: rest => if e.kind = .interrupted then deliveredBy rest else .empty
  | .breakOff bytes e :: rest =>
    bytes ++ if e.kind = .interrupted then deliveredBy rest else .empty

/-- What the stream gives to a reader who repeats interrupted reads. -/
def delivered (s : Stream) : ByteArray := deliveredBy s.events

theorem extract_append_rest (bytes : ByteArray) (n : Nat) :
    bytes.extract 0 n ++ bytes.extract n bytes.size = bytes := by
  rw [ByteArray.extract_append_extract, Nat.zero_min, ByteArray.extract_zero_max_size]

/-- Bytes that are read come off the front of what the stream delivers. -/
theorem delivered_read {s t : Stream} {capacity : Nat} {bytes : ByteArray}
    (h : s.read (capacity + 1) = (.ok bytes, t)) (hne : bytes.size ≠ 0) :
    s.delivered = bytes ++ t.delivered := by
  unfold read at h
  split at h
  · obtain ⟨hbytes, _⟩ := Prod.mk.inj h
    obtain rfl := Except.ok.inj hbytes
    exact absurd rfl hne
  · cases h
  · rename_i run rest hevents
    split at h
    · obtain ⟨hbytes, rfl⟩ := Prod.mk.inj h
      obtain rfl := Except.ok.inj hbytes
      simp only [delivered, hevents, deliveredBy, if_neg hne]
    · rename_i hlong
      obtain ⟨hbytes, rfl⟩ := Prod.mk.inj h
      obtain rfl := Except.ok.inj hbytes
      have hrun : run.size ≠ 0 := by omega
      have hleft : (run.extract (capacity + 1) run.size).size ≠ 0 := by
        rw [ByteArray.size_extract]
        omega
      simp only [delivered, hevents, deliveredBy, if_neg hrun, if_neg hleft]
      rw [← ByteArray.append_assoc, extract_append_rest]
  · rename_i run e rest hevents
    split at h
    · cases h
    · obtain ⟨hbytes, rfl⟩ := Prod.mk.inj h
      obtain rfl := Except.ok.inj hbytes
      simp only [delivered, hevents, deliveredBy]
      rw [← ByteArray.append_assoc, extract_append_rest]

/-- A read without bytes is the end. -/
theorem delivered_end {s t : Stream} {capacity : Nat} {bytes : ByteArray}
    (h : s.read (capacity + 1) = (.ok bytes, t)) (hend : bytes.size = 0) :
    s.delivered = .empty := by
  unfold read at h
  split at h
  · rename_i hevents
    simp [delivered, hevents, deliveredBy]
  · cases h
  · rename_i run rest hevents
    split at h
    · obtain ⟨hbytes, rfl⟩ := Prod.mk.inj h
      obtain rfl := Except.ok.inj hbytes
      simp only [delivered, hevents, deliveredBy, if_pos hend]
    · obtain rfl := Except.ok.inj (Prod.mk.inj h).1
      rw [ByteArray.size_extract] at hend
      omega
  · split at h
    · cases h
    · obtain rfl := Except.ok.inj (Prod.mk.inj h).1
      rw [ByteArray.size_extract] at hend
      omega

/-- A read that is interrupted takes nothing away. -/
theorem delivered_interrupted {s t : Stream} {capacity : Nat} {e : IoError}
    (h : s.read (capacity + 1) = (.error e, t)) (hkind : e.kind = .interrupted) :
    s.delivered = t.delivered := by
  unfold read at h
  split at h
  · cases h
  · rename_i hevents
    obtain ⟨herror, rfl⟩ := Prod.mk.inj h
    obtain rfl := Except.error.inj herror
    simp only [delivered, hevents, deliveredBy, if_pos hkind]
  · split at h <;> cases h
  · rename_i run e' rest hevents
    split at h
    · rename_i hempty
      obtain ⟨herror, rfl⟩ := Prod.mk.inj h
      obtain rfl := Except.error.inj herror
      have hrun : run = .empty := ByteArray.size_eq_zero_iff.mp (by omega)
      simp only [delivered, hevents, deliveredBy, if_pos hkind, hrun, ByteArray.empty_append]
    · cases h

end Stream

namespace Staged

/-- The storage holds the bytes, and their number and digest are recorded. -/
structure Seals (s : Staged) (bytes : ByteArray) : Prop where
  storage : s.storage.Holds bytes
  length : s.storedLength = bytes.size
  digest : s.digest = Sha256.digest bytes

end Staged

namespace Stager

theorem copyStream_eq_ok {spare : Nat} {stream rest : Stream} {storage storage' : Backend}
    {received received' : ByteArray} (hholds : storage.Holds received)
    (h : copyStream spare stream storage received = (.ok (storage', received'), rest)) :
    received' = received ++ stream.delivered ∧ storage'.Holds received' := by
  fun_induction copyStream spare stream storage received with
  | case1 stream storage received e stream' hread hkind ih =>
    rw [Stream.delivered_interrupted hread hkind]
    exact ih hholds h
  | case2 => cases h
  | case3 stream storage received bytes stream' hread hend =>
    obtain ⟨hresult, _⟩ := Prod.mk.inj h
    obtain ⟨rfl, rfl⟩ := Prod.mk.inj (Except.ok.inj hresult)
    rw [Stream.delivered_end hread hend, ByteArray.append_empty]
    exact ⟨rfl, hholds⟩
  | case4 => cases h
  | case5 stream storage received bytes stream' hread hne offset storage' happend ih =>
    rw [Stream.delivered_read hread hne, ← ByteArray.append_assoc]
    exact ih (hholds.append happend) h

theorem copyStream_read {spare offset : Nat} {stream rest : Stream} {storage storage' : Backend}
    {received bytes : ByteArray} (hread : stream.read (spare + 1) = (.ok bytes, rest))
    (hne : bytes.size ≠ 0) (happend : Storage.append storage bytes = (.ok offset, storage')) :
    copyStream spare stream storage received =
      copyStream spare rest storage' (received ++ bytes) := by
  rw [copyStream]
  split
  · rename_i hfailed
    cases hread.symm.trans hfailed
  · rename_i hgot
    cases hread.symm.trans hgot
    rw [dif_neg hne, happend]

theorem copyStream_end {spare : Nat} {stream rest : Stream} (storage : Backend)
    (received : ByteArray) (hread : stream.read (spare + 1) = (.ok .empty, rest)) :
    copyStream spare stream storage received = (.ok (storage, received), rest) := by
  rw [copyStream]
  split
  · rename_i hfailed
    cases hread.symm.trans hfailed
  · rename_i hgot
    cases hread.symm.trans hgot
    exact dif_pos rfl

theorem allocate_holds {location : StagingLocation} {storage : Backend}
    (h : location.allocate = .ok storage) : storage.Holds .empty := by
  cases location with
  | memory =>
    obtain rfl := Except.ok.inj h
    rfl
  | directory d =>
    cases hrefusal : d.refusal with
    | some source => simp [StagingLocation.allocate, TempFile.create, hrefusal, Except.map] at h
    | none =>
      simp only [StagingLocation.allocate, TempFile.create, hrefusal, Except.map] at h
      obtain rfl := Except.ok.inj h
      exact ⟨rfl, rfl⟩

theorem flush_holds {b b' : Backend} {bytes : ByteArray} (h : b.Holds bytes)
    (hflush : Storage.flush b = (.ok (), b')) : b'.Holds bytes := by
  cases b <;> (obtain rfl := (Prod.mk.inj hflush).2; exact h)

/-- Staging keeps what the stream delivered. -/
theorem stage_eq_ok {s : Stager} {stream rest : Stream} {metadata : Metadata} {staged : Staged}
    (h : s.stage stream metadata = (.ok staged, rest)) :
    staged.metadata = metadata ∧ staged.Seals stream.delivered := by
  unfold stage at h
  split at h
  · cases h
  · rename_i hallocate
    split at h
    · cases h
    · rename_i hcopy
      obtain ⟨hreceived, hholds⟩ := copyStream_eq_ok (allocate_holds hallocate) hcopy
      rw [ByteArray.empty_append] at hreceived
      split at h
      · cases h
      · rename_i hflush
        obtain ⟨hstaged, _⟩ := Prod.mk.inj h
        obtain rfl := Except.ok.inj hstaged
        subst hreceived
        exact ⟨rfl, flush_holds hholds hflush, rfl, rfl⟩

/-- Bytes that fit into the buffer are staged in memory by two reads. -/
theorem stage_memory {content : ByteArray} (hne : content.size ≠ 0) (metadata : Metadata) :
    stage ⟨.memory, content.size⟩ (.ofBytes content) metadata =
      (.ok ⟨metadata, .memory ⟨content⟩, content.size, Sha256.digest content⟩, ⟨[], 2⟩) := by
  have hroom : content.size - 1 + 1 = content.size := by omega
  have hread : (Stream.ofBytes content).read (content.size - 1 + 1) = (.ok content, ⟨[], 1⟩) := by
    simp [Stream.ofBytes, Stream.read, hroom]
  have happend : Storage.append (Backend.memory {}) content = (.ok 0, .memory ⟨content⟩) := by
    change (_, Backend.memory ⟨.empty ++ content⟩) = _
    rw [ByteArray.empty_append]
    rfl
  have hcopy := (@copyStream_read _ _ _ _ _ _ .empty _ hread hne happend).trans
    (copyStream_end _ _ rfl)
  rw [ByteArray.empty_append] at hcopy
  simp only [stage, StagingLocation.allocate, hcopy]
  rfl

end Stager

theorem copyChunks_eq_ok {source : Backend} {target target' : Memory} {bytes : ByteArray}
    {copied n : Nat} (hholds : source.Holds bytes) (hle : copied ≤ bytes.size)
    (h : copyChunks source target copied bytes.size = (.ok n, target')) :
    n = bytes.size ∧ target'.bytes = target.bytes ++ bytes.extract copied bytes.size := by
  fun_induction copyChunks source target copied bytes.size with
  | case1 => cases h
  | case2 => cases h
  | case3 source target copied hlt length chunk source' hread offset target'' happend ih =>
    obtain ⟨rfl, hholds'⟩ := hholds.readAt hread
    obtain rfl := (Prod.mk.inj happend).2
    have hbound : copied + length ≤ bytes.size := by
      simp only [length]
      omega
    obtain ⟨hn, htarget⟩ := ih hholds' hbound h
    refine ⟨hn, ?_⟩
    rw [htarget, ByteArray.append_assoc,
      ← ByteArray.extract_eq_extract_append_extract (copied + length) (by omega) hbound]
  | case4 source target copied hge =>
    obtain ⟨hn, rfl⟩ := Prod.mk.inj h
    obtain rfl := Except.ok.inj hn
    obtain rfl : copied = bytes.size := by omega
    rw [ByteArray.extract_same, ByteArray.append_empty]
    exact ⟨rfl, rfl⟩

/-- Committing puts exactly the staged bytes at the end of the blob area. -/
theorem Staged.commit_eq_ok {s : Staged} {bytes : ByteArray} {blobs blobs' : Memory}
    {c : Committed} (hseals : s.Seals bytes) (h : s.commit blobs = (.ok c, blobs')) :
    blobs'.bytes = blobs.bytes ++ bytes ∧ bytes.size = s.metadata.declaredLength ∧
      c = ⟨s.metadata, blobs.bytes.size, bytes.size, Hex.encode (Sha256.digest bytes)⟩ := by
  unfold Staged.commit at h
  split at h
  · cases h
  · rename_i hverify
    have hdeclared : bytes.size = s.metadata.declaredLength := by
      rw [← hseals.length, ← Metadata.expectedLength_eq]
      unfold Staged.verify at hverify
      split at hverify
      · assumption
      · cases hverify
    dsimp only at h
    rw [hseals.length] at h
    split at h
    · cases h
    · rename_i hcopy
      obtain ⟨rfl, hblobs⟩ := copyChunks_eq_ok hseals.storage (Nat.zero_le _) hcopy
      rw [ByteArray.extract_zero_size] at hblobs
      obtain ⟨hc, rfl⟩ := Prod.mk.inj h
      obtain rfl := Except.ok.inj hc
      refine ⟨hblobs, hdeclared, ?_⟩
      rw [Staged.digestHex, hseals.digest]
      rfl

end Replica
