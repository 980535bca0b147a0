import Mathlib.Tactic.Common
import Replica.Storage.TempFile

/-!
# What a byte store holds

A store in memory holds its bytes. A store in a file holds the beginning of the file, as far as its
own count goes; where the cursor stands and what lies behind does not matter. A read that succeeds
gives bytes that are held, and an append that succeeds puts bytes behind them, whatever has failed
before.
-/
namespace Replica

namespace File

theorem nextFault_content {f g : File} {fault : Option FileFault} (h : f.nextFault = (fault, g)) :
    g.content = f.content ∧ g.cursor = f.cursor := by
  unfold nextFault at h
  split at h <;> (obtain rfl := (Prod.mk.inj h).2; exact ⟨rfl, rfl⟩)

theorem seek_eq_ok {f g : File} {offset : Nat} (h : f.seek offset = (.ok (), g)) :
    g.content = f.content ∧ g.cursor = offset := by
  unfold seek at h
  split at h
  · cases h
  · rename_i hfault
    obtain rfl := (Prod.mk.inj h).2
    exact ⟨(nextFault_content hfault).1, rfl⟩

theorem readExact_eq_ok {f g : File} {length : Nat} {bytes : ByteArray}
    (h : f.readExact length = (.ok bytes, g)) :
    bytes = f.content.extract f.cursor (f.cursor + length) ∧ g.content = f.content := by
  unfold readExact at h
  split at h
  · cases h
  · rename_i hfault
    obtain ⟨hcontent, hcursor⟩ := nextFault_content hfault
    split at h
    · cases h
    · obtain ⟨hbytes, rfl⟩ := Prod.mk.inj h
      obtain rfl := Except.ok.inj hbytes
      rw [hcontent, hcursor]
      exact ⟨rfl, rfl⟩

theorem writeAll_eq_ok {f g : File} {data : ByteArray} (h : f.writeAll data = (.ok (), g)) :
    g.content = overwrite f.content f.cursor data := by
  unfold writeAll at h
  split at h
  · cases h
  · rename_i hfault
    obtain ⟨hcontent, hcursor⟩ := nextFault_content hfault
    obtain rfl := (Prod.mk.inj h).2
    rw [← hcontent, ← hcursor]
    rfl

/-- Up to its end, what is written at a place stands behind what was in front of the place. -/
theorem extract_overwrite {content : ByteArray} {offset : Nat} (h : offset ≤ content.size)
    (data : ByteArray) :
    (overwrite content offset data).extract 0 (offset + data.size) =
      content.extract 0 offset ++ data := by
  have hgap : offset - content.size = 0 := by omega
  have hfront : (content.extract 0 offset).size = offset := by
    rw [ByteArray.size_extract]
    omega
  have hempty : (List.replicate 0 (0 : UInt8)).toByteArray = .empty := rfl
  unfold overwrite
  rw [hgap, hempty, ByteArray.append_empty]
  apply ByteArray.extract_append_eq_left
  rw [ByteArray.size_append, hfront]

end File

namespace TempFile

/-- The bytes appended so far are these. -/
def Holds (t : TempFile) (bytes : ByteArray) : Prop :=
  t.length = bytes.size ∧ t.file.content.extract 0 bytes.size = bytes

theorem Holds.size_le {t : TempFile} {bytes : ByteArray} (h : t.Holds bytes) :
    bytes.size ≤ t.file.content.size := by
  have hsize := congrArg ByteArray.size h.2
  rw [ByteArray.size_extract] at hsize
  omega

theorem Holds.readAt {t t' : TempFile} {bytes chunk : ByteArray} {offset length : Nat}
    (h : t.Holds bytes) (hread : t.readAt offset length = (.ok chunk, t')) :
    chunk = bytes.extract offset (offset + length) ∧ t'.Holds bytes := by
  obtain ⟨hlength, hbytes⟩ := h
  unfold TempFile.readAt at hread
  split at hread
  · cases hread
  · rename_i hfits
    split at hread
    · rename_i hzero
      obtain ⟨hchunk, rfl⟩ := Prod.mk.inj hread
      obtain rfl := Except.ok.inj hchunk
      rw [hzero, Nat.add_zero, ByteArray.extract_same]
      exact ⟨rfl, hlength, hbytes⟩
    · split at hread
      · cases hread
      · rename_i file hseek
        obtain ⟨hcontent, hcursor⟩ := File.seek_eq_ok hseek
        split at hread
        · cases hread
        · rename_i file' hexact
          obtain ⟨hchunk, rfl⟩ := Prod.mk.inj hread
          obtain rfl := Except.ok.inj hchunk
          obtain ⟨hgot, hcontent'⟩ := File.readExact_eq_ok hexact
          refine ⟨?_, hlength, by rw [← hbytes]; simp only [hcontent', hcontent, hbytes]⟩
          have hend : min (0 + (offset + length)) bytes.size = offset + length := by omega
          rw [hgot, hcontent, hcursor]
          conv_rhs => rw [← hbytes]
          rw [ByteArray.extract_extract, Nat.zero_add, hend]

theorem Holds.append {t t' : TempFile} {bytes data : ByteArray} {offset : Nat}
    (h : t.Holds bytes) (happend : t.append data = (.ok offset, t')) :
    t'.Holds (bytes ++ data) := by
  have hfits := h.size_le
  obtain ⟨hlength, hbytes⟩ := h
  unfold TempFile.append at happend
  split at happend
  · rename_i hzero
    obtain rfl := (Prod.mk.inj happend).2
    have hempty : data = .empty := ByteArray.size_eq_zero_iff.mp hzero
    rw [hempty, ByteArray.append_empty]
    exact ⟨hlength, hbytes⟩
  · split at happend
    · cases happend
    · rename_i file hseek
      obtain ⟨hcontent, hcursor⟩ := File.seek_eq_ok hseek
      split at happend
      · cases happend
      · rename_i file' hwrite
        obtain rfl := (Prod.mk.inj happend).2
        constructor
        · rw [ByteArray.size_append, hlength]
        · rw [ByteArray.size_append, File.writeAll_eq_ok hwrite, hcontent, hcursor, hlength,
            File.extract_overwrite hfits, hbytes]

end TempFile

namespace Backend

/-- The bytes appended so far are these. -/
def Holds : Backend → ByteArray → Prop
  | .memory m, bytes => m.bytes = bytes
  | .file t, bytes => t.Holds bytes

theorem Holds.readAt {b b' : Backend} {bytes chunk : ByteArray} {offset length : Nat}
    (h : b.Holds bytes) (hread : Storage.readAt b offset length = (.ok chunk, b')) :
    chunk = bytes.extract offset (offset + length) ∧ b'.Holds bytes := by
  cases b with
  | memory m =>
    obtain ⟨hslice, rfl⟩ := Prod.mk.inj hread
    obtain rfl : m.bytes = bytes := h
    change (if _ then _ else _) = _ at hslice
    split at hslice
    · cases hslice
    · obtain rfl := Except.ok.inj hslice
      exact ⟨rfl, rfl⟩
  | file t =>
    obtain ⟨hresult, rfl⟩ := Prod.mk.inj hread
    exact TempFile.Holds.readAt h (Prod.ext hresult rfl)

theorem Holds.append {b b' : Backend} {bytes data : ByteArray} {offset : Nat}
    (h : b.Holds bytes) (happend : Storage.append b data = (.ok offset, b')) :
    b'.Holds (bytes ++ data) := by
  cases b with
  | memory m =>
    obtain rfl := (Prod.mk.inj happend).2
    obtain rfl : m.bytes = bytes := h
    rfl
  | file t =>
    obtain ⟨hresult, rfl⟩ := Prod.mk.inj happend
    exact TempFile.Holds.append h (Prod.ext hresult rfl)

/-- The store after reads that moved the cursor of its file, and with faults to come. -/
def disturbed (cursor : Nat) (faults : List (Option FileFault)) : Backend → Backend
  | .memory m => .memory m
  | .file t => .file { t with file := { t.file with cursor, faults } }

theorem Holds.disturbed {b : Backend} {bytes : ByteArray} (h : b.Holds bytes) (cursor : Nat)
    (faults : List (Option FileFault)) : (b.disturbed cursor faults).Holds bytes := by
  cases b <;> exact h

end Backend

end Replica
