import Replica.Attachment.Staged

/-!
# Copying into a blob area

A blob area in memory only ever grows while attachments are copied into it, also when the copying
fails half way. So the size it had before is enough to find the way back.
-/
namespace Replica

namespace Memory

/-- The later store is the earlier one with bytes behind it, perhaps none. -/
def Extends (later earlier : Memory) : Prop := ∃ tail, later.bytes = earlier.bytes ++ tail

theorem Extends.refl (m : Memory) : m.Extends m := ⟨.empty, ByteArray.append_empty.symm⟩

theorem Extends.trans {a b c : Memory} (hcb : c.Extends b) (hba : b.Extends a) : c.Extends a := by
  obtain ⟨t, ht⟩ := hcb
  obtain ⟨u, hu⟩ := hba
  exact ⟨u ++ t, by rw [ht, hu, ByteArray.append_assoc]⟩

theorem append_extends (m : Memory) (data : ByteArray) : (Storage.append m data).2.Extends m :=
  ⟨data, rfl⟩

/-- Cutting an extension back to the old size gives the old store. -/
theorem Extends.truncate_eq {later earlier : Memory} (h : later.Extends earlier) :
    later.truncate earlier.bytes.size = earlier := by
  obtain ⟨tail, ht⟩ := h
  unfold truncate
  rw [ht, ByteArray.extract_append_eq_left rfl]

end Memory

/-- Copying extends the target, however it ends. -/
theorem copyChunks_extends {σ : Type} [Storage σ] (source : σ) (target : Memory)
    (copied total : Nat) : (copyChunks source target copied total).2.Extends target := by
  fun_induction copyChunks source target copied total with
  | case1 => exact .refl _
  | case2 _ target _ _ _ chunk _ _ e target' ha =>
    have h := Memory.append_extends target chunk
    rw [ha] at h
    exact h
  | case3 _ target _ _ _ chunk _ _ offset target' ha ih =>
    have h := Memory.append_extends target chunk
    rw [ha] at h
    exact ih.trans h
  | case4 => exact .refl _

theorem Staged.commit_extends (s : Staged) (blobs : Memory) : (s.commit blobs).2.Extends blobs := by
  have h := copyChunks_extends s.storage blobs 0 s.storedLength
  unfold Staged.commit
  split
  · exact .refl _
  · dsimp only
    split
    · rename_i hc
      rw [hc] at h
      exact h
    · rename_i hc
      rw [hc] at h
      -- Flushing memory neither fails nor changes it.
      exact h

end Replica
