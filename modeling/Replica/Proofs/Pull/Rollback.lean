import Mathlib
import Replica.Proofs.Attachment.Copying
import Replica.Pull.Store

/-!
# A refused insertion leaves no trace

The checks of an insertion touch nothing. Committing its attachments touches only the blob area, and
only by extending it, so cutting it back to the size it had undoes whatever was copied before the
failure. The cause of the failure does not matter.
-/
namespace Replica.RevisionStore

theorem commitAll_extends (capacity : Option Nat) (blobs : Memory)
    (attachments : List (String × Staged)) :
    (commitAll capacity blobs attachments).2.Extends blobs := by
  induction attachments generalizing blobs with
  | nil => exact .refl _
  | cons attachment rest ih =>
    obtain ⟨name, staged⟩ := attachment
    have hc := staged.commit_extends blobs
    simp only [commitAll]
    split
    · exact .refl _
    · split
      · rename_i he
        rw [he] at hc
        exact hc
      · rename_i committed blobs' he
        rw [he] at hc
        have hr := ih blobs'
        split
        · rename_i hrest
          rw [hrest] at hr
          exact hr.trans hc
        · rename_i hrest
          rw [hrest] at hr
          exact hr.trans hc

/-- A refusal cuts off exactly what the committing had appended. -/
theorem insert_cases (s : RevisionStore) (f : Fragment) (attachments : List (String × Staged)) :
    (∃ e, s.insert f attachments = (.error e, s)) ∨
      ∃ t, s.insert f attachments = (.ok (), t) := by
  have hc := commitAll_extends s.capacity s.blobs attachments
  unfold insert
  split
  · exact Or.inl ⟨_, rfl⟩
  · split
    · exact Or.inl ⟨_, rfl⟩
    · dsimp only
      split
      · rename_i hall
        rw [hall] at hc
        rw [hc.truncate_eq]
        exact Or.inl ⟨_, rfl⟩
      · exact Or.inr ⟨_, rfl⟩

/-- **All or nothing.** An insertion that is refused, for whatever cause, gives back the store as it
was: its revisions, its log, its attachments and the bytes of its blob area. -/
theorem insert_refused {s s' : RevisionStore} {f : Fragment} {attachments : List (String × Staged)}
    {e : PullError} (h : s.insert f attachments = (.error e, s')) : s' = s := by
  rcases s.insert_cases f attachments with ⟨e', hrefused⟩ | ⟨t, haccepted⟩
  · exact (Prod.mk.inj (h.symm.trans hrefused)).2
  · cases h.symm.trans haccepted

/-- A revision whose second attachment cannot be read back once the first one has been committed. -/
def halfReadable : List (String × Staged) := [
  ("first", ⟨.identity "text/plain" 3, .memory ⟨⟨#[1, 2, 3]⟩⟩, 3, .empty⟩),
  ("second", ⟨.identity "text/plain" 2,
    .file ⟨⟨⟨#[4, 5]⟩, 2, [none, some ⟨⟨.other, "disk failure"⟩, 1⟩]⟩, 2⟩, 2, .empty⟩)]

def root : Fragment :=
  ⟨"note", 1, ["a"], false, .empty, .empty, by decide, by decide, by decide, by decide, by decide⟩

theorem insert_refused_halfReadable :
    (({ blobs := ⟨⟨#[9]⟩⟩ } : RevisionStore).insert root halfReadable).1 =
      .error (.document (.storage (.io ⟨.other, "disk failure"⟩))) ∧
    (({ blobs := ⟨⟨#[9]⟩⟩ } : RevisionStore).insert root halfReadable).2 =
      { blobs := ⟨⟨#[9]⟩⟩ } := by
  have h : (({ blobs := ⟨⟨#[9]⟩⟩ } : RevisionStore).insert root halfReadable).1 =
      .error (.document (.storage (.io ⟨.other, "disk failure"⟩))) := by cbv
  exact ⟨h, insert_refused (Prod.ext h rfl)⟩

end Replica.RevisionStore
