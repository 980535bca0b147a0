import Replica.Proofs.Pull.InsertionOrder
import Replica.Proofs.Pull.Integrity

/-!
# Strict stores know every generation below the newest

Before an insertion a strict store looks at the oldest revision of the fragment and at the
generation below it, nowhere else. For a store that was strict from the beginning this keeps the
known generations of each document without a gap, whatever was requested and refused. Which
revision of a generation is the parent of another is not known to the store, and nothing is said
of it.
-/
namespace Replica

namespace Fragment

/-- A fragment has a revision of every generation from its oldest to its leaf. -/
theorem exists_generation_iff {f : Fragment} {generation : Nat} :
    (∃ r ∈ f.revisions, r.generation = generation) ↔
      f.minGeneration ≤ generation ∧ generation ≤ f.start := by
  have hlength := f.length_revisions
  have hends := f.minGeneration_add_length
  constructor
  · rintro ⟨r, hr, rfl⟩
    obtain ⟨i, hi, rfl⟩ := List.getElem_of_mem hr
    have hplace := f.generation_getElem i hi
    omega
  · rintro ⟨hlow, hhigh⟩
    have hi : f.start - generation < f.revisions.length := by omega
    have hplace := f.generation_getElem (f.start - generation) hi
    exact ⟨f.revisions[f.start - generation], List.getElem_mem hi, by omega⟩

end Fragment

namespace RevisionStore

/-- The generations known of the document are those from one to the height. -/
def Reaches (s : RevisionStore) (document : String) (height : Nat) : Prop :=
  ∀ generation, (∃ r, s.contains document r = true ∧ r.generation = generation) ↔
    1 ≤ generation ∧ generation ≤ height

section Ancestry

variable {s : RevisionStore} {f : Fragment} {height : Nat}

theorem Reaches.generation_le (h : s.Reaches f.document height) {r : RevisionId}
    (hr : s.contains f.document r = true) : r.generation ≤ height :=
  ((h r.generation).mp ⟨r, hr, rfl⟩).2

theorem Reaches.isAnchored_iff (h : s.Reaches f.document height) :
    s.isAnchored f = true ↔ f.minGeneration ≤ height + 1 := by
  have hpos := f.minGeneration_pos
  rw [RevisionStore.isAnchored_iff]
  simp only [Fragment.AnchoredIn, KnownAfter, List.not_mem_nil, false_and, exists_false, or_false]
  constructor
  · rintro (hroot | hoverlap | ⟨r, hr, hg⟩)
    · omega
    · have hle := h.generation_le hoverlap
      rw [f.generation_oldest] at hle
      omega
    · have hle := h.generation_le hr
      omega
  · intro hle
    by_cases hroot : f.minGeneration = 1
    · exact Or.inl hroot
    · -- The generation below the oldest revision is one of those that are known.
      exact Or.inr (Or.inr ((h (f.minGeneration - 1)).mpr (by omega)))

theorem checkAncestry_eq_ok : s.checkAncestry f = .ok () ↔ s.isAnchored f = true := by
  unfold checkAncestry
  split <;> simp_all

/-- A fragment that overlaps what is known begins no higher than what is known. -/
theorem Reaches.le_of_overlap (h : s.Reaches f.document height)
    (hoverlap : ∃ r ∈ f.revisions, s.contains f.document r = true) :
    f.minGeneration ≤ height + 1 := by
  obtain ⟨r, hr, hknown⟩ := hoverlap
  have hlow := Fragment.minGeneration_le_of_mem hr
  have hhigh := h.generation_le hknown
  omega

end Ancestry

section Insertion

variable {s t : RevisionStore} {f : Fragment} {attachments : List (String × Staged)} {height : Nat}

theorem Reaches.insert_other {document : String} (h : s.Reaches document height)
    (hinsert : s.insert f attachments = (.ok (), t)) (hne : f.document ≠ document) :
    t.Reaches document height := by
  obtain ⟨_, _, committed, blobs, _, rfl⟩ := insert_eq_ok.mp hinsert
  intro generation
  simp only [contains_extended, hne, false_and, or_false]
  exact h generation

/-- The generations of a fragment that begins no higher than one above the known ones close up to
them. -/
theorem Reaches.insert (h : s.Reaches f.document height)
    (hinsert : s.insert f attachments = (.ok (), t)) (hlow : f.minGeneration ≤ height + 1) :
    t.Reaches f.document (max height f.start) := by
  obtain ⟨_, _, committed, blobs, _, rfl⟩ := insert_eq_ok.mp hinsert
  intro generation
  have hpos := f.minGeneration_pos
  have hold := h generation
  have hnew := @Fragment.exists_generation_iff f generation
  simp only [contains_extended, true_and, or_and_right, exists_or]
  rw [hold, hnew]
  omega

/-- Strict, and without a gap in any document. -/
structure Unbroken (s : RevisionStore) : Prop where
  strict : s.strict = true
  reaches : ∀ document, ∃ height, s.Reaches document height

theorem Unbroken.insert (h : s.Unbroken) (hinsert : s.insert f attachments = (.ok (), t)) :
    t.Unbroken := by
  obtain ⟨hadmits, _, committed, blobs, _, ht⟩ := insert_eq_ok.mp hinsert
  refine ⟨by rw [ht]; exact h.strict, fun document => ?_⟩
  by_cases hsame : f.document = document
  · subst hsame
    obtain ⟨height, hreaches⟩ := h.reaches f.document
    have hlow := hreaches.isAnchored_iff.mp (hadmits h.strict)
    exact ⟨_, hreaches.insert hinsert hlow⟩
  · obtain ⟨height, hreaches⟩ := h.reaches document
    exact ⟨height, hreaches.insert_other hinsert hsame⟩

theorem Unbroken.submit (h : s.Unbroken) (call : Submission) : (s.submit call).Unbroken := by
  unfold RevisionStore.submit
  rcases s.insert_cases call.fragment call.attachments with ⟨e, hinsert⟩ | ⟨t, hinsert⟩ <;>
    rw [hinsert]
  · exact h
  · exact h.insert hinsert

end Insertion

theorem unbroken_empty (capacity : Option Nat) :
    ({ strict := true, capacity } : RevisionStore).Unbroken := by
  refine ⟨rfl, fun document => ⟨0, fun generation => ?_⟩⟩
  constructor
  · rintro ⟨r, hr, _⟩
    cases of_decide_eq_true hr
  · omega

theorem Unbroken.submitAll {s : RevisionStore} (h : s.Unbroken) (calls : List Submission) :
    (s.submitAll calls).Unbroken := by
  induction calls generalizing s with
  | nil => exact h
  | cons call rest ih => exact ih (h.submit call)

/-- **No gap in a strict store.** After any requests to a store that was strict from the beginning,
accepted and refused ones, the generations known of a document are those from one to some height,
which is zero only if nothing is known of it. A further fragment passes the ancestry check exactly
if its oldest generation is at most one above that height, so every fragment passes that has a known
revision. -/
theorem strict_gapless (capacity : Option Nat) (calls : List Submission) (document : String) :
    let s := ({ strict := true, capacity } : RevisionStore).submitAll calls
    ∃ height, s.Reaches document height ∧
      (height = 0 ↔ ∀ r, s.contains document r = false) ∧
      ∀ f : Fragment, f.document = document →
        (s.checkAncestry f = .ok () ↔ f.minGeneration ≤ height + 1) ∧
        ((∃ r ∈ f.revisions, s.contains document r = true) → s.checkAncestry f = .ok ()) := by
  intro s
  have hunbroken : s.Unbroken := (unbroken_empty capacity).submitAll calls
  obtain ⟨height, hreaches⟩ := hunbroken.reaches document
  refine ⟨height, hreaches, ?_, ?_⟩
  · constructor
    · rintro rfl r
      by_contra hr
      have hnone := (hreaches r.generation).mp ⟨r, Bool.eq_true_of_not_eq_false hr, rfl⟩
      omega
    · intro hnothing
      by_contra hne
      obtain ⟨r, hr, _⟩ := (hreaches 1).mpr (by omega)
      rw [hnothing r] at hr
      cases hr
  · rintro f rfl
    have hchecked : s.checkAncestry f = .ok () ↔ f.minGeneration ≤ height + 1 :=
      checkAncestry_eq_ok.trans hreaches.isAnchored_iff
    exact ⟨hchecked, fun hoverlap => hchecked.mpr (hreaches.le_of_overlap hoverlap)⟩

end RevisionStore

end Replica
