import Mathlib.Data.List.Chain
import Replica.Revision.Fragment

/-!
# The generations of a fragment

The revisions of a fragment count down from the generation of the leaf to the least generation, one
at a time, so a revision's generation says where in the fragment it stands.
-/
namespace Replica.Fragment

@[simp] theorem length_revisions (f : Fragment) : f.revisions.length = f.ids.length := by
  simp [revisions]

theorem getElem_revisions (f : Fragment) (i : Nat) (h : i < f.revisions.length)
    (hi : i < f.ids.length) : f.revisions[i] = ⟨f.start - i, f.ids[i]⟩ := by
  simp [revisions]

theorem minGeneration_add_length (f : Fragment) : f.minGeneration + f.ids.length = f.start + 1 := by
  have hl := f.length_le
  unfold minGeneration
  omega

/-- The generation at a place in the fragment, counted from the oldest revision. -/
theorem generation_getElem (f : Fragment) (i : Nat) (h : i < f.revisions.length) :
    f.revisions[i].generation + i + 1 = f.minGeneration + f.ids.length := by
  have hi : i < f.ids.length := by simpa using h
  have hl := f.length_le
  have hm := f.minGeneration_add_length
  rw [getElem_revisions f i h hi]
  dsimp only
  omega

theorem minGeneration_le_of_mem {f : Fragment} {r : RevisionId} (h : r ∈ f.revisions) :
    f.minGeneration ≤ r.generation := by
  obtain ⟨i, hi, rfl⟩ := List.getElem_of_mem h
  have hg := f.generation_getElem i hi
  rw [length_revisions] at hi
  omega

theorem minGeneration_pos (f : Fragment) : 0 < f.minGeneration := Nat.succ_pos _

theorem oldest_eq_getElem (f : Fragment) (h : f.ids.length - 1 < f.revisions.length) :
    f.oldest = f.revisions[f.ids.length - 1] := by
  have hi : f.ids.length - 1 < f.ids.length := by simpa using h
  rw [getElem_revisions f _ h hi, oldest, List.getLast_eq_getElem]

theorem generation_oldest (f : Fragment) : f.oldest.generation = f.minGeneration := by
  have hl := f.length_le
  have hpos := f.ids_length_pos
  unfold oldest minGeneration
  dsimp only
  omega

/-- The generations count down to the least one and leave none out. -/
theorem generations_eq (f : Fragment) :
    f.revisions.map (·.generation) = (List.range' f.minGeneration f.ids.length).reverse := by
  apply List.ext_getElem
  · simp
  · intro i h h'
    rw [List.length_map] at h
    have hgen := f.generation_getElem i h
    rw [length_revisions] at h
    rw [List.getElem_map, List.getElem_reverse, List.getElem_range', List.length_range']
    omega

theorem head?_revisions (f : Fragment) : f.revisions.head? = some f.leaf := by
  have hpos := f.ids_length_pos
  have h : 0 < f.revisions.length := by rwa [length_revisions]
  rw [List.head?_eq_getElem?, List.getElem?_eq_getElem h, getElem_revisions f 0 h hpos, leaf,
    List.head_eq_getElem]
  rfl

theorem getLast?_revisions (f : Fragment) : f.revisions.getLast? = some f.oldest := by
  have hpos := f.ids_length_pos
  have h : f.ids.length - 1 < f.revisions.length := by
    rw [length_revisions]
    omega
  rw [List.getLast?_eq_getElem?, length_revisions, List.getElem?_eq_getElem h,
    f.oldest_eq_getElem h]

/-- Only the oldest revision has the least generation. -/
theorem eq_oldest_of_generation {f : Fragment} {r : RevisionId} (h : r ∈ f.revisions)
    (hg : r.generation = f.minGeneration) : r = f.oldest := by
  obtain ⟨i, hi, rfl⟩ := List.getElem_of_mem h
  have hgen := f.generation_getElem i hi
  have hlen := f.length_revisions
  have hlast : i = f.ids.length - 1 := by omega
  subst hlast
  exact (f.oldest_eq_getElem hi).symm

end Replica.Fragment
