import Mathlib.Logic.Relation
import Replica.Proofs.Revision.Generations
import Replica.Revision.Batch

/-!
# Ancestors come before descendants

The histories of a document form a forest: a revision has at most one parent, one generation below
it. A fragment is a path of the forest. The order of a batch looks at oldest generations only; that
it never puts a descendant before an ancestor from another fragment rests on the paths having no
gaps and on parents being unique. Nothing is said of fragments whose hashes do not fit a forest.
-/
namespace Replica

/-- Which revision another one was made from. -/
structure Forest where
  parent : RevisionId → Option RevisionId
  generation_parent : ∀ {child p : RevisionId}, parent child = some p →
    p.generation + 1 = child.generation

namespace Forest

variable (forest : Forest)

/-- `r` is reached from `s` by going to the parent, at least once. -/
def ProperAncestor (r s : RevisionId) : Prop :=
  Relation.TransGen (fun child p => forest.parent child = some p) s r

/-- Each revision of the fragment is the child of the next one. -/
def IsPath (f : Fragment) : Prop :=
  f.revisions.IsChain fun child p => forest.parent child = some p

/-- A proper ancestor of a revision stands in the revision's own fragment, or else in earlier
fragments only. -/
def AncestorsFirst (fragments : List Fragment) : Prop :=
  ∀ (j : Nat) (hj : j < fragments.length), ∀ s ∈ fragments[j].revisions,
    ∀ r, forest.ProperAncestor r s →
      r ∈ fragments[j].revisions ∨
        ∀ (i : Nat) (hi : i < fragments.length), r ∈ fragments[i].revisions → i < j

/-- The forest of some links from child to parent; the first link of a child counts. -/
def ofLinks (links : List (RevisionId × RevisionId))
    (h : ∀ link ∈ links, link.2.generation + 1 = link.1.generation) : Forest where
  parent child := (links.find? fun link => link.1 = child).map (·.2)
  generation_parent := by
    intro child p hp
    obtain ⟨link, hl, rfl⟩ := Option.map_eq_some_iff.mp hp
    have hc : link.1 = child := by simpa using List.find?_some hl
    rw [← hc]
    exact h link (List.mem_of_find?_eq_some hl)

variable {forest}

theorem ProperAncestor.generation_lt {r s : RevisionId} (h : forest.ProperAncestor r s) :
    r.generation < s.generation := by
  induction h with
  | single hp =>
    have hg := forest.generation_parent hp
    omega
  | tail _ hp ih =>
    have hg := forest.generation_parent hp
    omega

/-- A path that reaches down to the parent's generation holds the parent. -/
theorem IsPath.parent_mem {f : Fragment} (hf : forest.IsPath f) {s p : RevisionId}
    (hs : s ∈ f.revisions) (hp : forest.parent s = some p) (hg : f.minGeneration ≤ p.generation) :
    p ∈ f.revisions := by
  obtain ⟨i, hi, rfl⟩ := List.getElem_of_mem hs
  have hgen := f.generation_getElem i hi
  have hpar := forest.generation_parent hp
  have hnext : i + 1 < f.revisions.length := by rw [Fragment.length_revisions]; omega
  have hc := List.isChain_iff_getElem.mp hf i hnext
  rw [hp] at hc
  rw [Option.some.inj hc]
  exact List.getElem_mem hnext

/-- A path that reaches down to an ancestor's generation holds the ancestor. -/
theorem IsPath.ancestor_mem {f : Fragment} (hf : forest.IsPath f) {r s : RevisionId}
    (hr : forest.ProperAncestor r s) (hs : s ∈ f.revisions) (hg : f.minGeneration ≤ r.generation) :
    r ∈ f.revisions := by
  induction hr using Relation.TransGen.head_induction_on with
  | single hp => exact hf.parent_mem hs hp hg
  | head hp hrest ih =>
    have hlt := ProperAncestor.generation_lt hrest
    exact ih (hf.parent_mem hs hp (by omega))

end Forest

namespace Batch

theorem sorted_perm (fragments : List Fragment) : (sorted fragments).Perm fragments :=
  List.mergeSort_perm _ _

/-- The oldest generations never fall from a fragment to a later one. -/
theorem pairwise_sorted (fragments : List Fragment) :
    (sorted fragments).Pairwise fun a b => a.minGeneration ≤ b.minGeneration := by
  have h : (sorted fragments).Pairwise fun a b => decide (a.minGeneration ≤ b.minGeneration) := by
    apply List.pairwise_mergeSort
    · intro a b c hab hbc
      simp only [decide_eq_true_eq] at *
      omega
    · intro a b
      simp only [Bool.or_eq_true, decide_eq_true_eq]
      omega
  simpa only [decide_eq_true_eq] using h

/-- Fragments of one document, at least one, have a batch: they in sorted order. -/
theorem new_eq_ok {document : String} {fragments : List Fragment} (hne : fragments ≠ [])
    (hdoc : ∀ f ∈ fragments, f.document = document) :
    new fragments = .ok ⟨document, sorted fragments⟩ := by
  cases fragments with
  | nil => exact absurd rfl hne
  | cons first rest =>
    have hfirst : first.document = document := hdoc first List.mem_cons_self
    have hstray : rest.find? (fun f => f.document ≠ document) = none := by
      simp only [List.find?_eq_none]
      intro f hf
      simp [hdoc f (List.mem_cons_of_mem _ hf)]
    simp only [new, hfirst, hstray]

theorem lt_of_minGeneration_lt {fragments : List Fragment} {i j : Nat}
    (hi : i < (sorted fragments).length) (hj : j < (sorted fragments).length)
    (h : (sorted fragments)[i].minGeneration < (sorted fragments)[j].minGeneration) : i < j := by
  by_contra hle
  rcases Nat.lt_or_eq_of_le (Nat.not_lt.mp hle) with hji | rfl
  · have hs := List.pairwise_iff_getElem.mp (pairwise_sorted fragments) j i hj hi hji
    omega
  · omega

/-- **Ancestors first.** The fragments of one document, paths of a forest, given in any order, have
a batch: the same fragments, with every ancestor before its descendants. -/
theorem ancestors_first (forest : Forest) (document : String) (fragments : List Fragment)
    (hne : fragments ≠ []) (hdoc : ∀ f ∈ fragments, f.document = document)
    (hpath : ∀ f ∈ fragments, forest.IsPath f) :
    ∃ batch, new fragments = .ok batch ∧ batch.document = document ∧
      batch.fragments.Perm fragments ∧ forest.AncestorsFirst batch.fragments := by
  refine ⟨_, new_eq_ok hne hdoc, rfl, sorted_perm fragments, ?_⟩
  intro j hj s hs r hr
  have hf : forest.IsPath (sorted fragments)[j] :=
    hpath _ ((sorted_perm fragments).mem_iff.mp (List.getElem_mem hj))
  by_cases hg : (sorted fragments)[j].minGeneration ≤ r.generation
  · exact Or.inl (hf.ancestor_mem hr hs hg)
  · refine Or.inr fun i hi hri => lt_of_minGeneration_lt hi hj ?_
    have hmin : (sorted fragments)[i].minGeneration ≤ r.generation :=
      Fragment.minGeneration_le_of_mem hri
    omega

/-- A trunk, a branch off its root, and the trunk's continuation, which overlaps it. -/
def branching : Forest :=
  .ofLinks [(⟨4, "d"⟩, ⟨3, "c"⟩), (⟨3, "c"⟩, ⟨2, "b"⟩), (⟨2, "b"⟩, ⟨1, "a"⟩),
    (⟨3, "c-2"⟩, ⟨2, "b-2"⟩), (⟨2, "b-2"⟩, ⟨1, "a"⟩)] (by decide)

def trunk : Fragment :=
  ⟨"doc", 3, ["c", "b", "a"], false, .empty, .empty, by decide, by decide, by decide, by decide,
    by decide⟩

def branch : Fragment :=
  ⟨"doc", 3, ["c-2", "b-2"], false, .empty, .empty, by decide, by decide, by decide, by decide,
    by decide⟩

def continuation : Fragment :=
  ⟨"doc", 4, ["d", "c"], false, .empty, .empty, by decide, by decide, by decide, by decide,
    by decide⟩

theorem ancestors_first_branching :
    [continuation, branch, trunk] ≠ [] ∧
    (∀ f ∈ [continuation, branch, trunk], f.document = "doc") ∧
    (∀ f ∈ [continuation, branch, trunk], branching.IsPath f) ∧
    ∃ batch, new [continuation, branch, trunk] = .ok batch ∧ batch.document = "doc" ∧
      batch.fragments.Perm [continuation, branch, trunk] ∧
      branching.AncestorsFirst batch.fragments := by
  have hne : [continuation, branch, trunk] ≠ [] := by decide
  have hdoc : ∀ f ∈ [continuation, branch, trunk], f.document = "doc" := by decide
  have hpath : ∀ f ∈ [continuation, branch, trunk], branching.IsPath f := by
    intro f hf
    unfold Forest.IsPath
    revert f
    decide
  exact ⟨hne, hdoc, hpath, ancestors_first branching "doc" _ hne hdoc hpath⟩

end Batch

end Replica
