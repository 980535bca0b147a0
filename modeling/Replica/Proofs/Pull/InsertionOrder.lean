import Replica.Proofs.Pull.Steps
import Replica.Proofs.Revision.AncestorOrder

/-!
# The order of a batch is as good as any

A strict store refuses a fragment that nothing anchors. What anchors a fragment of a batch is known
to the store beforehand, or comes with another fragment: one of lower oldest generation, or else one
with the very same oldest revision, and then the same anchor serves for both. So fragments that can
be inserted in some order can be inserted by rising oldest generation. Attachments play no part
here: nothing is said of fragments whose attachments have to be fetched.
-/
namespace Replica

/-- The fragment is joined on to what is known. -/
def Fragment.AnchoredIn (f : Fragment) (known : String → RevisionId → Prop) : Prop :=
  f.minGeneration = 1 ∨ known f.document f.oldest ∨
    ∃ r, known f.document r ∧ r.generation = f.minGeneration - 1

theorem Fragment.AnchoredIn.mono {f : Fragment} {known more : String → RevisionId → Prop}
    (h : f.AnchoredIn known) (hmore : ∀ r, known f.document r → more f.document r) :
    f.AnchoredIn more := by
  rcases h with hroot | hoverlap | ⟨r, hr, hg⟩
  · exact Or.inl hroot
  · exact Or.inr (Or.inl (hmore _ hoverlap))
  · exact Or.inr (Or.inr ⟨r, hmore r hr, hg⟩)

namespace RevisionStore

/-- Inserts fragments without attachments one after another, up to the first that is refused. -/
def insertAll (s : RevisionStore) : List Fragment → Except PullError RevisionStore
  | [] => .ok s
  | f :: rest =>
    match s.insert f [] with
    | (.error e, _) => .error e
    | (.ok (), t) => t.insertAll rest

theorem isAnchored_iff (s : RevisionStore) (f : Fragment) :
    s.isAnchored f = true ↔ f.AnchoredIn (s.KnownAfter []) := by
  simp only [isAnchored, Fragment.AnchoredIn, KnownAfter, contains, Bool.or_eq_true,
    decide_eq_true_eq, List.any_eq_true, Bool.and_eq_true, Prod.exists, List.not_mem_nil,
    false_and, exists_false, or_false, or_assoc]
  constructor
  · rintro (h | h | ⟨d, r, hr, rfl, hg⟩)
    · exact Or.inl h
    · exact Or.inr (Or.inl h)
    · exact Or.inr (Or.inr ⟨r, hr, hg⟩)
  · rintro (h | h | ⟨r, hr, hg⟩)
    · exact Or.inl h
    · exact Or.inr (Or.inl h)
    · exact Or.inr (Or.inr ⟨_, r, hr, rfl, hg⟩)

/-- Without attachments only the ancestry counts. -/
theorem insert_bare (s : RevisionStore) (f : Fragment) (h : s.Admits f) :
    s.insert f [] = (.ok (), s.extended f [] [] s.blobs) :=
  insert_eq_ok.mpr ⟨h, rfl, [], s.blobs, rfl, rfl⟩

theorem insertAll_cons (s : RevisionStore) (f : Fragment) (rest : List Fragment)
    (t : RevisionStore) :
    s.insertAll (f :: rest) = .ok t ↔
      s.Admits f ∧ (s.extended f [] [] s.blobs).insertAll rest = .ok t := by
  rw [insertAll]
  constructor
  · intro h
    split at h
    · contradiction
    · rename_i u hu
      obtain ⟨hadmits, _⟩ := insert_eq_ok.mp hu
      rw [insert_bare s f hadmits] at hu
      rw [(Prod.mk.inj hu).2]
      exact ⟨hadmits, h⟩
  · rintro ⟨hadmits, h⟩
    rw [insert_bare s f hadmits]
    exact h

/-- What a store knows after all insertions does not depend on their order. -/
theorem contains_insertAll {s t : RevisionStore} {fragments : List Fragment}
    (h : s.insertAll fragments = .ok t) (document : String) (r : RevisionId) :
    t.contains document r = true ↔ s.KnownAfter fragments document r := by
  induction fragments generalizing s with
  | nil =>
    cases h
    simp [KnownAfter]
  | cons f rest ih =>
    obtain ⟨_, hrest⟩ := (insertAll_cons s f rest t).mp h
    rw [ih hrest, knownAfter_extended]

/-- Each fragment is anchored, when its turn comes, in what is known by then. -/
def AnchoredInTurn (s : RevisionStore) (fragments : List Fragment) : Prop :=
  ∀ before f later, fragments = before ++ f :: later → f.AnchoredIn (s.KnownAfter before)

theorem anchoredInTurn_cons (s : RevisionStore) (f : Fragment) (rest : List Fragment) :
    s.AnchoredInTurn (f :: rest) ↔
      f.AnchoredIn (s.KnownAfter []) ∧ (s.extended f [] [] s.blobs).AnchoredInTurn rest := by
  constructor
  · intro h
    refine ⟨h [] f rest rfl, fun before g later hsplit => ?_⟩
    have hg := h (f :: before) g later (by rw [hsplit]; rfl)
    exact hg.mono fun r => (knownAfter_extended ..).mpr
  · rintro ⟨hf, hrest⟩ before g later hsplit
    cases before with
    | nil =>
      obtain ⟨rfl, rfl⟩ := List.cons.inj hsplit
      exact hf
    | cons f' before =>
      obtain ⟨rfl, rfl⟩ := List.cons.inj hsplit
      exact (hrest before g later rfl).mono fun r => (knownAfter_extended ..).mp

theorem exists_insertAll_iff (s : RevisionStore) (fragments : List Fragment) :
    (∃ t, s.insertAll fragments = .ok t) ↔ (s.strict = true → s.AnchoredInTurn fragments) := by
  induction fragments generalizing s with
  | nil => simp [insertAll, AnchoredInTurn]
  | cons f rest ih =>
    have hstrict : (s.extended f [] [] s.blobs).strict = s.strict := rfl
    simp only [insertAll_cons, exists_and_left, ih, hstrict, Admits, isAnchored_iff,
      anchoredInTurn_cons, ← forall_and]

/-- Fragments inserted in some order find their anchors below their own oldest generations. -/
theorem anchoredIn_lower {s : RevisionStore} {fragments : List Fragment}
    (hturn : s.AnchoredInTurn fragments) (before : List Fragment) (f : Fragment)
    (later : List Fragment) (hsplit : fragments = before ++ f :: later) :
    f.AnchoredIn fun d r => s.contains d r = true ∨
      ∃ g ∈ fragments, g.minGeneration < f.minGeneration ∧ g.document = d ∧ r ∈ g.revisions := by
  -- The induction is on the place in the order: a fragment with the same oldest revision that
  -- came earlier hands on its own anchor.
  induction hn : before.length using Nat.strong_induction_on generalizing before f later with
  | _ n ih =>
    subst hn
    rcases hturn before f later hsplit with hroot | hoverlap | ⟨r, hr, hg⟩
    · exact Or.inl hroot
    · rcases hoverlap with hknown | ⟨g, hg, hgd, hmem⟩
      · exact Or.inr (Or.inl (Or.inl hknown))
      have hle : g.minGeneration ≤ f.minGeneration := by
        rw [← f.generation_oldest]
        exact Fragment.minGeneration_le_of_mem hmem
      have hgall : g ∈ fragments := by rw [hsplit]; exact List.mem_append_left _ hg
      rcases Nat.lt_or_eq_of_le hle with hlt | heq
      · exact Or.inr (Or.inl (Or.inr ⟨g, hgall, hlt, hgd, hmem⟩))
      have hsame : f.oldest = g.oldest :=
        Fragment.eq_oldest_of_generation hmem (by rw [f.generation_oldest, heq])
      obtain ⟨front, back, rfl⟩ := List.append_of_mem hg
      have hganchor := ih front.length (by simp) front g (back ++ f :: later)
        (by rw [hsplit, List.append_assoc]; rfl) rfl
      unfold Fragment.AnchoredIn at hganchor ⊢
      rw [hsame, ← heq, ← hgd]
      exact hganchor
    · rcases hr with hknown | ⟨g, hgb, hgd, hmem⟩
      · exact Or.inr (Or.inr ⟨r, Or.inl hknown, hg⟩)
      have hle := Fragment.minGeneration_le_of_mem hmem
      have hpos := f.minGeneration_pos
      have hlt : g.minGeneration < f.minGeneration := by omega
      have hgall : g ∈ fragments := by rw [hsplit]; exact List.mem_append_left _ hgb
      exact Or.inr (Or.inr ⟨r, Or.inr ⟨g, hgall, hlt, hgd, hmem⟩, hg⟩)

/-- By rising oldest generation, what stands lower has its turn before. -/
theorem mem_before_of_minGeneration_lt {fragments before later : List Fragment} {f g : Fragment}
    (hsplit : Batch.sorted fragments = before ++ f :: later) (hg : g ∈ fragments)
    (hlt : g.minGeneration < f.minGeneration) : g ∈ before := by
  have hsorted := Batch.pairwise_sorted fragments
  have hmem : g ∈ Batch.sorted fragments := (Batch.sorted_perm fragments).mem_iff.mpr hg
  rw [hsplit] at hsorted hmem
  have hlater := (List.pairwise_cons.mp (List.pairwise_append.mp hsorted).2.1).1
  rcases List.mem_append.mp hmem with hb | hrest
  · exact hb
  · rcases List.mem_cons.mp hrest with rfl | hl
    · omega
    · have hle := hlater g hl
      omega

theorem anchoredInTurn_sorted {s : RevisionStore} {order fragments : List Fragment}
    (hperm : order.Perm fragments) (hturn : s.AnchoredInTurn order) :
    s.AnchoredInTurn (Batch.sorted fragments) := by
  intro before f later hsplit
  have hf : f ∈ order := by
    rw [hperm.mem_iff, ← (Batch.sorted_perm fragments).mem_iff, hsplit]
    simp
  obtain ⟨front, back, hf⟩ := List.append_of_mem hf
  have hlower := anchoredIn_lower hturn front f back hf
  refine hlower.mono fun r hr => ?_
  rcases hr with hknown | ⟨g, hg, hlt, hgd, hmem⟩
  · exact Or.inl hknown
  · have hb := mem_before_of_minGeneration_lt hsplit (hperm.mem_iff.mp hg) hlt
    exact Or.inr ⟨g, hb, hgd, hmem⟩

/-- An order that works makes the sorted order work, and both lead to the same knowledge. -/
theorem insertAll_sorted {s t : RevisionStore} {order fragments : List Fragment}
    (hperm : order.Perm fragments) (h : s.insertAll order = .ok t) :
    ∃ u, s.insertAll (Batch.sorted fragments) = .ok u ∧
      ∀ document r, u.contains document r = t.contains document r := by
  have hturn := (exists_insertAll_iff s order).mp ⟨t, h⟩
  obtain ⟨u, hu⟩ := (exists_insertAll_iff s (Batch.sorted fragments)).mpr fun hstrict =>
    anchoredInTurn_sorted hperm (hturn hstrict)
  refine ⟨u, hu, fun document r => Bool.eq_iff_iff.mpr ?_⟩
  have hsame : ∀ f, f ∈ Batch.sorted fragments ↔ f ∈ order := fun f =>
    ((Batch.sorted_perm fragments).trans hperm.symm).mem_iff
  rw [contains_insertAll hu, contains_insertAll h]
  simp only [KnownAfter, hsame]

end RevisionStore

namespace Processor

variable {σ : Type} {env : Surroundings σ} {config : PullConfig}

/-- The pull of a document succeeds. -/
def Completes (env : Surroundings σ) (config : PullConfig) (p : Processor σ)
    (fragments : List Fragment) : Prop :=
  ∃ pull, (process env config p fragments).1 = .ok pull

theorem processFragments_bare {p : Processor σ} {fragments : List Fragment}
    (hbare : ∀ f ∈ fragments, f.pending = []) (hclear : NeverCancelled env p.outside) :
    (∃ result, (processFragments env config p fragments).1 = .ok result) ↔
      ∃ t, p.store.insertAll fragments = .ok t := by
  induction fragments generalizing p with
  | nil => simp [processFragments, RevisionStore.insertAll]
  | cons f rest ih =>
    obtain ⟨hf, hrest⟩ := List.forall_mem_cons.mp hbare
    have hstage : stageAttachments env config f (look env p.outside) =
        (.ok [], look env p.outside) := stageAttachments_bare hf _
    cases hinsert : p.store.insert f [] with
    | mk result store =>
      cases result with
      | error e =>
        simp [processFragments, processFragment, hclear.check, hstage, hinsert,
          RevisionStore.insertAll]
      | ok _ =>
        have hnext := @ih ⟨store, p.stats.countInserted [], look env p.outside⟩ hrest hclear.look
        simp only [processFragments, processFragment, hclear.check, hstage, List.map_nil, hinsert,
          RevisionStore.insertAll, ← hnext, map_eq_ok]
        constructor
        · rintro ⟨_, result, hresult, _⟩
          exact ⟨result, hresult⟩
        · rintro ⟨result, hresult⟩
          exact ⟨_, result, hresult, rfl⟩

/-- Whether a pull of fragments without attachments succeeds is decided by its sorted order. -/
theorem process_bare {p : Processor σ} {document : String} {fragments : List Fragment}
    (hne : fragments ≠ []) (hdoc : ∀ f ∈ fragments, f.document = document)
    (hbare : ∀ f ∈ fragments, f.pending = []) (hclear : NeverCancelled env p.outside) :
    Completes env config p fragments ↔
      ∃ t, p.store.insertAll (Batch.sorted fragments) = .ok t := by
  have hsorted : ∀ f ∈ Batch.sorted fragments, f.pending = [] := fun f hf =>
    hbare f ((Batch.sorted_perm fragments).mem_iff.mp hf)
  have hrun := @processFragments_bare σ env config { p with outside := look env p.outside } _
    hsorted hclear.look
  rw [← hrun]
  unfold Completes process processDocument
  rw [hclear.check, Batch.new_eq_ok hne hdoc]
  dsimp only
  cases (processFragments env config { p with outside := look env p.outside }
    (Batch.sorted fragments)).1 <;> simp [Except.map]

end Processor

/-- **Any order that works.** Fragments of one document that have no attachments to fetch form a
batch, and if a store, strict or not, takes them in some order, it takes them in the batch's order
and then knows the same revisions. So a pull that is not cancelled succeeds for every order in which
they are received, or for none. -/
theorem Batch.any_order_suffices (s : RevisionStore) (document : String) (fragments : List Fragment)
    (hne : fragments ≠ []) (hdoc : ∀ f ∈ fragments, f.document = document)
    (hbare : ∀ f ∈ fragments, f.pending = []) :
    ∃ batch, Batch.new fragments = .ok batch ∧
      (∀ order t, order.Perm fragments → s.insertAll order = .ok t →
        ∃ u, s.insertAll batch.fragments = .ok u ∧
          ∀ d r, u.contains d r = t.contains d r) ∧
      ∀ (σ : Type) (env : Surroundings σ) (config : PullConfig) (p : Processor σ),
        p.store = s → Processor.NeverCancelled env p.outside →
          ((∃ order, order.Perm fragments ∧ Processor.Completes env config p order) ↔
            ∀ order, order.Perm fragments → Processor.Completes env config p order) := by
  refine ⟨_, Batch.new_eq_ok hne hdoc, ?_, ?_⟩
  · intro order t hperm h
    exact RevisionStore.insertAll_sorted hperm h
  · intro σ env config p hstore hclear
    have hdecided : ∀ order, order.Perm fragments →
        (Processor.Completes env config p order ↔
          ∃ t, s.insertAll (Batch.sorted order) = .ok t) := by
      intro order hperm
      rw [← hstore]
      apply Processor.process_bare _ (fun f hf => hdoc f (hperm.mem_iff.mp hf))
        (fun f hf => hbare f (hperm.mem_iff.mp hf)) hclear
      intro hnil
      rw [hnil] at hperm
      exact hne hperm.symm.eq_nil
    constructor
    · rintro ⟨one, hone, hcomplete⟩ other hother
      obtain ⟨t, ht⟩ := (hdecided one hone).mp hcomplete
      have hperm : (Batch.sorted one).Perm other :=
        (Batch.sorted_perm one).trans (hone.trans hother.symm)
      obtain ⟨u, hu, _⟩ := RevisionStore.insertAll_sorted hperm ht
      exact (hdecided other hother).mpr ⟨u, hu⟩
    · intro hall
      exact ⟨fragments, .refl _, hall fragments (.refl _)⟩

namespace RevisionStore

/-- A strict store that knows the second revision of a document. -/
def secondKnown : RevisionStore := { strict := true, revisions := [("doc", ⟨2, "b"⟩)] }

def third : Fragment :=
  ⟨"doc", 4, ["d", "c"], false, .empty, .empty, Batch.continuation.document_ne,
    Batch.continuation.ids_ne, Batch.continuation.id_ne, Batch.continuation.length_le,
    Batch.continuation.start_lt⟩

/-- Overlaps the third revision, and has the same oldest revision. -/
def thirdAgain : Fragment :=
  ⟨"doc", 3, ["c"], false, .empty, .empty, Batch.trunk.document_ne, by decide, by decide, by decide,
    Batch.trunk.start_lt⟩

def fifth : Fragment :=
  ⟨"doc", 5, ["e"], false, .empty, .empty, Batch.trunk.document_ne, by decide, by decide, by decide,
    by decide⟩

/-- A session that nobody cancels, with an empty source. -/
theorem neverCancelled_quiet : Processor.NeverCancelled Session.surroundings {} := by
  have hstill : Processor.look Session.surroundings {} = {} := rfl
  intro n
  rw [Function.iterate_fixed hstill]
  rfl

theorem any_order_suffices_overlapping :
    [fifth, thirdAgain, third] ≠ [] ∧
    (∀ f ∈ [fifth, thirdAgain, third], f.document = "doc") ∧
    (∀ f ∈ [fifth, thirdAgain, third], f.pending = []) ∧
    (secondKnown.insertAll [fifth, thirdAgain, third]).isOk = false ∧
    ∃ batch, Batch.new [fifth, thirdAgain, third] = .ok batch ∧
      (∃ t, secondKnown.insertAll [third, fifth, thirdAgain] = .ok t ∧
        ∃ u, secondKnown.insertAll batch.fragments = .ok u) ∧
      ((∃ order, order.Perm [fifth, thirdAgain, third] ∧
          Processor.Completes Session.surroundings ⟨⟨.memory, 1⟩, .disabled, 1⟩
            ⟨secondKnown, {}, {}⟩ order) ↔
        ∀ order, order.Perm [fifth, thirdAgain, third] →
          Processor.Completes Session.surroundings ⟨⟨.memory, 1⟩, .disabled, 1⟩
            ⟨secondKnown, {}, {}⟩ order) := by
  have hne : [fifth, thirdAgain, third] ≠ [] := by decide
  have hdoc : ∀ f ∈ [fifth, thirdAgain, third], f.document = "doc" := by decide
  have hbare : ∀ f ∈ [fifth, thirdAgain, third], f.pending = [] := by decide
  obtain ⟨batch, hbatch, hinsert, hpull⟩ :=
    Batch.any_order_suffices secondKnown "doc" _ hne hdoc hbare
  have hperm : [third, fifth, thirdAgain].Perm [fifth, thirdAgain, third] := by decide
  obtain ⟨t, ht⟩ : ∃ t, secondKnown.insertAll [third, fifth, thirdAgain] = .ok t := ⟨_, rfl⟩
  obtain ⟨u, hu, _⟩ := hinsert _ _ hperm ht
  exact ⟨hne, hdoc, hbare, by rfl, batch, hbatch, ⟨t, ht, u, hu⟩,
    hpull Session Session.surroundings _ ⟨secondKnown, {}, {}⟩ rfl neverCancelled_quiet⟩

end RevisionStore

end Replica
