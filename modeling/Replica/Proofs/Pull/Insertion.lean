import Replica.Proofs.Pull.Rollback

/-!
# What an insertion does

An insertion either changes nothing or adds the whole fragment. Which of the two happens is decided
by the ancestry, by the declared lengths and by the committing of the attachments, in this order.
What a store knows afterwards is what it knew before and the fragment's revisions; nothing is ever
forgotten, neither a revision nor a log entry nor a blob.
-/
namespace Replica

/-- The log entry of a fragment that was inserted with attachments of these names. -/
def Fragment.entry (f : Fragment) (names : List String) : Inserted :=
  ⟨f.document, f.leaf, f.minGeneration, names⟩

namespace RevisionStore

/-- The ancestry of the fragment does not keep the store from taking it. -/
def Admits (s : RevisionStore) (f : Fragment) : Prop := s.strict = true → s.isAnchored f = true

/-- The store with a fragment whose attachments have been committed. -/
def extended (s : RevisionStore) (f : Fragment) (names : List String)
    (committed : List (String × Committed)) (blobs : Memory) : RevisionStore :=
  { s with
    blobs
    attachments := addAttachments s.attachments f.document f.leaf committed
    revisions := addRevisions s.revisions f.document f.revisions
    log := s.log ++ [f.entry names] }

theorem ancestry_eq_ok (s : RevisionStore) (f : Fragment) :
    (if s.strict then s.checkAncestry f else .ok ()) = .ok () ↔ s.Admits f := by
  unfold checkAncestry Admits
  cases s.strict <;> cases s.isAnchored f <;> simp

theorem insert_eq_ok {s t : RevisionStore} {f : Fragment} {attachments : List (String × Staged)} :
    s.insert f attachments = (.ok (), t) ↔
      s.Admits f ∧ verifyAll attachments = .ok () ∧
        ∃ committed blobs, commitAll s.capacity s.blobs attachments = (.ok committed, blobs) ∧
          t = s.extended f (attachments.map (·.1)) committed blobs := by
  rw [← ancestry_eq_ok]
  unfold insert
  cases hancestry : (if s.strict then s.checkAncestry f else .ok ()) with
  | error e => simp
  | ok _ =>
    cases hverify : verifyAll attachments with
    | error e => simp
    | ok _ =>
      cases hcommit : commitAll s.capacity s.blobs attachments with
      | mk result blobs =>
        cases result with
        | error e => simp
        | ok committed =>
          simp only [Prod.mk.injEq, true_and, Except.ok.injEq]
          constructor
          · rintro rfl
            exact ⟨committed, blobs, ⟨rfl, rfl⟩, rfl⟩
          · rintro ⟨_, _, ⟨rfl, rfl⟩, rfl⟩
            rfl

theorem mem_addRevisions {known : List (String × RevisionId)} {document : String}
    {revisions : List RevisionId} {entry : String × RevisionId} :
    entry ∈ addRevisions known document revisions ↔
      entry ∈ known ∨ entry.1 = document ∧ entry.2 ∈ revisions := by
  induction revisions generalizing known with
  | nil => simp [addRevisions]
  | cons r rest ih =>
    have hentry : entry = (document, r) ↔ entry.1 = document ∧ entry.2 = r := Prod.ext_iff
    unfold addRevisions
    split
    · rename_i hknown
      rw [ih, List.mem_cons]
      constructor
      · rintro (h | ⟨hd, hr⟩)
        · exact Or.inl h
        · exact Or.inr ⟨hd, Or.inr hr⟩
      · rintro (h | ⟨hd, rfl | hr⟩)
        · exact Or.inl h
        · exact Or.inl (hentry.mpr ⟨hd, rfl⟩ ▸ hknown)
        · exact Or.inr ⟨hd, hr⟩
    · rw [ih, List.mem_cons, List.mem_cons, hentry]
      tauto

theorem contains_extended (s : RevisionStore) (f : Fragment) (names : List String)
    (committed : List (String × Committed)) (blobs : Memory) (document : String) (r : RevisionId) :
    (s.extended f names committed blobs).contains document r = true ↔
      s.contains document r = true ∨ f.document = document ∧ r ∈ f.revisions := by
  simp only [contains, extended, decide_eq_true_eq, mem_addRevisions]
  rw [@eq_comm _ document]

/-- What is known once some fragments have been inserted. -/
def KnownAfter (s : RevisionStore) (fragments : List Fragment) (document : String)
    (r : RevisionId) : Prop :=
  s.contains document r = true ∨ ∃ f ∈ fragments, f.document = document ∧ r ∈ f.revisions

theorem knownAfter_extended (s : RevisionStore) (f : Fragment) (names : List String)
    (committed : List (String × Committed)) (blobs : Memory) (rest : List Fragment)
    (document : String) (r : RevisionId) :
    (s.extended f names committed blobs).KnownAfter rest document r ↔
      s.KnownAfter (f :: rest) document r := by
  simp only [KnownAfter, contains_extended, List.exists_mem_cons_iff, or_assoc]

theorem addAttachments_eq (known : List (AttachmentKey × Committed)) (document : String)
    (leaf : RevisionId) (committed : List (String × Committed)) :
    addAttachments known document leaf committed =
      (committed.map fun (name, c) => ((⟨document, leaf, name⟩ : AttachmentKey), c)).reverse ++
        known := by
  induction committed generalizing known with
  | nil => rfl
  | cons c rest ih => simp [addAttachments, ih]

/-- Attachments are committed one by one, each checked against the capacity beforehand. -/
theorem commitAll_cons_eq_ok {capacity : Option Nat} {blobs blobs' : Memory} {name : String}
    {staged : Staged} {rest : List (String × Staged)} {committed : List (String × Committed)}
    (h : commitAll capacity blobs ((name, staged) :: rest) = (.ok committed, blobs')) :
    ∃ c between others,
      checkCapacity capacity blobs.bytes.size name staged = .ok () ∧
      staged.commit blobs = (.ok c, between) ∧
      commitAll capacity between rest = (.ok others, blobs') ∧ committed = (name, c) :: others := by
  unfold commitAll at h
  split at h
  · cases h
  · rename_i hchecked
    split at h
    · cases h
    · rename_i c between hone
      split at h
      · cases h
      · rename_i others _ hrest
        obtain ⟨hcommitted, rfl⟩ := Prod.mk.inj h
        obtain rfl := Except.ok.inj hcommitted
        exact ⟨c, between, others, hchecked, hone, hrest, rfl⟩

/-- Each attachment is committed under its own name. -/
theorem commitAll_names {capacity : Option Nat} {blobs blobs' : Memory}
    {attachments : List (String × Staged)} {committed : List (String × Committed)}
    (h : commitAll capacity blobs attachments = (.ok committed, blobs')) :
    committed.map (·.1) = attachments.map (·.1) := by
  induction attachments generalizing blobs committed with
  | nil =>
    obtain rfl := Except.ok.inj (Prod.mk.inj h).1
    rfl
  | cons attachment rest ih =>
    obtain ⟨c, between, others, _, _, hrest, rfl⟩ := commitAll_cons_eq_ok h
    rw [List.map_cons, List.map_cons, ih hrest]

end RevisionStore

end Replica
