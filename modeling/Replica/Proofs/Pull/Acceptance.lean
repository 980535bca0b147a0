import Replica.Proofs.Attachment.Fidelity
import Replica.Proofs.Pull.Records

/-!
# When an insertion is accepted, and what it does then

The capacity is checked before each attachment against what is used by then, but what counts in the
end is the total: the last check asks for no less than those before it. Accepted attachments stand
one behind the other in the blob area, each at its running offset, also those without bytes and
those whose name comes again. Attachments whose storage fails are not spoken of; lengths are added
as numbers that no word cuts off.
-/
namespace Replica

/-- The bytes that a store has kept. -/
def Backend.content : Backend → ByteArray
  | .memory m => m.bytes
  | .file t => t.file.content.extract 0 t.length

theorem Backend.Retains.content_eq {b : Backend} {bytes : ByteArray} (h : b.Retains bytes) :
    b.content = bytes := by
  cases b with
  | memory m => exact h
  | file t =>
    obtain ⟨⟨hlength, hbytes⟩, -⟩ := h
    rw [content, hlength, hbytes]

theorem Memory.slice_middle (front middle back : ByteArray) :
    (⟨front ++ (middle ++ back)⟩ : Memory).slice front.size middle.size = .ok middle := by
  have hinside : front.size + middle.size ≤ (front ++ (middle ++ back)).size := by
    rw [ByteArray.size_append, ByteArray.size_append]
    omega
  have hextract : (front ++ (middle ++ back)).extract (front.size + 0) (front.size + middle.size) =
      middle := by
    rw [ByteArray.extract_append_size_add, ByteArray.extract_append_eq_left rfl]
  rw [Memory.slice_inside hinside]
  exact congrArg Except.ok hextract

namespace Staged

/-- What has been staged can be read back in full. -/
structure Readable (s : Staged) : Prop where
  storage : s.storage.Retains s.storage.content
  length : s.storedLength = s.storage.content.size

/-- What is staged stays readable as long as the disk is due no failure. -/
theorem Preserves.readable {s : Staged} {bytes : ByteArray} (h : s.Preserves bytes) :
    s.Readable := by
  obtain rfl := h.storage.content_eq
  exact ⟨h.storage, h.length⟩

/-- The record of the attachment when it is committed at an offset. -/
def committedAt (s : Staged) (offset : Nat) : Committed :=
  ⟨s.metadata, offset, s.storedLength, s.digestHex⟩

theorem verify_eq_ok {s : Staged} :
    s.verify = .ok () ↔ s.storedLength = s.metadata.expectedLength := by
  unfold verify
  split <;> simp [*]

theorem Readable.commit {s : Staged} (h : s.Readable) (hverify : s.verify = .ok ())
    (blobs : Memory) :
    s.commit blobs =
      (.ok (s.committedAt blobs.bytes.size), ⟨blobs.bytes ++ s.storage.content⟩) := by
  obtain ⟨blobs', hcommit, hblobs⟩ :=
    commit_retained h.storage h.length hverify Memory.faithful (rfl : blobs.bytes = _)
  obtain rfl : blobs' = ⟨blobs.bytes ++ s.storage.content⟩ := congrArg Memory.mk hblobs
  rw [hcommit, committedAt, h.length]

end Staged

namespace RevisionStore

/-- The bytes of attachments, one behind the other. -/
def contents : List (String × Staged) → ByteArray
  | [] => .empty
  | a :: rest => a.2.storage.content ++ contents rest

/-- The number of bytes that are stored for attachments. -/
def storedTotal : List (String × Staged) → Nat
  | [] => 0
  | a :: rest => a.2.storedLength + storedTotal rest

/-- The records of attachments that are committed one behind the other from an offset on. -/
def placed (offset : Nat) : List (String × Staged) → List (String × Committed)
  | [] => []
  | a :: rest => (a.1, a.2.committedAt offset) :: placed (offset + a.2.storedLength) rest

theorem placed_append (offset : Nat) (before after : List (String × Staged)) :
    placed offset (before ++ after) =
      placed offset before ++ placed (offset + storedTotal before) after := by
  induction before generalizing offset with
  | nil => rfl
  | cons a rest ih =>
    rw [List.cons_append, placed, placed, storedTotal, ih, List.cons_append, Nat.add_assoc]

theorem names_placed (offset : Nat) (attachments : List (String × Staged)) :
    (placed offset attachments).map (·.1) = attachments.map (·.1) := by
  induction attachments generalizing offset with
  | nil => rfl
  | cons a rest ih => rw [placed, List.map_cons, List.map_cons, ih]

theorem contents_append (before after : List (String × Staged)) :
    contents (before ++ after) = contents before ++ contents after := by
  induction before with
  | nil => exact ByteArray.empty_append.symm
  | cons a rest ih => rw [List.cons_append, contents, contents, ih, ByteArray.append_assoc]

theorem size_contents {attachments : List (String × Staged)}
    (hread : ∀ a ∈ attachments, a.2.Readable) :
    (contents attachments).size = storedTotal attachments := by
  induction attachments with
  | nil => rfl
  | cons a rest ih =>
    obtain ⟨ha, hrest⟩ := List.forall_mem_cons.mp hread
    rw [contents, storedTotal, ByteArray.size_append, ih hrest, ha.length]

theorem verifyAll_eq_ok {attachments : List (String × Staged)} :
    verifyAll attachments = .ok () ↔ ∀ a ∈ attachments, a.2.verify = .ok () := by
  induction attachments with
  | nil => exact ⟨nofun, fun _ => rfl⟩
  | cons a rest ih =>
    rw [List.forall_mem_cons, ← ih, verifyAll]
    cases a.2.verify <;> simp

theorem checkCapacity_eq_ok {capacity : Option Nat} {used : Nat} {name : String}
    {staged : Staged} :
    checkCapacity capacity used name staged = .ok () ↔
      ∀ c, capacity = some c → used + staged.storedLength ≤ c := by
  cases capacity with
  | none => simp [checkCapacity]
  | some c =>
    unfold checkCapacity
    dsimp only
    split
    · rename_i hover
      simpa using hover
    · rename_i hfits
      simpa using hfits

/-- The attachments, if there are any, fit into a blob area in which so many bytes are used. -/
def Fits (capacity : Option Nat) (used : Nat) (attachments : List (String × Staged)) : Prop :=
  capacity = none ∨ attachments = [] ∨ ∃ c, capacity = some c ∧ used + storedTotal attachments ≤ c

/-- The first attachment passes its check and the others fit behind it exactly if all fit. -/
theorem fits_cons {capacity : Option Nat} {used : Nat} {a : String × Staged}
    {rest : List (String × Staged)} :
    Fits capacity used (a :: rest) ↔
      checkCapacity capacity used a.1 a.2 = .ok () ∧
        Fits capacity (used + a.2.storedLength) rest := by
  rw [checkCapacity_eq_ok]
  cases capacity with
  | none => simp [Fits]
  | some c =>
    cases rest with
    | nil => simp [Fits, storedTotal]
    | cons b rest =>
      simp [Fits, storedTotal]
      omega

theorem commitAll_readable {capacity : Option Nat} {attachments : List (String × Staged)}
    (hread : ∀ a ∈ attachments, a.2.Readable) (hverify : ∀ a ∈ attachments, a.2.verify = .ok ())
    (blobs : Memory) (h : Fits capacity blobs.bytes.size attachments) :
    commitAll capacity blobs attachments =
      (.ok (placed blobs.bytes.size attachments), ⟨blobs.bytes ++ contents attachments⟩) := by
  induction attachments generalizing blobs with
  | nil =>
    rw [contents, ByteArray.append_empty]
    rfl
  | cons a rest ih =>
    obtain ⟨ha, hrest⟩ := List.forall_mem_cons.mp hread
    obtain ⟨hlength, hlengths⟩ := List.forall_mem_cons.mp hverify
    obtain ⟨hcheck, hothers⟩ := fits_cons.mp h
    have hsize : (blobs.bytes ++ a.2.storage.content).size =
        blobs.bytes.size + a.2.storedLength := by
      rw [ByteArray.size_append, ha.length]
    rw [← hsize] at hothers
    have hrun := ih hrest hlengths ⟨blobs.bytes ++ a.2.storage.content⟩ hothers
    rw [hsize, ByteArray.append_assoc] at hrun
    unfold commitAll
    simp only [hcheck, ha.commit hlength, hrun]
    rfl

theorem fits_of_commitAll {capacity : Option Nat} {attachments : List (String × Staged)}
    {blobs blobs' : Memory} {committed : List (String × Committed)}
    (hread : ∀ a ∈ attachments, a.2.Readable) (hverify : ∀ a ∈ attachments, a.2.verify = .ok ())
    (h : commitAll capacity blobs attachments = (.ok committed, blobs')) :
    Fits capacity blobs.bytes.size attachments := by
  induction attachments generalizing blobs committed with
  | nil => exact Or.inr (Or.inl rfl)
  | cons a rest ih =>
    obtain ⟨ha, hrest⟩ := List.forall_mem_cons.mp hread
    obtain ⟨hlength, hlengths⟩ := List.forall_mem_cons.mp hverify
    obtain ⟨c, between, others, hcheck, hone, hlater, -⟩ := commitAll_cons_eq_ok h
    obtain ⟨-, rfl⟩ := Prod.mk.inj ((ha.commit hlength blobs).symm.trans hone)
    have hothers := ih hrest hlengths hlater
    rw [ByteArray.size_append, ← ha.length] at hothers
    exact fits_cons.mpr ⟨hcheck, hothers⟩

theorem admits_iff {s : RevisionStore} {f : Fragment} :
    s.Admits f ↔ s.strict = false ∨ s.checkAncestry f = .ok () := by
  rw [← ancestry_eq_ok]
  cases s.strict <;> simp

section Inserting

variable {s : RevisionStore} {f : Fragment} {attachments : List (String × Staged)}

/-- The store behind an insertion that was accepted. -/
theorem insert_readable_eq_ok (hread : ∀ a ∈ attachments, a.2.Readable) {t : RevisionStore} :
    s.insert f attachments = (.ok (), t) ↔
      s.Admits f ∧ (∀ a ∈ attachments, a.2.verify = .ok ()) ∧
        Fits s.capacity s.blobs.bytes.size attachments ∧
        t = s.extended f (attachments.map (·.1)) (placed s.blobs.bytes.size attachments)
          ⟨s.blobs.bytes ++ contents attachments⟩ := by
  rw [insert_eq_ok, verifyAll_eq_ok]
  refine and_congr_right fun _ => and_congr_right fun hverify => ⟨?_, ?_⟩
  · rintro ⟨committed, blobs, hcommit, rfl⟩
    have hfits := fits_of_commitAll hread hverify hcommit
    obtain ⟨hplaced, rfl⟩ :=
      Prod.mk.inj ((commitAll_readable hread hverify s.blobs hfits).symm.trans hcommit)
    obtain rfl := Except.ok.inj hplaced
    exact ⟨hfits, rfl⟩
  · rintro ⟨hfits, rfl⟩
    exact ⟨_, _, commitAll_readable hread hverify s.blobs hfits, rfl⟩

/-- What stands between other attachments is found at its running offset. -/
theorem slice_contents (blobs : ByteArray) {before after : List (String × Staged)} {name : String}
    {staged : Staged} (hread : ∀ a ∈ before ++ (name, staged) :: after, a.2.Readable) :
    (⟨blobs ++ contents (before ++ (name, staged) :: after)⟩ : Memory).slice
      (blobs.size + storedTotal before) staged.storedLength = .ok staged.storage.content := by
  obtain ⟨hbefore, hlater⟩ := List.forall_mem_append.mp hread
  obtain ⟨hstaged, -⟩ := List.forall_mem_cons.mp hlater
  rw [contents_append, contents, ← ByteArray.append_assoc, ← size_contents hbefore,
    ← ByteArray.size_append, hstaged.length]
  exact Memory.slice_middle _ _ _

/-- **An insertion is accepted exactly if it may be, and then adds exactly what it was given.** For
attachments that can be read back: the store takes a fragment if it is not strict or the ancestry
check passes, every attachment has its declared length, and all of them, if there are any, fit into
what its capacity leaves. The bytes of the attachments are then put at the end of the blob area in
order; under each name the last attachment of that name is recorded at its own offset, and no other
record changes; the revisions of the fragment are added; and one entry is put at the end of the
log. -/
theorem insert_accepts_exactly (hread : ∀ a ∈ attachments, a.2.Readable) :
    ((∃ t, s.insert f attachments = (.ok (), t)) ↔
      (s.strict = false ∨ s.checkAncestry f = .ok ()) ∧
      (∀ a ∈ attachments, a.2.storedLength = a.2.metadata.expectedLength) ∧
      (s.capacity = none ∨ attachments = [] ∨
        ∃ c, s.capacity = some c ∧ s.blobs.bytes.size + storedTotal attachments ≤ c)) ∧
    ∀ t, s.insert f attachments = (.ok (), t) →
      t.strict = s.strict ∧ t.capacity = s.capacity ∧
      t.blobs.bytes = s.blobs.bytes ++ contents attachments ∧
      (∀ before name staged after, attachments = before ++ (name, staged) :: after →
        name ∉ after.map (·.1) →
          let c := staged.committedAt (s.blobs.bytes.size + storedTotal before)
          t.attachment? ⟨f.document, f.leaf, name⟩ = some c ∧
            t.attachmentBytes c = .ok staged.storage.content) ∧
      (∀ key, (∀ name ∈ attachments.map (·.1), key ≠ ⟨f.document, f.leaf, name⟩) →
        t.attachment? key = s.attachment? key) ∧
      (∀ document r, t.contains document r = true ↔
        s.contains document r = true ∨ f.document = document ∧ r ∈ f.revisions) ∧
      t.log = s.log ++ [⟨f.document, f.leaf, f.minGeneration, attachments.map (·.1)⟩] := by
  constructor
  · simp only [insert_readable_eq_ok hread, exists_and_left, exists_eq, and_true, admits_iff,
      Staged.verify_eq_ok, Fits]
  · intro t ht
    obtain ⟨-, -, -, rfl⟩ := (insert_readable_eq_ok hread).mp ht
    refine ⟨rfl, rfl, rfl, ?_, fun key hkey => ?_, contains_extended s f _ _ _, rfl⟩
    · rintro before name staged after rfl hlast
      refine ⟨?_, ?_⟩
      · show latest (addAttachments _ _ _ _) _ = _
        rw [placed_append, placed]
        rw [← names_placed] at hlast
        exact latest_addAttachments_last hlast
      · exact congrArg (Except.mapError _) (slice_contents s.blobs.bytes hread)
    · rw [← names_placed s.blobs.bytes.size] at hkey
      exact latest_addAttachments_other hkey

end Inserting

/-- Three bytes in a temporary file, compressed from seven. -/
def filed : Staged :=
  ⟨zipped, .file ⟨⟨⟨#[3, 4, 5]⟩, 3, []⟩, 3⟩, 3, Sha256.digest ⟨#[3, 4, 5]⟩⟩

/-- A name that comes twice, and an attachment without bytes between. -/
def repeated : List (String × Staged) :=
  [("a", stagedBytes ⟨#[1, 2]⟩ 2), ("b", stagedBytes .empty 0), ("a", filed)]

/-- A strict store that holds one byte and has this room in all. -/
def nearlyFull (capacity : Nat) : RevisionStore :=
  { strict := true, capacity := some capacity, blobs := ⟨⟨#[9]⟩⟩ }

theorem insert_accepts_exactly_repeated :
    (∀ a ∈ repeated, a.2.Readable) ∧
    (¬∃ t, (nearlyFull 5).insert root repeated = (.ok (), t)) ∧
    ∃ t, (nearlyFull 6).insert root repeated = (.ok (), t) ∧
      t.blobs.bytes = ⟨#[9, 1, 2, 3, 4, 5]⟩ ∧
      t.attachment? ⟨"note", ⟨1, "a"⟩, "a"⟩ = some (filed.committedAt 3) ∧
      t.attachmentBytes (filed.committedAt 3) = .ok ⟨#[3, 4, 5]⟩ ∧
      t.log = [⟨"note", ⟨1, "a"⟩, 1, ["a", "b", "a"]⟩] := by
  have hread : ∀ a ∈ repeated, a.2.Readable := by
    simp only [repeated, List.forall_mem_cons]
    exact ⟨⟨rfl, rfl⟩, ⟨rfl, rfl⟩, ⟨⟨⟨rfl, rfl⟩, rfl⟩, rfl⟩, nofun⟩
  have hlengths : ∀ a ∈ repeated, a.2.storedLength = a.2.metadata.expectedLength := by
    simp only [repeated, List.forall_mem_cons]
    exact ⟨rfl, rfl, rfl, nofun⟩
  obtain ⟨hfull, -⟩ := insert_accepts_exactly (s := nearlyFull 5) (f := root) hread
  obtain ⟨hiff, heffect⟩ := insert_accepts_exactly (s := nearlyFull 6) (f := root) hread
  refine ⟨hread, ?_, ?_⟩
  · rw [hfull]
    rintro ⟨-, -, hnone | hempty | ⟨c, hc, hfits⟩⟩
    · cases hnone
    · cases hempty
    · obtain rfl := Option.some.inj hc
      exact absurd hfits (by decide)
  · obtain ⟨t, ht⟩ := hiff.mpr ⟨Or.inr rfl, hlengths, Or.inr (Or.inr ⟨6, rfl, by decide⟩)⟩
    obtain ⟨-, -, hblobs, hlast, -, -, hlog⟩ := heffect t ht
    obtain ⟨hrecord, hbytes⟩ :=
      hlast [("a", stagedBytes ⟨#[1, 2]⟩ 2), ("b", stagedBytes .empty 0)] "a" filed [] rfl nofun
    exact ⟨t, ht, hblobs, hrecord, hbytes, hlog⟩

end RevisionStore

end Replica
