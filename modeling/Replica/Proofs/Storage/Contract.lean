import Replica.Proofs.Storage.Interchange

/-!
# The contract of a byte store

What a user of a byte store relies on: appending puts bytes behind those that are there and says
where they begin, a range within the bytes is read back, and the size is their number. A store in
memory keeps the contract, and so does a store in a file as long as the disk is due no failure. For
reading less is enough: a read may fail, but what it gives is what the store holds. That much a file
keeps to on any disk. The contract says nothing of ranges past the end.
-/
namespace Replica

/-- The stores keep what they hold, and no request of theirs fails. -/
structure Storage.Faithful {β : Type} [Storage β] (holds : β → ByteArray → Prop) : Prop where
  size : ∀ {b bytes}, holds b bytes → Storage.size b = bytes.size
  readAt : ∀ {b bytes}, holds b bytes → ∀ {offset length}, offset + length ≤ bytes.size →
    ∃ b', Storage.readAt b offset length = (.ok (bytes.extract offset (offset + length)), b') ∧
      holds b' bytes
  append : ∀ {b bytes}, holds b bytes → ∀ data,
    ∃ b', Storage.append b data = (.ok bytes.size, b') ∧ holds b' (bytes ++ data)
  flush : ∀ {b bytes}, holds b bytes → ∃ b', Storage.flush b = (.ok (), b') ∧ holds b' bytes

/-- The stores know the size of what they hold. A range within it is read as it is held, or the read
fails in one of these ways; either way the store goes on holding the same. -/
structure Storage.Truthful {β : Type} [Storage β] (holds : β → ByteArray → Prop)
    (fails : StorageError → Prop) : Prop where
  size : ∀ {b bytes}, holds b bytes → Storage.size b = bytes.size
  readAt : ∀ {b bytes}, holds b bytes → ∀ {offset length}, offset + length ≤ bytes.size →
    (∃ e b', Storage.readAt b offset length = (.error e, b') ∧ fails e ∧ holds b' bytes) ∨
      ∃ b', Storage.readAt b offset length = (.ok (bytes.extract offset (offset + length)), b') ∧
        holds b' bytes

theorem Storage.Faithful.truthful {β : Type} [Storage β] {holds : β → ByteArray → Prop}
    (h : Storage.Faithful holds) : Storage.Truthful holds fun _ => False where
  size := h.size
  readAt hholds _ _ hfits := Or.inr (h.readAt hholds hfits)

theorem Storage.Truthful.imp {β : Type} [Storage β] {holds : β → ByteArray → Prop}
    {fails fails' : StorageError → Prop} (h : Storage.Truthful holds fails)
    (himp : ∀ e, fails e → fails' e) : Storage.Truthful holds fails' where
  size := h.size
  readAt hholds _ _ hfits := (h.readAt hholds hfits).imp_left
    fun ⟨e, b', hread, hfails, hholds⟩ => ⟨e, b', hread, himp e hfails, hholds⟩

theorem Memory.slice_inside {m : Memory} {offset length : Nat}
    (h : offset + length ≤ m.bytes.size) :
    m.slice offset length = .ok (m.bytes.extract offset (offset + length)) :=
  if_neg (Nat.not_lt.mpr h)

theorem Memory.faithful : Storage.Faithful fun (m : Memory) bytes => m.bytes = bytes where
  size h := congrArg ByteArray.size h
  readAt {m bytes} h offset length hfits := by
    subst h
    exact ⟨m, congrArg (·, m) (Memory.slice_inside hfits), rfl⟩
  append {m bytes} h data := by
    subst h
    exact ⟨_, rfl, rfl⟩
  flush h := ⟨_, rfl, h⟩

/-- A file to which no failure is due meets none. -/
theorem File.Meets.calm {f g : File} {errors : List IoError} (h : f.Meets g errors)
    (hcalm : f.faults = []) : errors = [] ∧ g.faults = [] := by
  obtain ⟨met, hfaults, rfl⟩ := h
  obtain ⟨rfl, hrest⟩ := List.append_eq_nil_iff.mp (hfaults.symm.trans hcalm)
  exact ⟨rfl, hrest⟩

/-- On any disk a file gives nothing but what was appended. -/
theorem TempFile.truthful : Storage.Truthful TempFile.Holds fun e => ∃ source, e = .io source where
  size h := h.1
  readAt {t bytes} h offset length hfits := by
    rcases h.readAt_cases offset length with ⟨e, t', hread, hholds, -⟩ | ⟨t', hread, hholds, -⟩
    · exact Or.inl ⟨_, t', hread, ⟨e, rfl⟩, hholds⟩
    · exact Or.inr ⟨t', hread.trans (congrArg (·, t') (Memory.slice_inside hfits)), hholds⟩

/-- The bytes appended so far are these, and the disk is due no failure. -/
def TempFile.Retains (t : TempFile) (bytes : ByteArray) : Prop :=
  t.Holds bytes ∧ t.file.faults = []

theorem TempFile.faithful : Storage.Faithful TempFile.Retains where
  size h := h.1.1
  readAt {t bytes} h offset length hfits := by
    rcases h.1.readAt_cases offset length with ⟨e, t', -, -, hmet⟩ | ⟨t', hread, hholds, hmet⟩
    · exact absurd (hmet.calm h.2).1 (List.cons_ne_nil e [])
    · exact ⟨t', hread.trans (congrArg (·, t') (Memory.slice_inside hfits)), hholds,
        (hmet.calm h.2).2⟩
  append {t bytes} h data := by
    rcases h.1.append_cases data with ⟨e, t', -, -, hmet⟩ | ⟨t', happend, hholds, hmet⟩
    · exact absurd (hmet.calm h.2).1 (List.cons_ne_nil e [])
    · exact ⟨t', happend, hholds, (hmet.calm h.2).2⟩
  flush h := ⟨_, rfl, h⟩

/-- The store holds these bytes, and no failure is due to it. -/
def Backend.Retains : Backend → ByteArray → Prop
  | .memory m, bytes => m.bytes = bytes
  | .file t, bytes => t.Retains bytes

theorem Backend.faithful : Storage.Faithful Backend.Retains where
  size {b bytes} h := by
    cases b with
    | memory m => exact Memory.faithful.size h
    | file t => exact TempFile.faithful.size h
  readAt {b bytes} h offset length hfits := by
    cases b with
    | memory m =>
      obtain ⟨m', hread, hholds⟩ := Memory.faithful.readAt h hfits
      exact ⟨.memory m', congrArg (Prod.map id Backend.memory) hread, hholds⟩
    | file t =>
      obtain ⟨t', hread, hholds⟩ := TempFile.faithful.readAt h hfits
      exact ⟨.file t', congrArg (Prod.map id Backend.file) hread, hholds⟩
  append {b bytes} h data := by
    cases b with
    | memory m =>
      obtain ⟨m', happend, hholds⟩ := Memory.faithful.append h data
      exact ⟨.memory m', congrArg (Prod.map id Backend.memory) happend, hholds⟩
    | file t =>
      obtain ⟨t', happend, hholds⟩ := TempFile.faithful.append h data
      exact ⟨.file t', congrArg (Prod.map id Backend.file) happend, hholds⟩
  flush {b bytes} h := by cases b <;> exact ⟨_, rfl, h⟩

end Replica
