import Replica.Proofs.Storage.Holding

/-!
# A file does what memory does

A byte store in a file answers every request as one in memory would that was never asked what failed
on the disk. Behind its count a failed append leaves bytes, and a failed read leaves the cursor
anywhere; neither is seen by a later request. The disk alone makes requests fail: each failure that
is reported is one that the file was due to meet, so no read within the bytes appended comes to the
end of the file. Ranges are compared as numbers; one whose end no word can hold is past the end.
-/
namespace Replica

namespace File

/-- The errors of the faults that are there, in order. -/
def errorsOf (faults : List (Option FileFault)) : List IoError :=
  faults.filterMap fun fault => fault.map (·.error)

/-- On the way from one file to the other these errors were due, and no others. -/
def Meets (f g : File) (errors : List IoError) : Prop :=
  ∃ met, f.faults = met ++ g.faults ∧ errorsOf met = errors

theorem Meets.refl (f : File) : f.Meets f [] := ⟨[], rfl, rfl⟩

theorem Meets.trans {f g k : File} {early late : List IoError} (h : f.Meets g early)
    (h' : g.Meets k late) : f.Meets k (early ++ late) := by
  obtain ⟨met, hfaults, rfl⟩ := h
  obtain ⟨met', hfaults', rfl⟩ := h'
  refine ⟨met ++ met', ?_, List.filterMap_append⟩
  rw [hfaults, hfaults', List.append_assoc]

theorem meets_nextFault {f g : File} {fault : Option FileFault} (h : f.nextFault = (fault, g)) :
    f.Meets g (fault.map (·.error)).toList := by
  unfold nextFault at h
  split at h
  · obtain ⟨rfl, rfl⟩ := Prod.mk.inj h
    exact .refl f
  · rename_i fault' rest hfaults
    obtain ⟨rfl, rfl⟩ := Prod.mk.inj h
    refine ⟨[fault'], hfaults, ?_⟩
    cases fault' <;> rfl

theorem seek_cases (f : File) (offset : Nat) :
    (∃ e g, f.seek offset = (.error e, g) ∧ g.content = f.content ∧ f.Meets g [e]) ∨
      ∃ g, f.seek offset = (.ok (), g) ∧ g.content = f.content ∧ g.cursor = offset ∧
        f.Meets g [] := by
  cases hnext : f.nextFault with
  | mk fault g =>
    have hcontent := (nextFault_content hnext).1
    have hmeets := meets_nextFault hnext
    cases fault with
    | some fault =>
      exact Or.inl ⟨fault.error, g, by simp only [seek, hnext], hcontent, hmeets⟩
    | none =>
      exact Or.inr ⟨{ g with cursor := offset }, by simp only [seek, hnext], hcontent, rfl, hmeets⟩

/-- Within the content a read fails only if the disk does. -/
theorem readExact_cases {f : File} {length : Nat} (h : f.cursor + length ≤ f.content.size) :
    (∃ e g, f.readExact length = (.error e, g) ∧ g.content = f.content ∧ f.Meets g [e]) ∨
      ∃ g, f.readExact length = (.ok (f.content.extract f.cursor (f.cursor + length)), g) ∧
        g.content = f.content ∧ f.Meets g [] := by
  cases hnext : f.nextFault with
  | mk fault g =>
    obtain ⟨hcontent, hcursor⟩ := nextFault_content hnext
    have hmeets := meets_nextFault hnext
    cases fault with
    | some fault =>
      refine Or.inl ⟨fault.error, { g with cursor := g.cursor + min fault.done length }, ?_,
        hcontent, hmeets⟩
      simp only [readExact, hnext]
    | none =>
      have hfits : ¬ f.content.size < f.cursor + length := by omega
      refine Or.inr ⟨{ g with cursor := g.cursor + length }, ?_, hcontent, hmeets⟩
      simp only [readExact, hnext, hcontent, hcursor, if_neg hfits]

/-- Nothing in front of a place is changed by writing there. -/
theorem extract_overwrite_front {content : ByteArray} {offset : Nat} (h : offset ≤ content.size)
    (data : ByteArray) :
    (overwrite content offset data).extract 0 offset = content.extract 0 offset := by
  have hall := congrArg (fun bytes : ByteArray => bytes.extract 0 offset) (extract_overwrite h data)
  have hsize : (content.extract 0 offset).size = offset := by
    rw [ByteArray.size_extract]
    omega
  have hshort : min (0 + offset) (offset + data.size) = offset := by omega
  simp only [ByteArray.extract_extract, Nat.zero_add] at hall hshort
  rw [hshort] at hall
  rw [hall]
  exact ByteArray.extract_append_eq_left hsize.symm

/-- A write that fails has changed nothing in front of the cursor. -/
theorem writeAll_cases {f : File} (h : f.cursor ≤ f.content.size) (data : ByteArray) :
    (∃ e g, f.writeAll data = (.error e, g) ∧
        g.content.extract 0 f.cursor = f.content.extract 0 f.cursor ∧ f.Meets g [e]) ∨
      ∃ g, f.writeAll data = (.ok (), g) ∧ f.Meets g [] := by
  cases hnext : f.nextFault with
  | mk fault g =>
    obtain ⟨hcontent, hcursor⟩ := nextFault_content hnext
    have hmeets := meets_nextFault hnext
    cases fault with
    | some fault =>
      refine Or.inl ⟨fault.error, g.put (data.extract 0 fault.done), ?_, ?_, hmeets⟩
      · simp only [writeAll, hnext]
      · rw [← hcontent, ← hcursor] at h ⊢
        exact extract_overwrite_front h _
    | none => exact Or.inr ⟨g.put data, by simp only [writeAll, hnext], hmeets⟩

end File

namespace TempFile

variable {t : TempFile} {bytes : ByteArray}

/-- A range is read as memory reads it, unless the disk fails. -/
theorem Holds.readAt_cases (h : t.Holds bytes) (offset length : Nat) :
    (∃ e t', t.readAt offset length = (.error (.io e), t') ∧ t'.Holds bytes ∧
        t.file.Meets t'.file [e]) ∨
      ∃ t', t.readAt offset length = ((⟨bytes⟩ : Memory).slice offset length, t') ∧
        t'.Holds bytes ∧ t.file.Meets t'.file [] := by
  have hfits := h.size_le
  obtain ⟨hlength, hbytes⟩ := h
  by_cases hpast : t.length < offset + length
  · refine Or.inr ⟨t, ?_, ⟨hlength, hbytes⟩, .refl _⟩
    unfold TempFile.readAt Memory.slice
    rw [if_pos hpast, if_pos (by rw [← hlength]; exact hpast), hlength]
  have hinside : ¬ bytes.size < offset + length := by rwa [← hlength]
  by_cases hzero : length = 0
  · refine Or.inr ⟨t, ?_, ⟨hlength, hbytes⟩, .refl _⟩
    unfold TempFile.readAt Memory.slice
    rw [if_neg hpast, if_pos hzero, if_neg hinside]
    dsimp only
    rw [hzero, Nat.add_zero, ByteArray.extract_same]
  rcases t.file.seek_cases offset with ⟨e, g, hseek, hcontent, hmet⟩ | ⟨g, hseek, hcontent, hcursor,
      hmet⟩
  · refine Or.inl ⟨e, { t with file := g }, ?_, ⟨hlength, by rw [hcontent]; exact hbytes⟩, hmet⟩
    simp only [TempFile.readAt, if_neg hpast, if_neg hzero, hseek]
  have hroom : g.cursor + length ≤ g.content.size := by
    rw [hcursor, hcontent]
    omega
  rcases File.readExact_cases hroom with ⟨e, k, hread, hcontent', hmet'⟩ | ⟨k, hread, hcontent',
      hmet'⟩
  · refine Or.inl ⟨e, { t with file := k }, ?_, ⟨hlength, ?_⟩, hmet.trans hmet'⟩
    · simp only [TempFile.readAt, if_neg hpast, if_neg hzero, hseek, hread]
    · rw [hcontent', hcontent]
      exact hbytes
  · have hread' : t.readAt offset length =
        (.ok (g.content.extract g.cursor (g.cursor + length)), { t with file := k }) := by
      simp only [TempFile.readAt, if_neg hpast, if_neg hzero, hseek, hread]
    obtain ⟨hgot, hholds⟩ := TempFile.Holds.readAt ⟨hlength, hbytes⟩ hread'
    refine Or.inr ⟨{ t with file := k }, ?_, hholds, hmet.trans hmet'⟩
    rw [hread', hgot, Memory.slice, if_neg hinside]

/-- Bytes are appended as memory appends them, unless the disk fails; then nothing is changed that
can be read. -/
theorem Holds.append_cases (h : t.Holds bytes) (data : ByteArray) :
    (∃ e t', t.append data = (.error (.io e), t') ∧ t'.Holds bytes ∧
        t.file.Meets t'.file [e]) ∨
      ∃ t', t.append data = (.ok bytes.size, t') ∧ t'.Holds (bytes ++ data) ∧
        t.file.Meets t'.file [] := by
  have hfits := h.size_le
  have hlength := h.1
  have hbytes := h.2
  by_cases hzero : data.size = 0
  · have happend : t.append data = (.ok t.length, t) := by
      simp only [TempFile.append, if_pos hzero]
    exact Or.inr ⟨t, by rw [happend, hlength], h.append happend, .refl _⟩
  rcases t.file.seek_cases t.length with ⟨e, g, hseek, hcontent, hmet⟩ | ⟨g, hseek, hcontent,
      hcursor, hmet⟩
  · refine Or.inl ⟨e, { t with file := g }, ?_, ⟨hlength, by rw [hcontent]; exact hbytes⟩, hmet⟩
    simp only [TempFile.append, if_neg hzero, hseek]
  have hroom : g.cursor ≤ g.content.size := by
    rw [hcursor, hcontent]
    omega
  rcases File.writeAll_cases hroom data with ⟨e, k, hwrite, hfront, hmet'⟩ | ⟨k, hwrite, hmet'⟩
  · refine Or.inl ⟨e, { t with file := k }, ?_, ⟨hlength, ?_⟩, hmet.trans hmet'⟩
    · simp only [TempFile.append, if_neg hzero, hseek, hwrite]
    · rw [hcursor, hcontent, hlength] at hfront
      exact hfront.trans hbytes
  · have happend : t.append data = (.ok t.length, ⟨k, t.length + data.size⟩) := by
      simp only [TempFile.append, if_neg hzero, hseek, hwrite]
    exact Or.inr ⟨_, by rw [happend, hlength], h.append happend, hmet.trans hmet'⟩

end TempFile

/-- A request to a byte store. -/
inductive StorageCall where
  | append (data : ByteArray)
  | readAt (offset length : Nat)
  | size
  | flush

/-- What a request gives that succeeds. -/
inductive StorageAnswer where
  | placed (offset : Nat)
  | bytes (bytes : ByteArray)
  | size (size : Nat)
  | flushed

namespace StorageAnswer

/-- The failure of the disk, if it was the disk that failed. -/
def failure? : Except StorageError StorageAnswer → Option IoError
  | .error (.io e) => some e
  | _ => none

end StorageAnswer

namespace StorageCall

open StorageAnswer

variable {β : Type} [Storage β]

def perform (b : β) : StorageCall → Except StorageError StorageAnswer × β
  | append data => (Storage.append b data).map (Except.map .placed) id
  | readAt offset length => (Storage.readAt b offset length).map (Except.map .bytes) id
  | size => (.ok (.size (Storage.size b)), b)
  | flush => (Storage.flush b).map (Except.map fun _ => .flushed) id

/-- Performs requests in order. Gives back each of them with its answer, and the store. -/
def performAll (b : β) :
    List StorageCall → List (StorageCall × Except StorageError StorageAnswer) × β
  | [] => ([], b)
  | call :: rest =>
    let (answer, b) := call.perform b
    let (entries, b) := performAll b rest
    ((call, answer) :: entries, b)

/-- Memory does not fail as a disk does. -/
theorem failure?_memory (call : StorageCall) (m : Memory) : failure? (call.perform m).1 = none := by
  cases call with
  | readAt offset length =>
    show failure? (Except.map StorageAnswer.bytes (m.slice offset length)) = none
    unfold Memory.slice
    split <;> rfl
  | append => rfl
  | size => rfl
  | flush => rfl

/-- One request: the disk fails and nothing is changed, or file and memory give the same answer and
hold the same bytes again. -/
theorem perform_cases {t : TempFile} {m : Memory} (h : t.Holds m.bytes) (call : StorageCall) :
    (∃ e t', call.perform t = (.error (.io e), t') ∧ t'.Holds m.bytes ∧
        t.file.Meets t'.file [e]) ∨
      ∃ t', call.perform t = ((call.perform m).1, t') ∧ t'.Holds (call.perform m).2.bytes ∧
        t.file.Meets t'.file [] := by
  cases call with
  | append data =>
    refine (h.append_cases data).imp ?_ ?_
    · rintro ⟨e, t', happend, hholds, hmet⟩
      refine ⟨e, t', ?_, hholds, hmet⟩
      show (t.append data).map _ id = _
      rw [happend]
      rfl
    · rintro ⟨t', happend, hholds, hmet⟩
      refine ⟨t', ?_, hholds, hmet⟩
      show (t.append data).map _ id = _
      rw [happend]
      rfl
  | readAt offset length =>
    refine (h.readAt_cases offset length).imp ?_ ?_
    · rintro ⟨e, t', hread, hholds, hmet⟩
      refine ⟨e, t', ?_, hholds, hmet⟩
      show (t.readAt offset length).map _ id = _
      rw [hread]
      rfl
    · rintro ⟨t', hread, hholds, hmet⟩
      refine ⟨t', ?_, hholds, hmet⟩
      show (t.readAt offset length).map _ id = _
      rw [hread]
      rfl
  | size =>
    refine Or.inr ⟨t, ?_, h, .refl _⟩
    show (Except.ok (StorageAnswer.size t.length), t) = (.ok (.size m.bytes.size), t)
    rw [h.1]
  | flush => exact Or.inr ⟨t, rfl, h, .refl _⟩

/-- Requests from stores that hold the same bytes: with those left out that failed on the disk,
memory gives the same answers, and in the end both hold the same bytes again. -/
theorem performAll_cases {t : TempFile} {m : Memory} (h : t.Holds m.bytes)
    (calls : List StorageCall) :
    let run := performAll t calls
    let kept := run.1.filter fun entry => (failure? entry.2).isNone
    ∃ m', performAll m (kept.map (·.1)) = (kept, m') ∧ run.2.Holds m'.bytes ∧
      t.file.Meets run.2.file (run.1.filterMap fun entry => failure? entry.2) := by
  induction calls generalizing t m with
  | nil => exact ⟨m, rfl, h, .refl _⟩
  | cons call rest ih =>
    rcases perform_cases h call with ⟨e, t', hcall, hholds, hmet⟩ | ⟨t', hcall, hholds, hmet⟩
    · obtain ⟨m', hrest, hlast, hmet'⟩ := ih hholds
      refine ⟨m', ?_, ?_, ?_⟩
      · simpa [performAll, hcall, failure?] using hrest
      · simpa [performAll, hcall] using hlast
      · simpa [performAll, hcall, failure?] using hmet.trans hmet'
    · obtain ⟨m', hrest, hlast, hmet'⟩ := ih hholds
      have hanswered := failure?_memory call m
      refine ⟨m', ?_, ?_, ?_⟩
      · simp only [performAll, hcall, hanswered, List.filter_cons, Option.isNone_none, if_true,
          List.map_cons, hrest]
      · simpa [performAll, hcall] using hlast
      · simpa [performAll, hcall, hanswered] using hmet.trans hmet'

end StorageCall

/-- **File and memory are the same store.** Whatever goes wrong on the disk, and whenever: a store
in a new file answers any requests, those left out that failed on the disk, as a new store in memory
answers these, offset by offset and byte by byte, refusals of ranges past the end included. It holds
the same bytes in the end. Its failures are those that the disk was due to meet, in order. -/
theorem TempFile.answers_as_memory (faults : List (Option FileFault)) (calls : List StorageCall) :
    let run := StorageCall.performAll ({ file := { faults } } : TempFile) calls
    let kept := run.1.filter fun entry => (StorageAnswer.failure? entry.2).isNone
    ∃ m, StorageCall.performAll ({} : Memory) (kept.map (·.1)) = (kept, m) ∧
      run.2.Holds m.bytes ∧
      ∃ met, faults = met ++ run.2.file.faults ∧
        (run.1.filterMap fun entry => StorageAnswer.failure? entry.2) = File.errorsOf met := by
  intro run kept
  have hempty : ({ file := { faults } } : TempFile).Holds ({} : Memory).bytes := ⟨rfl, rfl⟩
  obtain ⟨m, hanswers, hholds, met, hfaults, herrors⟩ :=
    StorageCall.performAll_cases hempty calls
  exact ⟨m, hanswers, hholds, met, hfaults, herrors.symm⟩

end Replica
