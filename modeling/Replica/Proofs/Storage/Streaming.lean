import Replica.Proofs.Storage.Reading

/-!
# A store read piece by piece

A store may be read with buffers of any sizes, empty ones among them, and reading may go on after
the store has failed. Whatever the sizes, the reads that succeed give the bytes of the store from
the beginning, none left out and none twice, and a read with room for a byte comes back empty only
behind the last one. The store is never asked for a range past its end, and each of its failures is
reported once.

Nothing is said of a store whose bytes change while it is read.
-/
namespace Replica

/-- A store that keeps a record of the ranges it is asked for and of its failures. -/
structure Recorded (β : Type) where
  store : β
  requests : List (Nat × Nat) := []
  failures : List StorageError := []

namespace Recorded

variable {β : Type} [Storage β]

/-- The bytes of a range, after a note of what was asked for. -/
def readAt (r : Recorded β) (offset length : Nat) : Except StorageError ByteArray × Recorded β :=
  match Storage.readAt r.store offset length with
  | (.error e, store) => (.error e, ⟨store, r.requests ++ [(offset, length)], r.failures ++ [e]⟩)
  | (.ok bytes, store) => (.ok bytes, ⟨store, r.requests ++ [(offset, length)], r.failures⟩)

instance : Storage (Recorded β) where
  size r := Storage.size r.store
  readAt := readAt
  append r data := (Storage.append r.store data).map id fun store => { r with store }
  flush r := (Storage.flush r.store).map id fun store => { r with store }

variable {r : Recorded β} {store : β} {offset length : Nat}

theorem readAt_failed {e : StorageError}
    (h : Storage.readAt r.store offset length = (.error e, store)) :
    Storage.readAt r offset length =
      (.error e, ⟨store, r.requests ++ [(offset, length)], r.failures ++ [e]⟩) := by
  show readAt r offset length = _
  rw [readAt, h]

theorem readAt_succeeded {bytes : ByteArray}
    (h : Storage.readAt r.store offset length = (.ok bytes, store)) :
    Storage.readAt r offset length =
      (.ok bytes, ⟨store, r.requests ++ [(offset, length)], r.failures⟩) := by
  show readAt r offset length = _
  rw [readAt, h]

/-- No range that was asked for reaches past the end of the bytes. -/
def Inside (r : Recorded β) (bytes : ByteArray) : Prop :=
  ∀ q ∈ r.requests, q.1 + q.2 ≤ bytes.size

omit [Storage β] in
theorem Inside.append {bytes : ByteArray} (h : r.Inside bytes)
    (hfits : offset + length ≤ bytes.size) :
    ∀ q ∈ r.requests ++ [(offset, length)], q.1 + q.2 ≤ bytes.size := by
  intro q hq
  rcases List.mem_append.mp hq with hq | hq
  · exact h q hq
  · obtain rfl := List.mem_singleton.mp hq
    exact hfits

/-- A record is kept of ranges within the bytes as long as nothing else is asked for. Who relies on
the contract alone therefore asks for nothing else. -/
theorem truthful {holds : β → ByteArray → Prop} {fails : StorageError → Prop}
    (h : Storage.Truthful holds fails) :
    Storage.Truthful (fun (r : Recorded β) bytes => holds r.store bytes ∧ r.Inside bytes)
      fails where
  size hr := h.size hr.1
  readAt {r bytes} hr offset length hfits := by
    have hinside := hr.2.append hfits
    rcases h.readAt hr.1 hfits with ⟨e, store, hread, hfails, hholds⟩ | ⟨store, hread, hholds⟩
    · exact Or.inl ⟨e, _, readAt_failed hread, hfails, hholds, hinside⟩
    · exact Or.inr ⟨_, readAt_succeeded hread, hholds, hinside⟩

end Recorded

namespace Reader

variable {β : Type}

/-- The failures among some answers. -/
def failed {α : Type} (answers : List (Except IoError α)) : List IoError :=
  answers.filterMap fun
    | .error e => some e
    | .ok _ => none

theorem failed_cons {α : Type} (answer : Except IoError α) (rest : List (Except IoError α)) :
    failed (answer :: rest) = failed [answer] ++ failed rest := by
  show failed ([answer] ++ rest) = _
  exact List.filterMap_append

/-- The bytes of the reads that succeeded, put together. -/
def received : List (Except IoError ByteArray) → ByteArray
  | [] => .empty
  | .error _ :: rest => received rest
  | .ok bytes :: rest => bytes ++ received rest

theorem size_le_received {answers : List (Except IoError ByteArray)} {out : ByteArray}
    (h : .ok out ∈ answers) : out.size ≤ (received answers).size := by
  induction answers with
  | nil => contradiction
  | cons answer rest ih =>
    rcases List.mem_cons.mp h with rfl | h
    · rw [received, ByteArray.size_append]
      omega
    · have hrest := ih h
      cases answer with
      | error e => exact hrest
      | ok first =>
        rw [received, ByteArray.size_append]
        omega

variable [Storage β]

/-- Reads one after another, each with a buffer of its own size, also behind one that failed. -/
def answers (r : Reader β) : List Nat → List (Except IoError ByteArray) × Reader β
  | [] => ([], r)
  | capacity :: rest =>
    let (answer, r) := r.read capacity
    let (later, r) := r.answers rest
    (answer :: later, r)

/-- Reads that stop at the first failure give what these give up to there. -/
theorem reads_eq (r : Reader β) (sizes : List Nat) :
    (r.reads sizes).1 = (r.answers sizes).1.mapM id := by
  induction sizes generalizing r with
  | nil => rfl
  | cons capacity rest ih =>
    rw [Reader.reads, answers]
    cases hread : r.read capacity with
    | mk answer r' =>
      cases answer with
      | error e => rfl
      | ok out =>
        show Except.map _ (r'.reads rest).1 = _
        rw [ih r', List.mapM_cons]
        cases (r'.answers rest).1.mapM id <;> rfl

/-- The reader of the store without its record. -/
def unrecorded (r : Reader (Recorded β)) : Reader β :=
  ⟨r.store.store, r.position, r.buffer, r.cursor⟩

/-- The failures in the record, as a reader reports them. -/
def noted (r : Reader (Recorded β)) : List IoError := r.store.failures.map StorageError.toIo

/-- With a record a chunk is fetched as without one, and a failure is noted. -/
theorem refill_recorded (r : Reader (Recorded β)) :
    r.unrecorded.refill = (r.refill.1, r.refill.2.unrecorded) ∧
      r.refill.2.noted = r.noted ++ failed [r.refill.1] := by
  cases hread : Storage.readAt r.store.store r.position
      (min (Storage.size r.store.store - r.position) chunkSize) with
  | mk answer store =>
    cases answer with
    | error e =>
      rw [refill_failed (Recorded.readAt_failed hread), refill_failed (r := r.unrecorded) hread]
      exact ⟨rfl, List.map_append⟩
    | ok chunk =>
      rw [refill_succeeded (Recorded.readAt_succeeded hread),
        refill_succeeded (r := r.unrecorded) hread]
      exact ⟨rfl, (List.append_nil _).symm⟩

theorem read_recorded (r : Reader (Recorded β)) (capacity : Nat) :
    r.unrecorded.read capacity = ((r.read capacity).1, (r.read capacity).2.unrecorded) ∧
      (r.read capacity).2.noted = r.noted ++ failed [(r.read capacity).1] := by
  by_cases hleft : r.cursor < r.buffer.size
  · have hleft' : r.unrecorded.cursor < r.unrecorded.buffer.size := hleft
    rw [Reader.read, if_pos hleft', Reader.read, if_pos hleft]
    exact ⟨rfl, (List.append_nil _).symm⟩
  · have hdone : ¬ r.unrecorded.cursor < r.unrecorded.buffer.size := hleft
    obtain ⟨hplain, hnoted⟩ := r.refill_recorded
    rw [Reader.read, if_neg hdone, hplain, Reader.read, if_neg hleft]
    cases hrefill : r.refill with
    | mk outcome r' =>
      rw [hrefill] at hnoted
      cases outcome with
      | error e => exact ⟨rfl, hnoted⟩
      | ok _ => exact ⟨rfl, hnoted⟩

/-- With a record the answers are the same, and the failures among them are those noted since. -/
theorem answers_recorded (r : Reader (Recorded β)) (sizes : List Nat) :
    r.unrecorded.answers sizes = ((r.answers sizes).1, (r.answers sizes).2.unrecorded) ∧
      (r.answers sizes).2.noted = r.noted ++ failed (r.answers sizes).1 := by
  induction sizes generalizing r with
  | nil => exact ⟨rfl, (List.append_nil _).symm⟩
  | cons capacity rest ih =>
    obtain ⟨hplain, hnoted⟩ := r.read_recorded capacity
    obtain ⟨hanswers, hlater⟩ := ih (r.read capacity).2
    rw [answers, answers, hplain]
    dsimp only
    rw [hanswers, hlater, hnoted, List.append_assoc, ← failed_cons]
    exact ⟨rfl, rfl⟩

variable {holds : β → ByteArray → Prop} {fails : StorageError → Prop} {bytes : ByteArray}
  {r : Reader β} {given : Nat}

/-- Reads go on from where the reader stands. As long as each has room for a byte, each that
succeeds gets on by a byte or finds all bytes handed out. -/
theorem At.answers (htruthful : Storage.Truthful holds fails) (h : At holds bytes r given)
    (sizes : List Nat) :
    ∃ n, received (r.answers sizes).1 = bytes.extract given (given + n) ∧
      At holds bytes (r.answers sizes).2 (given + n) ∧
      (∀ e ∈ failed (r.answers sizes).1, ∃ cause, fails cause ∧ e = cause.toIo) ∧
      ((∀ capacity ∈ sizes, 0 < capacity) →
        given + n = bytes.size ∨ sizes.length ≤ n + (failed (r.answers sizes).1).length) := by
  induction sizes generalizing r given with
  | nil =>
    refine ⟨0, ?_, h, nofun, fun _ => Or.inr (Nat.le_refl 0)⟩
    exact (ByteArray.extract_same ..).symm
  | cons capacity rest ih =>
    rw [Reader.answers]
    rcases h.read htruthful capacity with ⟨e, r', hread, hfails, hat⟩ |
      ⟨m, r', hread, hat, -, hempty⟩
    · obtain ⟨n, hreceived, hlater, hcauses, hprogress⟩ := ih hat
      rw [hread]
      refine ⟨n, hreceived, hlater, ?_, fun hroom => ?_⟩
      · exact List.forall_mem_cons.mpr ⟨⟨e, hfails, rfl⟩, hcauses⟩
      · refine (hprogress (List.forall_mem_cons.mp hroom).2).imp_right fun hle => ?_
        simp only [failed, List.filterMap_cons, List.length_cons] at hle ⊢
        omega
    · obtain ⟨n, hreceived, hlater, hcauses, hprogress⟩ := ih hat
      have hmore := hlater.given_le
      have hjoin : bytes.extract given (given + m) ++ bytes.extract (given + m) (given + m + n) =
          bytes.extract given (given + (m + n)) := by
        rw [← Nat.add_assoc]
        exact (ByteArray.extract_eq_extract_append_extract (given + m) (by omega) (by omega)).symm
      rw [hread]
      refine ⟨m + n, ?_, ?_, hcauses, fun hroom => ?_⟩
      · show bytes.extract given (given + m) ++ received (r'.answers rest).1 = _
        rw [hreceived, hjoin]
      · rw [← Nat.add_assoc]
        exact hlater
      · obtain ⟨hfirst, hroom⟩ := List.forall_mem_cons.mp hroom
        rcases hprogress hroom with hall | hle
        · exact Or.inl (by omega)
        · simp only [failed, List.filterMap_cons, List.length_cons] at hle ⊢
          omega

omit [Storage β] in
theorem At.unrecorded {r : Reader (Recorded β)}
    (h : At (fun (b : Recorded β) bytes => holds b.store bytes ∧ b.Inside bytes) bytes r given) :
    At holds bytes r.unrecorded given := ⟨h.store.1, h.inside, h.chunk, h.cursor⟩

/-- A read that succeeds gives no more than it has room for, and nothing, though it has room, only
at the end. -/
theorem At.read_ok (htruthful : Storage.Truthful holds fails) (h : At holds bytes r given)
    {capacity : Nat} {out : ByteArray} (hout : (r.read capacity).1 = .ok out) :
    out.size ≤ capacity ∧ (out.size = 0 → 0 < capacity → given = bytes.size) := by
  rcases h.read htruthful capacity with ⟨e, r', hread, -⟩ | ⟨n, r', hread, hat, hn, hempty⟩
  · rw [hread] at hout
    cases hout
  · rw [hread] at hout
    obtain rfl := Except.ok.inj hout
    rw [hat.size_extract]
    exact ⟨hn, fun hzero hroom => (hempty hzero).resolve_left (by omega)⟩

/-- Behind the last byte no read gives any. -/
theorem At.nothing_left (htruthful : Storage.Truthful holds fails)
    (h : At holds bytes r bytes.size) (sizes : List Nat) {out : ByteArray}
    (hout : .ok out ∈ (r.answers sizes).1) : out.size = 0 := by
  obtain ⟨n, hreceived, hat, -, -⟩ := h.answers htruthful sizes
  have hend := hat.given_le
  have hle := size_le_received hout
  rw [hreceived, ByteArray.size_extract] at hle
  omega

/-- **A reader loses nothing and repeats nothing.** After reads with buffers of any sizes of a store
that holds some bytes, where any read may have failed with the store:
the store has been asked for no range past its end, and the failures reported are its own, one each;
what has been received is a beginning of the bytes;
one more read gives at most as many bytes as it has room for, and none, though it has room, only if
all have been received;
once all have been received no later read gives any.
With room for a byte in each read, all have been received if there were more reads than bytes and
failures, and reading a store that never fails to the end gives its bytes. -/
theorem answers_in_order {store : β} (htruthful : Storage.Truthful holds fails)
    (h : holds store bytes) (sizes : List Nat) :
    ∃ (answers : List (Except IoError ByteArray)) (r : Reader (Recorded β)),
      ({ store := { store } } : Reader (Recorded β)).answers sizes = (answers, r) ∧
      ({ store } : Reader β).answers sizes = (answers, r.unrecorded) ∧
      (({ store } : Reader β).reads sizes).1 = answers.mapM id ∧
      r.store.Inside bytes ∧ failed answers = r.store.failures.map StorageError.toIo ∧
      (∃ n, n ≤ bytes.size ∧ received answers = bytes.extract 0 n) ∧
      (∀ capacity out, (r.unrecorded.read capacity).1 = .ok out → out.size ≤ capacity ∧
        (out.size = 0 → 0 < capacity → received answers = bytes)) ∧
      (received answers = bytes → ∀ later out,
        .ok out ∈ (r.unrecorded.answers later).1 → out.size = 0) ∧
      ((∀ capacity ∈ sizes, 0 < capacity) →
        bytes.size + (failed answers).length < sizes.length → received answers = bytes) ∧
      ((∀ e, ¬ fails e) → failed answers = [] ∧ readAll store = .ok bytes) := by
  let start : Reader (Recorded β) := { store := { store } }
  have hstart : At (fun (b : Recorded β) bytes => holds b.store bytes ∧ b.Inside bytes) bytes start
      0 := at_start ⟨h, nofun⟩
  obtain ⟨hplain, hnoted⟩ := start.answers_recorded sizes
  obtain ⟨n, hreceived, hat, hcauses, hprogress⟩ :=
    hstart.answers (Recorded.truthful htruthful) sizes
  rw [Nat.zero_add] at hreceived hat hprogress
  have hend : n ≤ bytes.size := hat.given_le
  have hall : received (start.answers sizes).1 = bytes ↔ n = bytes.size := by
    rw [hreceived]
    constructor
    · intro heq
      have hsize := congrArg ByteArray.size heq
      rw [ByteArray.size_extract] at hsize
      omega
    · rintro rfl
      exact ByteArray.extract_zero_size
  refine ⟨(start.answers sizes).1, (start.answers sizes).2, rfl, hplain, ?_, hat.store.2,
    hnoted.symm, ⟨n, hend, hreceived⟩, fun capacity out hout => ?_, fun hbytes later out hout => ?_,
    fun hroom hmany => ?_, fun hnever => ⟨?_, ?_⟩⟩
  · exact (reads_eq _ sizes).trans (congrArg (fun run => run.1.mapM id) hplain)
  · exact (hat.unrecorded.read_ok htruthful hout).imp_right
      fun hempty hzero hroom => hall.mpr (hempty hzero hroom)
  · exact (hall.mp hbytes ▸ hat.unrecorded).nothing_left htruthful later hout
  · rcases hprogress hroom with hn | hle
    · exact hall.mpr hn
    · omega
  · rw [List.eq_nil_iff_forall_not_mem]
    intro e he
    obtain ⟨cause, hcause, -⟩ := hcauses e he
    exact hnever cause hcause
  · exact readAll_of_truthful (htruthful.imp hnever) h

/-- What a read meets on a disk that is slow to answer. -/
def slowDisk : IoError := ⟨.timedOut, "disk did not answer"⟩

/-- A file of five bytes, with two more behind them that a failed append has left; the disk fails in
the first read. -/
def slowFile : TempFile where
  file := { content := ⟨#[10, 20, 30, 40, 50, 7, 7]⟩, faults := [none, some ⟨slowDisk, 3⟩] }
  length := 5

theorem answers_in_order_slowFile :
    Storage.Truthful TempFile.Holds (fun e => ∃ source, e = .io source) ∧
      slowFile.Holds ⟨#[10, 20, 30, 40, 50]⟩ ∧
      ∃ answers r, ({ store := slowFile } : Reader TempFile).answers [2, 2, 2, 1, 1, 1, 1] =
        (answers, r) ∧ failed answers = [slowDisk] ∧
        received answers = ⟨#[10, 20, 30, 40, 50]⟩ := by
  have hholds : slowFile.Holds ⟨#[10, 20, 30, 40, 50]⟩ := ⟨rfl, rfl⟩
  obtain ⟨answers, r, -, hplain, -, -, -, -, -, -, hall, -⟩ :=
    answers_in_order TempFile.truthful hholds [2, 2, 2, 1, 1, 1, 1]
  have hfailed : failed (({ store := slowFile } : Reader TempFile).answers
      [2, 2, 2, 1, 1, 1, 1]).1 = [slowDisk] := by decide +kernel
  rw [hplain] at hfailed
  refine ⟨TempFile.truthful, hholds, answers, _, hplain, hfailed, hall (by decide) ?_⟩
  rw [hfailed]
  decide

end Reader

end Replica
