import Replica.Proofs.Storage.Contract
import Replica.Storage.Reader

/-!
# What a reader hands out

A reader of a store that keeps the contract stands somewhere in the bytes: its chunk is a part of
them, and what it has handed out ends within that chunk. Each read goes on from there, so the reads
together give the bytes from the beginning, and all of them in the end. A read in which the store
fails gives nothing and leaves the reader where it was.
-/
namespace Replica

namespace Reader

variable {β : Type} {holds : β → ByteArray → Prop} {bytes : ByteArray} {r : Reader β} {given : Nat}

/-- The reader has handed out the first `given` of the bytes: its chunk is a part of them, and what
it has handed out of that chunk ends there. -/
structure At (holds : β → ByteArray → Prop) (bytes : ByteArray) (r : Reader β) (given : Nat) :
    Prop where
  store : holds r.store bytes
  inside : r.position ≤ bytes.size
  chunk : ∃ start, r.buffer = bytes.extract start r.position ∧ start + r.buffer.size = r.position ∧
    given = start + r.cursor
  cursor : r.cursor ≤ r.buffer.size

theorem at_start {store : β} (h : holds store bytes) : At holds bytes { store } 0 where
  store := h
  inside := Nat.zero_le _
  chunk := ⟨0, (ByteArray.extract_same ..).symm, rfl, rfl⟩
  cursor := Nat.le_refl 0

/-- What is handed out of the chunk follows what has been handed out. -/
theorem At.handOut (h : At holds bytes r given) (capacity : Nat) :
    ∃ n, n = min capacity (r.buffer.size - r.cursor) ∧
      (r.handOut capacity).1 = bytes.extract given (given + n) ∧
      At holds bytes (r.handOut capacity).2 (given + n) := by
  obtain ⟨start, hbuffer, hend, rfl⟩ := h.chunk
  have hcursor := h.cursor
  have hinside := h.inside
  have hsize : (r.handOut capacity).1.size = min capacity (r.buffer.size - r.cursor) := by
    rw [Reader.handOut, ByteArray.size_extract]
    omega
  refine ⟨_, rfl, ?_, h.store, h.inside, ⟨start, hbuffer, hend, ?_⟩, ?_⟩
  · have hwithin : min (start + (r.cursor + capacity)) r.position =
        start + r.cursor + min capacity (r.buffer.size - r.cursor) := by omega
    show r.buffer.extract r.cursor (r.cursor + capacity) = _
    rw [hbuffer, ByteArray.extract_extract, ← hbuffer, hwithin]
  · show _ = start + (r.cursor + (r.handOut capacity).1.size)
    rw [hsize, Nat.add_assoc]
  · show r.cursor + (r.handOut capacity).1.size ≤ r.buffer.size
    omega

theorem At.given_le (h : At holds bytes r given) : given ≤ bytes.size := by
  obtain ⟨start, -, hend, rfl⟩ := h.chunk
  have hcursor := h.cursor
  have hinside := h.inside
  omega

theorem At.size_extract {n : Nat} (h : At holds bytes r (given + n)) :
    (bytes.extract given (given + n)).size = n := by
  have hle := h.given_le
  rw [ByteArray.size_extract]
  omega

variable [Storage β]

theorem refill_failed {e : StorageError} {store : β}
    (h : Storage.readAt r.store r.position (min (Storage.size r.store - r.position) chunkSize) =
      (.error e, store)) : r.refill = (.error e.toIo, { r with store }) := by
  simp only [Reader.refill, h]

theorem refill_succeeded {chunk : ByteArray} {store : β}
    (h : Storage.readAt r.store r.position (min (Storage.size r.store - r.position) chunkSize) =
      (.ok chunk, store)) :
    r.refill = (.ok (),
      ⟨store, r.position + min (Storage.size r.store - r.position) chunkSize, chunk, 0⟩) := by
  simp only [Reader.refill, h]

variable {fails : StorageError → Prop}

/-- A chunk is fetched from where the last one ended; it is empty only at the end. If the store
fails the reader stays where it was. -/
theorem At.refill (htruthful : Storage.Truthful holds fails) (h : At holds bytes r given)
    (hdone : r.buffer.size ≤ r.cursor) :
    (∃ e r', r.refill = (.error e.toIo, r') ∧ fails e ∧ At holds bytes r' given) ∨
      ∃ r', r.refill = (.ok (), r') ∧ At holds bytes r' given ∧ r'.cursor = 0 ∧
        (r'.buffer.size = 0 → given = bytes.size) := by
  obtain ⟨start, hbuffer, hend, rfl⟩ := h.chunk
  have hcursor := h.cursor
  have hinside := h.inside
  have hsize := htruthful.size h.store
  let length := min (Storage.size r.store - r.position) chunkSize
  have hfits : r.position + length ≤ bytes.size := by omega
  rcases htruthful.readAt h.store hfits with ⟨e, store, hread, hfails, hholds⟩ |
    ⟨store, hread, hholds⟩
  · exact Or.inl ⟨e, _, refill_failed hread, hfails, hholds, hinside, h.chunk, hcursor⟩
  · have hchunk : (bytes.extract r.position (r.position + length)).size = length := by
      rw [ByteArray.size_extract]
      omega
    refine Or.inr ⟨_, refill_succeeded hread,
      ⟨hholds, hfits, ⟨r.position, rfl, congrArg _ hchunk, ?_⟩, Nat.zero_le _⟩, rfl, ?_⟩
    · show start + r.cursor = r.position + 0
      omega
    · intro hempty
      have hzero : length = 0 := hchunk.symm.trans hempty
      have hpositive : 0 < chunkSize := by decide
      omega

/-- **A read goes on where the last one ended.** It gives the bytes that follow those handed out
before, and none only if it asks for none or all have been handed out. If the store fails nothing is
handed out. -/
theorem At.read (htruthful : Storage.Truthful holds fails) (h : At holds bytes r given)
    (capacity : Nat) :
    (∃ e r', r.read capacity = (.error e.toIo, r') ∧ fails e ∧ At holds bytes r' given) ∨
      ∃ n r', r.read capacity = (.ok (bytes.extract given (given + n)), r') ∧
        At holds bytes r' (given + n) ∧ n ≤ capacity ∧
        (n = 0 → capacity = 0 ∨ given = bytes.size) := by
  unfold Reader.read
  split
  · rename_i hleft
    obtain ⟨n, hn, hbytes, hat⟩ := h.handOut capacity
    exact Or.inr ⟨n, _, by rw [← hbytes]; rfl, hat, by omega, by omega⟩
  · rename_i hdone
    rcases h.refill htruthful (Nat.not_lt.mp hdone) with ⟨e, r', hrefill, hfails, hat⟩ |
      ⟨r', hrefill, hat, hcursor, hempty⟩
    · exact Or.inl ⟨e, r', by rw [hrefill], hfails, hat⟩
    · obtain ⟨n, hn, hbytes, hat'⟩ := hat.handOut capacity
      rw [hrefill]
      exact Or.inr ⟨n, _, by rw [← hbytes]; rfl, hat', by omega, by omega⟩

/-- Reading a store that does not fail to the end gives what is left. -/
theorem At.readRest (hnever : Storage.Truthful holds fun _ => False) (h : At holds bytes r given)
    {fuel : Nat} (hfuel : bytes.size < given + fuel) :
    r.readRest (bytes.extract 0 given) fuel = .ok bytes := by
  induction fuel generalizing r given with
  | zero =>
    have hle := h.given_le
    omega
  | succ fuel ih =>
    obtain ⟨n, r', hread, hat, -, hend⟩ :=
      (h.read hnever chunkSize).resolve_left fun ⟨_, _, _, hfails, _⟩ => hfails
    have hle := hat.given_le
    have hsize := hat.size_extract
    rw [Reader.readRest, hread]
    dsimp only
    split
    · rename_i hempty
      have hall : given = bytes.size := (hend (hsize ▸ hempty)).resolve_left (by decide)
      rw [hall, ByteArray.extract_zero_size]
    · rename_i hsome
      rw [← ByteArray.extract_eq_extract_append_extract given (Nat.zero_le _) (by omega)]
      exact ih hat (by omega)

end Reader

section ReadAll

variable {β : Type} [Storage β] {holds : β → ByteArray → Prop} {store : β} {bytes : ByteArray}

/-- Reading a store that does not fail from beginning to end gives all its bytes. -/
theorem readAll_of_truthful (hnever : Storage.Truthful holds fun _ => False)
    (h : holds store bytes) : readAll store = .ok bytes := by
  have hfuel : bytes.size < 0 + (Storage.size store + 1) := by
    rw [hnever.size h]
    omega
  have hall := (Reader.at_start h).readRest hnever hfuel
  rwa [ByteArray.extract_same] at hall

theorem readAll_eq_ok (hfaithful : Storage.Faithful holds) (h : holds store bytes) :
    readAll store = .ok bytes := readAll_of_truthful hfaithful.truthful h

end ReadAll

end Replica
