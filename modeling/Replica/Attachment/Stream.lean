import Replica.Storage.Error

/-!
# Byte streams

A stream is what its future reads will meet: bytes, handed out as far as the reader's buffer allows,
and failures. A read never spans two runs of bytes; an empty run makes one read come back without
bytes, and behind the last event every read does. A run at whose end the stream breaks off never
gives a read without bytes: where none are left, or the reader has no room for any, the read fails.
The stream counts its reads.
-/
namespace Replica

/-- What a read meets. -/
inductive StreamEvent where
  | data (bytes : ByteArray)
  | failure (error : IoError)
  /-- Bytes behind which the stream breaks off. -/
  | breakOff (bytes : ByteArray) (error : IoError)

structure Stream where
  events : List StreamEvent
  reads : Nat := 0

namespace Stream

def ofBytes (bytes : ByteArray) : Stream := ⟨[.data bytes], 0⟩

/-- Reads at most as many bytes as the buffer holds. -/
def read (s : Stream) (capacity : Nat) : Except IoError ByteArray × Stream :=
  match s.events with
  | [] => (.ok .empty, ⟨[], s.reads + 1⟩)
  | .failure e :: rest => (.error e, ⟨rest, s.reads + 1⟩)
  | .data bytes :: rest =>
    if bytes.size ≤ capacity then (.ok bytes, ⟨rest, s.reads + 1⟩)
    else
      (.ok (bytes.extract 0 capacity),
        ⟨.data (bytes.extract capacity bytes.size) :: rest, s.reads + 1⟩)
  | .breakOff bytes e :: rest =>
    if bytes.size = 0 ∨ capacity = 0 then (.error e, ⟨rest, s.reads + 1⟩)
    else
      (.ok (bytes.extract 0 capacity),
        ⟨.breakOff (bytes.extract capacity bytes.size) e :: rest, s.reads + 1⟩)

/-- How much an event can still give: its bytes, and one for the event. -/
def eventWeight : StreamEvent → Nat
  | .data bytes => bytes.size + 1
  | .failure _ => 1
  | .breakOff bytes _ => bytes.size + 1

def eventsWeight : List StreamEvent → Nat
  | [] => 0
  | e :: rest => eventWeight e + eventsWeight rest

/-- How much the stream can still give. It bounds the number of reads that do not end it. -/
def weight (s : Stream) : Nat := eventsWeight s.events

theorem weight_read_error {s t : Stream} {capacity : Nat} {e : IoError}
    (h : s.read capacity = (.error e, t)) : t.weight < s.weight := by
  unfold read at h
  split at h
  · cases h
  · rename_i hs
    cases h
    simp [weight, hs, eventsWeight, eventWeight]
  · split at h <;> cases h
  · rename_i hs
    split at h
    · cases h
      simp [weight, hs, eventsWeight, eventWeight]
    · cases h

theorem weight_read_ok {s t : Stream} {capacity : Nat} {bytes : ByteArray}
    (h : s.read (capacity + 1) = (.ok bytes, t)) (hb : bytes.size ≠ 0) : t.weight < s.weight := by
  unfold read at h
  split at h
  · cases h
    exact absurd rfl hb
  · cases h
  · rename_i hs
    split at h
    · cases h
      simp [weight, hs, eventsWeight, eventWeight]
    · cases h
      simp [weight, hs, eventsWeight, eventWeight, ByteArray.size_extract]
      omega
  · rename_i hs
    split at h
    · cases h
    · rename_i hne
      cases h
      simp [weight, hs, eventsWeight, eventWeight, ByteArray.size_extract]
      omega

end Stream

end Replica
