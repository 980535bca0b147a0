import Replica.Storage.Basic

/-!
# Reading a byte store as a stream

A reader goes through a store from its beginning. It fetches a chunk at a time and hands it out
across reads; a read never spans two chunks, and gives no bytes only at the end or when it asks for
none. A whole store is read up to the first failure, of whatever kind. A loop that tries again after
an interrupted read would come to the same unless a file fails in just this way, and would not end
over a file that goes on failing so.
-/
namespace Replica

/-- A reader of a store: the chunk fetched last, how much of it has been handed out, and the place
behind it. -/
structure Reader (β : Type) where
  store : β
  position : Nat := 0
  buffer : ByteArray := .empty
  cursor : Nat := 0

namespace Reader

variable {β : Type} [Storage β]

/-- Fetches the next chunk; at the end it is empty. -/
def refill (r : Reader β) : Except IoError Unit × Reader β :=
  let length := min (Storage.size r.store - r.position) chunkSize
  match Storage.readAt r.store r.position length with
  | (.error e, store) => (.error e.toIo, { r with store })
  | (.ok buffer, store) => (.ok (), ⟨store, r.position + length, buffer, 0⟩)

/-- Hands out bytes of the chunk, at most as many as asked for. -/
def handOut (r : Reader β) (capacity : Nat) : ByteArray × Reader β :=
  let bytes := r.buffer.extract r.cursor (r.cursor + capacity)
  (bytes, { r with cursor := r.cursor + bytes.size })

def read (r : Reader β) (capacity : Nat) : Except IoError ByteArray × Reader β :=
  if r.cursor < r.buffer.size then (r.handOut capacity).map .ok id
  else
    match r.refill with
    | (.error e, r) => (.error e, r)
    | (.ok (), r) => (r.handOut capacity).map .ok id

/-- Reads one after another, each with a buffer of its own size; stops at the first failure. -/
def reads (r : Reader β) : List Nat → Except IoError (List ByteArray) × Reader β
  | [] => (.ok [], r)
  | capacity :: rest =>
    match r.read capacity with
    | (.error e, r) => (.error e, r)
    | (.ok bytes, r) => (r.reads rest).map (fun out => out.map (bytes :: ·)) id

/-- Reads until no bytes come, at most `fuel` times, and puts them behind those read before. -/
def readRest (r : Reader β) (sofar : ByteArray) : Nat → Except IoError ByteArray
  | 0 => .ok sofar
  | fuel + 1 =>
    match r.read chunkSize with
    | (.error e, _) => .error e
    | (.ok bytes, r) => if bytes.size = 0 then .ok sofar else r.readRest (sofar ++ bytes) fuel

end Reader

/-- All bytes of a store, read as a stream. Every read but the last gives at least one byte. -/
def readAll {β : Type} [Storage β] (store : β) : Except IoError ByteArray :=
  ({ store } : Reader β).readRest .empty (Storage.size store + 1)

end Replica
