import Replica.Storage.Error

/-!
# Byte stores

A byte store is appended to, and read at any place below its size. Reading may change the store,
because a file has a cursor; what can be read must not depend on it. An operation that fails also
gives back the store as the failure left it. Only the size can always be told: either kind of store
keeps count of its bytes itself and asks nobody. A store that could fail to tell its size is not
spoken of, nor is what a reader or a commit would make of that failure.
-/
namespace Replica

/-- The operations of a byte store. -/
class Storage (β : Type) where
  /-- The number of bytes appended so far. -/
  size : β → Nat
  /-- The bytes from an offset on, of a given length. -/
  readAt : β → Nat → Nat → Except StorageError ByteArray × β
  /-- Puts bytes at the end and says where they begin. -/
  append : β → ByteArray → Except StorageError Nat × β
  /-- Completes pending writes. -/
  flush : β → Except StorageError Unit × β

/-- How many bytes are copied out of a store at a time. -/
def chunkSize : Nat := 64 * 1024

structure Memory where
  bytes : ByteArray := .empty

namespace Memory

instance : DecidableEq Memory := fun a b =>
  if h : a.bytes.data = b.bytes.data then
    .isTrue (congrArg Memory.mk (ByteArray.ext h))
  else .isFalse fun hab => h (hab ▸ rfl)

/-- Drops everything behind a length; nothing if the store is shorter. -/
def truncate (m : Memory) (length : Nat) : Memory := ⟨m.bytes.extract 0 length⟩

/-- The bytes of a range, which must lie within the store. -/
def slice (m : Memory) (offset length : Nat) : Except StorageError ByteArray :=
  if m.bytes.size < offset + length then .error (.readPastEnd offset length m.bytes.size)
  else .ok (m.bytes.extract offset (offset + length))

instance : Storage Memory where
  size m := m.bytes.size
  readAt m offset length := (m.slice offset length, m)
  append m data := (.ok m.bytes.size, ⟨m.bytes ++ data⟩)
  flush m := (.ok (), m)

end Memory

end Replica
