/-!
# Failures of input, output and storage

An `IoError` is what the system or a stream reports: a kind, by which callers decide, and a text for
people. A `StorageError` adds what a byte store itself can refuse.
-/
namespace Replica

inductive IoErrorKind where
  | notFound
  | permissionDenied
  | connectionRefused
  | connectionReset
  | hostUnreachable
  | networkUnreachable
  | connectionAborted
  | notConnected
  | addrInUse
  | addrNotAvailable
  | networkDown
  | brokenPipe
  | alreadyExists
  | wouldBlock
  | notADirectory
  | isADirectory
  | directoryNotEmpty
  | readOnlyFilesystem
  | staleNetworkFileHandle
  | invalidInput
  | invalidData
  | timedOut
  | writeZero
  | storageFull
  | notSeekable
  | quotaExceeded
  | fileTooLarge
  | resourceBusy
  | executableFileBusy
  | deadlock
  | crossesDevices
  | tooManyLinks
  | invalidFilename
  | argumentListTooLong
  | interrupted
  | unsupported
  | unexpectedEof
  | outOfMemory
  | other
  deriving DecidableEq, Repr

structure IoError where
  kind : IoErrorKind
  message : String
  deriving DecidableEq, Repr

/-- Why a byte store could not do what it was asked. -/
inductive StorageError where
  | io (source : IoError)
  | readPastEnd (offset length size : Nat)
  | tempAllocation (directory : String) (source : IoError)
  deriving DecidableEq, Repr

namespace StorageError

def message : StorageError → String
  | .io source => "I/O error: " ++ source.message
  | .readPastEnd offset length size =>
    s!"read beyond end of storage: offset {offset}, len {length}, size {size}"
  | .tempAllocation directory source =>
    "cannot allocate temporary storage in " ++ directory ++ ": " ++ source.message

/-- The failure as a stream over the store reports it: failures of the system stay what they are,
and a read past the end is an unexpected end of file. -/
def toIo : StorageError → IoError
  | .io source => source
  | .tempAllocation _ source => source
  | e => ⟨.unexpectedEof, e.message⟩

end StorageError

end Replica
