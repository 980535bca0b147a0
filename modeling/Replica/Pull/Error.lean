import Replica.DocumentError

/-!
# Failures of a pull

What can end the processing of a document. A failure is retryable when fetching the same attachment
again may succeed: the source says so, or the stream or the temporary storage failed.
-/
namespace Replica

/-- Why a document was abandoned. -/
inductive PullError where
  | document (e : DocumentError)
  | source (reason : String) (retryable : Bool)
  | store (reason : String)
  | cancelled
  deriving DecidableEq

namespace PullError

def message : PullError → String
  | .document e => "core error: " ++ e.message
  | .source reason _ => "attachment source error: " ++ reason
  | .store reason => "store error: " ++ reason
  | .cancelled => "pull cancelled"

/-- May fetching the attachment again succeed? -/
def isRetryable : PullError → Bool
  | .document e => e.isTransient
  | .source _ retryable => retryable
  | .store _ => false
  | .cancelled => false

/-- Does a stream that could not be opened for this reason stay closed? -/
def isFinal : IoErrorKind → Bool
  | .notFound | .permissionDenied | .invalidInput | .invalidData => true
  | _ => false

/-- The failure of a stream that could not be opened. -/
def ofOpening (e : IoError) : PullError := .source e.message (!isFinal e.kind)

def brokenWorker : PullError := .source "attachment worker panicked" false

end PullError

end Replica
