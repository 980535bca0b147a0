import Replica.Attachment.Encoding
import Replica.Json.Decode
import Replica.Storage.Error
import Replica.Text.Quoted

/-!
# Failures of revisions and attachments

What can be wrong with the data of a document or with the handling of its attachments. A failure is
transient when trying again may help: the stream or the storage failed, not the data.
-/
namespace Replica

/-- Why revisions or an attachment were refused. -/
inductive DocumentError where
  | invalidInput (reason : String)
  | invalidEncoding (name : String)
  | attachmentIo (source : IoError)
  | lengthMismatch (expected actual : Nat) (encoding : Encoding)
  | storage (source : StorageError)
  | json (fault : Json.Fault)
  deriving DecidableEq

namespace DocumentError

def message : DocumentError → String
  | .invalidInput reason => "invalid input: " ++ reason
  | .invalidEncoding name => "unsupported attachment encoding: " ++ Text.quote name
  | .attachmentIo source => "attachment I/O failure: " ++ source.message
  | .lengthMismatch expected actual encoding =>
    s!"attachment length mismatch ({encoding.name}): declared {expected} bytes, stored {actual}"
  | .storage source => "storage error: " ++ source.message
  | .json fault => "malformed document revisions: " ++ fault.message

/-- May trying again help? -/
def isTransient : DocumentError → Bool
  | .attachmentIo _ => true
  | .storage _ => true
  | _ => false

end DocumentError

namespace Encoding

/-- The coding that a peer names, if it is known. -/
def ofName (name : Option String) : Except DocumentError Encoding :=
  let name := Text.trim (name.getD "")
  match ofTrimmedName? name with
  | some encoding => .ok encoding
  | none => .error (.invalidEncoding name)

def decoder : Json.Decoder Encoding := Json.Decoder.choice ofExactName?

end Encoding

end Replica
