import Replica.Text.Blank

/-!
# How attachment content is coded

Content is stored as it is or compressed. A peer names the coding; blanks around the name and the
case of its letters do not count, and an empty name means that the content is stored as it is.
-/
namespace Replica

inductive Encoding where
  | identity
  | gzip
  deriving DecidableEq, Repr

namespace Encoding

def name : Encoding → String
  | .identity => "identity"
  | .gzip => "gzip"

/-- Do the stored bytes differ from the decoded content? -/
def isContentCoded : Encoding → Bool
  | .identity => false
  | .gzip => true

def ofExactName? : String → Option Encoding
  | "identity" => some .identity
  | "gzip" => some .gzip
  | _ => none

def lowered (s : String) : String := String.ofList (s.toList.map Char.toLower)

/-- The coding of a name without blanks around it. -/
def ofTrimmedName? (name : String) : Option Encoding :=
  if name = "" then some .identity else ofExactName? (lowered name)

end Encoding

end Replica
