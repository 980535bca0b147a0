import Replica.DocumentError
import Replica.Numeral

/-!
# Revision ids

A revision is named by its generation, which counts from one, and a hash. The text of an id is the
generation, a dash and the hash; the hash may hold further dashes. Ids are ordered by generation,
and within a generation by hash.
-/
namespace Replica

/-- The name of a revision. Nothing is checked here: `RevisionId.new` checks, and so does reading.
-/
structure RevisionId where
  generation : Nat
  hash : String
  deriving DecidableEq

namespace RevisionId

/-- The checked id of a generation and a hash. -/
def new (generation : UInt64) (hash : String) : Except DocumentError RevisionId :=
  if generation = 0 then
    .error (.invalidInput
      ("revision " ++ Text.quote hash ++ " has generation 0; generations start at 1"))
  else if hash = "" then
    .error (.invalidInput s!"revision at generation {generation} has an empty hash")
  else .ok ⟨generation.toNat, hash⟩

def toChars (r : RevisionId) : List Char :=
  Nat.toDigits 10 r.generation ++ '-' :: r.hash.toList

def text (r : RevisionId) : String := String.ofList r.toChars

/-- The text of an id as it is shown to a developer. -/
def describe (r : RevisionId) : String := "RevisionId(" ++ r.text ++ ")"

/-- The characters before the first dash and those behind it, if there is a dash. -/
def splitAtDash : List Char → Option (List Char × List Char)
  | [] => none
  | '-' :: rest => some ([], rest)
  | c :: rest => (splitAtDash rest).map fun (before, behind) => (c :: before, behind)

def parse (s : String) : Except DocumentError RevisionId :=
  match splitAtDash s.toList with
  | none => .error (.invalidInput ("malformed revision id " ++ Text.quote s))
  | some (generation, hash) =>
    match Numeral.naturalChars? Numeral.maxWord generation with
    | none => .error (.invalidInput ("malformed generation in revision id " ++ Text.quote s))
    | some n => new (UInt64.ofNat n) (String.ofList hash)

/-- The order of ids: by generation, then by hash. -/
def before (a b : RevisionId) : Bool :=
  a.generation < b.generation || (a.generation == b.generation && a.hash < b.hash)

/-- Drops an id that equals the one before it. -/
def dropRepeated : List RevisionId → List RevisionId
  | a :: b :: rest => if a = b then dropRepeated (b :: rest) else a :: dropRepeated (b :: rest)
  | ids => ids

/-- The different ids among some, in order. -/
def sorted (ids : List RevisionId) : List RevisionId :=
  dropRepeated (ids.mergeSort fun a b => !before b a)

def decoder : Json.Decoder RevisionId := fun depth t => do
  let s ← Json.Decoder.text depth t
  (parse s).mapError fun e => Json.Fault.refused e.message

end RevisionId

end Replica
