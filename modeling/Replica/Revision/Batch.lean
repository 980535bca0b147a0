import Replica.Revision.Fragment

/-!
# Batches of fragments in insertion order

The fragments received for one document are put in the order of their oldest generations; fragments
of equal oldest generation keep the order in which they came. A parent is one generation below its
child, so this order inserts every ancestor before its descendants, whatever branches and separate
trees the document has.
-/
namespace Replica

/-- The fragments of one document, in insertion order. -/
structure Batch where
  document : String
  fragments : List Fragment
  deriving DecidableEq

namespace Batch

def sorted (fragments : List Fragment) : List Fragment :=
  fragments.mergeSort fun a b => a.minGeneration ≤ b.minGeneration

/-- The batch of some fragments, which must be of one document. -/
def new (fragments : List Fragment) : Except DocumentError Batch :=
  match fragments with
  | [] => .error (.invalidInput "revision batch is empty")
  | first :: rest =>
    match rest.find? (·.document ≠ first.document) with
    | some stray =>
      .error (.invalidInput
        ("revision batch mixes documents " ++ Text.quote first.document ++ " and " ++
          Text.quote stray.document))
    | none => .ok ⟨first.document, sorted (first :: rest)⟩

end Batch

end Replica
