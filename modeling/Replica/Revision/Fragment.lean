import Replica.Attachment.Reference
import Replica.Revision.Id

/-!
# Runs of revision history

A fragment is a run of one document's history: hashes from the leaf back to an older revision, each
one generation below the one before it. That the run does not reach below generation one, and that
no hash is empty, belongs to the type, so every revision of a fragment has a valid id and no
generation has to be checked again.
-/
namespace Replica

/-- A contiguous run of one document's revisions, with the content of its leaf. -/
structure Fragment where
  document : String
  /-- The generation of the leaf. -/
  start : Nat
  /-- The hashes, leaf first. -/
  ids : List String
  deleted : Bool := false
  attachments : Keyed Reference := .empty
  body : Json.Record := .empty
  document_ne : document ≠ ""
  ids_ne : ids ≠ []
  id_ne : ∀ id ∈ ids, id ≠ ""
  length_le : ids.length ≤ start
  start_lt : start < UInt64.size
  deriving DecidableEq

namespace Fragment

/-- The fragment of a document whose leaf has generation `start`. -/
def new (document : String) (start : UInt64) (ids : List String) :
    Except DocumentError Fragment :=
  if hd : document = "" then .error (.invalidInput "fragment has an empty document id")
  else if hi : ids = [] then
    .error (.invalidInput
      ("fragment for " ++ Text.quote document ++ " carries no revision ids"))
  else if he : "" ∈ ids then
    .error (.invalidInput
      ("fragment for " ++ Text.quote document ++ " contains an empty revision id"))
  else if hl : start.toNat < ids.length then
    .error (.invalidInput
      ("fragment for " ++ Text.quote document ++ s!" has start {start} but {ids.length} ids"))
  else
    .ok {
      document, start := start.toNat, ids
      document_ne := hd
      ids_ne := hi
      id_ne := fun _ hm h => he (h ▸ hm)
      length_le := Nat.le_of_not_lt hl
      start_lt := start.toNat_lt }

def withDeleted (f : Fragment) (deleted : Bool) : Fragment := { f with deleted }

def withBody (f : Fragment) (body : Json.Record) : Fragment := { f with body }

/-- The fragment with one more attachment of its leaf. -/
def withAttachment (f : Fragment) (name : String) (reference : Reference) : Fragment :=
  { f with attachments := f.attachments.insert name reference }

/-- The generation of the oldest revision. -/
def minGeneration (f : Fragment) : Nat := f.start - f.ids.length + 1

theorem ids_length_pos (f : Fragment) : 0 < f.ids.length := List.length_pos_iff.mpr f.ids_ne

/-- The revisions, leaf first: the generations fall by one from hash to hash. -/
def revisions (f : Fragment) : List RevisionId :=
  f.ids.mapIdx fun i id => ⟨f.start - i, id⟩

def leaf (f : Fragment) : RevisionId := ⟨f.start, f.ids.head f.ids_ne⟩

def oldest (f : Fragment) : RevisionId :=
  ⟨f.start - (f.ids.length - 1), f.ids.getLast f.ids_ne⟩

/-- The attachments of the leaf whose content has to be fetched, in the order of their names. -/
def pending (f : Fragment) : List (String × Reference) :=
  f.attachments.entries.filter fun (_, r) => r.needsDownload

end Fragment

end Replica
