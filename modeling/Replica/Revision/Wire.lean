import Replica.Revision.Fragment

/-!
# The wire form of a fragment

On the wire a fragment is the JSON document of its leaf, with the history and the attachments under
reserved names. Members under any other name form the body. The leaf's id is written as well; when
it is read it may be missing, but must not disagree with the history. The members are written in a
fixed order, the body last and by rising names.
-/
namespace Replica.Fragment

/-- The names that do not belong to the body. -/
def reservedNames : List String := ["_id", "_rev", "_deleted", "_revisions", "_attachments"]

def toJson (f : Fragment) : Json.Value :=
  .object (
    [("_id", .text f.document), ("_rev", .text f.leaf.text)] ++
      (if f.deleted then [("_deleted", .bool true)] else []) ++
      [("_revisions", .object [
        ("start", .word (UInt64.ofNat f.start)), ("ids", .array (f.ids.map .text))])] ++
      (if f.attachments.isEmpty then []
        else [("_attachments", .object (f.attachments.entries.map fun (n, r) => (n, r.toJson)))]) ++
      f.body.members)

def render (f : Fragment) : String := f.toJson.render

structure History where
  start : Option UInt64 := none
  ids : Option (List String) := none

open Json.Decoder in
/-- The fields of a history, both required. -/
def historyFields : List (Member History) := [
  field "start" false word (·.start) fun d v => { d with start := some v },
  field "ids" false (list text) (·.ids) fun d v => { d with ids := some v }]

/-- Reads a history: the leaf's generation and the hashes. -/
def historyDecoder : Json.Decoder (UInt64 × List String) := fun depth t => do
  let d ← Json.Decoder.record historyFields Json.Decoder.ignore {} depth t
  let start ← Json.Decoder.present "start" d.start
  let ids ← Json.Decoder.present "ids" d.ids
  return (start, ids)

structure Draft where
  id : Option String := none
  rev : Option (Option String) := none
  deleted : Option Bool := none
  history : Option (UInt64 × List String) := none
  attachments : Option (Keyed Reference) := none
  body : Json.Record := .empty

open Json.Decoder in
def fields : List (Member Draft) := [
  field "_id" false text (·.id) fun d v => { d with id := some v },
  field "_rev" true (optional text) (·.rev) fun d v => { d with rev := some v },
  field "_deleted" true bool (·.deleted) fun d v => { d with deleted := some v },
  field "_revisions" false historyDecoder (·.history) fun d v => { d with history := some v },
  field "_attachments" true (map Reference.decoder) (·.attachments)
    fun d v => { d with attachments := some v }]

/-- Takes a member into the body. -/
def keep (name : String) (depth : Nat) (t : Json.Tree) (d : Draft) : Except Json.Fault Draft :=
  match h : t.value? depth with
  | some v => .ok { d with body := d.body.insert name v (Json.Tree.ordered_of_value? h) }
  | none => .error .malformed

/-- The fragment of a document whose members have been read: its history has to be valid, and the
leaf's id, where it is given, has to be the one that the history says. -/
def assemble (id : String) (rev : Option String) (deleted : Bool) (start : UInt64)
    (ids : List String) (attachments : Keyed Reference) (body : Json.Record) :
    Except DocumentError Fragment := do
  let f ← new id start ids
  match rev with
  | none => pure ()
  | some rev =>
    let declared ← RevisionId.parse rev
    if declared ≠ f.leaf then
      throw (.invalidInput
        ("_rev " ++ declared.text ++ " disagrees with _revisions leaf " ++ f.leaf.text))
  return { f with deleted, attachments, body }

def decoder : Json.Decoder Fragment := fun depth t => do
  let d ← Json.Decoder.recordObject fields keep {} depth t
  let id ← Json.Decoder.present "_id" d.id
  let (start, ids) ← Json.Decoder.present "_revisions" d.history
  let fragment := assemble id d.rev.join (d.deleted.getD false) start ids
    (d.attachments.getD .empty) d.body
  fragment.mapError fun e => .refused e.message

/-- Reads a fragment from its text on the wire. -/
def parse (text : String) : Except DocumentError Fragment :=
  (Json.decode decoder text).mapError .json

end Replica.Fragment
