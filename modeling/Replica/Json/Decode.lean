import Replica.Json.Tree

/-!
# Reading typed data from JSON

A reader walks a tree in the order of the text and stops at the first fault. The fields of a record
may come in any order, each at most once; fields that are missing are noticed when the record ends,
in the order of their declaration. A record may also be written as an array of its fields in that
order, and then trailing fields with a default may be left out.
-/
namespace Replica.Json

inductive Fault where
  /-- Bad syntax, a value of the wrong type or out of range, or a wrong number of elements. -/
  | malformed
  | missingField (name : String)
  | duplicateField (name : String)
  | unknownField (name : String)
  | unknownVariant (name : String)
  /-- The data was read but violates a rule of its own. -/
  | refused (reason : String)
  deriving DecidableEq

namespace Fault

/-- The fault in words, where it is one of meaning. -/
def message? : Fault → Option String
  | .malformed => none
  | .missingField name => some ("missing field \x60" ++ name ++ "\x60")
  | .duplicateField name => some ("duplicate field \x60" ++ name ++ "\x60")
  | .unknownField name => some ("unknown field \x60" ++ name ++ "\x60")
  | .unknownVariant name => some ("unknown variant \x60" ++ name ++ "\x60")
  | .refused reason => some reason

def message (f : Fault) : String := f.message?.getD "not the expected JSON"

end Fault

/-- A reader of one type of data: given how many containers may still lie within each other. -/
abbrev Decoder (α : Type) := Nat → Tree → Except Fault α

namespace Decoder

/-- What is there, or else a malformed text. -/
def require {α : Type} : Option α → Except Fault α
  | some a => .ok a
  | none => .error .malformed

def text : Decoder String
  | _, .text (some s) => .ok s
  | _, _ => .error .malformed

def bool : Decoder Bool
  | _, .bool b => .ok b
  | _, _ => .error .malformed

def word : Decoder UInt64
  | _, .number (some n) => require n.word?
  | _, _ => .error .malformed

def value : Decoder Value := fun depth t => require (t.value? depth)

/-- Null for nothing, or the data. -/
def optional {α : Type} (read : Decoder α) : Decoder (Option α)
  | _, .null => .ok none
  | depth, t => (read depth t).map some

/-- Anything that is whole. -/
def skip : Decoder Unit := fun _ t => if t.isWhole then .ok () else .error .malformed

/-- Reads the elements of an array. -/
def items {α : Type} (read : Decoder α) (depth : Nat) : List Tree → Except Fault (List α)
  | [] => .ok []
  | t :: rest => do
    let a ← read depth t
    let as ← items read depth rest
    return a :: as

def list {α : Type} (read : Decoder α) : Decoder (List α)
  | depth + 1, .array ts closed => do
    let as ← items read depth ts
    if closed then return as else throw .malformed
  | _, _ => .error .malformed

/-- Reads the members of an object into a map; of members of one name the last one counts. -/
def mapMembers {α : Type} (read : Decoder α) (depth : Nat) (sofar : Keyed α) :
    List (Option String × Tree) → Except Fault (Keyed α)
  | [] => .ok sofar
  | (name, t) :: rest => do
    let name ← require name
    let a ← read depth t
    mapMembers read depth (sofar.insert name a) rest

/-- An object of data of one type under arbitrary names. -/
def map {α : Type} (read : Decoder α) : Decoder (Keyed α)
  | depth + 1, .object members closed => do
    let m ← mapMembers read depth .empty members
    if closed then return m else throw .malformed
  | _, _ => .error .malformed

/-- A field of a record that is being read into a draft. -/
structure Member (Draft : Type) where
  name : String
  /-- Has the draft already got the field? -/
  isSet : Draft → Bool
  /-- Reads the field into the draft. -/
  read : Nat → Tree → Draft → Except Fault Draft
  /-- May an array that stands for the record end before this field? -/
  hasDefault : Bool

/-- A field of the draft, given how the draft holds it. -/
def field {Draft α : Type} (name : String) (hasDefault : Bool) (read : Decoder α)
    (get : Draft → Option α) (set : Draft → α → Draft) : Member Draft where
  name := name
  isSet draft := (get draft).isSome
  read depth t draft := (read depth t).map (set draft)
  hasDefault := hasDefault

/-- Reads the members of a record. What is no field goes to `other`. -/
def recordMembers {Draft : Type} (fields : List (Member Draft))
    (other : String → Nat → Tree → Draft → Except Fault Draft) (depth : Nat) (draft : Draft) :
    List (Option String × Tree) → Except Fault Draft
  | [] => .ok draft
  | (name, t) :: rest => do
    let name ← require name
    let draft ←
      match fields.find? (·.name == name) with
      | some f => if f.isSet draft then throw (.duplicateField name) else f.read depth t draft
      | none => other name depth t draft
    recordMembers fields other depth draft rest

/-- Reads the elements of an array as the fields of a record. -/
def recordItems {Draft : Type} (depth : Nat) (draft : Draft) (closed : Bool) :
    List (Member Draft) → List Tree → Except Fault Draft
  | [], [] => if closed then .ok draft else .error .malformed
  | [], _ :: _ => .error .malformed
  | f :: fields, [] =>
    if closed && f.hasDefault then recordItems depth draft closed fields [] else .error .malformed
  | f :: fields, t :: rest => do
    let draft ← f.read depth t draft
    recordItems depth draft closed fields rest

def recordObject {Draft : Type} (fields : List (Member Draft))
    (other : String → Nat → Tree → Draft → Except Fault Draft) (draft : Draft) : Decoder Draft
  | depth + 1, .object members closed => do
    let draft ← recordMembers fields other depth draft members
    if closed then return draft else throw .malformed
  | _, _ => .error .malformed

/-- Reads a record written as an object, or as an array of its fields. -/
def record {Draft : Type} (fields : List (Member Draft))
    (other : String → Nat → Tree → Draft → Except Fault Draft) (draft : Draft) : Decoder Draft
  | depth + 1, .array ts closed => recordItems depth draft closed fields ts
  | depth, t => recordObject fields other draft depth t

/-- A member that is no field is skipped. -/
def ignore {Draft : Type} (_name : String) (depth : Nat) (t : Tree) (draft : Draft) :
    Except Fault Draft :=
  (skip depth t).map fun _ => draft

/-- A member that is no field is a fault. -/
def refuse {Draft : Type} (name : String) (_depth : Nat) (_t : Tree) (_draft : Draft) :
    Except Fault Draft :=
  .error (.unknownField name)

def present {α : Type} (name : String) : Option α → Except Fault α
  | some a => .ok a
  | none => .error (.missingField name)

/-- A name out of a fixed choice, as a text or as an object with that name and a null. -/
def choice {α : Type} (named : String → Option α) : Decoder α
  | _, .text (some name) => match named name with
    | some a => .ok a
    | none => .error (.unknownVariant name)
  | _, .object ((name, t) :: rest) closed => do
    let name ← require name
    match named name with
    | none => throw (.unknownVariant name)
    | some a =>
      match t, rest, closed with
      | .null, [], true => return a
      | _, _, _ => throw .malformed
  | _, _ => .error .malformed

end Decoder

/-- Reads a whole text: the data first, and then that nothing follows it. -/
def decode {α : Type} (read : Decoder α) (text : String) : Except Fault α := do
  let document := Document.read text
  let a ← read depthLimit document.root
  if document.complete then return a else throw .malformed

end Replica.Json
