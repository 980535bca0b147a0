import Replica.Query.IndexValue

/-!
# Criteria

A criterion restricts the value of one index: it equals a value, is a member of a set, or lies
strictly between two bounds, of which one may be missing. In JSON a criterion is an object with its
kind as the only name.
-/
namespace Replica

/-- A restriction on the value of an index. -/
inductive Criterion where
  | equality (value : IndexValue)
  | membership (values : List IndexValue)
  /-- Both bounds are exclusive. -/
  | range (min max : Option IndexValue)
  deriving DecidableEq

/-- What becomes of the members of a set that an index type does not support. -/
inductive MembershipPolicy where
  /-- One such member fails the criterion. -/
  | strict
  /-- Such members are dropped. -/
  | permissive
  deriving DecidableEq

namespace MembershipPolicy

def name : MembershipPolicy → String
  | .strict => "strict"
  | .permissive => "permissive"

def ofName? : String → Option MembershipPolicy
  | "strict" => some .strict
  | "permissive" => some .permissive
  | _ => none

def decoder : Json.Decoder MembershipPolicy := Json.Decoder.choice ofName?

/-- The policy of a JSON value: its name, or an object with that name alone and a null. -/
def ofJson : Json.Value → Except Json.Fault MembershipPolicy
  | .text name => named name
  | .object [(name, v)] => do
    let policy ← named name
    if v = .null then return policy else throw .malformed
  | _ => .error .malformed
where
  named (name : String) : Except Json.Fault MembershipPolicy :=
    match ofName? name with
    | some policy => .ok policy
    | none => .error (.unknownVariant name)

end MembershipPolicy

namespace Criterion

def kind : Criterion → String
  | .equality _ => "equality"
  | .membership _ => "membership"
  | .range _ _ => "range"

def kinds : List String := ["equality", "membership", "range"]

def boundJson (bound : Option IndexValue) : Json.Value := (bound.map IndexValue.toJson).getD .null

def toJson : Criterion → Json.Value
  | .equality v => .object [("equality", v.toJson)]
  | .membership vs => .object [("membership", .array (vs.map IndexValue.toJson))]
  | .range min max => .object [("range", .object [("min", boundJson min), ("max", boundJson max)])]

structure Bounds where
  min : Option (Option IndexValue) := none
  max : Option (Option IndexValue) := none

open Json.Decoder in
/-- The bounds of a range. Either may be missing from an object, neither from an array. -/
def boundFields : List (Member Bounds) := [
  field "min" false (optional IndexValue.decoder) (·.min) fun d v => { d with min := some v },
  field "max" false (optional IndexValue.decoder) (·.max) fun d v => { d with max := some v }]

def rangeDecoder : Json.Decoder Criterion := fun depth t => do
  let d ← Json.Decoder.record boundFields Json.Decoder.ignore {} depth t
  return .range d.min.join d.max.join

/-- Reads what stands behind the name of a kind. -/
def contentDecoder (kind : String) : Json.Decoder Criterion := fun depth t =>
  match kind with
  | "equality" => (IndexValue.decoder depth t).map .equality
  | "membership" => (Json.Decoder.list IndexValue.decoder depth t).map .membership
  | "range" => rangeDecoder depth t
  | _ => .error (.unknownVariant kind)

def decoder : Json.Decoder Criterion
  | _, .text (some name) =>
    if name ∈ kinds then .error .malformed else .error (.unknownVariant name)
  | depth + 1, .object ((name, t) :: rest) closed => do
    let name ← Json.Decoder.require name
    let c ← contentDecoder name depth t
    if rest.isEmpty && closed then return c else throw .malformed
  | _, _ => .error .malformed

def boundOfJson : Option Json.Value → Except Json.Fault (Option IndexValue)
  | none => .ok none
  | some .null => .ok none
  | some v => (Json.Decoder.require (IndexValue.ofJson? v)).map some

/-- The criterion of a JSON value that has already been read as a whole: exactly one name, and an
object behind the name of a range. -/
def ofJson : Json.Value → Except Json.Fault Criterion
  | .text name => if name ∈ kinds then .error .malformed else .error (.unknownVariant name)
  | .object [(name, v)] =>
    match name, v with
    | "equality", v => (Json.Decoder.require (IndexValue.ofJson? v)).map .equality
    | "membership", .array vs =>
      (Json.Decoder.require (vs.mapM IndexValue.ofJson?)).map .membership
    | "range", .object ms => do
      let max ← boundOfJson (Entries.get? "max" ms)
      let min ← boundOfJson (Entries.get? "min" ms)
      return .range min max
    | name, _ => if name ∈ kinds then .error .malformed else .error (.unknownVariant name)
  | _ => .error .malformed

end Criterion

end Replica
