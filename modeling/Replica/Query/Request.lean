import Replica.Query.Plan

/-!
# Criteria as they are asked for

Outside a catalog a criterion names its table and its index type and gives its values under `eq`,
under `in`, or under `min` and `max`; only one of the three ways may be used. Names other than these
are refused. A request that gives no value at all is a range without bounds, which a plan refuses.
-/
namespace Replica

/-- A criterion with its table and index type. -/
structure CriterionRequest where
  table : String
  typeName : String
  equalTo : Option Json.Value := none
  among : Option (List Json.Value) := none
  min : Option Json.Value := none
  max : Option Json.Value := none
  deriving DecidableEq

namespace CriterionRequest

structure Draft where
  table : Option String := none
  typeName : Option String := none
  equalTo : Option (Option Json.Value) := none
  among : Option (Option (List Json.Value)) := none
  min : Option (Option Json.Value) := none
  max : Option (Option Json.Value) := none

open Json.Decoder in
/-- The fields of a request; table and type are required. -/
def fields : List (Member Draft) := [
  field "table" false text (·.table) fun d v => { d with table := some v },
  field "type" false text (·.typeName) fun d v => { d with typeName := some v },
  field "eq" true (optional value) (·.equalTo) fun d v => { d with equalTo := some v },
  field "in" true (optional (list value)) (·.among) fun d v => { d with among := some v },
  field "min" true (optional value) (·.min) fun d v => { d with min := some v },
  field "max" true (optional value) (·.max) fun d v => { d with max := some v }]

def decoder : Json.Decoder CriterionRequest := fun depth t => do
  let d ← Json.Decoder.record fields Json.Decoder.refuse {} depth t
  return {
    table := ← Json.Decoder.present "table" d.table
    typeName := ← Json.Decoder.present "type" d.typeName
    equalTo := d.equalTo.join
    among := d.among.join
    min := d.min.join
    max := d.max.join }

def parseList (text : String) : Except Json.Fault (List CriterionRequest) :=
  Json.decode (Json.Decoder.list decoder) text

def values : List Json.Value → Except QueryError (List IndexValue)
  | [] => .ok []
  | v :: rest => do
    let value ← IndexValue.ofJson v
    let others ← values rest
    return value :: others

/-- The value of a bound that may be missing. -/
def bound : Option Json.Value → Except QueryError (Option IndexValue)
  | none => .ok none
  | some v => (IndexValue.ofJson v).map some

/-- The criterion that is asked for. -/
def criterion (r : CriterionRequest) : Except QueryError Criterion :=
  match r.equalTo, r.among, r.min.isSome || r.max.isSome with
  | some v, none, false => (IndexValue.ofJson v).map .equality
  | none, some vs, false => (values vs).map .membership
  | none, none, _ => do
    let min ← bound r.min
    let max ← bound r.max
    return .range min max
  | _, _, _ =>
    .error (.invalidInput
      ("criterion on " ++ r.table ++ " must use exactly one of eq, in, or min/max"))

/-- Adds the criteria that are asked for to a plan, in order. -/
def extend (p : Plan) : List CriterionRequest → Except QueryError Plan
  | [] => .ok p
  | r :: rest => do
    let t ← Registry.builtIn.get r.typeName
    let c ← r.criterion
    let p ← p.add r.table c t
    extend p rest

/-- The plan of some requests over the built-in index types. -/
def plan (policy : MembershipPolicy) (requests : List CriterionRequest) : Except QueryError Plan :=
  extend { policy } requests

end CriterionRequest

end Replica
