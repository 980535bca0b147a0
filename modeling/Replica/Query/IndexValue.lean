import Replica.Json.Decode
import Replica.Query.Error
import Replica.Text.Quoted

/-!
# Values in criteria

A criterion compares an index with booleans, signed 64-bit integers or texts. In JSON they are the
values of those types; nothing else is accepted.
-/
namespace Replica

/-- A value that a criterion compares with. -/
inductive IndexValue where
  | bool (value : Bool)
  | integer (value : Int64)
  | text (value : String)
  deriving DecidableEq

namespace IndexValue

def kind : IndexValue → String
  | .bool _ => "bool"
  | .integer _ => "integer"
  | .text _ => "text"

def integerChars (i : Int64) : List Char :=
  if i.toInt < 0 then '-' :: Nat.toDigits 10 i.toInt.natAbs else Nat.toDigits 10 i.toInt.natAbs

def boolName : Bool → String
  | true => "true"
  | false => "false"

/-- The value as messages show it. -/
def display : IndexValue → String
  | .bool b => boolName b
  | .integer i => String.ofList (integerChars i)
  | .text s => Text.quote s

def displayWithKind (v : IndexValue) : String := v.display ++ " (" ++ v.kind ++ ")"

def toJson : IndexValue → Json.Value
  | .bool b => .bool b
  | .integer i => .signed i
  | .text s => .text s

/-- The value of JSON of one of the three types. -/
def ofJson? : Json.Value → Option IndexValue
  | .bool b => some (.bool b)
  | .number n => n.signed?.map .integer
  | .text s => some (.text s)
  | _ => none

/-- The value of JSON, or why it has none. -/
def ofJson (v : Json.Value) : Except QueryError IndexValue :=
  match ofJson? v with
  | some value => .ok value
  | none =>
    match v with
    | .number _ => .error (.invalidCriterion (v.render ++ " is not a 64-bit integer"))
    | _ => .error (.invalidCriterion (v.render ++ " cannot be used as an index value"))

def decoder : Json.Decoder IndexValue := fun depth t => do
  let v ← Json.Decoder.value depth t
  Json.Decoder.require (ofJson? v)

end IndexValue

end Replica
