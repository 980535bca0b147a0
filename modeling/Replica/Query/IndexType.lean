import Replica.Keyed
import Replica.Numeral
import Replica.Query.Literal

/-!
# Index types

The type of an index decides which values it supports, converts them to the form in which it stores
them, and writes that form as a literal. Two types are built in: integers, which also take booleans
and numerals, and texts, which take everything but a text with a NUL. A registry finds types by
name.
-/
namespace Replica

/-- A type of index. -/
structure IndexType where
  name : String
  columnType : String
  /-- Does the type take the value? -/
  supports : IndexValue → Bool
  /-- The value in the form in which the index stores it. -/
  convert : IndexValue → Except QueryError IndexValue
  /-- The literal of a stored form. -/
  escape : IndexValue → Except QueryError Literal

namespace IndexType

def convertAndEscape (t : IndexType) (v : IndexValue) :
    Except QueryError (IndexValue × Literal) := do
  let stored ← t.convert v
  let literal ← t.escape stored
  return (stored, literal)

/-- The refusal of a value that a type does not support. -/
def notSupported {α : Type} (name : String) (v : IndexValue) : Except QueryError α :=
  .error (.invalidCriterion (v.displayWithKind ++ " is not supported by index type " ++ name))

/-- The refusal to write a value that is not in stored form. -/
def notCanonical {α : Type} (name : String) (v : IndexValue) : Except QueryError α :=
  .error (.invalidCriterion
    ("index type " ++ name ++ " cannot escape non-canonical value " ++ v.display))

/-- The integer that a value stands for: itself, one or zero, or what its numeral says. -/
def integerOf? : IndexValue → Option Int64
  | .integer i => some i
  | .bool b => some (if b then 1 else 0)
  | .text s => Numeral.integer? s

def integer : IndexType where
  name := "integer"
  columnType := "INTEGER"
  supports v := (integerOf? v).isSome
  convert v :=
    match integerOf? v with
    | some i => .ok (.integer i)
    | none => notSupported "integer" v
  escape
    | .integer i => .ok (.integer i)
    | v => notCanonical "integer" v

/-- The text that a value stands for: itself, its numeral, or its name. -/
def textOf? : IndexValue → Option String
  | .text s => if '\x00' ∈ s.toList then none else some s
  | .integer i => some (String.ofList (IndexValue.integerChars i))
  | .bool b => some (IndexValue.boolName b)

def string : IndexType where
  name := "string"
  columnType := "TEXT"
  supports v := (textOf? v).isSome
  convert v :=
    match textOf? v with
    | some s => .ok (.text s)
    | none => notSupported "string" v
  escape
    | .text s => Literal.quoted s
    | v => notCanonical "string" v

end IndexType

/-- Index types by name. -/
structure Registry where
  types : Keyed IndexType

namespace Registry

def empty : Registry := ⟨.empty⟩

/-- Adds a type under its name; a type of that name is replaced. -/
def register (r : Registry) (t : IndexType) : Registry := ⟨r.types.insert t.name t⟩

def builtIn : Registry := (empty.register .integer).register .string

def get (r : Registry) (name : String) : Except QueryError IndexType :=
  match r.types.get? name with
  | some t => .ok t
  | none => .error (.unknownIndexType name)

end Registry

end Replica
