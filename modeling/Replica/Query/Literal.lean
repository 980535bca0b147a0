import Replica.Query.IndexValue

/-!
# What may be written into query text

Two kinds of text from outside get into a query: literals and table names. A literal is an integer,
or a text between single quotes in which every single quote is written twice; a text with a NUL has
no literal, because some engines end a statement there. A table name is a bare identifier.
-/
namespace Replica

inductive Literal where
  | integer (value : Int64)
  | text (value : String) (noNul : '\x00' ∉ value.toList)
  deriving DecidableEq

namespace Literal

def quoted (s : String) : Except QueryError Literal :=
  if h : '\x00' ∈ s.toList then
    .error (.invalidCriterion "text values must not contain NUL characters")
  else .ok (.text s h)

/-- The characters with every single quote written twice. -/
def doubleQuotes : List Char → List Char
  | [] => []
  | '\'' :: rest => '\'' :: '\'' :: doubleQuotes rest
  | c :: rest => c :: doubleQuotes rest

def toChars : Literal → List Char
  | .integer i => IndexValue.integerChars i
  | .text s _ => '\'' :: doubleQuotes s.toList ++ ['\'']

def render (l : Literal) : String := String.ofList l.toChars

end Literal

/-- May an identifier begin with the character? -/
def isIdentifierStart (c : Char) : Bool := c.isAlpha || c == '_'

/-- May an identifier hold the character behind its first? -/
def isIdentifierPart (c : Char) : Bool := c.isAlphanum || c == '_'

/-- Is the text a bare identifier: ASCII letters, digits and underscores, and no digit in front? -/
def isIdentifier : List Char → Bool
  | [] => false
  | c :: rest => isIdentifierStart c && rest.all isIdentifierPart

structure TableName where
  text : String
  isIdentifier : isIdentifier text.toList = true
  deriving DecidableEq

/-- The table of that name, if the name is a bare identifier. -/
def TableName.parse (name : String) : Except QueryError TableName :=
  if h : Replica.isIdentifier name.toList = true then .ok ⟨name, h⟩
  else .error (.invalidInput (Text.quote name ++ " is not a valid table name"))

end Replica
