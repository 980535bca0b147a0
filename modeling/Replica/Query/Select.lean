import Replica.Query.IndexType

/-!
# Select statements

A statement asks for the document ids of a first table, joined with further tables on the document
id and filtered by predicates on their values. It is rendered from one template, a sequence of fixed
texts and operands: either every operand becomes its literal, or every operand becomes a placeholder
and its value goes to the list of values to bind. The two renderings differ in nothing else.
-/
namespace Replica

/-- The alias of a table: the place of its criterion. -/
structure Alias where
  index : Nat
  deriving DecidableEq

def Alias.toChars (a : Alias) : List Char := ['i', 'd', 'x'] ++ Nat.toDigits 10 a.index

def Alias.text (a : Alias) : String := String.ofList a.toChars

structure TableRef where
  table : TableName
  row : Alias
  deriving DecidableEq

inductive Comparison where
  | eq
  | lt
  | gt
  deriving DecidableEq

def Comparison.symbol : Comparison → Char
  | .eq => '='
  | .lt => '<'
  | .gt => '>'

/-- A value in stored form and its literal. -/
structure Operand where
  literal : Literal
  value : IndexValue
  deriving DecidableEq

/-- A condition on the value of one table. -/
inductive Predicate where
  | compare (row : Alias) (op : Comparison) (operand : Operand)
  | among (row : Alias) (operands : List Operand)
  deriving DecidableEq

/-- The alias that a predicate speaks of. -/
def Predicate.row : Predicate → Alias
  | .compare row _ _ => row
  | .among row _ => row

structure Select where
  primary : TableRef
  joins : List TableRef := []
  predicates : List Predicate := []
  deriving DecidableEq

/-- A part of a statement's text. -/
inductive Piece where
  | fixed (chars : List Char)
  | operand (o : Operand)
  deriving DecidableEq

namespace Piece

/-- The part with an operand written as its literal. -/
def inlined : Piece → List Char
  | .fixed chars => chars
  | .operand o => o.literal.toChars

/-- The part with an operand written as a placeholder. -/
def placeheld : Piece → List Char
  | .fixed chars => chars
  | .operand _ => ['?']

/-- The value that the part binds. -/
def bound : Piece → Option IndexValue
  | .fixed _ => none
  | .operand o => some o.value

end Piece

namespace Select

def join (q : Select) (t : TableRef) : Select := { q with joins := q.joins ++ [t] }

def filter (q : Select) (p : Predicate) : Select := { q with predicates := q.predicates ++ [p] }

def headChars (t : TableRef) : List Char :=
  "SELECT DISTINCT ".toList ++ t.row.toChars ++ ".docid FROM ".toList ++ t.table.text.toList ++
    " AS ".toList ++ t.row.toChars

/-- The clause that joins a table. -/
def joinChars (primary : Alias) (t : TableRef) : List Char :=
  " JOIN ".toList ++ t.table.text.toList ++ " AS ".toList ++ t.row.toChars ++ " ON ".toList ++
    primary.toChars ++ ".docid = ".toList ++ t.row.toChars ++ ".docid".toList

/-- The operands of a set behind the first, each with its comma. -/
def memberPieces : List Operand → List Piece
  | [] => []
  | o :: rest => .fixed [',', ' '] :: .operand o :: memberPieces rest

def setPieces : List Operand → List Piece
  | [] => []
  | o :: rest => .operand o :: memberPieces rest

def predicatePieces : Predicate → List Piece
  | .compare row op operand =>
    [.fixed (row.toChars ++ ".value ".toList ++ [op.symbol, ' ']), .operand operand]
  | .among row operands =>
    .fixed (row.toChars ++ ".value IN (".toList) :: setPieces operands ++ [.fixed [')']]

/-- The predicates behind the first, each with its conjunction. -/
def conjunctPieces : List Predicate → List Piece
  | [] => []
  | p :: rest => .fixed " AND ".toList :: predicatePieces p ++ conjunctPieces rest

def filterPieces : List Predicate → List Piece
  | [] => []
  | p :: rest => .fixed " WHERE ".toList :: predicatePieces p ++ conjunctPieces rest

def template (q : Select) : List Piece :=
  .fixed (headChars q.primary) ::
    q.joins.map (fun t => .fixed (joinChars q.primary.row t)) ++ filterPieces q.predicates

/-- The statement with its literals. -/
def toSql (q : Select) : String := String.ofList (q.template.flatMap Piece.inlined)

def toParameterized (q : Select) : String := String.ofList (q.template.flatMap Piece.placeheld)

/-- The values to bind, in the order of the placeholders. -/
def parameters (q : Select) : List IndexValue := q.template.filterMap Piece.bound

end Select

end Replica
