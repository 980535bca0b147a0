import Replica.Query.Criterion
import Replica.Query.Select

/-!
# Plans

A plan is a conjunction of criteria, each on a table of its own alias. The first criterion's table
is the primary one; every further table is joined to it on the document id. A criterion that is
refused leaves no trace: `add` gives back a new plan or an error.
-/
namespace Replica

/-- A conjunction of criteria. -/
structure Plan where
  query : Option Select := none
  size : Nat := 0
  policy : MembershipPolicy := .strict
  deriving DecidableEq

namespace Plan

/-- The refusal of a value that the index type does not support. -/
def unsupported {α : Type} (t : IndexType) (v : IndexValue) : Except QueryError α :=
  .error (.invalidCriterion
    ("value " ++ v.displayWithKind ++ " is not supported by index type " ++ t.name))

def operand (t : IndexType) (v : IndexValue) : Except QueryError Operand :=
  if t.supports v then (t.convertAndEscape v).map fun (value, literal) => ⟨literal, value⟩
  else unsupported t v

/-- The operands of a set of values. What becomes of unsupported ones is up to the policy. -/
def operands (policy : MembershipPolicy) (t : IndexType) :
    List IndexValue → Except QueryError (List Operand)
  | [] => .ok []
  | v :: rest =>
    if t.supports v then do
      let o ← operand t v
      let os ← operands policy t rest
      return o :: os
    else
      match policy with
      | .strict => unsupported t v
      | .permissive => operands policy t rest

/-- The comparison of an alias with a bound, if there is one. -/
def boundPredicate (row : Alias) (t : IndexType) (op : Comparison) :
    Option IndexValue → Except QueryError (List Predicate)
  | none => .ok []
  | some v => (operand t v).map fun o => [.compare row op o]

def predicates (policy : MembershipPolicy) (row : Alias) (t : IndexType) :
    Criterion → Except QueryError (List Predicate)
  | .equality v => (operand t v).map fun o => [.compare row .eq o]
  | .membership vs => do
    match ← operands policy t vs with
    | [] =>
      throw (.invalidCriterion
        ("membership criterion for index type " ++ t.name ++ " has no supported values"))
    | os => return [.among row os]
  | .range min max => do
    let below ← boundPredicate row t .lt max
    let above ← boundPredicate row t .gt min
    match below ++ above with
    | [] => throw (.invalidCriterion "range criterion needs a min or a max bound")
    | ps => return ps

/-- The query with one more table and its predicates. -/
def extend (query : Option Select) (t : TableRef) (ps : List Predicate) : Select :=
  let query := match query with
    | some q => q.join t
    | none => { primary := t }
  ps.foldl Select.filter query

/-- The plan with one more criterion on a table. -/
def add (p : Plan) (table : String) (criterion : Criterion) (t : IndexType) :
    Except QueryError Plan := do
  let row : Alias := ⟨p.size⟩
  let table ← TableName.parse table
  let ps ← predicates p.policy row t criterion
  return { p with query := some (extend p.query ⟨table, row⟩ ps), size := p.size + 1 }

def withPolicy (p : Plan) (policy : MembershipPolicy) : Plan := { p with policy }

/-- The statement of the plan, which needs a criterion. -/
def build (p : Plan) : Except QueryError Select :=
  match p.query with
  | some q => .ok q
  | none => .error .emptyPlan

def compile (p : Plan) : Except QueryError String := p.build.map Select.toSql

/-- The text of the plan's statement with placeholders, and the values to bind. -/
def compileParameterized (p : Plan) : Except QueryError (String × List IndexValue) :=
  p.build.map fun q => (q.toParameterized, q.parameters)

end Plan

end Replica
