import Replica.Query.Plan

/-!
# Catalogs of indexes

A catalog knows named indexes, each with its table and the name of its type. It refuses an index
whose type is not registered or whose table would have no valid name, so a definition that it holds
can always be used.
-/
namespace Replica

structure IndexDefinition where
  name : String
  table : String
  typeName : String
  deriving DecidableEq

/-- The indexes that are known, and how plans over them are made. -/
structure Catalog where
  registry : Registry := .builtIn
  indexes : Keyed IndexDefinition := .empty
  policy : MembershipPolicy := .strict

namespace Catalog

/-- What the name of every index table begins with. -/
def tableStem : String := "_t_docsync_index_"

def withPolicy (c : Catalog) (policy : MembershipPolicy) : Catalog := { c with policy }

/-- Makes an index known, in place of one of that name. -/
def register (c : Catalog) (name typeName : String) :
    Except QueryError (IndexDefinition × Catalog) := do
  let t ← c.registry.get typeName
  let table ← TableName.parse (tableStem ++ name)
  let definition : IndexDefinition := ⟨name, table.text, t.name⟩
  return (definition, { c with indexes := c.indexes.insert name definition })

def index (c : Catalog) (name : String) : Except QueryError IndexDefinition :=
  match c.indexes.get? name with
  | some definition => .ok definition
  | none => .error (.unknownIndex name)

def resolve (c : Catalog) (name : String) : Except QueryError (IndexDefinition × IndexType) := do
  let definition ← c.index name
  let t ← c.registry.get definition.typeName
  return (definition, t)

/-- Adds criteria on named indexes to a plan, in order. -/
def extend (c : Catalog) (p : Plan) : List (String × Criterion) → Except QueryError Plan
  | [] => .ok p
  | (name, criterion) :: rest => do
    let (definition, t) ← c.resolve name
    let p ← p.add definition.table criterion t
    c.extend p rest

def plan (c : Catalog) (criteria : List (String × Criterion)) : Except QueryError Plan :=
  c.extend { policy := c.policy } criteria

def compile (c : Catalog) (criteria : List (String × Criterion)) : Except QueryError String := do
  let p ← c.plan criteria
  p.compile

end Catalog

end Replica
