import Mathlib
import Replica.Proofs.Query.Registration
import Replica.Query.Request

/-!
# Criteria that are asked for without a catalog

A criterion on a named index can be asked for without the catalog, by the table and the type name of
the index and by its values in JSON. The request stands for that criterion and no other, and a list
of requests makes the plan that the catalog makes, or fails at the same place for the same reason.

Requests are taken as they are once they have been read; their text is no matter here.
-/
namespace Replica

namespace IndexValue

theorem signed?_ofSigned (i : Int64) : (Json.Number.ofSigned i).signed? = some i := by
  have hlt : i.toInt < 9223372036854775808 := i.toInt_lt
  rw [Json.Number.ofSigned, Json.Number.signed?, if_pos hlt, Int64.ofInt_toInt]

theorem ofJson_toJson (v : IndexValue) : ofJson v.toJson = .ok v := by
  have hread : ofJson? v.toJson = some v := by
    cases v with
    | bool b => rfl
    | integer i => exact congrArg (Option.map IndexValue.integer) (signed?_ofSigned i)
    | text s => rfl
  unfold ofJson
  rw [hread]

end IndexValue

namespace CriterionRequest

/-- The request for a criterion on an index. -/
def of (d : IndexDefinition) : Criterion → CriterionRequest
  | .equality v => { table := d.table, typeName := d.typeName, equalTo := some v.toJson }
  | .membership vs =>
    { table := d.table, typeName := d.typeName, among := some (vs.map IndexValue.toJson) }
  | .range min max =>
    { table := d.table, typeName := d.typeName, min := min.map IndexValue.toJson,
      max := max.map IndexValue.toJson }

theorem table_of (d : IndexDefinition) (c : Criterion) : (of d c).table = d.table := by
  cases c <;> rfl

theorem typeName_of (d : IndexDefinition) (c : Criterion) : (of d c).typeName = d.typeName := by
  cases c <;> rfl

theorem values_toJson (vs : List IndexValue) : values (vs.map IndexValue.toJson) = .ok vs := by
  induction vs with
  | nil => rfl
  | cons v rest ih =>
    rw [List.map_cons, values, IndexValue.ofJson_toJson, ih]
    rfl

theorem bound_toJson (v? : Option IndexValue) : bound (v?.map IndexValue.toJson) = .ok v? := by
  cases v? with
  | none => rfl
  | some v =>
    rw [Option.map_some, bound, IndexValue.ofJson_toJson]
    rfl

/-- The request stands for the criterion, also where that has no members or no bounds. -/
theorem criterion_of (d : IndexDefinition) (c : Criterion) : (of d c).criterion = .ok c := by
  cases c with
  | equality v => exact congrArg (Except.map Criterion.equality) (IndexValue.ofJson_toJson v)
  | membership vs => exact congrArg (Except.map Criterion.membership) (values_toJson vs)
  | range min max =>
    rw [of, criterion]
    simp only [bound_toJson]
    rfl

end CriterionRequest

namespace Catalog

variable {c : Catalog}

/-- The request for a criterion on the index of that name. -/
def request (c : Catalog) (x : String × Criterion) : Except QueryError CriterionRequest :=
  (c.index x.1).map fun d => .of d x.2

theorem resolve_of_index {name : String} {d : IndexDefinition} (hd : c.index name = .ok d) :
    c.resolve name = (c.registry.get d.typeName).map fun t => (d, t) := by
  rw [resolve, hd]
  show (c.registry.get d.typeName >>= fun t => pure (d, t)) = _
  cases c.registry.get d.typeName <;> rfl

/-- The requests stand for the criteria, and extend any plan as the catalog does. -/
structure Restates (c : Catalog) (criteria : List (String × Criterion))
    (requests : List CriterionRequest) : Prop where
  criterion : requests.map CriterionRequest.criterion = criteria.map fun x => .ok x.2
  extend (p : Plan) : CriterionRequest.extend p requests = c.extend p criteria

theorem Restates.cons {x : String × Criterion} {d : IndexDefinition}
    {criteria : List (String × Criterion)} {requests : List CriterionRequest}
    (h : c.Restates criteria requests) (hc : c.registry = .builtIn) (hd : c.index x.1 = .ok d) :
    c.Restates (x :: criteria) (.of d x.2 :: requests) where
  criterion := by
    rw [List.map_cons, List.map_cons, CriterionRequest.criterion_of, h.criterion]
  extend p := by
    rw [Catalog.extend, resolve_of_index hd, hc, CriterionRequest.extend,
      CriterionRequest.typeName_of, CriterionRequest.table_of, CriterionRequest.criterion_of]
    -- Both look the type up before they add the criterion, so an unknown type ends both here.
    cases Registry.builtIn.get d.typeName with
    | error e => rfl
    | ok t =>
      show (p.add d.table x.2 t >>= fun p => CriterionRequest.extend p requests) =
        (p.add d.table x.2 t >>= fun p => c.extend p criteria)
      simp only [h.extend]

theorem exists_restates (hc : c.registry = .builtIn) {criteria : List (String × Criterion)}
    (hknown : ∀ x ∈ criteria, ∃ d, c.index x.1 = .ok d) :
    ∃ requests, criteria.mapM c.request = .ok requests ∧ c.Restates criteria requests := by
  induction criteria with
  | nil => exact ⟨[], rfl, rfl, fun _ => rfl⟩
  | cons x rest ih =>
    obtain ⟨⟨d, hd⟩, hrest⟩ := List.forall_mem_cons.mp hknown
    obtain ⟨requests, hrequests, hrestates⟩ := ih hrest
    refine ⟨.of d x.2 :: requests, ?_, hrestates.cons hc hd⟩
    rw [List.mapM_cons, request, hd, hrequests]
    rfl

/-- **Requests and catalogs make the same plans.** For criteria on known indexes of a catalog over
the built-in types there are requests by table and type name. Each stands for its criterion, and
together they make the plan of the catalog, or fail as it does. So their statements are the same. -/
theorem requests_agree (hc : c.registry = .builtIn) (criteria : List (String × Criterion))
    (hknown : ∀ x ∈ criteria, ∃ d, c.index x.1 = .ok d) :
    ∃ requests, criteria.mapM c.request = .ok requests ∧
      requests.map CriterionRequest.criterion = (criteria.map fun x => .ok x.2) ∧
      CriterionRequest.plan c.policy requests = c.plan criteria ∧
      (CriterionRequest.plan c.policy requests >>= Plan.compile) = c.compile criteria ∧
      (CriterionRequest.plan c.policy requests >>= Plan.compileParameterized) =
        (c.plan criteria >>= Plan.compileParameterized) := by
  obtain ⟨requests, hrequests, hrestates⟩ := exists_restates hc hknown
  have hplan : CriterionRequest.plan c.policy requests = c.plan criteria := hrestates.extend _
  exact ⟨requests, hrequests, hrestates.criterion, hplan, by rw [hplan]; rfl, by rw [hplan]⟩

/-- A catalog of two indexes. -/
def people : Catalog := ({} : Catalog).afterCalls [("age", "integer"), ("tag", "string")]

/-- Three criteria, of which the second has no members and the third no bounds. -/
def halfEmpty : List (String × Criterion) :=
  [("age", .range none (some (.text "30"))), ("tag", .membership []), ("age", .range none none)]

theorem requests_agree_halfEmpty :
    (people.registry = .builtIn ∧ ∀ x ∈ halfEmpty, ∃ d, people.index x.1 = .ok d) ∧
    ∃ requests, halfEmpty.mapM people.request = .ok requests ∧
      requests.map CriterionRequest.criterion = (halfEmpty.map fun x => .ok x.2) ∧
      people.plan halfEmpty = .error (.invalidCriterion
        "membership criterion for index type string has no supported values") ∧
      CriterionRequest.plan .strict requests = people.plan halfEmpty := by
  have hbuiltIn : ({} : Catalog).registry = .ofTypes [.integer, .string] := rfl
  have hregistry : people.registry = .builtIn := (registry_afterCalls hbuiltIn _).1
  have hage : people.index "age" = .ok (.of "age" "integer") := by cbv
  have htag : people.index "tag" = .ok (.of "tag" "string") := by cbv
  have hknown : ∀ x ∈ halfEmpty, ∃ d, people.index x.1 = .ok d := by
    simp [halfEmpty, hage, htag]
  have hpolicy : people.policy = .strict := by cbv
  obtain ⟨requests, hrequests, hcriterion, hplan, -, -⟩ :=
    requests_agree hregistry halfEmpty hknown
  exact ⟨⟨hregistry, hknown⟩, requests, hrequests, hcriterion, by cbv, hpolicy ▸ hplan⟩

end Catalog

end Replica
