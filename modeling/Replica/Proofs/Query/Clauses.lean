import Mathlib.Data.List.Basic
import Replica.Proofs.Outcome
import Replica.Query.Plan

/-!
# What a plan is built of

A plan is built clause by clause, and its policy may change in between. Each clause that is accepted
becomes a block: a table under an alias of its own, which is the place of the clause, and the
predicates on it. The query of the plan is nothing but its blocks put together. Clauses that are
refused do not occur here; adding one gives no plan.
-/
namespace Replica

/-- An accepted criterion, with the policy under which it was added. -/
structure Clause where
  table : String
  criterion : Criterion
  type : IndexType
  policy : MembershipPolicy

/-- What a clause adds to a query. -/
structure Block where
  ref : TableRef
  predicates : List Predicate

namespace Plan

/-- The block of a clause at a place. -/
def compileClause (place : Nat) (c : Clause) : Except QueryError Block := do
  let table ← TableName.parse c.table
  let ps ← predicates c.policy ⟨place⟩ c.type c.criterion
  return ⟨⟨table, ⟨place⟩⟩, ps⟩

/-- The query of some blocks. -/
def assemble : List Block → Option Select
  | [] => none
  | b :: rest => some ⟨b.ref, rest.map (·.ref), (b :: rest).flatMap (·.predicates)⟩

theorem tables_assemble {bs : List Block} {q : Select} (hq : assemble bs = some q) :
    q.primary :: q.joins = bs.map (·.ref) := by
  cases bs with
  | nil => contradiction
  | cons first rest =>
    obtain rfl := Option.some.inj hq
    rfl

theorem predicates_assemble {bs : List Block} {q : Select} (hq : assemble bs = some q) :
    q.predicates = bs.flatMap (·.predicates) := by
  cases bs with
  | nil => contradiction
  | cons first rest =>
    obtain rfl := Option.some.inj hq
    rfl

/-- The plan was built by adding these clauses, in this order. -/
inductive Built : Plan → List Clause → Prop
  | start (policy : MembershipPolicy) : Built { policy } []
  | withPolicy {p : Plan} {cs : List Clause} (policy : MembershipPolicy) :
      Built p cs → Built (p.withPolicy policy) cs
  | add {p p' : Plan} {cs : List Clause} {table : String} {criterion : Criterion} {t : IndexType} :
      Built p cs → p.add table criterion t = .ok p' →
        Built p' (cs ++ [⟨table, criterion, t, p.policy⟩])

/-- The plan with more clauses, each added under its policy. -/
def addAll (p : Plan) : List Clause → Except QueryError Plan
  | [] => .ok p
  | c :: rest => do
    let p ← (p.withPolicy c.policy).add c.table c.criterion c.type
    p.addAll rest

theorem Built.addAll {p p' : Plan} {cs more : List Clause} (h : Built p cs)
    (ha : p.addAll more = .ok p') : Built p' (cs ++ more) := by
  induction more generalizing p cs with
  | nil =>
    cases ha
    rw [List.append_nil]
    exact h
  | cons c rest ih =>
    obtain ⟨next, hnext, ha⟩ := bind_eq_ok.mp ha
    have hone : Built next (cs ++ [c]) := (h.withPolicy c.policy).add hnext
    have hall := ih hone ha
    rw [List.append_assoc] at hall
    exact hall

theorem foldl_filter (q : Select) (ps : List Predicate) :
    ps.foldl Select.filter q = { q with predicates := q.predicates ++ ps } := by
  induction ps generalizing q with
  | nil => simp
  | cons p rest ih =>
    rw [List.foldl_cons, ih]
    simp [Select.filter]

/-- Adding a block to a query adds it behind the blocks that are there. -/
theorem extend_assemble (bs : List Block) (b : Block) :
    some (extend (assemble bs) b.ref b.predicates) = assemble (bs ++ [b]) := by
  cases bs with
  | nil => simp [assemble, extend, foldl_filter]
  | cons first rest => simp [assemble, extend, foldl_filter, Select.join]

theorem add_eq_ok {p p' : Plan} {table : String} {criterion : Criterion} {t : IndexType}
    (h : p.add table criterion t = .ok p') :
    ∃ b, compileClause p.size ⟨table, criterion, t, p.policy⟩ = .ok b ∧
      p' = { p with query := some (extend p.query b.ref b.predicates), size := p.size + 1 } := by
  obtain ⟨name, hname, h⟩ := bind_eq_ok.mp h
  obtain ⟨ps, hps, h⟩ := bind_eq_ok.mp h
  refine ⟨⟨⟨name, ⟨p.size⟩⟩, ps⟩, ?_, (Except.ok.inj h).symm⟩
  exact bind_eq_ok.mpr ⟨name, hname, bind_eq_ok.mpr ⟨ps, hps, rfl⟩⟩

/-- Each clause has its block, in order. -/
def Compiles (cs : List Clause) (bs : List Block) : Prop :=
  (cs.mapIdx fun i c => compileClause i c) = bs.map .ok

namespace Compiles

variable {cs : List Clause} {bs : List Block}

theorem length_eq (h : Compiles cs bs) : cs.length = bs.length := by
  simpa using congrArg List.length h

theorem getElem (h : Compiles cs bs) (i : Nat) (hc : i < cs.length) (hb : i < bs.length) :
    compileClause i cs[i] = .ok bs[i] := by
  have he := List.getElem_of_eq h (by simpa using hc)
  simpa using he

theorem exists_clause (h : Compiles cs bs) {b : Block} (hb : b ∈ bs) :
    ∃ i, ∃ c ∈ cs, compileClause i c = .ok b := by
  obtain ⟨i, hi, rfl⟩ := List.getElem_of_mem hb
  have hc : i < cs.length := by rw [h.length_eq]; exact hi
  exact ⟨i, cs[i], List.getElem_mem hc, h.getElem i hc hi⟩

theorem exists_block (h : Compiles cs bs) {c : Clause} (hc : c ∈ cs) :
    ∃ i, ∃ b ∈ bs, compileClause i c = .ok b := by
  obtain ⟨i, hi, rfl⟩ := List.getElem_of_mem hc
  have hb : i < bs.length := by rw [← h.length_eq]; exact hi
  exact ⟨i, bs[i], List.getElem_mem hb, h.getElem i hi hb⟩

end Compiles

theorem operand_eq_ok {t : IndexType} {v : IndexValue} {o : Operand} (h : operand t v = .ok o) :
    t.supports v = true ∧ t.convert v = .ok o.value ∧ t.escape o.value = .ok o.literal := by
  unfold operand at h
  split at h
  · rename_i hs
    obtain ⟨⟨value, literal⟩, hc, rfl⟩ := map_eq_ok.mp h
    obtain ⟨stored, hv, hc⟩ := bind_eq_ok.mp hc
    obtain ⟨written, hl, hc⟩ := bind_eq_ok.mp hc
    cases hc
    exact ⟨hs, hv, hl⟩
  · contradiction

/-- A bound that is given yields one comparison, a missing one none. -/
theorem boundPredicate_eq_ok {row : Alias} {t : IndexType} {op : Comparison}
    {bound : Option IndexValue} {ps : List Predicate} (h : boundPredicate row t op bound = .ok ps) :
    (bound = none ∧ ps = []) ∨
      ∃ v o, bound = some v ∧ operand t v = .ok o ∧ ps = [.compare row op o] := by
  cases bound with
  | none =>
    cases h
    exact Or.inl ⟨rfl, rfl⟩
  | some v =>
    obtain ⟨o, ho, rfl⟩ := map_eq_ok.mp h
    exact Or.inr ⟨v, o, rfl, ho, rfl⟩

/-- What an accepted criterion is turned into: one comparison, one set, or the comparisons with the
bounds of a range, the upper one first. -/
theorem predicates_eq_ok {policy : MembershipPolicy} {row : Alias} {t : IndexType} {c : Criterion}
    {ps : List Predicate} (h : predicates policy row t c = .ok ps) :
    (∃ v o, c = .equality v ∧ operand t v = .ok o ∧ ps = [.compare row .eq o]) ∨
    (∃ vs os, c = .membership vs ∧ operands policy t vs = .ok os ∧ os ≠ [] ∧
      ps = [.among row os]) ∨
    (∃ min max below above, c = .range min max ∧ boundPredicate row t .lt max = .ok below ∧
      boundPredicate row t .gt min = .ok above ∧ ps = below ++ above ∧ ps ≠ []) := by
  cases c with
  | equality v =>
    obtain ⟨o, ho, rfl⟩ := map_eq_ok.mp h
    exact Or.inl ⟨v, o, rfl, ho, rfl⟩
  | membership vs =>
    obtain ⟨os, hos, h⟩ := bind_eq_ok.mp h
    cases os with
    | nil => contradiction
    | cons o rest =>
      cases h
      exact Or.inr (Or.inl ⟨vs, o :: rest, rfl, hos, List.cons_ne_nil _ _, rfl⟩)
  | range min max =>
    obtain ⟨below, hb, h⟩ := bind_eq_ok.mp h
    obtain ⟨above, ha, h⟩ := bind_eq_ok.mp h
    cases hps : below ++ above with
    | nil =>
      rw [hps] at h
      contradiction
    | cons p rest =>
      rw [hps] at h
      cases h
      exact Or.inr (Or.inr ⟨min, max, below, above, rfl, hb, ha, hps.symm, List.cons_ne_nil _ _⟩)

theorem row_of_mem_predicates {policy : MembershipPolicy} {row : Alias} {t : IndexType}
    {c : Criterion} {ps : List Predicate} (h : predicates policy row t c = .ok ps)
    {p : Predicate} (hp : p ∈ ps) : p.row = row := by
  rcases predicates_eq_ok h with ⟨v, o, -, -, rfl⟩ | ⟨vs, os, -, -, -, rfl⟩ |
    ⟨min, max, below, above, -, hb, ha, rfl, -⟩
  · rw [List.mem_singleton.mp hp]
    rfl
  · rw [List.mem_singleton.mp hp]
    rfl
  · rcases List.mem_append.mp hp with hp | hp
    · rcases boundPredicate_eq_ok hb with ⟨-, rfl⟩ | ⟨v, o, -, -, rfl⟩
      · contradiction
      · rw [List.mem_singleton.mp hp]
        rfl
    · rcases boundPredicate_eq_ok ha with ⟨-, rfl⟩ | ⟨v, o, -, -, rfl⟩
      · contradiction
      · rw [List.mem_singleton.mp hp]
        rfl

theorem compileClause_eq_ok {place : Nat} {c : Clause} {b : Block}
    (h : compileClause place c = .ok b) :
    b.ref.table.text = c.table ∧ b.ref.row = ⟨place⟩ ∧
      predicates c.policy ⟨place⟩ c.type c.criterion = .ok b.predicates := by
  obtain ⟨name, hname, h⟩ := bind_eq_ok.mp h
  obtain ⟨ps, hps, h⟩ := bind_eq_ok.mp h
  cases h
  refine ⟨?_, rfl, hps⟩
  unfold TableName.parse at hname
  split at hname
  · cases hname
    rfl
  · contradiction

/-- The blocks have the aliases zero, one and so on. -/
theorem Compiles.rows {cs : List Clause} {bs : List Block} (h : Compiles cs bs) :
    bs.map (·.ref.row) = (List.range bs.length).map Alias.mk := by
  apply List.ext_getElem
  · simp
  · intro i hi _
    have hb : i < bs.length := by simpa using hi
    have hc : i < cs.length := by rw [h.length_eq]; exact hb
    have hrow := (compileClause_eq_ok (h.getElem i hc hb)).2.1
    simpa using hrow

/-- **A plan is its blocks.** Its query is assembled from one block for each clause. -/
theorem Built.blocks {p : Plan} {cs : List Clause} (h : Built p cs) :
    ∃ bs, Compiles cs bs ∧ p.size = cs.length ∧ p.query = assemble bs := by
  induction h with
  | start policy => exact ⟨[], rfl, rfl, rfl⟩
  | withPolicy policy _ ih => exact ih
  | @add p p' cs table criterion t _ hadd ih =>
    obtain ⟨bs, hbs, hsize, hquery⟩ := ih
    obtain ⟨b, hb, rfl⟩ := add_eq_ok hadd
    refine ⟨bs ++ [b], ?_, ?_, ?_⟩
    · unfold Compiles at hbs ⊢
      rw [hsize] at hb
      rw [List.mapIdx_append, hbs, List.map_append]
      simp [hb]
    · simp [hsize]
    · rw [← extend_assemble, hquery]

theorem Built.query_eq_none {p : Plan} {cs : List Clause} (h : Built p cs) :
    p.query = none ↔ cs = [] := by
  obtain ⟨bs, hbs, -, hquery⟩ := h.blocks
  have hlength := hbs.length_eq
  rw [hquery]
  cases bs with
  | nil => exact ⟨fun _ => List.length_eq_zero_iff.mp hlength, fun _ => rfl⟩
  | cons b rest =>
    constructor
    · intro hnone
      contradiction
    · rintro rfl
      contradiction

end Plan

end Replica
