import Replica.Proofs.Query.Clauses

/-!
# Plans that are edited in place

A caller holds one plan and edits it again and again: it adds criteria, some of which are refused,
and changes the policy in between. Adding a criterion in place goes through states that are no plans
of anything, with the query taken out or not yet counted, but a refusal comes before the first of
them. So the plan is at any time the one that the accepted criteria alone would have built, each
under the policy of its time. Nothing is claimed of index types whose answers change.
-/
namespace Replica.Plan

/-- An edit of a plan. -/
inductive Edit where
  | add (table : String) (criterion : Criterion) (type : IndexType)
  | withPolicy (policy : MembershipPolicy)

/-- A change to a plan. One that fails leaves the plan as far as it has come. -/
abbrev Update := ExceptT QueryError (StateM Plan)

/-- Adds a criterion step by step: the query is taken out, rebuilt and put back, then every
predicate is added to it, and the criterion is counted. -/
def addInPlace (table : String) (criterion : Criterion) (t : IndexType) : Update Unit := do
  let row : Alias := ⟨(← get).size⟩
  let name ← TableName.parse table
  let ps ← predicates (← get).policy row t criterion
  let taken ← modifyGet fun p => (p.query, { p with query := none })
  let rebuilt := match taken with
    | some q => q.join ⟨name, row⟩
    | none => { primary := ⟨name, row⟩ }
  modify fun p => { p with query := some rebuilt }
  ps.forM fun predicate => modify fun p => { p with query := p.query.map (·.filter predicate) }
  modify fun p => { p with size := p.size + 1 }

/-- The answer to an edit, and the plan behind it. -/
def perform (p : Plan) : Edit → Except QueryError Unit × Plan
  | .add table criterion t => addInPlace table criterion t p
  | .withPolicy policy => (.ok (), p.withPolicy policy)

/-- The plan behind edits, accepted or refused. -/
def after (p : Plan) : List Edit → Plan
  | [] => p
  | e :: rest => (p.perform e).2.after rest

/-- The criteria among the edits that are accepted, each with the policy in force at its time. -/
def accepted (p : Plan) : List Edit → List Clause
  | [] => []
  | .withPolicy policy :: rest => (p.withPolicy policy).accepted rest
  | .add table criterion t :: rest =>
    match p.perform (.add table criterion t) with
    | (.ok _, next) => ⟨table, criterion, t, p.policy⟩ :: next.accepted rest
    | (.error _, next) => next.accepted rest

theorem bind_apply {α β : Type} (x : Update α) (f : α → Update β) (p : Plan) :
    (x >>= f) p = match x p with
      | (.ok a, next) => f a next
      | (.error e, next) => (.error e, next) := by
  change (match x p with | (a, next) => ExceptT.bindCont f a next) = _
  cases x p with
  | mk answer next => cases answer <;> rfl

theorem get_apply (p : Plan) : (get : Update Plan) p = (.ok p, p) := rfl

theorem modifyGet_apply {α : Type} (f : Plan → α × Plan) (p : Plan) :
    (modifyGet f : Update α) p = (.ok (f p).1, (f p).2) := rfl

theorem modify_apply (f : Plan → Plan) (p : Plan) :
    (modify f : Update Unit) p = (.ok (), f p) := rfl

theorem lift_apply {α : Type} (x : Except QueryError α) (p : Plan) :
    (liftM x : Update α) p = (x, p) := rfl

theorem forM_filter (ps : List Predicate) (p : Plan) :
    (ps.forM fun predicate => modify fun p => { p with query := p.query.map (·.filter predicate) } :
      Update Unit) p = (.ok (), { p with query := p.query.map (ps.foldl Select.filter) }) := by
  induction ps generalizing p with
  | nil =>
    cases p with
    | mk query size policy => cases query <;> rfl
  | cons predicate rest ih =>
    have hstep := ih { p with query := p.query.map (·.filter predicate) }
    rw [Option.map_map] at hstep
    exact hstep

/-- Adding in place ends where `add` does, and fails where it started. -/
theorem addInPlace_eq (p : Plan) (table : String) (criterion : Criterion) (t : IndexType) :
    addInPlace table criterion t p =
      match p.add table criterion t with
      | .ok next => (.ok (), next)
      | .error e => (.error e, p) := by
  simp only [addInPlace, add, bind_apply, get_apply, lift_apply]
  cases TableName.parse table with
  | error e => rfl
  | ok name =>
    cases hps : predicates p.policy ⟨p.size⟩ t criterion with
    | error e => simp only [hps, bind, Except.bind]
    | ok ps =>
      simp only [hps, modifyGet_apply, modify_apply, bind, Except.bind, forM_filter]
      rfl

theorem perform_add (p : Plan) (table : String) (criterion : Criterion) (t : IndexType) :
    (∃ e, p.add table criterion t = .error e ∧ p.perform (.add table criterion t) = (.error e, p)) ∨
      ∃ next, p.add table criterion t = .ok next ∧
        p.perform (.add table criterion t) = (.ok (), next) := by
  rw [perform, addInPlace_eq]
  cases hadd : p.add table criterion t with
  | error e => exact .inl ⟨e, rfl, rfl⟩
  | ok next => exact .inr ⟨next, rfl, rfl⟩

theorem perform_error {p : Plan} {e : Edit} {error : QueryError}
    (h : (p.perform e).1 = .error error) : (p.perform e).2 = p := by
  cases e with
  | withPolicy policy => cases h
  | add table criterion t =>
    rcases p.perform_add table criterion t with ⟨_, _, hrefused⟩ | ⟨next, _, haccepted⟩
    · rw [hrefused]
    · rw [haccepted] at h
      cases h

/-- The first clause brings its own policy. -/
theorem addAll_withPolicy {p q : Plan} {cs : List Clause} {policy : MembershipPolicy}
    (h : (p.withPolicy policy).addAll cs = .ok q) :
    ∃ q', p.addAll cs = .ok q' ∧ ∀ last, q.withPolicy last = q'.withPolicy last := by
  cases cs with
  | nil =>
    cases h
    exact ⟨p, rfl, fun _ => rfl⟩
  | cons c rest => exact ⟨q, h, fun _ => rfl⟩

theorem addAll_accepted (p : Plan) (edits : List Edit) :
    ∃ q, p.addAll (p.accepted edits) = .ok q ∧
      p.after edits = q.withPolicy (p.after edits).policy := by
  induction edits generalizing p with
  | nil => exact ⟨p, rfl, rfl⟩
  | cons e rest ih =>
    cases e with
    | withPolicy policy =>
      obtain ⟨q, hq, hafter⟩ := ih (p.withPolicy policy)
      obtain ⟨q', hq', hsame⟩ := addAll_withPolicy hq
      exact ⟨q', hq', hafter.trans (hsame _)⟩
    | add table criterion t =>
      rw [after, accepted]
      rcases p.perform_add table criterion t with ⟨_, _, hrefused⟩ | ⟨next, hadd, haccepted⟩
      · rw [hrefused]
        exact ih p
      · rw [haccepted]
        obtain ⟨q, hq, hafter⟩ := ih next
        exact ⟨q, bind_eq_ok.mpr ⟨next, hadd, hq⟩, hafter⟩

/-- The predicates of a criterion on one table. -/
inductive Renders (row : Alias) : Criterion → List Predicate → Prop
  | equality (v : IndexValue) (o : Operand) : Renders row (.equality v) [.compare row .eq o]
  | membership (vs : List IndexValue) {os : List Operand} (ne : os ≠ []) :
      Renders row (.membership vs) [.among row os]
  | upper (max : IndexValue) (o : Operand) :
      Renders row (.range none (some max)) [.compare row .lt o]
  | lower (min : IndexValue) (o : Operand) :
      Renders row (.range (some min) none) [.compare row .gt o]
  | between (min max : IndexValue) (below above : Operand) :
      Renders row (.range (some min) (some max)) [.compare row .lt below, .compare row .gt above]

theorem renders_predicates {policy : MembershipPolicy} {row : Alias} {t : IndexType}
    {c : Criterion} {ps : List Predicate} (h : predicates policy row t c = .ok ps) :
    Renders row c ps := by
  rcases predicates_eq_ok h with ⟨v, o, rfl, -, rfl⟩ | ⟨vs, os, rfl, -, hne, rfl⟩ |
    ⟨min, max, below, above, rfl, hb, ha, rfl, hne⟩
  · exact .equality v o
  · exact .membership vs hne
  · rcases boundPredicate_eq_ok hb with ⟨rfl, rfl⟩ | ⟨upper, o, rfl, -, rfl⟩ <;>
      rcases boundPredicate_eq_ok ha with ⟨rfl, rfl⟩ | ⟨lower, o', rfl, -, rfl⟩
    · exact absurd rfl hne
    · exact .lower lower o'
    · exact .upper upper o
    · exact .between lower upper o o'

/-- The tables and the predicates of a query stand clause by clause: the place of a clause is the
alias of its table and of its predicates. -/
structure Lists (q : Select) (cs : List Clause) : Prop where
  rows : (q.primary :: q.joins).map (·.row) = (List.range cs.length).map Alias.mk
  tables : (q.primary :: q.joins).map (·.table.text) = cs.map (·.table)
  blocks : ∃ blocks : List (List Predicate), q.predicates = blocks.flatten ∧
    blocks.length = cs.length ∧
    ∀ (i : Nat) (hc : i < cs.length) (hb : i < blocks.length),
      Renders ⟨i⟩ cs[i].criterion blocks[i]

theorem Built.lists {p : Plan} {cs : List Clause} {q : Select} (h : Built p cs)
    (hq : p.query = some q) : Lists q cs := by
  obtain ⟨bs, hbs, -, hquery⟩ := h.blocks
  rw [hquery] at hq
  have hlength := hbs.length_eq
  constructor
  · rw [tables_assemble hq, List.map_map, hlength]
    exact hbs.rows
  · rw [tables_assemble hq, List.map_map]
    apply List.ext_getElem
    · simp [hlength]
    · intro i hb hc
      rw [List.length_map] at hb hc
      rw [List.getElem_map, List.getElem_map]
      exact (compileClause_eq_ok (hbs.getElem i hc hb)).1
  · refine ⟨bs.map (·.predicates), ?_, ?_, ?_⟩
    · rw [predicates_assemble hq, List.flatMap_def]
    · rw [List.length_map, hlength]
    · intro i hc hb
      rw [List.length_map] at hb
      rw [List.getElem_map]
      exact renders_predicates (compileClause_eq_ok (hbs.getElem i hc hb)).2.2

/-- **Refused criteria vanish.** An edit that is refused leaves the plan as it was. So a new plan is
after any edits the one that the accepted criteria alone would have built, each under the policy of
its time; it counts them, has a query as soon as there is one, and lists their tables and predicates
in order. -/
theorem after_edits (edits : List Edit) :
    (∀ (p : Plan) (e : Edit) (error : QueryError),
      (p.perform e).1 = .error error → (p.perform e).2 = p) ∧
    let p := ({} : Plan).after edits
    let clauses := ({} : Plan).accepted edits
    (∃ q, ({} : Plan).addAll clauses = .ok q ∧ p = q.withPolicy p.policy) ∧
    p.size = clauses.length ∧ (p.query = none ↔ clauses = []) ∧
    ∀ q, p.query = some q → Lists q clauses := by
  refine ⟨fun _ _ _ => perform_error, ?_⟩
  intro p clauses
  obtain ⟨q, hq, hafter⟩ := addAll_accepted {} edits
  have hbuilt : Built p clauses := by
    have hall := ((Built.start .strict).addAll hq).withPolicy p.policy
    rw [← hafter] at hall
    exact hall
  obtain ⟨_, _, hsize, _⟩ := hbuilt.blocks
  exact ⟨⟨q, hq, hafter⟩, hsize, hbuilt.query_eq_none, fun _ => hbuilt.lists⟩

/-- A lower bound that is no integer, found out after the upper one has been rendered. -/
def halfRange : Edit := .add "sizes" (.range (some (.text "few")) (some (.integer 9))) .integer

/-- Refusals of a table, of a member and of a bound, each corrected by the edits behind it. -/
def corrected : List Edit := [
  .add "2024" (.equality (.bool true)) .string,
  .add "tags" (.membership [.text "a", .text "\x00"]) .string,
  .withPolicy .permissive,
  .add "tags" (.membership [.text "a", .text "\x00"]) .string,
  halfRange,
  .add "sizes" (.range (some (.integer 1)) (some (.integer 9))) .integer]

theorem after_edits_corrected :
    ((({} : Plan).perform halfRange).1.isOk = false ∧ (({} : Plan).perform halfRange).2 = {}) ∧
    let p := ({} : Plan).after corrected
    let clauses := ({} : Plan).accepted corrected
    clauses.map (·.table) = ["tags", "sizes"] ∧
      clauses.map (·.policy) = [.permissive, .permissive] ∧ p.size = 2 ∧
      ∃ q, p.query = some q ∧ Lists q clauses := by
  obtain ⟨hrefused, _, hsize, hnone, hlists⟩ := after_edits corrected
  have htables : (({} : Plan).accepted corrected).map (·.table) = ["tags", "sizes"] := rfl
  have hcount : (({} : Plan).accepted corrected).length = 2 := by
    rw [← List.length_map (·.table), htables]
    rfl
  refine ⟨⟨rfl, hrefused {} halfRange _ rfl⟩, htables, rfl, by rw [hsize, hcount], ?_⟩
  cases hquery : (({} : Plan).after corrected).query with
  | none =>
    rw [hnone.mp hquery] at hcount
    cases hcount
  | some q => exact ⟨q, rfl, hlists q hquery⟩

end Replica.Plan
