import Mathlib
import Replica.Proofs.Entries
import Replica.Proofs.Query.Clauses
import Replica.Query.Catalog

/-!
# A catalog can use every definition that it holds

A registration is accepted or refused by the registry and the name alone; what the catalog holds
does not matter. So after any registrations an index is defined by the last accepted one of its
name, its table has a valid name, and its type is found again when a plan is made. Adding a
criterion can then fail for no other reason than the criterion, as long as the index types keep to
that.
-/
namespace Replica

/-- If it fails, then because of a criterion. -/
def FailsByCriterion {α : Type} (x : Except QueryError α) : Prop :=
  ∀ e, x = .error e → ∃ reason, e = .invalidCriterion reason

namespace FailsByCriterion

variable {α β : Type}

theorem ok (a : α) : FailsByCriterion (.ok a) := fun _ h => nomatch h

theorem invalid (reason : String) :
    FailsByCriterion (.error (.invalidCriterion reason) : Except QueryError α) := by
  intro e h
  exact ⟨reason, (Except.error.inj h).symm⟩

theorem bind {x : Except QueryError α} {f : α → Except QueryError β} (hx : FailsByCriterion x)
    (hf : ∀ a, x = .ok a → FailsByCriterion (f a)) : FailsByCriterion (x >>= f) := by
  intro e h
  cases hxa : x with
  | error e' =>
    rw [hxa] at h
    obtain rfl : e' = e := Except.error.inj h
    exact hx e' hxa
  | ok a =>
    rw [hxa] at h
    exact hf a hxa e h

theorem map {x : Except QueryError α} (hx : FailsByCriterion x) (f : α → β) :
    FailsByCriterion (x.map f) := by
  intro e h
  cases hxa : x with
  | error e' =>
    rw [hxa] at h
    obtain rfl : e' = e := Except.error.inj h
    exact hx e' hxa
  | ok a =>
    rw [hxa] at h
    cases h

end FailsByCriterion

namespace IndexType

/-- The type refuses values only as invalid criteria. -/
structure BlamesCriterion (t : IndexType) : Prop where
  convert : ∀ v, FailsByCriterion (t.convert v)
  escape : ∀ v, FailsByCriterion (t.escape v)

theorem blames_integer : integer.BlamesCriterion where
  convert v := by
    unfold integer
    dsimp only
    split
    · exact .ok _
    · exact .invalid _
  escape v := by
    cases v with
    | integer i => exact .ok _
    | bool b => exact .invalid _
    | text s => exact .invalid _

theorem blames_string : string.BlamesCriterion where
  convert v := by
    unfold string
    dsimp only
    split
    · exact .ok _
    · exact .invalid _
  escape v := by
    cases v with
    | integer i => exact .invalid _
    | bool b => exact .invalid _
    | text s =>
      show FailsByCriterion (Literal.quoted s)
      unfold Literal.quoted
      split
      · exact .invalid _
      · exact .ok _

end IndexType

namespace Plan

variable {t : IndexType} (ht : t.BlamesCriterion)

include ht

theorem operand_fails (v : IndexValue) : FailsByCriterion (operand t v) := by
  unfold operand
  split
  · apply FailsByCriterion.map
    exact (ht.convert v).bind fun stored _ => (ht.escape stored).bind fun _ _ => .ok _
  · exact .invalid _

theorem operands_fails (policy : MembershipPolicy) (vs : List IndexValue) :
    FailsByCriterion (operands policy t vs) := by
  induction vs with
  | nil => exact .ok _
  | cons v rest ih =>
    unfold operands
    split
    · exact (operand_fails ht v).bind fun _ _ => ih.bind fun _ _ => .ok _
    · cases policy with
      | strict => exact .invalid _
      | permissive => exact ih

theorem boundPredicate_fails (row : Alias) (op : Comparison) (bound : Option IndexValue) :
    FailsByCriterion (boundPredicate row t op bound) := by
  cases bound with
  | none => exact .ok _
  | some v => exact (operand_fails ht v).map _

theorem predicates_fails (policy : MembershipPolicy) (row : Alias) (criterion : Criterion) :
    FailsByCriterion (predicates policy row t criterion) := by
  cases criterion with
  | equality v => exact (operand_fails ht v).map _
  | membership vs =>
    refine (operands_fails ht policy vs).bind fun os _ => ?_
    cases os with
    | nil => exact .invalid _
    | cons o rest => exact .ok _
  | range min max =>
    refine (boundPredicate_fails ht row .lt max).bind fun below _ => ?_
    refine (boundPredicate_fails ht row .gt min).bind fun above _ => ?_
    split
    · exact .invalid _
    · exact .ok _

/-- On a table with a valid name only the criterion can be refused. -/
theorem add_fails {table : String} (htable : isIdentifier table.toList = true) (p : Plan)
    (criterion : Criterion) : FailsByCriterion (p.add table criterion t) := by
  have hname : TableName.parse table = .ok ⟨table, htable⟩ := by
    rw [TableName.parse, dif_pos htable]
  unfold add
  rw [hname]
  exact (predicates_fails ht p.policy ⟨p.size⟩ criterion).bind fun _ _ => .ok _

end Plan

namespace Registry

/-- The registry in which types have been registered, one after another. -/
def ofTypes (ts : List IndexType) : Registry := ts.foldl register empty

example : ofTypes [.integer, .string] = builtIn := rfl

theorem get_eq_ok {r : Registry} {name : String} {t : IndexType} :
    r.get name = .ok t ↔ r.types.get? name = some t := by
  unfold get
  cases r.types.get? name <;> simp

/-- A type is found under its own name only. -/
theorem of_get? {ts : List IndexType} {name : String} {t : IndexType}
    (h : (ofTypes ts).types.get? name = some t) : t.name = name ∧ t ∈ ts := by
  induction ts using List.reverseRecOn with
  | nil => cases h
  | append_singleton before last ih =>
    rw [ofTypes, List.foldl_append, List.foldl_cons, List.foldl_nil, register,
      Keyed.get?_insert] at h
    split at h
    · rename_i hname
      obtain rfl := Option.some.inj h
      exact ⟨hname, List.mem_append_right _ List.mem_cons_self⟩
    · obtain ⟨hname, hmem⟩ := ih h
      exact ⟨hname, List.mem_append_left _ hmem⟩

/-- Does the registry accept an index of that name and type? -/
def accepts (r : Registry) (name typeName : String) : Bool :=
  (r.types.get? typeName).isSome && isIdentifier (Catalog.tableStem ++ name).toList

/-- The type of the last accepted registration of a name. -/
def latest? (r : Registry) (calls : List (String × String)) (name : String) : Option String :=
  (calls.reverse.find? fun call => call.1 = name && r.accepts name call.2).map (·.2)

theorem latest?_append (r : Registry) (calls : List (String × String)) (call : String × String)
    (name : String) :
    r.latest? (calls ++ [call]) name =
      if call.1 = name ∧ r.accepts call.1 call.2 then some call.2 else r.latest? calls name := by
  unfold latest?
  rw [List.reverse_append, List.reverse_singleton, List.singleton_append, List.find?_cons]
  by_cases hname : call.1 = name
  · subst hname
    cases r.accepts call.1 call.2 <;> simp
  · simp [hname]

theorem accepts_of_latest? {r : Registry} {calls : List (String × String)} {name typeName : String}
    (h : r.latest? calls name = some typeName) : r.accepts name typeName = true := by
  obtain ⟨call, hcall, rfl⟩ := Option.map_eq_some_iff.mp h
  have hfound := List.find?_some hcall
  exact (Bool.and_eq_true_iff.mp hfound).2

end Registry

/-- What an accepted registration puts into a catalog. -/
def IndexDefinition.of (name typeName : String) : IndexDefinition :=
  ⟨name, Catalog.tableStem ++ name, typeName⟩

/-- The definition, which is filed under a name, can be used with the registry. -/
structure IndexDefinition.Usable (r : Registry) (name : String) (d : IndexDefinition) : Prop where
  filed : d.name = name
  table : d.table = Catalog.tableStem ++ name
  tableName : isIdentifier d.table.toList = true
  type : ∃ t, r.get d.typeName = .ok t

theorem Registry.usable_of_accepts {r : Registry} {name typeName : String}
    (h : r.accepts name typeName = true) : (IndexDefinition.of name typeName).Usable r name := by
  obtain ⟨htype, htable⟩ := Bool.and_eq_true_iff.mp h
  obtain ⟨t, ht⟩ := Option.isSome_iff_exists.mp htype
  exact ⟨rfl, rfl, htable, t, Registry.get_eq_ok.mpr ht⟩

namespace Catalog

theorem index_eq_ok {c : Catalog} {name : String} {d : IndexDefinition} :
    c.index name = .ok d ↔ c.indexes.get? name = some d := by
  unfold index
  cases c.indexes.get? name <;> simp

theorem tableStem_append_injective : Function.Injective (tableStem ++ ·) := by
  intro a b h
  have hchars := congrArg String.toList h
  simp only [String.toList_append] at hchars
  exact String.toList_injective (List.append_cancel_left hchars)

/-- The catalog after a registration, accepted or not. -/
def afterCall (c : Catalog) (call : String × String) : Catalog :=
  match c.register call.1 call.2 with
  | .ok (_, c) => c
  | .error _ => c

/-- The catalog after registrations, one after another. -/
def afterCalls (c : Catalog) (calls : List (String × String)) : Catalog := calls.foldl afterCall c

variable {ts : List IndexType} {c : Catalog}

theorem register_accepted (hc : c.registry = .ofTypes ts) {name typeName : String}
    (h : c.registry.accepts name typeName = true) :
    c.register name typeName = .ok (.of name typeName,
      { c with indexes := c.indexes.insert name (.of name typeName) }) := by
  obtain ⟨htype, htable⟩ := Bool.and_eq_true_iff.mp h
  obtain ⟨t, ht⟩ := Option.isSome_iff_exists.mp htype
  have hname : t.name = typeName := by
    rw [hc] at ht
    exact (Registry.of_get? ht).1
  subst hname
  exact bind_eq_ok.mpr ⟨t, Registry.get_eq_ok.mpr ht,
    bind_eq_ok.mpr ⟨⟨tableStem ++ name, htable⟩, dif_pos htable, rfl⟩⟩

theorem register_refused {name typeName : String} (h : c.registry.accepts name typeName = false) :
    ∃ e, c.register name typeName = .error e := by
  cases hrun : c.register name typeName with
  | error e => exact ⟨e, rfl⟩
  | ok made =>
    obtain ⟨t, ht, hrun⟩ := bind_eq_ok.mp hrun
    obtain ⟨table, htable, -⟩ := bind_eq_ok.mp hrun
    have htype : (c.registry.types.get? typeName).isSome = true := by
      rw [Registry.get_eq_ok.mp ht]
      rfl
    have hvalid : isIdentifier (tableStem ++ name).toList = true := by
      unfold TableName.parse at htable
      split at htable
      · assumption
      · cases htable
    rw [Registry.accepts, htype, hvalid] at h
    cases h

/-- What the catalog holds has no part in whether a registration is accepted. -/
theorem accepts_iff (hc : c.registry = .ofTypes ts) {name typeName : String} :
    c.registry.accepts name typeName = true ↔ ∃ made, c.register name typeName = .ok made := by
  constructor
  · intro h
    exact ⟨_, register_accepted hc h⟩
  · rintro ⟨made, hmade⟩
    by_contra h
    obtain ⟨e, he⟩ := register_refused (Bool.eq_false_iff.mpr h)
    cases hmade.symm.trans he

/-- A registration that is refused changes nothing. -/
theorem afterCall_eq (hc : c.registry = .ofTypes ts) (call : String × String) :
    c.afterCall call =
      if c.registry.accepts call.1 call.2 then
        { c with indexes := c.indexes.insert call.1 (.of call.1 call.2) }
      else c := by
  unfold afterCall
  split_ifs with haccepted
  · rw [register_accepted hc haccepted]
  · obtain ⟨e, he⟩ := register_refused (Bool.eq_false_iff.mpr haccepted)
    rw [he]

theorem registry_afterCalls (hc : c.registry = .ofTypes ts) (calls : List (String × String)) :
    (c.afterCalls calls).registry = c.registry ∧ (c.afterCalls calls).policy = c.policy := by
  induction calls generalizing c with
  | nil => exact ⟨rfl, rfl⟩
  | cons call rest ih =>
    have hsame : (c.afterCall call).registry = c.registry ∧
        (c.afterCall call).policy = c.policy := by
      rw [afterCall_eq hc]
      split <;> exact ⟨rfl, rfl⟩
    obtain ⟨hregistry, hpolicy⟩ := ih (hsame.1.trans hc)
    exact ⟨hregistry.trans hsame.1, hpolicy.trans hsame.2⟩

/-- Registrations that are refused leave no trace. -/
theorem afterCalls_accepted (hc : c.registry = .ofTypes ts) (calls : List (String × String)) :
    c.afterCalls calls =
      c.afterCalls (calls.filter fun call => c.registry.accepts call.1 call.2) := by
  induction calls generalizing c with
  | nil => rfl
  | cons call rest ih =>
    have hstep := afterCall_eq hc call
    rw [List.filter_cons]
    split_ifs at hstep ⊢ with haccepted
    · have hregistry : (c.afterCall call).registry = c.registry := by rw [hstep]
      have hrest := ih (hregistry.trans hc)
      rw [hregistry] at hrest
      exact hrest
    · rw [← ih hc]
      exact congrArg (fun c => afterCalls c rest) hstep

/-- **Each index is defined by the last accepted registration of its name.** -/
theorem get?_afterCalls (ts : List IndexType) (policy : MembershipPolicy)
    (calls : List (String × String)) (name : String) :
    (({ registry := .ofTypes ts, policy } : Catalog).afterCalls calls).indexes.get? name =
      ((Registry.ofTypes ts).latest? calls name).map (.of name) := by
  induction calls using List.reverseRecOn with
  | nil => rfl
  | append_singleton before call ih =>
    have hregistry := (registry_afterCalls (c := { registry := .ofTypes ts, policy }) rfl before).1
    rw [Registry.latest?_append, afterCalls, List.foldl_append, List.foldl_cons, List.foldl_nil,
      ← afterCalls, afterCall_eq hregistry, hregistry]
    by_cases haccepted : (Registry.ofTypes ts).accepts call.1 call.2 = true
    · rw [if_pos haccepted, Keyed.get?_insert]
      by_cases hname : call.1 = name
      · subst hname
        simp [haccepted]
      · simp [hname, ih]
    · simp [haccepted, ih]

theorem usable_afterCalls {policy : MembershipPolicy} {calls : List (String × String)}
    {name : String} {d : IndexDefinition}
    (h : (({ registry := .ofTypes ts, policy } : Catalog).afterCalls calls).indexes.get? name =
      some d) :
    d.Usable (.ofTypes ts) name ∧
      ∃ typeName, (Registry.ofTypes ts).latest? calls name = some typeName ∧
        d = .of name typeName := by
  rw [get?_afterCalls] at h
  obtain ⟨typeName, hlatest, rfl⟩ := Option.map_eq_some_iff.mp h
  have haccepted := Registry.accepts_of_latest? hlatest
  exact ⟨Registry.usable_of_accepts haccepted, typeName, hlatest, rfl⟩

theorem extend_eq_foldlM {typeOf : String → IndexType} {criteria : List (String × Criterion)}
    (h : ∀ x ∈ criteria, ∃ d, c.index x.1 = .ok d ∧ d.table = tableStem ++ x.1 ∧
      c.registry.get d.typeName = .ok (typeOf x.1)) (p : Plan) :
    c.extend p criteria =
      criteria.foldlM (fun p x => p.add (tableStem ++ x.1) x.2 (typeOf x.1)) p := by
  induction criteria generalizing p with
  | nil => rfl
  | cons x rest ih =>
    obtain ⟨⟨d, hd, htable, ht⟩, hrest⟩ := List.forall_mem_cons.mp h
    have hresolve : c.resolve x.1 = .ok (d, typeOf x.1) :=
      bind_eq_ok.mpr ⟨d, hd, bind_eq_ok.mpr ⟨typeOf x.1, ht, rfl⟩⟩
    unfold extend
    rw [hresolve, List.foldlM_cons, ← htable]
    show (p.add d.table x.2 (typeOf x.1) >>= fun p => c.extend p rest) = _
    congr 1
    funext next
    exact ih hrest next

theorem foldlM_fails {typeOf : String → IndexType} {criteria : List (String × Criterion)}
    (h : ∀ x ∈ criteria, (typeOf x.1).BlamesCriterion ∧
      isIdentifier (tableStem ++ x.1).toList = true) (p : Plan) :
    FailsByCriterion
      (criteria.foldlM (fun p x => p.add (tableStem ++ x.1) x.2 (typeOf x.1)) p) := by
  induction criteria generalizing p with
  | nil => exact .ok p
  | cons x rest ih =>
    obtain ⟨⟨ht, htable⟩, hrest⟩ := List.forall_mem_cons.mp h
    rw [List.foldlM_cons]
    exact (Plan.add_fails ht htable p x.2).bind fun next _ => ih hrest next

/-- A plan to which a criterion has been added has a query. -/
theorem query_extend {criteria : List (String × Criterion)} {p p' : Plan}
    (h : c.extend p criteria = .ok p') (hp : p.query.isSome = true ∨ criteria ≠ []) :
    p'.query.isSome = true := by
  induction criteria generalizing p with
  | nil =>
    obtain rfl := Except.ok.inj h
    exact hp.resolve_right fun hne => hne rfl
  | cons x rest ih =>
    obtain ⟨⟨d, t⟩, -, h⟩ := bind_eq_ok.mp h
    obtain ⟨next, hnext, h⟩ := bind_eq_ok.mp h
    obtain ⟨b, -, rfl⟩ := Plan.add_eq_ok hnext
    exact ih h (Or.inl rfl)

/-- A statement may be missing because of a criterion, or because there is none. -/
theorem compile_fails {criteria : List (String × Criterion)}
    (hplan : FailsByCriterion (c.plan criteria)) {e : QueryError}
    (h : c.compile criteria = .error e) :
    (∃ reason, e = .invalidCriterion reason) ∨ criteria = [] ∧ e = .emptyPlan := by
  cases hrun : c.plan criteria with
  | error e' =>
    rw [compile, hrun] at h
    obtain rfl : e' = e := Except.error.inj h
    exact Or.inl (hplan e' hrun)
  | ok p =>
    rw [compile, hrun] at h
    have hbuild : p.build.map Select.toSql = .error e := h
    cases hquery : p.query with
    | none =>
      rw [Plan.build, hquery] at hbuild
      refine Or.inr ⟨?_, (Except.error.inj hbuild).symm⟩
      by_contra hne
      have hsome := query_extend hrun (Or.inr hne)
      rw [hquery] at hsome
      cases hsome
    | some q =>
      rw [Plan.build, hquery] at hbuild
      cases hbuild

/-- The types of all indexes that are known after registrations. -/
theorem exists_typeOf (ts : List IndexType) (policy : MembershipPolicy)
    (calls : List (String × String)) :
    ∃ typeOf : String → IndexType, ∀ name d,
      (({ registry := .ofTypes ts, policy } : Catalog).afterCalls calls).index name = .ok d →
      d.Usable (.ofTypes ts) name ∧ (Registry.ofTypes ts).latest? calls name = some d.typeName ∧
        (Registry.ofTypes ts).get d.typeName = .ok (typeOf name) := by
  have hone : ∀ name, ∃ t, ∀ d,
      (({ registry := .ofTypes ts, policy } : Catalog).afterCalls calls).index name = .ok d →
      d.Usable (.ofTypes ts) name ∧ (Registry.ofTypes ts).latest? calls name = some d.typeName ∧
        (Registry.ofTypes ts).get d.typeName = .ok t := by
    intro name
    cases hindex :
      (({ registry := .ofTypes ts, policy } : Catalog).afterCalls calls).index name with
    | error e => exact ⟨.integer, nofun⟩
    | ok d =>
      obtain ⟨husable, typeName, hlatest, rfl⟩ := usable_afterCalls (index_eq_ok.mp hindex)
      obtain ⟨t, ht⟩ := husable.type
      refine ⟨t, fun d' hd => ?_⟩
      obtain rfl := Except.ok.inj hd
      exact ⟨husable, hlatest, ht⟩
  choose typeOf htypeOf using hone
  exact ⟨typeOf, htypeOf⟩

/-- **A catalog holds only definitions that it can use.** Over any registry, and after any
registrations: whether one is accepted is up to the registry and the name; those that were refused
left no trace; each index is defined by the last accepted one of its name; each definition is filed
under its own name, on a table of its own with a valid name and with a type that the registry finds.
A plan over known indexes then comes from adding the criteria in order, each on the table and with
the type of its index, and if the types refuse values only as invalid criteria, then so does the
plan; a statement may also be missing because there is no criterion. -/
theorem definitions_usable (ts : List IndexType) (policy : MembershipPolicy)
    (calls : List (String × String)) (hts : ∀ t ∈ ts, t.BlamesCriterion) :
    let registry := Registry.ofTypes ts
    let new : Catalog := { registry, policy }
    let c := new.afterCalls calls
    (∀ name typeName, registry.accepts name typeName = true ↔
      ∃ made, c.register name typeName = .ok made) ∧
    (∀ call, (∃ e, c.register call.1 call.2 = .error e) →
      new.afterCalls (calls ++ [call]) = c) ∧
    c = new.afterCalls (calls.filter fun call => registry.accepts call.1 call.2) ∧
    (∀ name, c.indexes.get? name = (registry.latest? calls name).map (.of name)) ∧
    (∀ entry ∈ c.indexes.entries, entry.2.Usable registry entry.1) ∧
    (∀ entry ∈ c.indexes.entries, ∀ other ∈ c.indexes.entries, entry.1 ≠ other.1 →
      entry.2.table ≠ other.2.table) ∧
    ∀ criteria : List (String × Criterion), (∀ x ∈ criteria, ∃ d, c.index x.1 = .ok d) →
      (∃ typeOf : String → IndexType,
        (∀ x ∈ criteria, ∃ typeName, registry.latest? calls x.1 = some typeName ∧
          registry.get typeName = .ok (typeOf x.1)) ∧
        c.plan criteria =
          criteria.foldlM (fun p x => p.add (tableStem ++ x.1) x.2 (typeOf x.1)) { policy }) ∧
      FailsByCriterion (c.plan criteria) ∧
      ∀ e, c.compile criteria = .error e →
        (∃ reason, e = .invalidCriterion reason) ∨ criteria = [] ∧ e = .emptyPlan := by
  intro registry new c
  obtain ⟨hregistry, hpolicy⟩ := registry_afterCalls (c := new) rfl calls
  have hindexed {name : String} {d : IndexDefinition} (h : (name, d) ∈ c.indexes.entries) :
      d.Usable registry name :=
    (usable_afterCalls (Keyed.get?_eq_some_iff.mpr h)).1
  refine ⟨fun name typeName => ?_, fun call ⟨e, he⟩ => ?_, afterCalls_accepted rfl calls,
    get?_afterCalls ts policy calls, fun entry => hindexed, fun entry hentry other hother hne => ?_,
    fun criteria hknown => ?_⟩
  · rw [← accepts_iff hregistry, hregistry]
  · rw [afterCalls, List.foldl_append]
    show c.afterCall call = c
    rw [afterCall, he]
  · rw [(hindexed hentry).table, (hindexed hother).table]
    exact fun h => hne (tableStem_append_injective h)
  · obtain ⟨typeOf, htypeOf⟩ := exists_typeOf ts policy calls
    have hplan : c.plan criteria =
        criteria.foldlM (fun p x => p.add (tableStem ++ x.1) x.2 (typeOf x.1)) { policy } := by
      rw [plan, hpolicy]
      refine extend_eq_foldlM (fun x hx => ?_) _
      obtain ⟨d, hd⟩ := hknown x hx
      obtain ⟨husable, -, ht⟩ := htypeOf x.1 d hd
      exact ⟨d, hd, husable.table, hregistry ▸ ht⟩
    have hfails : FailsByCriterion (c.plan criteria) := by
      rw [hplan]
      refine foldlM_fails (fun x hx => ?_) _
      obtain ⟨d, hd⟩ := hknown x hx
      obtain ⟨husable, -, ht⟩ := htypeOf x.1 d hd
      have hmem := (Registry.of_get? (Registry.get_eq_ok.mp ht)).2
      exact ⟨hts _ hmem, husable.table ▸ husable.tableName⟩
    refine ⟨⟨typeOf, fun x hx => ?_, hplan⟩, hfails, fun e he => compile_fails hfails he⟩
    obtain ⟨d, hd⟩ := hknown x hx
    obtain ⟨-, hlatest, ht⟩ := htypeOf x.1 d hd
    exact ⟨d.typeName, hlatest, ht⟩

/-- Four registrations: the second has no valid table name, the third no known type, and the last
one replaces the first. -/
def fourCalls : List (String × String) :=
  [("age", "integer"), ("a-b", "integer"), ("age", "date"), ("age", "string")]

theorem definitions_usable_replaced :
    let c := ({ registry := .ofTypes [.integer, .string] } : Catalog).afterCalls fourCalls
    (∀ t ∈ [IndexType.integer, .string], t.BlamesCriterion) ∧
      c.indexes.get? "age" = some (.of "age" "string") ∧ c.indexes.get? "a-b" = none ∧
      (∀ entry ∈ c.indexes.entries, entry.2.Usable (.ofTypes [.integer, .string]) entry.1) ∧
      ∃ t, Registry.builtIn.get "string" = .ok t ∧
        c.plan [("age", .equality (.text "ten"))] =
          ({} : Plan).add "_t_docsync_index_age" (.equality (.text "ten")) t := by
  have hts : ∀ t ∈ [IndexType.integer, .string], t.BlamesCriterion :=
    List.forall_mem_cons.mpr ⟨IndexType.blames_integer,
      List.forall_mem_singleton.mpr IndexType.blames_string⟩
  obtain ⟨-, -, -, hindexes, husable, -, hplans⟩ := definitions_usable _ .strict fourCalls hts
  have hage : (Registry.ofTypes [.integer, .string]).latest? fourCalls "age" = some "string" := by
    cbv
  have hother : (Registry.ofTypes [.integer, .string]).latest? fourCalls "a-b" = none := by cbv
  have hknown := (hindexes "age").trans (congrArg _ hage)
  obtain ⟨⟨typeOf, htypes, hplan⟩, -, -⟩ := hplans [("age", .equality (.text "ten"))]
    (List.forall_mem_singleton.mpr ⟨_, index_eq_ok.mpr hknown⟩)
  obtain ⟨typeName, hlatest, ht⟩ := List.forall_mem_singleton.mp htypes
  obtain rfl := Option.some.inj (hage.symm.trans hlatest)
  refine ⟨hts, hknown, (hindexes "a-b").trans (congrArg _ hother), husable, _, ht, ?_⟩
  rw [hplan, List.foldlM_cons]
  exact bind_pure _

end Catalog

end Replica
