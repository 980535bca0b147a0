import Mathlib.Data.List.Dedup
import Mathlib.Data.List.Sections
import Replica.Proofs.Query.Clauses

/-!
# What a plan asks for

A statement is given its relational meaning over tables of rows: all ways to take one row of each
table, restricted by the join conditions and by the predicates, each read through its alias, then
the different document ids of the first table. A criterion has a meaning of its own, as a condition
on the single value of a row. The main theorem relates the two: the statement of a plan finds the
documents that have, for each criterion on its own, a row that satisfies all of it. How values
compare is left open.
-/
namespace Replica

/-- A row of an index table. -/
structure Row (δ υ : Type) where
  docid : δ
  value : υ

/-- The rows of each table. -/
abbrev Database (δ υ : Type) := String → List (Row δ υ)

/-- How a stored value compares with the value of an operand. -/
abbrev Meaning (υ : Type) := Comparison → υ → IndexValue → Bool

variable {δ υ : Type}

/-- Does the value of a row satisfy the predicate? -/
def Predicate.holds (m : Meaning υ) (x : υ) : Predicate → Bool
  | .compare _ op o => m op x o.value
  | .among _ os => os.any fun o => m .eq x o.value

/-- The value satisfies the criterion, with its values in the stored form of the index type. Members
that the type does not support do not count. -/
def Criterion.SatisfiedBy (m : Meaning υ) (t : IndexType) (x : υ) : Criterion → Prop
  | .equality v => ∃ stored, t.convert v = .ok stored ∧ m .eq x stored
  | .membership vs =>
    ∃ v ∈ vs, t.supports v ∧ ∃ stored, t.convert v = .ok stored ∧ m .eq x stored
  | .range min max =>
    (∀ v ∈ min, ∃ stored, t.convert v = .ok stored ∧ m .gt x stored) ∧
      ∀ v ∈ max, ∃ stored, t.convert v = .ok stored ∧ m .lt x stored

namespace Select

/-- A choice of one row for each alias. -/
abbrev Binding (δ υ : Type) := List (Alias × Row δ υ)

/-- All ways to take one row of each table. -/
def bindings (db : Database δ υ) (q : Select) : List (Binding δ υ) :=
  ((q.primary :: q.joins).map fun t => (db t.table.text).map fun row => (t.row, row)).sections

/-- The join condition of a table, read through the aliases. -/
def joined [DecidableEq δ] (primary : Alias) (b : Binding δ υ) (t : TableRef) : Bool :=
  match b.lookup primary, b.lookup t.row with
  | some x, some y => x.docid = y.docid
  | _, _ => false

/-- The condition of a predicate, read through its alias. -/
def selects (m : Meaning υ) (b : Binding δ υ) (p : Predicate) : Bool :=
  (b.lookup p.row).any fun row => p.holds m row.value

/-- The different document ids of the first table in the ways that meet all conditions. -/
def answer [DecidableEq δ] (db : Database δ υ) (m : Meaning υ) (q : Select) : List δ :=
  (((q.bindings db).filter fun b =>
    q.joins.all (joined q.primary.row b) && q.predicates.all (selects m b)).filterMap fun b =>
      (b.lookup q.primary.row).map (·.docid)).dedup

/-- The entry is a row of the block's table under the block's alias. -/
def Fits (db : Database δ υ) (entry : Alias × Row δ υ) (b : Block) : Prop :=
  entry.1 = b.ref.row ∧ entry.2 ∈ db b.ref.table.text

/-- The row is one of the document and satisfies all the block's predicates. -/
def Serves (m : Meaning υ) (d : δ) (row : Row δ υ) (b : Block) : Prop :=
  row.docid = d ∧ ∀ p ∈ b.predicates, p.holds m row.value = true

theorem mem_bindings {db : Database δ υ} {q : Select} {bs : List Block}
    (hq : Plan.assemble bs = some q) {choice : Binding δ υ} :
    choice ∈ q.bindings db ↔ List.Forall₂ (Fits db) choice bs := by
  have hfits : ∀ (entry : Alias × Row δ υ) (b : Block),
      entry ∈ ((db b.ref.table.text).map fun row => (b.ref.row, row)) ↔ Fits db entry b := by
    intro entry b
    obtain ⟨a, row⟩ := entry
    simp only [List.mem_map, Prod.mk.injEq, Fits]
    constructor
    · rintro ⟨row', hrow, rfl, rfl⟩
      exact ⟨rfl, hrow⟩
    · rintro ⟨rfl, hrow⟩
      exact ⟨row, hrow, rfl, rfl⟩
  unfold bindings
  rw [List.mem_sections, Plan.tables_assemble hq, List.map_map, List.forall₂_map_right_iff]
  exact ⟨fun h => h.imp fun e b => (hfits e b).mp, fun h => h.imp fun e b => (hfits e b).mpr⟩

/-- Under distinct aliases each block finds its own entry. -/
theorem lookup_of_forall₂ {S : Alias × Row δ υ → Block → Prop}
    (hS : ∀ entry b, S entry b → entry.1 = b.ref.row) {choice : Binding δ υ} {bs : List Block}
    (h : List.Forall₂ S choice bs) (hd : (bs.map (·.ref.row)).Nodup) {b : Block} (hb : b ∈ bs) :
    ∃ row, S (b.ref.row, row) b ∧ choice.lookup b.ref.row = some row := by
  induction h with
  | nil => contradiction
  | @cons entry first choice rest he _ ih =>
    obtain ⟨a, row⟩ := entry
    obtain rfl : a = first.ref.row := hS _ _ he
    obtain ⟨hfirst, hrest⟩ := List.nodup_cons.mp hd
    rcases List.mem_cons.mp hb with rfl | hb
    · exact ⟨row, he, List.lookup_cons_self⟩
    · obtain ⟨found, hf, hl⟩ := ih hrest hb
      have hne : b.ref.row ≠ first.ref.row := fun heq =>
        hfirst (List.mem_map.mpr ⟨b, hb, heq⟩)
      refine ⟨found, hf, ?_⟩
      rw [List.lookup_cons, beq_false_of_ne hne]
      exact hl

theorem exists_forall₂ {α β : Type} {S : α → β → Prop} {bs : List β}
    (h : ∀ b ∈ bs, ∃ a, S a b) : ∃ as, List.Forall₂ S as bs := by
  induction bs with
  | nil => exact ⟨[], .nil⟩
  | cons b rest ih =>
    obtain ⟨a, ha⟩ := h b List.mem_cons_self
    obtain ⟨as, has⟩ := ih fun b hb => h b (List.mem_cons_of_mem _ hb)
    exact ⟨a :: as, .cons ha has⟩

/-- The conditions of a statement hold of a choice of rows. -/
def Meets [DecidableEq δ] (m : Meaning υ) (q : Select) (choice : Binding δ υ) : Prop :=
  (∀ t ∈ q.joins, joined q.primary.row choice t = true) ∧
    ∀ p ∈ q.predicates, selects m choice p = true

theorem mem_answer [DecidableEq δ] {db : Database δ υ} {m : Meaning υ} {q : Select} {d : δ} :
    d ∈ q.answer db m ↔ ∃ choice ∈ q.bindings db, Meets m q choice ∧
      ∃ row, choice.lookup q.primary.row = some row ∧ row.docid = d := by
  simp only [answer, Meets, List.mem_dedup, List.mem_filterMap, List.mem_filter, Bool.and_eq_true,
    List.all_eq_true, Option.map_eq_some_iff, and_assoc]

section Blocks

variable [DecidableEq δ] {db : Database δ υ} {m : Meaning υ} {q : Select} {bs : List Block}

theorem serves_of_meets (hq : Plan.assemble bs = some q) (hd : (bs.map (·.ref.row)).Nodup)
    (hown : ∀ b ∈ bs, ∀ p ∈ b.predicates, p.row = b.ref.row) {choice : Binding δ υ}
    (hchoice : choice ∈ q.bindings db) (hmeets : Meets m q choice) {first : Row δ υ}
    (hfirst : choice.lookup q.primary.row = some first) {b : Block} (hb : b ∈ bs) :
    ∃ row ∈ db b.ref.table.text, Serves m first.docid row b := by
  have hforall := (mem_bindings hq).mp hchoice
  obtain ⟨row, ⟨-, hrow⟩, hl⟩ := lookup_of_forall₂ (fun _ _ h => h.1) hforall hd hb
  refine ⟨row, hrow, ?_, ?_⟩
  · have href : b.ref ∈ q.primary :: q.joins := Plan.tables_assemble hq ▸ List.mem_map_of_mem hb
    rcases List.mem_cons.mp href with hprim | hjoin
    · rw [← hprim, hl] at hfirst
      rw [Option.some.inj hfirst]
    · have hj := hmeets.1 b.ref hjoin
      simp only [joined, hfirst, hl, decide_eq_true_eq] at hj
      exact hj.symm
  · intro p hp
    have hs := hmeets.2 p (Plan.predicates_assemble hq ▸ List.mem_flatMap.mpr ⟨b, hb, hp⟩)
    rw [selects, hown b hb p hp, hl] at hs
    exact hs

theorem meets_of_serves (hq : Plan.assemble bs = some q) (hd : (bs.map (·.ref.row)).Nodup)
    (hown : ∀ b ∈ bs, ∀ p ∈ b.predicates, p.row = b.ref.row) {d : δ} {choice : Binding δ υ}
    (hchoice : List.Forall₂ (fun entry b => Fits db entry b ∧ Serves m d entry.2 b) choice bs) :
    Meets m q choice ∧ ∃ row, choice.lookup q.primary.row = some row ∧ row.docid = d := by
  have hlookup : ∀ b ∈ bs, ∃ row, choice.lookup b.ref.row = some row ∧ Serves m d row b := by
    intro b hb
    obtain ⟨row, ⟨-, hserves⟩, hl⟩ := lookup_of_forall₂ (fun _ _ h => h.1.1) hchoice hd hb
    exact ⟨row, hl, hserves⟩
  have href : ∀ t ∈ q.primary :: q.joins, ∃ row, choice.lookup t.row = some row ∧
      row.docid = d := by
    intro t ht
    rw [Plan.tables_assemble hq] at ht
    obtain ⟨b, hb, rfl⟩ := List.mem_map.mp ht
    obtain ⟨row, hl, hdoc, -⟩ := hlookup b hb
    exact ⟨row, hl, hdoc⟩
  obtain ⟨first, hfirst, hdoc⟩ := href q.primary List.mem_cons_self
  refine ⟨⟨?_, ?_⟩, first, hfirst, hdoc⟩
  · intro t ht
    obtain ⟨row, hl, hrow⟩ := href t (List.mem_cons_of_mem _ ht)
    simp only [joined, hfirst, hl, hdoc, hrow, decide_true]
  · intro p hp
    rw [Plan.predicates_assemble hq] at hp
    obtain ⟨b, hb, hpb⟩ := List.mem_flatMap.mp hp
    obtain ⟨row, hl, -, hall⟩ := hlookup b hb
    rw [selects, hown b hb p hpb, hl]
    exact hall p hpb

/-- Over blocks with aliases of their own, a statement finds the documents that have a row for each
block on its own. -/
theorem mem_answer_assemble (hq : Plan.assemble bs = some q) (hd : (bs.map (·.ref.row)).Nodup)
    (hown : ∀ b ∈ bs, ∀ p ∈ b.predicates, p.row = b.ref.row) {d : δ} :
    d ∈ q.answer db m ↔ ∀ b ∈ bs, ∃ row ∈ db b.ref.table.text, Serves m d row b := by
  rw [mem_answer]
  constructor
  · rintro ⟨choice, hchoice, hmeets, first, hfirst, rfl⟩ b hb
    exact serves_of_meets hq hd hown hchoice hmeets hfirst hb
  · intro h
    have hentries : ∀ b ∈ bs,
        ∃ entry : Alias × Row δ υ, Fits db entry b ∧ Serves m d entry.2 b := by
      intro b hb
      obtain ⟨row, hrow, hserves⟩ := h b hb
      exact ⟨(b.ref.row, row), ⟨rfl, hrow⟩, hserves⟩
    obtain ⟨choice, hchoice⟩ := exists_forall₂ hentries
    have hfits := hchoice.imp fun _ _ h => h.1
    exact ⟨choice, (mem_bindings hq).mpr hfits, meets_of_serves hq hd hown hchoice⟩

end Blocks

end Select

namespace Plan

variable {m : Meaning υ} {t : IndexType}

theorem holds_operand {v : IndexValue} {o : Operand} (h : operand t v = .ok o) (op : Comparison)
    (x : υ) : m op x o.value = true ↔ ∃ stored, t.convert v = .ok stored ∧ m op x stored := by
  have hv := (operand_eq_ok h).2.1
  constructor
  · intro hm
    exact ⟨o.value, hv, hm⟩
  · rintro ⟨stored, hs, hm⟩
    rw [hv] at hs
    rw [Except.ok.inj hs]
    exact hm

/-- Under either policy the operands of an accepted set are its supported members. -/
theorem holds_operands {policy : MembershipPolicy} {vs : List IndexValue} {os : List Operand}
    (h : operands policy t vs = .ok os) (x : υ) :
    (∃ o ∈ os, m .eq x o.value = true) ↔
      ∃ v ∈ vs, t.supports v ∧ ∃ stored, t.convert v = .ok stored ∧ m .eq x stored := by
  induction vs generalizing os with
  | nil =>
    cases h
    simp
  | cons v rest ih =>
    unfold operands at h
    split at h
    · rename_i hs
      obtain ⟨o, ho, h⟩ := bind_eq_ok.mp h
      obtain ⟨others, hrest, h⟩ := bind_eq_ok.mp h
      cases h
      simp only [List.exists_mem_cons_iff, holds_operand ho, ih hrest, hs, true_and]
    · rename_i hs
      cases policy with
      | strict => contradiction
      | permissive => simp [ih h, hs]

theorem holds_boundPredicate {row : Alias} {op : Comparison} {bound : Option IndexValue}
    {ps : List Predicate} (h : boundPredicate row t op bound = .ok ps) (x : υ) :
    (∀ p ∈ ps, p.holds m x = true) ↔
      ∀ v ∈ bound, ∃ stored, t.convert v = .ok stored ∧ m op x stored := by
  rcases boundPredicate_eq_ok h with ⟨rfl, rfl⟩ | ⟨v, o, rfl, ho, rfl⟩
  · simp
  · have hv := holds_operand (m := m) ho op x
    simpa [Predicate.holds] using hv

/-- The predicates of a criterion say of a single value what the criterion says. -/
theorem holds_predicates {policy : MembershipPolicy} {row : Alias} {c : Criterion}
    {ps : List Predicate} (h : predicates policy row t c = .ok ps) (x : υ) :
    (∀ p ∈ ps, p.holds m x = true) ↔ c.SatisfiedBy m t x := by
  rcases predicates_eq_ok h with ⟨v, o, rfl, ho, rfl⟩ | ⟨vs, os, rfl, hos, -, rfl⟩ |
    ⟨min, max, below, above, rfl, hb, ha, rfl, -⟩
  · have hv := holds_operand (m := m) ho .eq x
    simpa [Predicate.holds, Criterion.SatisfiedBy] using hv
  · have hvs := holds_operands (m := m) hos x
    simpa [Predicate.holds, Criterion.SatisfiedBy] using hvs
  · have hmin := holds_boundPredicate (m := m) ha x
    have hmax := holds_boundPredicate (m := m) hb x
    simp only [List.forall_mem_append, hmin, hmax, Criterion.SatisfiedBy]
    exact and_comm

theorem serves_compileClause {place : Nat} {c : Clause} {b : Block}
    (h : compileClause place c = .ok b) {d : δ} {row : Row δ υ} :
    Select.Serves m d row b ↔ row.docid = d ∧ c.criterion.SatisfiedBy m c.type row.value := by
  have hp := (compileClause_eq_ok h).2.2
  unfold Select.Serves
  rw [holds_predicates hp]

/-- **The join means the conjunction.** The statement of a plan with at least one clause finds, each
once, the documents that have for every clause a row of its table whose single value satisfies the
clause's criterion. Clauses on one table may be served by different rows. -/
theorem answer_built [DecidableEq δ] {p : Plan} {cs : List Clause} (h : Built p cs) (hne : cs ≠ [])
    (db : Database δ υ) (m : Meaning υ) :
    ∃ q, p.build = .ok q ∧ (q.answer db m).Nodup ∧
      ∀ d, d ∈ q.answer db m ↔ ∀ c ∈ cs, ∃ row ∈ db c.table,
        row.docid = d ∧ c.criterion.SatisfiedBy m c.type row.value := by
  obtain ⟨bs, hbs, -, hquery⟩ := h.blocks
  have hd : (bs.map (·.ref.row)).Nodup := by
    rw [hbs.rows]
    exact List.nodup_range.map fun i j hij => congrArg Alias.index hij
  have hown : ∀ b ∈ bs, ∀ p ∈ b.predicates, p.row = b.ref.row := by
    intro b hb p hp
    obtain ⟨i, c, -, hc⟩ := hbs.exists_clause hb
    obtain ⟨-, hrow, hps⟩ := compileClause_eq_ok hc
    rw [hrow]
    exact row_of_mem_predicates hps hp
  cases hq : assemble bs with
  | none => exact absurd (h.query_eq_none.mp (hquery.trans hq)) hne
  | some q =>
    refine ⟨q, by rw [build, hquery, hq], List.nodup_dedup _, fun d => ?_⟩
    rw [Select.mem_answer_assemble hq hd hown]
    constructor
    · intro hall c hc
      obtain ⟨i, b, hb, hcompile⟩ := hbs.exists_block hc
      obtain ⟨row, hrow, hserves⟩ := hall b hb
      rw [(compileClause_eq_ok hcompile).1] at hrow
      exact ⟨row, hrow, (serves_compileClause hcompile).mp hserves⟩
    · intro hall b hb
      obtain ⟨i, c, hc, hcompile⟩ := hbs.exists_clause hb
      obtain ⟨row, hrow, hserves⟩ := hall c hc
      rw [← (compileClause_eq_ok hcompile).1] at hrow
      exact ⟨row, hrow, (serves_compileClause hcompile).mpr hserves⟩

/-- Document 1 has both tags, in different rows. -/
def tagRows : Database Nat IndexValue := fun table =>
  if table = "tags" then [⟨1, .text "new"⟩, ⟨2, .text "new"⟩, ⟨1, .text "old"⟩] else []

def sameValue : Meaning IndexValue := fun op x y => decide (op = .eq ∧ x = y)

def tagClause (tag : String) : Clause := ⟨"tags", .equality (.text tag), .string, .strict⟩

theorem answer_built_tagRows :
    ∃ p, Built p [tagClause "new", tagClause "old"] ∧ [tagClause "new", tagClause "old"] ≠ [] ∧
      ∃ q, p.build = .ok q ∧ (q.answer tagRows sameValue).Nodup ∧
        ∀ d, d ∈ q.answer tagRows sameValue ↔ ∀ c ∈ [tagClause "new", tagClause "old"],
          ∃ row ∈ tagRows c.table,
            row.docid = d ∧ c.criterion.SatisfiedBy sameValue c.type row.value := by
  obtain ⟨p, hp⟩ : ∃ p, ({} : Plan).addAll [tagClause "new", tagClause "old"] = .ok p := ⟨_, rfl⟩
  have htwo : Built p [tagClause "new", tagClause "old"] := (Built.start .strict).addAll hp
  have hne : [tagClause "new", tagClause "old"] ≠ [] := List.cons_ne_nil _ _
  exact ⟨p, htwo, hne, answer_built htwo hne tagRows sameValue⟩

end Plan

end Replica
