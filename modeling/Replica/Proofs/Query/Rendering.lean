import Replica.Proofs.Query.Clauses
import Replica.Proofs.Query.Template

/-!
# The two renderings of a plan

The text of a plan and its text with placeholders come from one template, so they differ in their
literals only, and the values to bind are those of the literals, in order. Each literal was written
by the index type of a clause; the built-in types write one that denotes the value.

Tokens are those of `Sql.lex`. What an engine does with them is not described.
-/
namespace Replica

/-- The token is the integer or the text that the value is. -/
def Sql.Token.Denotes : Token → IndexValue → Prop
  | .integer n, .integer i => n = i.toInt
  | .text s, .text s' => s = s'
  | _, _ => False

open Sql

namespace Plan

variable {t : IndexType} {o : Operand}

theorem exists_operand_eq {policy : MembershipPolicy} {vs : List IndexValue} {os : List Operand}
    (h : operands policy t vs = .ok os) (ho : o ∈ os) : ∃ v, operand t v = .ok o := by
  induction vs generalizing os with
  | nil =>
    cases h
    contradiction
  | cons v rest ih =>
    unfold operands at h
    split at h
    · obtain ⟨first, hfirst, h⟩ := bind_eq_ok.mp h
      obtain ⟨others, hrest, h⟩ := bind_eq_ok.mp h
      cases h
      rcases List.mem_cons.mp ho with rfl | ho
      · exact ⟨v, hfirst⟩
      · exact ih hrest ho
    · cases policy with
      | strict => contradiction
      | permissive => exact ih h ho

/-- Every operand comes from a value of the criterion. -/
theorem exists_operand_of_mem_predicates {policy : MembershipPolicy} {row : Alias} {c : Criterion}
    {ps : List Predicate} (h : predicates policy row t c = .ok ps) {p : Predicate} (hp : p ∈ ps)
    (ho : o ∈ p.operands) : ∃ v, operand t v = .ok o := by
  have hbound : ∀ {op bound ps}, boundPredicate row t op bound = .ok ps → p ∈ ps →
      ∃ v, operand t v = .ok o := by
    intro op bound ps hb hp
    rcases boundPredicate_eq_ok hb with ⟨-, rfl⟩ | ⟨v, o', -, ho', rfl⟩
    · contradiction
    · obtain rfl := List.mem_singleton.mp hp
      obtain rfl := List.mem_singleton.mp ho
      exact ⟨v, ho'⟩
  rcases predicates_eq_ok h with ⟨v, o', -, ho', rfl⟩ | ⟨vs, os, -, hos, -, rfl⟩ |
    ⟨min, max, below, above, -, hb, ha, rfl, -⟩
  · obtain rfl := List.mem_singleton.mp hp
    obtain rfl := List.mem_singleton.mp ho
    exact ⟨v, ho'⟩
  · obtain rfl := List.mem_singleton.mp hp
    exact exists_operand_eq hos ho
  · rcases List.mem_append.mp hp with hp | hp
    · exact hbound hb hp
    · exact hbound ha hp

/-- The literal of an operand is what the index type of a clause wrote for its value. -/
theorem Built.escape_eq {p : Plan} {cs : List Clause} (h : Built p cs) {q : Select}
    (hq : p.query = some q) (ho : o ∈ q.operands) :
    ∃ c ∈ cs, c.type.escape o.value = .ok o.literal := by
  obtain ⟨bs, hbs, -, hquery⟩ := h.blocks
  obtain ⟨pr, hpr, ho⟩ := List.mem_flatMap.mp ho
  rw [predicates_assemble (hquery.symm.trans hq)] at hpr
  obtain ⟨b, hb, hpr⟩ := List.mem_flatMap.mp hpr
  obtain ⟨i, c, hc, hcompile⟩ := hbs.exists_clause hb
  obtain ⟨v, hv⟩ := exists_operand_of_mem_predicates (compileClause_eq_ok hcompile).2.2 hpr ho
  exact ⟨c, hc, (operand_eq_ok hv).2.2⟩

/-- The built-in types write a literal that denotes the value. -/
theorem denotes_of_escape (ht : t = .integer ∨ t = .string) (h : t.escape o.value = .ok o.literal) :
    o.literal.token.Denotes o.value := by
  obtain ⟨literal, value⟩ := o
  rcases ht with rfl | rfl
  · cases value with
    | integer i =>
      cases h
      rfl
    | bool b => contradiction
    | text s => contradiction
  · cases value with
    | integer i => contradiction
    | bool b => contradiction
    | text s =>
      change Literal.quoted s = .ok literal at h
      unfold Literal.quoted at h
      split at h
      · contradiction
      · cases h
        rfl

/-- **Values change no structure.** A plan without clauses has no text. Otherwise its text and its
text with placeholders have the same tokens but for the literals, the literals and the values to
bind are those of the operands, in order, and a literal is what an index type wrote for the value.
If the types are the built-in ones, each literal denotes its value. -/
theorem lex_compile {p : Plan} {cs : List Clause} (h : Built p cs) :
    (cs = [] ∧ p.compile = .error .emptyPlan ∧ p.compileParameterized = .error .emptyPlan) ∨
    ∃ q sql bound params tokens, p.query = some q ∧ p.compile = .ok sql ∧
      p.compileParameterized = .ok (bound, params) ∧ lex sql.toList = some tokens ∧
      lex bound.toList = some (tokens.map Token.blank) ∧
      tokens.filter Token.isLiteral = q.operands.map (·.literal.token) ∧
      params = q.operands.map (·.value) ∧
      (∀ o ∈ q.operands, ∃ c ∈ cs, c.type.escape o.value = .ok o.literal) ∧
      ((∀ c ∈ cs, c.type = .integer ∨ c.type = .string) →
        List.Forall₂ Token.Denotes (tokens.filter Token.isLiteral) params) := by
  cases hq : p.query with
  | none =>
    refine Or.inl ⟨h.query_eq_none.mp hq, ?_, ?_⟩
    · rw [compile, build, hq]
      rfl
    · rw [compileParameterized, build, hq]
      rfl
  | some q =>
    have htok : ∀ o : Operand, o.literal.token.isLiteral = true :=
      fun o => o.literal.isLiteral_token
    have hsql := q.lex_toSql
    have hbound := q.lex_toParameterized
    have hseamless := Select.seamless_template q
    have hliterals := hseamless.filter_isLiteral htok
    rw [Select.operands_template] at hliterals
    rw [← hseamless.map_blank htok] at hbound
    have hescape : ∀ o ∈ q.operands, ∃ c ∈ cs, c.type.escape o.value = .ok o.literal :=
      fun o ho => h.escape_eq hq ho
    refine Or.inr ⟨q, q.toSql, q.toParameterized, q.parameters, _, rfl, ?_, ?_, hsql, hbound,
      hliterals, q.parameters_eq_map, hescape, fun hbuiltIn => ?_⟩
    · rw [compile, build, hq]
      rfl
    · rw [compileParameterized, build, hq]
      rfl
    · rw [hliterals, q.parameters_eq_map, List.forall₂_map_left_iff, List.forall₂_map_right_iff,
        List.forall₂_same]
      intro o ho
      obtain ⟨c, hc, hwritten⟩ := hescape o ho
      exact denotes_of_escape (hbuiltIn c hc) hwritten

/-- A text that looks like more of a statement. -/
def quotedClause : Clause :=
  ⟨"notes", .equality (.text "it's ?' OR idx0.value = 'x"), .string, .strict⟩

def scoreClause : Clause := ⟨"scores", .membership [.integer (-7), .bool true], .integer, .strict⟩

theorem lex_compile_quoted :
    ∃ p, Built p [quotedClause, scoreClause] ∧ ∃ sql bound params tokens, p.compile = .ok sql ∧
      p.compileParameterized = .ok (bound, params) ∧ lex sql.toList = some tokens ∧
      lex bound.toList = some (tokens.map Token.blank) ∧
      List.Forall₂ Token.Denotes (tokens.filter Token.isLiteral) params := by
  obtain ⟨p, hp⟩ : ∃ p, ({} : Plan).addAll [quotedClause, scoreClause] = .ok p := ⟨_, rfl⟩
  have htwo : Built p [quotedClause, scoreClause] := (Built.start .strict).addAll hp
  have hbuiltIn : ∀ c ∈ [quotedClause, scoreClause], c.type = .integer ∨ c.type = .string := by
    simp [quotedClause, scoreClause]
  rcases lex_compile htwo with ⟨hnil, -⟩ | ⟨q, sql, bound, params, tokens, -, hsql, hbound, htokens,
    hblank, -, -, -, hdenotes⟩
  · contradiction
  · exact ⟨p, htwo, sql, bound, params, tokens, hsql, hbound, htokens, hblank, hdenotes hbuiltIn⟩

end Plan

end Replica
