import Mathlib
import Replica.Proofs.Query.Lexer

/-!
# The template of a statement

A statement is rendered from a template of fixed texts and operands. Each seam of the template lies
where no token can run across: the text before it ends in a blank or in punctuation, or the text
behind it begins with one. So the tokens of a rendering are the tokens of its parts, and an operand
that is one token stays that token, whatever characters it holds. The fixed texts hold no literals,
so the literals of a rendering are those of its operands.
-/
namespace Replica

namespace Sql

namespace Token

/-- Is the token an integer or a text? -/
def isLiteral : Token → Bool
  | .integer _ | .text _ => true
  | .word _ | .symbol _ => false

/-- The token with a placeholder in place of a literal. -/
def blank (t : Token) : Token := if t.isLiteral then .symbol '?' else t

end Token

/-- The text is read on its own, whatever follows. -/
def Closes (a : List Char) (ts : List Token) : Prop :=
  ∀ b, lex (a ++ b) = (lex b).map (ts ++ ·)

/-- The text ends what stands before it, and is read on its own. -/
structure Separates (s : List Char) (us : List Token) : Prop where
  breaks : ∀ b, Breaks (s ++ b)
  closes : Closes s us

theorem Closes.lex {a b : List Char} {ts us : List Token} (ha : Closes a ts)
    (hb : lex b = some us) : lex (a ++ b) = some (ts ++ us) := by
  rw [ha b, hb]
  rfl

theorem Closes.lex_self {a : List Char} {ts : List Token} (ha : Closes a ts) :
    Sql.lex a = some ts := by
  have hnil : Sql.lex [] = some [] := by rw [Sql.lex]
  simpa using ha.lex hnil

theorem breaks_of_separator {c : Char} (h : c = ' ' ∨ isPunctuation c = true) (cs : List Char) :
    Breaks (c :: cs) := by
  rcases h with rfl | h
  · exact breaks_cons cs (by decide) (by decide)
  · simp only [isPunctuation, List.contains_eq_mem, decide_eq_true_eq, List.mem_cons,
      List.not_mem_nil, or_false] at h
    rcases h with rfl | rfl | rfl | rfl | rfl | rfl | rfl | rfl <;>
      exact breaks_cons cs (by decide) (by decide)

theorem separates_blank : Separates [' '] [] := by
  refine ⟨fun b => breaks_of_separator (Or.inl rfl) b, fun b => ?_⟩
  rw [List.singleton_append, lex_blank]
  simp

theorem separates_symbol {c : Char} (h : isPunctuation c = true) : Separates [c] [.symbol c] :=
  ⟨fun b => breaks_of_separator (Or.inr h) b, fun b => lex_symbol h b⟩

section Seams

variable {a b s : List Char} {ts us vs : List Token}

theorem Separates.closes_append (hs : Separates s us) (ha : lex a = some ts) :
    Closes (a ++ s) (ts ++ us) := by
  intro b
  rw [List.append_assoc, lex_append ha (hs.breaks b), hs.closes b, Option.map_map]
  congr 1
  funext vs
  simp

theorem Separates.lex (hs : Separates s us) (ha : lex a = some ts) (hb : lex b = some vs) :
    lex (a ++ s ++ b) = some (ts ++ us ++ vs) := (hs.closes_append ha).lex hb

theorem closes_blank (ha : Sql.lex a = some ts) : Closes (a ++ [' ']) ts := by
  simpa using separates_blank.closes_append ha

/-- A text with a separator in front and a blank behind. -/
theorem separates_spaced {c : Char} (hc : c = ' ' ∨ isPunctuation c = true)
    (ha : Sql.lex (c :: a) = some ts) : Separates (c :: a ++ [' ']) ts :=
  ⟨fun _ => breaks_of_separator hc _, closes_blank ha⟩

end Seams

end Sql

open Sql

/-- The token that the literal is. -/
def Literal.token : Literal → Token
  | .integer i => .integer i.toInt
  | .text s _ => .text s

theorem Literal.lex_toChars (l : Literal) : lex l.toChars = some [l.token] := by
  cases l with
  | integer i => exact lex_integerChars i
  | text s _ => exact lex_quoted s

theorem Literal.isLiteral_token (l : Literal) : l.token.isLiteral = true := by cases l <;> rfl

/-- The operands of the condition, in order. -/
def Predicate.operands : Predicate → List Operand
  | .compare _ _ o => [o]
  | .among _ os => os

namespace Piece

/-- The part with an operand written as it is told. -/
def write (w : Operand → List Char) : Piece → List Char
  | .fixed chars => chars
  | .operand o => w o

/-- The tokens of the part, with an operand as the token it is told. -/
def tokens (tok : Operand → Token) : Piece → List Token
  | .fixed chars => (lex chars).getD []
  | .operand o => [tok o]

/-- The operand that the part is. -/
def operand? : Piece → Option Operand
  | .fixed _ => none
  | .operand o => some o

@[simp] theorem filterMap_operand?_fixed (chars : List Char) (rest : List Piece) :
    (.fixed chars :: rest).filterMap operand? = rest.filterMap operand? := rfl

@[simp] theorem filterMap_operand?_operand (o : Operand) (rest : List Piece) :
    (.operand o :: rest).filterMap operand? = o :: rest.filterMap operand? := rfl

theorem inlined_eq_write : inlined = write fun o => o.literal.toChars := by
  funext p
  cases p <;> rfl

theorem placeheld_eq_write : placeheld = write fun _ => ['?'] := by
  funext p
  cases p <;> rfl

theorem bound_eq_map : bound = fun p => p.operand?.map (·.value) := by
  funext p
  cases p <;> rfl

/-- No token runs across a seam between the parts, however operands are written, and the fixed texts
hold no literal. -/
inductive Seamless : List Piece → Prop
  | nil : Seamless []
  | fixed {chars : List Char} {ts : List Token} {rest : List Piece} (h : lex chars = some ts)
      (plain : ∀ t ∈ ts, t.isLiteral = false)
      (seam : Closes chars ts ∨ ∀ w, Breaks (rest.flatMap (write w))) :
      Seamless rest → Seamless (.fixed chars :: rest)
  | operand {o : Operand} {rest : List Piece} (seam : ∀ w, Breaks (rest.flatMap (write w))) :
      Seamless rest → Seamless (.operand o :: rest)

namespace Seamless

variable {parts : List Piece} {w : Operand → List Char} {tok : Operand → Token}

/-- **The tokens of a rendering are those of its parts**, whatever an operand is written as, as long
as that is one token. -/
theorem lex_write (h : Seamless parts) (hw : ∀ o, lex (w o) = some [tok o]) :
    lex (parts.flatMap (write w)) = some (parts.flatMap (tokens tok)) := by
  induction h with
  | nil => rw [List.flatMap_nil, lex, List.flatMap_nil]
  | @fixed chars ts rest hts _ seam _ ih =>
    rw [List.flatMap_cons, List.flatMap_cons]
    simp only [write, tokens, hts, Option.getD_some]
    rcases seam with hc | hb
    · exact hc.lex ih
    · rw [lex_append hts (hb w), ih]
      rfl
  | @operand o rest hb _ ih =>
    rw [List.flatMap_cons, List.flatMap_cons]
    simp only [write, tokens]
    rw [lex_append (hw o) (hb w), ih]
    rfl

theorem filter_isLiteral (h : Seamless parts) (htok : ∀ o, (tok o).isLiteral = true) :
    (parts.flatMap (tokens tok)).filter Token.isLiteral = (parts.filterMap operand?).map tok := by
  induction h with
  | nil => rfl
  | @fixed chars ts rest hts plain _ _ ih =>
    have hnone : ts.filter Token.isLiteral = [] :=
      List.filter_eq_nil_iff.mpr fun t ht => Bool.eq_false_iff.mp (plain t ht)
    rw [List.flatMap_cons, List.filter_append, ih]
    simp [tokens, hts, hnone]
  | @operand o rest _ _ ih =>
    rw [List.flatMap_cons, List.filter_append, ih]
    simp [tokens, htok o]

theorem map_blank (h : Seamless parts) (htok : ∀ o, (tok o).isLiteral = true) :
    (parts.flatMap (tokens tok)).map Token.blank = parts.flatMap (tokens fun _ => .symbol '?') := by
  induction h with
  | nil => rfl
  | @fixed chars ts rest hts plain _ _ ih =>
    have hblank : ∀ t ∈ ts, t.blank = id t := fun t ht =>
      if_neg (Bool.eq_false_iff.mp (plain t ht))
    have hsame : ts.map Token.blank = ts := by rw [List.map_congr_left hblank, List.map_id]
    rw [List.flatMap_cons, List.map_append, ih, List.flatMap_cons]
    simp [tokens, hts, hsame]
  | @operand o rest _ _ ih =>
    rw [List.flatMap_cons, List.map_append, ih, List.flatMap_cons]
    simp [tokens, Token.blank, htok o]

end Seamless

/-- The parts may stand behind an operand. -/
structure Continuation (parts : List Piece) : Prop where
  breaks : ∀ w, Breaks (parts.flatMap (write w))
  seamless : Seamless parts

theorem continuation_nil : Continuation [] :=
  ⟨fun _ _ h => absurd h (by simp), .nil⟩

theorem continuation_fixed {chars : List Char} {ts : List Token} {rest : List Piece}
    (hs : Separates chars ts) (plain : ∀ t ∈ ts, t.isLiteral = false) (h : Seamless rest) :
    Continuation (.fixed chars :: rest) :=
  ⟨fun _ => hs.breaks _, .fixed hs.closes.lex_self plain (Or.inl hs.closes) h⟩

theorem Continuation.operand {rest : List Piece} (h : Continuation rest) (o : Operand) :
    Seamless (.operand o :: rest) := .operand h.breaks h.seamless

end Piece

theorem Alias.lex_toChars (a : Alias) : lex a.toChars = some [.word a.text] := by
  apply lex_word
  have hdigits : ∀ c ∈ Nat.toDigits 10 a.index, isIdentifierPart c = true := fun c hc =>
    isIdentifierPart_of_isDigit (isDigit_of_mem_numeral c hc)
  change (['d', 'x'] ++ Nat.toDigits 10 a.index).all isIdentifierPart = true
  rw [List.all_append, List.all_eq_true.mpr hdigits]
  rfl

theorem TableName.lex_text (t : TableName) : lex t.text.toList = some [.word t.text] := by
  rw [lex_word t.isIdentifier, String.ofList_toList]

namespace Select

open Piece

theorem separates_as : Separates " AS ".toList [.word "AS"] := by
  have h : lex (' ' :: "AS".toList) = some [.word "AS"] := by cbv
  exact separates_spaced (Or.inl rfl) h

theorem lex_headChars (t : TableRef) :
    lex (headChars t) = some [.word "SELECT", .word "DISTINCT", .word t.row.text, .symbol '.',
      .word "docid", .word "FROM", .word t.table.text, .word "AS", .word t.row.text] := by
  have hselect : lex "SELECT DISTINCT".toList = some [.word "SELECT", .word "DISTINCT"] := by cbv
  have hfrom : lex ('.' :: "docid FROM".toList) = some [.symbol '.', .word "docid", .word "FROM"] :=
    by cbv
  have hrow := t.row.lex_toChars
  have hcolumn := (closes_blank hselect).lex hrow
  have htable := (separates_spaced (Or.inr rfl) hfrom).lex hcolumn t.table.lex_text
  exact separates_as.lex htable hrow

theorem lex_joinChars (primary : Alias) (t : TableRef) :
    lex (joinChars primary t) = some [.word "JOIN", .word t.table.text, .word "AS",
      .word t.row.text, .word "ON", .word primary.text, .symbol '.', .word "docid", .symbol '=',
      .word t.row.text, .symbol '.', .word "docid"] := by
  have hjoin : lex " JOIN".toList = some [.word "JOIN"] := by cbv
  have hon : lex (' ' :: "ON".toList) = some [.word "ON"] := by cbv
  have hequals :
      lex ('.' :: "docid =".toList) = some [.symbol '.', .word "docid", .symbol '='] := by
    cbv
  have hdocid : lex ".docid".toList = some [.symbol '.', .word "docid"] := by cbv
  have hrow := t.row.lex_toChars
  have htable := separates_as.lex ((closes_blank hjoin).lex t.table.lex_text) hrow
  have hleft := (separates_spaced (Or.inl rfl) hon).lex htable primary.lex_toChars
  have hboth := (separates_spaced (Or.inr rfl) hequals).lex hleft hrow
  have hbreaks : Breaks ".docid".toList := breaks_of_separator (Or.inr rfl) _
  exact (lex_append hboth hbreaks).trans (congrArg _ hdocid)

theorem closes_compare (row : Alias) (op : Comparison) :
    Closes (row.toChars ++ ".value ".toList ++ [op.symbol, ' '])
      [.word row.text, .symbol '.', .word "value", .symbol op.symbol] := by
  have hvalue : lex ('.' :: "value".toList) = some [.symbol '.', .word "value"] := by cbv
  have hop : lex [op.symbol] = some [.symbol op.symbol] := by cases op <;> cbv
  have hboth := (separates_spaced (Or.inr rfl) hvalue).lex row.lex_toChars hop
  have hsplit : [op.symbol, ' '] = [op.symbol] ++ [' '] := rfl
  rw [hsplit, ← List.append_assoc]
  exact closes_blank hboth

theorem closes_among (row : Alias) :
    Closes (row.toChars ++ ".value IN (".toList)
      [.word row.text, .symbol '.', .word "value", .word "IN", .symbol '('] := by
  have hin : lex ".value IN ".toList = some [.symbol '.', .word "value", .word "IN"] := by cbv
  have hbreaks : Breaks ".value IN ".toList := breaks_of_separator (Or.inr rfl) _
  have hopen : isPunctuation '(' = true := rfl
  have hrow : lex (row.toChars ++ ".value IN ".toList) =
      some [.word row.text, .symbol '.', .word "value", .word "IN"] :=
    (lex_append row.lex_toChars hbreaks).trans (congrArg _ hin)
  have hsplit : ".value IN (".toList = ".value IN ".toList ++ ['('] := rfl
  rw [hsplit, ← List.append_assoc]
  exact (separates_symbol hopen).closes_append hrow

theorem continuation_memberPieces (os : List Operand) {rest : List Piece} (h : Continuation rest) :
    Continuation (memberPieces os ++ rest) := by
  have hcomma : lex [','] = some [.symbol ','] := by cbv
  induction os with
  | nil => exact h
  | cons o others ih =>
    have hs : Separates [',', ' '] [.symbol ','] := separates_spaced (Or.inr rfl) hcomma
    exact continuation_fixed hs (by simp [Token.isLiteral]) (ih.operand o)

theorem seamless_setPieces (os : List Operand) {rest : List Piece} (h : Continuation rest) :
    Seamless (setPieces os ++ rest) := by
  cases os with
  | nil => exact h.seamless
  | cons o others => exact (continuation_memberPieces others h).operand o

theorem seamless_predicatePieces (p : Predicate) {rest : List Piece} (h : Continuation rest) :
    Seamless (predicatePieces p ++ rest) := by
  cases p with
  | compare row op o =>
    have hc := closes_compare row op
    exact .fixed hc.lex_self (by simp [Token.isLiteral]) (Or.inl hc) (h.operand o)
  | among row os =>
    have hclose : isPunctuation ')' = true := rfl
    have hend : Continuation (.fixed [')'] :: rest) :=
      continuation_fixed (separates_symbol hclose) (by simp [Token.isLiteral]) h.seamless
    have hc := closes_among row
    have hset := seamless_setPieces os hend
    refine .fixed hc.lex_self (by simp [Token.isLiteral]) (Or.inl hc) ?_
    change Seamless (setPieces os ++ [.fixed [')']] ++ rest)
    rw [List.append_assoc]
    exact hset

theorem continuation_conjunctPieces (ps : List Predicate) : Continuation (conjunctPieces ps) := by
  have hand : lex (' ' :: "AND".toList) = some [.word "AND"] := by cbv
  induction ps with
  | nil => exact continuation_nil
  | cons p others ih =>
    have hs : Separates " AND ".toList [.word "AND"] := separates_spaced (Or.inl rfl) hand
    exact continuation_fixed hs (by simp [Token.isLiteral]) (seamless_predicatePieces p ih)

theorem continuation_filterPieces (ps : List Predicate) : Continuation (filterPieces ps) := by
  have hwhere : lex (' ' :: "WHERE".toList) = some [.word "WHERE"] := by cbv
  cases ps with
  | nil => exact continuation_nil
  | cons p others =>
    have hs : Separates " WHERE ".toList [.word "WHERE"] := separates_spaced (Or.inl rfl) hwhere
    exact continuation_fixed hs (by simp [Token.isLiteral])
      (seamless_predicatePieces p (continuation_conjunctPieces others))

theorem continuation_joins (primary : Alias) (ts : List TableRef) {rest : List Piece}
    (h : Continuation rest) :
    Continuation (ts.map (fun t => .fixed (joinChars primary t)) ++ rest) := by
  induction ts with
  | nil => exact h
  | cons t others ih =>
    refine ⟨fun w => breaks_of_separator (Or.inl rfl) _, ?_⟩
    exact .fixed (lex_joinChars primary t) (by simp [Token.isLiteral]) (Or.inr ih.breaks)
      ih.seamless

theorem seamless_template (q : Select) : Seamless q.template := by
  have hrest := continuation_joins q.primary.row q.joins (continuation_filterPieces q.predicates)
  exact .fixed (lex_headChars q.primary) (by simp [Token.isLiteral]) (Or.inr hrest.breaks)
    hrest.seamless

/-- The operands of the statement, in order. -/
def operands (q : Select) : List Operand := q.predicates.flatMap Predicate.operands

theorem operands_memberPieces (os : List Operand) : (memberPieces os).filterMap operand? = os := by
  induction os with
  | nil => rfl
  | cons o others ih => simp [memberPieces, ih]

theorem operands_setPieces (os : List Operand) : (setPieces os).filterMap operand? = os := by
  cases os with
  | nil => rfl
  | cons o others => simp [setPieces, operands_memberPieces]

theorem operands_predicatePieces (p : Predicate) :
    (predicatePieces p).filterMap operand? = p.operands := by
  cases p with
  | compare row op o => rfl
  | among row os => simp [predicatePieces, operands_setPieces, Predicate.operands]

theorem operands_conjunctPieces (ps : List Predicate) :
    (conjunctPieces ps).filterMap operand? = ps.flatMap Predicate.operands := by
  induction ps with
  | nil => rfl
  | cons p others ih => simp [conjunctPieces, operands_predicatePieces, ih]

theorem operands_template (q : Select) : q.template.filterMap operand? = q.operands := by
  have hfixed : (q.joins.map fun t => Piece.fixed (joinChars q.primary.row t)).filterMap operand? =
      [] := by simp [List.filterMap_map, Function.comp_def, operand?]
  have hfilter : (filterPieces q.predicates).filterMap operand? = q.operands := by
    unfold operands
    cases q.predicates with
    | nil => rfl
    | cons p others =>
      simp [filterPieces, operands_predicatePieces, operands_conjunctPieces]
  rw [template, List.cons_append, filterMap_operand?_fixed, List.filterMap_append, hfixed, hfilter]
  rfl

theorem parameters_eq_map (q : Select) : q.parameters = q.operands.map (·.value) := by
  rw [parameters, bound_eq_map, ← operands_template, List.map_filterMap]

theorem lex_toSql (q : Select) :
    lex q.toSql.toList = some (q.template.flatMap (tokens fun o => o.literal.token)) := by
  rw [toSql, String.toList_ofList, inlined_eq_write]
  exact (seamless_template q).lex_write fun o => o.literal.lex_toChars

theorem lex_toParameterized (q : Select) :
    lex q.toParameterized.toList = some (q.template.flatMap (tokens fun _ => .symbol '?')) := by
  have hmark : lex ['?'] = some [.symbol '?'] := by cbv
  rw [toParameterized, String.toList_ofList, placeheld_eq_write]
  exact (seamless_template q).lex_write fun _ => hmark

end Select

end Replica
