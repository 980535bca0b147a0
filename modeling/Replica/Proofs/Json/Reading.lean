import Replica.Json.Decode
import Replica.Proofs.Entries
import Replica.Proofs.Json.Scanning

/-!
# Reading values back

The text of a value without doubles is read as the tree of that value, and the tree gives the value
back if the names of its objects rise and its containers do not lie deeper within each other than
the reader allows. Conversely no value that is read nests deeper than that.
-/
namespace Replica.Json

namespace Tree

mutual

/-- The tree that the text of a value is read as. -/
def ofValue : Value → Tree
  | .null => .null
  | .bool b => .bool b
  | .number n => .number (some n)
  | .text s => .text (some s)
  | .array items => .array (ofItems items) true
  | .object members => .object (ofMembers members) true

/-- The trees of the values of a list. -/
def ofItems : List Value → List Tree
  | [] => []
  | v :: rest => ofValue v :: ofItems rest

/-- The members with the trees of their values. -/
def ofMembers : List (String × Value) → List (Option String × Tree)
  | [] => []
  | (name, v) :: rest => (some name, ofValue v) :: ofMembers rest

end

end Tree

namespace Document

open Json.Tree

/-- The innermost container, if there is one, waits for a value. -/
def Accepts : List Frame → Prop
  | .members _ :: _ => False
  | _ => True

/-- What is read where a value has just been completed and the tokens follow. -/
def receive (t : Tree) (stack : List Frame) (rest : List Token) : Document :=
  match deliver t stack with
  | .continue phase stack => readTokens phase stack rest
  | .finished root => ⟨root, rest.isEmpty⟩
  | .stuck => ⟨.broken, false⟩

theorem readTokens_deliver {phase : Phase} {stack outer : List Frame} {token : Token} {t : Tree}
    (h : advance phase stack token = deliver t outer) (houter : Accepts outer)
    (rest : List Token) : readTokens phase stack (token :: rest) = receive t outer rest := by
  rw [readTokens, h, receive]
  cases outer with
  | nil => rfl
  | cons frame outer =>
    cases frame with
    | members before => exact absurd houter id
    | items before => rfl
    | member before name => rfl

mutual

/-- The tokens of a value deliver its tree to whatever container waits for it. -/
theorem readTokens_tokens (v : Value) {phase : Phase}
    (hphase : phase = .value ∨ phase = .firstItem) (stack : List Frame) (hstack : Accepts stack)
    (rest : List Token) :
    readTokens phase stack (v.tokens ++ rest) = receive (ofValue v) stack rest := by
  cases v with
  | null | bool b | number n | text s =>
    rcases hphase with rfl | rfl <;> exact readTokens_deliver rfl hstack rest
  | array items =>
    have hopen (later : List Token) : readTokens phase stack (.openArray :: later) =
        readTokens .firstItem (.items [] :: stack) later := by
      rcases hphase with rfl | rfl <;> rfl
    cases items with
    | nil => exact (hopen _).trans (readTokens_deliver rfl hstack rest)
    | cons v items =>
      have hfirst := readTokens_tokens v (.inr rfl) (.items [] :: stack) trivial
        (Value.itemTokens items ++ .closeArray :: rest)
      have hlater := readTokens_itemTokens items [ofValue v] hstack rest
      simp only [Value.tokens, List.cons_append, List.append_assoc, List.nil_append]
      rw [hopen, hfirst]
      exact hlater
  | object members =>
    have hopen (later : List Token) : readTokens phase stack (.openObject :: later) =
        readTokens .firstName (.members [] :: stack) later := by
      rcases hphase with rfl | rfl <;> rfl
    cases members with
    | nil => exact (hopen _).trans (readTokens_deliver rfl hstack rest)
    | cons m members =>
      obtain ⟨name, v⟩ := m
      have hfirst := readTokens_tokens v (.inl rfl) (.member [] (some name) :: stack) trivial
        (Value.memberTokens members ++ .closeObject :: rest)
      have hlater := readTokens_memberTokens members [(some name, ofValue v)] hstack rest
      simp only [Value.tokens, List.cons_append, List.append_assoc, List.nil_append]
      rw [hopen]
      exact hfirst.trans hlater

theorem readTokens_itemTokens (items : List Value) (before : List Tree) {stack : List Frame}
    (hstack : Accepts stack) (rest : List Token) :
    readTokens .separator (.items before :: stack)
        (Value.itemTokens items ++ .closeArray :: rest) =
      receive (.array (before.reverse ++ ofItems items) true) stack rest := by
  cases items with
  | nil =>
    rw [ofItems, List.append_nil]
    exact readTokens_deliver rfl hstack rest
  | cons v items =>
    have hfirst := readTokens_tokens v (.inl rfl) (.items before :: stack) trivial
      (Value.itemTokens items ++ .closeArray :: rest)
    have hlater := readTokens_itemTokens items (ofValue v :: before) hstack rest
    rw [List.reverse_cons, List.append_assoc, List.singleton_append, ← ofItems] at hlater
    simp only [Value.itemTokens, List.cons_append, List.append_assoc]
    exact hfirst.trans hlater

theorem readTokens_memberTokens (members : List (String × Value))
    (before : List (Option String × Tree)) {stack : List Frame} (hstack : Accepts stack)
    (rest : List Token) :
    readTokens .separator (.members before :: stack)
        (Value.memberTokens members ++ .closeObject :: rest) =
      receive (.object (before.reverse ++ ofMembers members) true) stack rest := by
  cases members with
  | nil =>
    rw [ofMembers, List.append_nil]
    exact readTokens_deliver rfl hstack rest
  | cons m members =>
    obtain ⟨name, v⟩ := m
    have hfirst := readTokens_tokens v (.inl rfl) (.member before (some name) :: stack)
      trivial (Value.memberTokens members ++ .closeObject :: rest)
    have hlater :=
      readTokens_memberTokens members ((some name, ofValue v) :: before) hstack rest
    rw [List.reverse_cons, List.append_assoc, List.singleton_append, ← ofMembers] at hlater
    simp only [Value.memberTokens, List.cons_append, List.append_assoc]
    exact hfirst.trans hlater

end

/-- **The text of a value without doubles is read as the tree of the value, to its end.** -/
theorem read_render {v : Value} (hv : v.isFloatFree = true) :
    read v.render = ⟨ofValue v, true⟩ := by
  have hread := readTokens_tokens v (.inl rfl) [] trivial []
  rw [List.append_nil] at hread
  rw [read, Value.scan_render hv, hread]
  rfl

end Document

namespace Value

mutual

/-- How many containers lie within each other. -/
def nesting : Value → Nat
  | .array items => nestingItems items + 1
  | .object members => nestingMembers members + 1
  | _ => 0

/-- The deepest nesting among the values of a list. -/
def nestingItems : List Value → Nat
  | [] => 0
  | v :: rest => max v.nesting (nestingItems rest)

/-- The deepest nesting among the values of members. -/
def nestingMembers : List (String × Value) → Nat
  | [] => 0
  | (_, v) :: rest => max v.nesting (nestingMembers rest)

end

theorem orderedMembers_iff {members : List (String × Value)} :
    OrderedMembers members ↔ ∀ m ∈ members, m.2.Ordered := by
  induction members with
  | nil => simp [OrderedMembers]
  | cons m rest ih => rw [OrderedMembers, List.forall_mem_cons, ih]

theorem allMembersFloatFree_iff {members : List (String × Value)} :
    allMembersFloatFree members = true ↔ ∀ m ∈ members, m.2.isFloatFree = true := by
  induction members with
  | nil => simp [allMembersFloatFree]
  | cons m rest ih => rw [allMembersFloatFree, Bool.and_eq_true, List.forall_mem_cons, ih]

theorem nestingMembers_le {members : List (String × Value)} {depth : Nat} :
    nestingMembers members ≤ depth ↔ ∀ m ∈ members, m.2.nesting ≤ depth := by
  induction members with
  | nil => simp [nestingMembers]
  | cons m rest ih => rw [nestingMembers, Nat.max_le, List.forall_mem_cons, ih]

theorem nesting_lt_of_mem {members : List (String × Value)} {m : String × Value}
    (hm : m ∈ members) : m.2.nesting < (object members).nesting :=
  Nat.lt_succ_of_le (nestingMembers_le.mp (Nat.le_refl _) m hm)

theorem nestingMembers_insert {members : List (String × Value)} {name : String} {v : Value}
    {depth : Nat} (hv : v.nesting ≤ depth) (h : nestingMembers members ≤ depth) :
    nestingMembers (Entries.insert name v members) ≤ depth := by
  rw [nestingMembers_le] at h ⊢
  intro m hm
  rcases Entries.mem_insert hm with rfl | hm
  · exact hv
  · exact h m hm

/-- The value has no doubles, and at most so many containers within each other. -/
def Plain (depth : Nat) (v : Value) : Prop := v.isFloatFree = true ∧ v.nesting ≤ depth

theorem Plain.mono {depth depth' : Nat} {v : Value} (h : v.Plain depth) (hle : depth ≤ depth') :
    v.Plain depth' := ⟨h.1, Nat.le_trans h.2 hle⟩

theorem plain_object {members : List (String × Value)} {depth : Nat} :
    (object members).Plain (depth + 1) ↔ ∀ m ∈ members, m.2.Plain depth := by
  rw [Plain, isFloatFree, nesting, Nat.add_le_add_iff_right, allMembersFloatFree_iff,
    nestingMembers_le]
  constructor
  · rintro ⟨hfloat, hdepth⟩ m hm
    exact ⟨hfloat m hm, hdepth m hm⟩
  · intro h
    exact ⟨fun m hm => (h m hm).1, fun m hm => (h m hm).2⟩

theorem plain_texts (texts : List String) : (array (texts.map text)).Plain 1 := by
  induction texts with
  | nil => exact ⟨rfl, Nat.le_refl 1⟩
  | cons s rest ih =>
    obtain ⟨hfloat, hdepth⟩ := ih
    rw [isFloatFree] at hfloat
    rw [nesting] at hdepth
    rw [Plain, List.map_cons, isFloatFree, allFloatFree, nesting, nestingItems, hfloat]
    exact ⟨rfl, by simpa [nesting] using hdepth⟩

end Value

theorem Record.eq_of_members {a b : Record} (h : a.members = b.members) : a = b := by
  cases a
  cases b
  cases h
  rfl

namespace Tree

open Value

mutual

theorem value?_ofValue {v : Value} (ho : v.Ordered) {depth : Nat} (hd : v.nesting ≤ depth) :
    (ofValue v).value? depth = some v := by
  cases v with
  | null | bool b | number n | text s => rfl
  | array items =>
    cases depth with
    | zero => exact absurd hd (Nat.not_succ_le_zero _)
    | succ depth =>
      rw [ofValue, value?, values?_ofItems ho (Nat.le_of_succ_le_succ hd)]
      rfl
  | object members =>
    cases depth with
    | zero => exact absurd hd (Nat.not_succ_le_zero _)
    | succ depth =>
      have hmembers := memberValues?_ofMembers [] members ho.1 ho.2 (Nat.le_of_succ_le_succ hd)
      rw [ofValue, value?, hmembers]
      rfl

theorem values?_ofItems {items : List Value} (ho : OrderedItems items) {depth : Nat}
    (hd : nestingItems items ≤ depth) : values? depth (ofItems items) = some items := by
  cases items with
  | nil => rfl
  | cons v rest =>
    obtain ⟨hv, hrest⟩ := Nat.max_le.mp hd
    rw [ofItems, values?, value?_ofValue ho.1 hv, Option.bind_some, values?_ofItems ho.2 hrest]
    rfl

theorem memberValues?_ofMembers (sofar members : List (String × Value))
    (hr : Entries.Rising (sofar ++ members)) (ho : OrderedMembers members) {depth : Nat}
    (hd : nestingMembers members ≤ depth) :
    memberValues? depth sofar (ofMembers members) = some (sofar ++ members) := by
  cases members with
  | nil =>
    rw [List.append_nil]
    rfl
  | cons m rest =>
    obtain ⟨name, v⟩ := m
    obtain ⟨hv, hrest⟩ := Nat.max_le.mp hd
    have hinsert := Entries.insert_next hr
    rw [List.append_cons] at hr ⊢
    rw [ofMembers, memberValues?, Option.bind_some, value?_ofValue ho.1 hv, Option.bind_some,
      hinsert, memberValues?_ofMembers _ rest hr ho.2 hrest]

end

mutual

theorem nesting_of_value? {depth : Nat} {t : Tree} {v : Value} (h : t.value? depth = some v) :
    v.nesting ≤ depth := by
  cases t with
  | null | bool b =>
    cases h
    exact Nat.zero_le _
  | number n | text n =>
    obtain ⟨m, _, rfl⟩ := Option.map_eq_some_iff.mp h
    exact Nat.zero_le _
  | array items closed =>
    simp only [value?] at h
    split at h
    · obtain ⟨vs, hvs, rfl⟩ := Option.map_eq_some_iff.mp h
      exact Nat.succ_le_succ (nestingItems_of_values? hvs)
    · contradiction
  | object members closed =>
    simp only [value?] at h
    split at h
    · obtain ⟨ms, hms, rfl⟩ := Option.map_eq_some_iff.mp h
      exact Nat.succ_le_succ (nestingMembers_of_memberValues? (Nat.zero_le _) hms)
    · contradiction
  | broken => contradiction

theorem nestingItems_of_values? {depth : Nat} {ts : List Tree} {vs : List Value}
    (h : values? depth ts = some vs) : nestingItems vs ≤ depth := by
  cases ts with
  | nil =>
    cases h
    exact Nat.zero_le _
  | cons t rest =>
    obtain ⟨v, hv, h⟩ := Option.bind_eq_some_iff.mp h
    obtain ⟨ws, hws, rfl⟩ := Option.map_eq_some_iff.mp h
    exact Nat.max_le.mpr ⟨nesting_of_value? hv, nestingItems_of_values? hws⟩

theorem nestingMembers_of_memberValues? {depth : Nat} {sofar ms : List (String × Value)}
    {ts : List (Option String × Tree)} (hsofar : nestingMembers sofar ≤ depth)
    (h : memberValues? depth sofar ts = some ms) : nestingMembers ms ≤ depth := by
  cases ts with
  | nil =>
    cases h
    exact hsofar
  | cons t rest =>
    obtain ⟨name, t⟩ := t
    obtain ⟨n, _, h⟩ := Option.bind_eq_some_iff.mp h
    obtain ⟨v, hv, h⟩ := Option.bind_eq_some_iff.mp h
    exact nestingMembers_of_memberValues? (nestingMembers_insert (nesting_of_value? hv) hsofar) h

end

end Tree

end Replica.Json
