import Replica.Json.Token
import Replica.Keyed

/-!
# JSON values and their text

An object is the list of its members, in the order in which they are written. `Value.Ordered` says
that in every object, however deep, the names rise; such a value is determined by its lookups, and a
`Record` is an object of that kind. Compact text is the concatenation of a value's tokens. Laid-out
text puts every element and member on a line of its own, two blanks deeper than what holds it.
-/
namespace Replica.Json

inductive Value where
  | null
  | bool (value : Bool)
  | number (value : Number)
  | text (value : String)
  | array (items : List Value)
  | object (members : List (String × Value))

namespace Value

mutual

/-- Equality of values, member by member. -/
def same : Value → Value → Bool
  | .null, .null => true
  | .bool a, .bool b => a == b
  | .number a, .number b => a == b
  | .text a, .text b => a == b
  | .array as, .array bs => sameItems as bs
  | .object as, .object bs => sameMembers as bs
  | _, _ => false

def sameItems : List Value → List Value → Bool
  | [], [] => true
  | a :: as, b :: bs => same a b && sameItems as bs
  | _, _ => false

def sameMembers : List (String × Value) → List (String × Value) → Bool
  | [], [] => true
  | (n, a) :: as, (m, b) :: bs => n == m && same a b && sameMembers as bs
  | _, _ => false

end

mutual

theorem eq_of_same {a b : Value} (h : same a b = true) : a = b := by
  cases a <;> cases b <;> simp only [same, Bool.false_eq_true, beq_iff_eq] at h
  · rfl
  · rw [h]
  · rw [h]
  · rw [h]
  · rw [eq_of_sameItems h]
  · rw [eq_of_sameMembers h]

theorem eq_of_sameItems {as bs : List Value} (h : sameItems as bs = true) : as = bs := by
  cases as <;> cases bs <;> simp only [sameItems, Bool.false_eq_true, Bool.and_eq_true] at h
  · rfl
  · rw [eq_of_same h.1, eq_of_sameItems h.2]

theorem eq_of_sameMembers {as bs : List (String × Value)} (h : sameMembers as bs = true) :
    as = bs := by
  cases as with
  | nil => cases bs <;> simp_all [sameMembers]
  | cons a as =>
    obtain ⟨n, a⟩ := a
    cases bs with
    | nil => simp [sameMembers] at h
    | cons b bs =>
      obtain ⟨m, b⟩ := b
      simp only [sameMembers, Bool.and_eq_true, beq_iff_eq] at h
      rw [h.1.1, eq_of_same h.1.2, eq_of_sameMembers h.2]

end

mutual

theorem same_self (a : Value) : same a a = true := by
  cases a <;> simp only [same, beq_self_eq_true]
  · exact sameItems_self _
  · exact sameMembers_self _

theorem sameItems_self (as : List Value) : sameItems as as = true := by
  cases as with
  | nil => rfl
  | cons a as => simp [sameItems, same_self a, sameItems_self as]

theorem sameMembers_self (as : List (String × Value)) : sameMembers as as = true := by
  cases as with
  | nil => rfl
  | cons a as =>
    obtain ⟨n, a⟩ := a
    simp [sameMembers, same_self a, sameMembers_self as]

end

instance : DecidableEq Value := fun a b =>
  if h : same a b = true then .isTrue (eq_of_same h)
  else .isFalse fun hab => h (hab ▸ same_self a)

mutual

/-- In every object within the value, the names rise. -/
def Ordered : Value → Prop
  | .array items => OrderedItems items
  | .object members => Entries.Rising members ∧ OrderedMembers members
  | _ => True

def OrderedItems : List Value → Prop
  | [] => True
  | v :: rest => v.Ordered ∧ OrderedItems rest

def OrderedMembers : List (String × Value) → Prop
  | [] => True
  | (_, v) :: rest => v.Ordered ∧ OrderedMembers rest

end

theorem orderedMembers_insert (name : String) {value : Value} (hv : value.Ordered)
    {members : List (String × Value)} (h : OrderedMembers members) :
    OrderedMembers (Entries.insert name value members) := by
  induction members with
  | nil => exact ⟨hv, trivial⟩
  | cons e rest ih =>
    obtain ⟨n, v⟩ := e
    simp only [Entries.insert]
    split
    · exact ⟨hv, h⟩
    · split
      · exact ⟨hv, h.2⟩
      · exact ⟨h.1, ih h.2⟩

mutual

/-- The value with the members of every object in order; of members of one name the last counts. -/
def arrange : Value → Value
  | .array items => .array (arrangeItems items)
  | .object members => .object (arrangeMembers [] members)
  | v => v

def arrangeItems : List Value → List Value
  | [] => []
  | v :: rest => v.arrange :: arrangeItems rest

/-- The members so far with the arranged members of the list put in. -/
def arrangeMembers (sofar : List (String × Value)) : List (String × Value) → List (String × Value)
  | [] => sofar
  | (name, v) :: rest => arrangeMembers (Entries.insert name v.arrange sofar) rest

end

mutual

theorem ordered_arrange (v : Value) : v.arrange.Ordered := by
  cases v with
  | array items => exact orderedItems_arrangeItems items
  | object members => exact ordered_arrangeMembers members List.Pairwise.nil trivial
  | _ => trivial

theorem orderedItems_arrangeItems (items : List Value) : OrderedItems (arrangeItems items) := by
  cases items with
  | nil => trivial
  | cons v rest => exact ⟨ordered_arrange v, orderedItems_arrangeItems rest⟩

theorem ordered_arrangeMembers (members : List (String × Value))
    {sofar : List (String × Value)} (hr : Entries.Rising sofar) (ho : OrderedMembers sofar) :
    Entries.Rising (arrangeMembers sofar members) ∧
      OrderedMembers (arrangeMembers sofar members) := by
  cases members with
  | nil => exact ⟨hr, ho⟩
  | cons m rest =>
    obtain ⟨name, v⟩ := m
    exact ordered_arrangeMembers rest (Entries.rising_insert name v.arrange hr)
      (orderedMembers_insert name (ordered_arrange v) ho)

end

mutual

def tokens : Value → List Token
  | .null => [.null]
  | .bool b => [.bool b]
  | .number n => [.number (some n)]
  | .text s => [.text (some s)]
  | .array [] => [.openArray, .closeArray]
  | .array (v :: rest) => .openArray :: v.tokens ++ itemTokens rest ++ [.closeArray]
  | .object [] => [.openObject, .closeObject]
  | .object ((name, v) :: rest) =>
    .openObject :: .text (some name) :: .colon :: v.tokens ++ memberTokens rest ++ [.closeObject]

/-- The tokens of the elements behind the first, each with its comma. -/
def itemTokens : List Value → List Token
  | [] => []
  | v :: rest => .comma :: v.tokens ++ itemTokens rest

def memberTokens : List (String × Value) → List Token
  | [] => []
  | (name, v) :: rest =>
    .comma :: .text (some name) :: .colon :: v.tokens ++ memberTokens rest

end

/-- The compact text of a value: its tokens, without blanks. -/
def render (v : Value) : String := String.ofList (v.tokens.flatMap Token.spell)

def newLine (depth : Nat) : List Char := '\n' :: List.replicate (2 * depth) ' '

mutual

/-- The characters of the laid-out text of a value that stands at a depth. -/
def laidOut (depth : Nat) : Value → List Char
  | .array [] => ['[', ']']
  | .array (v :: rest) =>
    '[' :: newLine (depth + 1) ++ v.laidOut (depth + 1) ++ laidOutItems depth rest ++
      newLine depth ++ [']']
  | .object [] => ['\x7b', '\x7d']
  | .object ((name, v) :: rest) =>
    '\x7b' :: newLine (depth + 1) ++ Token.textChars name ++ ':' :: ' ' :: v.laidOut (depth + 1) ++
      laidOutMembers depth rest ++ newLine depth ++ ['\x7d']
  | .null => Token.null.spell
  | .bool b => (Token.bool b).spell
  | .number n => n.toChars
  | .text s => Token.textChars s

def laidOutItems (depth : Nat) : List Value → List Char
  | [] => []
  | v :: rest =>
    ',' :: newLine (depth + 1) ++ v.laidOut (depth + 1) ++ laidOutItems depth rest

def laidOutMembers (depth : Nat) : List (String × Value) → List Char
  | [] => []
  | (name, v) :: rest =>
    ',' :: newLine (depth + 1) ++ Token.textChars name ++ ':' :: ' ' :: v.laidOut (depth + 1) ++
      laidOutMembers depth rest

end

def layOut (v : Value) : String := String.ofList (v.laidOut 0)

def word (w : UInt64) : Value := .number (.ofWord w)

def signed (i : Int64) : Value := .number (.ofSigned i)

/-- A count. One beyond the largest word is written as that word; no count gets there. -/
def count (n : Nat) : Value := .word (UInt64.ofNat (min n Numeral.maxWord))

end Value

/-- An object whose names rise, as do those of every object within it. -/
structure Record where
  members : List (String × Value)
  ordered : (Value.object members).Ordered

namespace Record

instance : DecidableEq Record := fun a b =>
  if h : a.members = b.members then
    .isTrue (by cases a; cases b; simp_all)
  else .isFalse fun hab => h (hab ▸ rfl)

def empty : Record := ⟨[], List.Pairwise.nil, trivial⟩

/-- Puts a value under a name; a value already there is replaced. -/
def insert (r : Record) (name : String) (value : Value) (ordered : value.Ordered) : Record :=
  ⟨Entries.insert name value r.members, Entries.rising_insert name value r.ordered.1,
    Value.orderedMembers_insert name ordered r.ordered.2⟩

/-- The record of some members; of members of one name the last counts. -/
def ofMembers (members : List (String × Value)) : Record :=
  ⟨Value.arrangeMembers [] members, Value.ordered_arrange (.object members)⟩

end Record

end Replica.Json
