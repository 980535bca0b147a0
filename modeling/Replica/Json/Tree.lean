import Replica.Json.Value

/-!
# JSON text as far as it can be read

`Document.read` turns the tokens of a text into one tree. Where the text stops making sense the tree
stops too: the container being read is left open, and a value that could not be read is `broken`. A
reader that walks the tree in the order of the text therefore meets a fault of meaning before any
fault of form behind it.

Reading is a stack machine: `Document.advance` takes one token, and the stack holds what has been
read of each enclosing container, latest first. A tree that is only skipped has to be whole; a tree
that is taken as a value must in addition keep to the depth limit, spell every number within the
range of doubles, and pair every surrogate.
-/
namespace Replica.Json

/-- What has been read of a value. -/
inductive Tree where
  | null
  | bool (value : Bool)
  | number (value : Option Number)
  | text (content : Option String)
  | array (items : List Tree) (closed : Bool)
  | object (members : List (Option String × Tree)) (closed : Bool)
  | broken

/-- A text: its first value, and whether nothing follows it. -/
structure Document where
  root : Tree
  complete : Bool

namespace Document

/-- What has been read of a container that is still open, latest first. -/
inductive Frame where
  | items (before : List Tree)
  | members (before : List (Option String × Tree))
  | member (before : List (Option String × Tree)) (name : Option String)

/-- What has to come next. -/
inductive Phase where
  | value
  | firstItem
  | firstName
  | name
  | colon
  | separator

/-- The state after a token: more is expected, the value is complete, or the token has no place. -/
inductive Step where
  | continue (phase : Phase) (stack : List Frame)
  | finished (root : Tree)
  | stuck

/-- Hands a value that is complete to the container around it. -/
def deliver (t : Tree) : List Frame → Step
  | [] => .finished t
  | .items before :: outer => .continue .separator (.items (t :: before) :: outer)
  | .member before name :: outer => .continue .separator (.members ((name, t) :: before) :: outer)
  | .members _ :: _ => .stuck

def startValue (stack : List Frame) : Token → Step
  | .null => deliver .null stack
  | .bool b => deliver (.bool b) stack
  | .number n => deliver (.number n) stack
  | .text s => deliver (.text s) stack
  | .openArray => .continue .firstItem (.items [] :: stack)
  | .openObject => .continue .firstName (.members [] :: stack)
  | _ => .stuck

def startMember : List Frame → Token → Step
  | .members before :: outer, .text name => .continue .colon (.member before name :: outer)
  | _, _ => .stuck

def closeInnermost : List Frame → Token → Step
  | .items before :: outer, .closeArray => deliver (.array before.reverse true) outer
  | .members before :: outer, .closeObject => deliver (.object before.reverse true) outer
  | _, _ => .stuck

def advance (phase : Phase) (stack : List Frame) (t : Token) : Step :=
  match phase, t with
  | .value, t => startValue stack t
  | .firstItem, .closeArray => closeInnermost stack t
  | .firstItem, t => startValue stack t
  | .firstName, .closeObject => closeInnermost stack t
  | .firstName, t => startMember stack t
  | .name, t => startMember stack t
  | .colon, .colon => .continue .value stack
  | .colon, _ => .stuck
  | .separator, .comma =>
    match stack with
    | .items _ :: _ => .continue .value stack
    | .members _ :: _ => .continue .name stack
    | _ => .stuck
  | .separator, t => closeInnermost stack t

/-- The tree of a value whose containers are all left open. -/
def leaveOpen (t : Tree) : List Frame → Tree
  | [] => t
  | .items before :: outer => leaveOpen (.array (t :: before).reverse false) outer
  | .member before name :: outer => leaveOpen (.object ((name, t) :: before).reverse false) outer
  | .members before :: outer => leaveOpen (.object before.reverse false) outer

/-- The tree of a text that goes no further. -/
def abandon (phase : Phase) (stack : List Frame) : Tree :=
  match phase, stack with
  | .value, stack | .colon, stack => leaveOpen .broken stack
  | _, .items before :: outer => leaveOpen (.array before.reverse false) outer
  | _, stack => leaveOpen .broken stack

/-- Reads tokens until a value is complete. -/
def readTokens (phase : Phase) (stack : List Frame) : List Token → Document
  | [] => ⟨abandon phase stack, false⟩
  | t :: rest =>
    match advance phase stack t with
    | .continue phase stack => readTokens phase stack rest
    | .finished root => ⟨root, rest.isEmpty⟩
    | .stuck => ⟨abandon phase stack, false⟩

def read (text : String) : Document := readTokens .value [] (Token.scan text.toList)

end Document

namespace Tree

mutual

/-- Is the value whole, so that a reader can skip it? -/
def isWhole : Tree → Bool
  | .array items closed => allWhole items && closed
  | .object members closed => allMembersWhole members && closed
  | .broken => false
  | _ => true

def allWhole : List Tree → Bool
  | [] => true
  | t :: rest => t.isWhole && allWhole rest

def allMembersWhole : List (Option String × Tree) → Bool
  | [] => true
  | (_, t) :: rest => t.isWhole && allMembersWhole rest

end

mutual

/-- The value of a tree, if it is whole, has at most `depth` containers within each other, and every
number and text of it has content. Members are put in order, and of members of one name the last one
counts. -/
def value? (depth : Nat) : Tree → Option Value
  | .null => some .null
  | .bool b => some (.bool b)
  | .number n => n.map Value.number
  | .text s => s.map Value.text
  | .array items closed =>
    match depth, closed with
    | depth + 1, true => (values? depth items).map Value.array
    | _, _ => none
  | .object members closed =>
    match depth, closed with
    | depth + 1, true => (memberValues? depth [] members).map Value.object
    | _, _ => none
  | .broken => none

def values? (depth : Nat) : List Tree → Option (List Value)
  | [] => some []
  | t :: rest => (t.value? depth).bind fun v => (values? depth rest).map (v :: ·)

/-- The members so far with those of the list put in. -/
def memberValues? (depth : Nat) (sofar : List (String × Value)) :
    List (Option String × Tree) → Option (List (String × Value))
  | [] => some sofar
  | (name, t) :: rest =>
    name.bind fun name => (t.value? depth).bind fun v =>
      memberValues? depth (Entries.insert name v sofar) rest

end

mutual

theorem ordered_of_value? {depth : Nat} {t : Tree} {v : Value} (h : t.value? depth = some v) :
    v.Ordered := by
  cases t with
  | null => cases h; trivial
  | bool b => cases h; trivial
  | number n =>
    obtain ⟨m, _, rfl⟩ := Option.map_eq_some_iff.mp h
    trivial
  | text s =>
    obtain ⟨m, _, rfl⟩ := Option.map_eq_some_iff.mp h
    trivial
  | array items closed =>
    simp only [value?] at h
    split at h
    · obtain ⟨vs, hvs, rfl⟩ := Option.map_eq_some_iff.mp h
      exact orderedItems_of_values? hvs
    · contradiction
  | object members closed =>
    simp only [value?] at h
    split at h
    · obtain ⟨ms, hms, rfl⟩ := Option.map_eq_some_iff.mp h
      exact orderedMembers_of_memberValues? List.Pairwise.nil trivial hms
    · contradiction
  | broken => contradiction

theorem orderedItems_of_values? {depth : Nat} {ts : List Tree} {vs : List Value}
    (h : values? depth ts = some vs) : Value.OrderedItems vs := by
  cases ts with
  | nil => cases h; trivial
  | cons t rest =>
    obtain ⟨v, hv, h⟩ := Option.bind_eq_some_iff.mp h
    obtain ⟨ws, hws, rfl⟩ := Option.map_eq_some_iff.mp h
    exact ⟨ordered_of_value? hv, orderedItems_of_values? hws⟩

theorem orderedMembers_of_memberValues? {depth : Nat} {sofar ms : List (String × Value)}
    {ts : List (Option String × Tree)} (hr : Entries.Rising sofar)
    (ho : Value.OrderedMembers sofar) (h : memberValues? depth sofar ts = some ms) :
    Entries.Rising ms ∧ Value.OrderedMembers ms := by
  cases ts with
  | nil =>
    cases h
    exact ⟨hr, ho⟩
  | cons t rest =>
    obtain ⟨name, t⟩ := t
    obtain ⟨n, _, h⟩ := Option.bind_eq_some_iff.mp h
    obtain ⟨v, hv, h⟩ := Option.bind_eq_some_iff.mp h
    exact orderedMembers_of_memberValues? (Entries.rising_insert n v hr)
      (Value.orderedMembers_insert n (ordered_of_value? hv) ho) h

end

end Tree

/-- How many containers may lie within each other in a value that is read. -/
def depthLimit : Nat := 127

end Replica.Json
