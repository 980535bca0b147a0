/-!
# Maps from names to values

A map is the list of its entries in rising order of their names, which is also the order in which
they are listed and written. Names are compared by code point, and so by the bytes of their UTF-8
form. The main statements say what an insertion does to a lookup, and that it keeps the order.
-/
namespace Replica

namespace Entries

/-- The names rise from entry to entry, so none occurs twice. -/
def Rising {α : Type} (entries : List (String × α)) : Prop :=
  entries.Pairwise fun a b => a.1 < b.1

/-- Puts a value under a name, in its place; a value already there is replaced. -/
def insert {α : Type} (name : String) (value : α) : List (String × α) → List (String × α)
  | [] => [(name, value)]
  | entry :: rest =>
    if name < entry.1 then (name, value) :: entry :: rest
    else if name = entry.1 then (name, value) :: rest
    else entry :: insert name value rest

def get? {α : Type} (name : String) : List (String × α) → Option α
  | [] => none
  | entry :: rest => if entry.1 = name then some entry.2 else get? name rest

theorem mem_insert {α : Type} {name : String} {value : α} {entries : List (String × α)}
    {entry : String × α} (h : entry ∈ insert name value entries) :
    entry = (name, value) ∨ entry ∈ entries := by
  induction entries with
  | nil => simpa [insert] using h
  | cons e rest ih =>
    simp only [insert] at h
    split at h
    · simpa using h
    · split at h
      · rcases List.mem_cons.mp h with h | h
        · exact .inl h
        · exact .inr (List.mem_cons_of_mem _ h)
      · rcases List.mem_cons.mp h with h | h
        · exact .inr (h ▸ List.mem_cons_self)
        · exact (ih h).imp id (List.mem_cons_of_mem _)

theorem lt_of_not_lt_of_ne {a b : String} (h : ¬a < b) (hne : a ≠ b) : b < a := by
  rcases Decidable.em (b < a) with hb | hb
  · exact hb
  · exact absurd (String.le_antisymm (String.not_lt.mp hb) (String.not_lt.mp h)) hne

theorem rising_insert {α : Type} (name : String) (value : α) {entries : List (String × α)}
    (h : Rising entries) : Rising (insert name value entries) := by
  induction entries with
  | nil => simp [insert, Rising]
  | cons e rest ih =>
    obtain ⟨he, hr⟩ := List.pairwise_cons.mp h
    simp only [insert]
    split
    · rename_i hlt
      refine List.pairwise_cons.mpr ⟨fun x hx => ?_, h⟩
      rcases List.mem_cons.mp hx with rfl | hx
      · exact hlt
      · exact String.lt_trans hlt (he x hx)
    · rename_i hlt
      split
      · rename_i heq
        exact List.pairwise_cons.mpr ⟨fun x hx => heq ▸ he x hx, hr⟩
      · rename_i hne
        refine List.pairwise_cons.mpr ⟨fun x hx => ?_, ih hr⟩
        rcases mem_insert hx with rfl | hx
        · exact lt_of_not_lt_of_ne hlt hne
        · exact he x hx

theorem get?_insert {α : Type} (name other : String) (value : α) (entries : List (String × α)) :
    get? other (insert name value entries) =
      if name = other then some value else get? other entries := by
  induction entries with
  | nil => simp [insert, get?]
  | cons e rest ih =>
    simp only [insert]
    split
    · simp [get?]
    · split
      · rename_i heq
        by_cases h : name = other
        · simp [get?, h]
        · simp [get?, h, ← heq]
      · rename_i hne
        by_cases h : name = other
        · subst h
          simp only [get?, if_neg (Ne.symm hne), ih, if_true]
        · simp [get?, ih, h]

end Entries

/-- A map from names to values. -/
structure Keyed (α : Type) where
  entries : List (String × α)
  rising : Entries.Rising entries

namespace Keyed

variable {α : Type}

instance [DecidableEq α] : DecidableEq (Keyed α) := fun a b =>
  if h : a.entries = b.entries then
    .isTrue (by cases a; cases b; simp_all)
  else .isFalse fun hab => h (hab ▸ rfl)

def empty : Keyed α := ⟨[], List.Pairwise.nil⟩

def insert (m : Keyed α) (name : String) (value : α) : Keyed α :=
  ⟨Entries.insert name value m.entries, Entries.rising_insert name value m.rising⟩

def get? (m : Keyed α) (name : String) : Option α := Entries.get? name m.entries

def isEmpty (m : Keyed α) : Bool := m.entries.isEmpty

/-- The values in the order of their names. -/
def values (m : Keyed α) : List α := m.entries.map (·.2)

@[simp] theorem get?_empty (name : String) : (empty : Keyed α).get? name = none := rfl

@[simp] theorem get?_insert (m : Keyed α) (name other : String) (value : α) :
    (m.insert name value).get? other = if name = other then some value else m.get? other :=
  Entries.get?_insert name other value m.entries

end Keyed

end Replica
