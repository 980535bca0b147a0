import Replica.Keyed

/-!
# Maps and their entries

Looking a name up in a map finds the entry of that name, and a map is rebuilt by putting its entries
in one after another.
-/
namespace Replica

namespace Entries

variable {α : Type}

theorem get?_eq_some_iff {entries : List (String × α)} (h : Rising entries) {name : String}
    {a : α} : get? name entries = some a ↔ (name, a) ∈ entries := by
  induction entries with
  | nil => simp [get?]
  | cons e rest ih =>
    obtain ⟨he, hrest⟩ := List.pairwise_cons.mp h
    rw [get?, List.mem_cons]
    split
    · rename_i hname
      subst hname
      have habsent : (e.1, a) ∉ rest := fun hmem => String.lt_irrefl e.1 (he (e.1, a) hmem)
      simp [habsent, Prod.ext_iff, eq_comm]
    · rename_i hname
      have hne : (name, a) ≠ e := fun heq => hname (heq ▸ rfl)
      simp [ih hrest, hne]

/-- A name above all others goes to the end. -/
theorem insert_of_forall_lt {entries : List (String × α)} {name : String}
    (h : ∀ e ∈ entries, e.1 < name) (a : α) : insert name a entries = entries ++ [(name, a)] := by
  induction entries with
  | nil => rfl
  | cons e rest ih =>
    obtain ⟨he, hrest⟩ := List.forall_mem_cons.mp h
    have hnlt : ¬name < e.1 := String.lt_asymm he
    have hne : name ≠ e.1 := fun heq => String.lt_irrefl e.1 (heq ▸ he)
    rw [insert, if_neg hnlt, if_neg hne, ih hrest, List.cons_append]

/-- Of rising entries, the next one is put behind those so far. -/
theorem insert_next {sofar rest : List (String × α)} {name : String} {a : α}
    (h : Rising (sofar ++ (name, a) :: rest)) : insert name a sofar = sofar ++ [(name, a)] := by
  have hlast := (List.pairwise_append.mp h).2.2
  exact insert_of_forall_lt (fun e he => hlast e he (name, a) List.mem_cons_self) a

end Entries

theorem Keyed.eq_empty {α : Type} {m : Keyed α} (h : m.isEmpty = true) : m = .empty := by
  obtain ⟨entries, rising⟩ := m
  obtain rfl := List.isEmpty_iff.mp h
  rfl

theorem Keyed.get?_eq_some_iff {α : Type} {m : Keyed α} {name : String} {a : α} :
    m.get? name = some a ↔ (name, a) ∈ m.entries := Entries.get?_eq_some_iff m.rising

end Replica
