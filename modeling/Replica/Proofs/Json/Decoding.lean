import Replica.Proofs.Json.Reading
import Replica.Proofs.Outcome

/-!
# What readers of typed data give back

Each reader gives back what was written for it: a word, a list, a map. A record is read member by
member, so what its members leave in the draft can be said one after another, and what every member
preserves holds of the draft at the end.
-/
namespace Replica.Json.Decoder

open Json.Tree

variable {α Draft : Type}

theorem word_ofValue (w : UInt64) (depth : Nat) : word depth (ofValue (.word w)) = .ok w := by
  have hw : (Number.ofWord w).word? = some w := by
    rw [Number.ofWord, Number.word?, if_pos (Int.natCast_nonneg _), Int.toNat_natCast,
      UInt64.ofNat_toNat]
  rw [Value.word, ofValue, word, hw]
  rfl

theorem items_ofItems {read : Decoder α} {write : α → Value} {depth : Nat} {as : List α}
    (h : ∀ a ∈ as, read depth (ofValue (write a)) = .ok a) :
    items read depth (ofItems (as.map write)) = .ok as := by
  induction as with
  | nil => rfl
  | cons a rest ih =>
    obtain ⟨ha, hrest⟩ := List.forall_mem_cons.mp h
    rw [List.map_cons, ofItems, items, ha, ih hrest]
    rfl

theorem list_ofValue {read : Decoder α} {write : α → Value} {depth : Nat} {as : List α}
    (h : ∀ a ∈ as, read depth (ofValue (write a)) = .ok a) :
    list read (depth + 1) (ofValue (.array (as.map write))) = .ok as := by
  rw [ofValue, list, items_ofItems h]
  rfl

/-- Entries that rise above those read so far are put behind them. -/
theorem mapMembers_ofMembers {read : Decoder α} {write : α → Value} {depth : Nat} (sofar : Keyed α)
    (entries : List (String × α)) (hr : Entries.Rising (sofar.entries ++ entries))
    (h : ∀ e ∈ entries, read depth (ofValue (write e.2)) = .ok e.2) :
    mapMembers read depth sofar (ofMembers (entries.map fun (n, a) => (n, write a))) =
      .ok ⟨sofar.entries ++ entries, hr⟩ := by
  induction entries generalizing sofar with
  | nil => simp [ofMembers, mapMembers]
  | cons e rest ih =>
    obtain ⟨he, hrest⟩ := List.forall_mem_cons.mp h
    have hinsert : (sofar.insert e.1 e.2).entries = sofar.entries ++ [e] := Entries.insert_next hr
    have hnext := ih (sofar.insert e.1 e.2) (by rwa [hinsert, ← List.append_cons]) hrest
    simp only [hinsert, ← List.append_cons] at hnext
    rw [List.map_cons, ofMembers, mapMembers, he]
    exact hnext

theorem map_ofValue {read : Decoder α} {write : α → Value} {depth : Nat} {m : Keyed α}
    (h : ∀ e ∈ m.entries, read depth (ofValue (write e.2)) = .ok e.2) :
    map read (depth + 1) (ofValue (.object (m.entries.map fun (n, a) => (n, write a)))) =
      .ok m := by
  have hmembers := mapMembers_ofMembers .empty m.entries m.rising h
  rw [ofValue, map, hmembers]
  rfl

section Record

variable {fields : List (Member Draft)} {other : String → Nat → Tree → Draft → Except Fault Draft}
  {depth : Nat} {d d' : Draft}

/-- What one member leaves in the draft. -/
def readMember (fields : List (Member Draft))
    (other : String → Nat → Tree → Draft → Except Fault Draft) (depth : Nat) (d : Draft)
    (name : String) (t : Tree) : Except Fault Draft :=
  match fields.find? (·.name == name) with
  | some f => if f.isSet d then .error (.duplicateField name) else f.read depth t d
  | none => other name depth t d

theorem recordMembers_cons (name : Option String) (t : Tree) (rest : List (Option String × Tree)) :
    recordMembers fields other depth d ((name, t) :: rest) =
      require name >>= fun name => readMember fields other depth d name t >>= fun d =>
        recordMembers fields other depth d rest := by
  cases name with
  | none => rfl
  | some name =>
    simp only [recordMembers, readMember, require, bind, Except.bind]
    cases fields.find? (·.name == name) with
    | none => rfl
    | some f => cases hset : f.isSet d <;> simp [hset, throw, throwThe, MonadExceptOf.throw]

/-- Reading the members takes the first draft to the second. -/
def Fills (fields : List (Member Draft))
    (other : String → Nat → Tree → Draft → Except Fault Draft) (depth : Nat)
    (members : List (String × Value)) (d d' : Draft) : Prop :=
  recordMembers fields other depth d (ofMembers members) = .ok d'

theorem Fills.append {a b : List (String × Value)} {d₁ d₂ : Draft}
    (ha : Fills fields other depth a d d₁) (hb : Fills fields other depth b d₁ d₂) :
    Fills fields other depth (a ++ b) d d₂ := by
  induction a generalizing d with
  | nil =>
    cases ha
    exact hb
  | cons m rest ih =>
    obtain ⟨name, v⟩ := m
    rw [Fills, ofMembers, recordMembers_cons] at ha
    obtain ⟨n, hname, ha⟩ := bind_eq_ok.mp ha
    obtain ⟨e, he, ha⟩ := bind_eq_ok.mp ha
    rw [Fills, List.cons_append, ofMembers, recordMembers_cons]
    exact bind_eq_ok.mpr ⟨n, hname, bind_eq_ok.mpr ⟨e, he, ih ha⟩⟩

theorem fills_member {name : String} {v : Value}
    (h : readMember fields other depth d name (ofValue v) = .ok d') :
    Fills fields other depth [(name, v)] d d' := by
  rw [Fills, ofMembers, recordMembers_cons]
  exact bind_eq_ok.mpr ⟨name, rfl, bind_eq_ok.mpr ⟨d', h, rfl⟩⟩

/-- A member is read into its field if the field has not been read before. -/
theorem fills_field {name : String} {hasDefault : Bool} {read : Decoder α}
    {get : Draft → Option α} {set : Draft → α → Draft} {v : Value} {a : α}
    (hfind : fields.find? (·.name == name) = some (field name hasDefault read get set))
    (hset : (get d).isSome = false) (hread : read depth (ofValue v) = .ok a)
    (hd : set d a = d') : Fills fields other depth [(name, v)] d d' := by
  subst hd
  refine fills_member ?_
  simp [readMember, hfind, field, hset, hread, Except.map]

theorem fills_other {name : String} {v : Value}
    (hfind : fields.find? (·.name == name) = none)
    (hother : other name depth (ofValue v) d = .ok d') :
    Fills fields other depth [(name, v)] d d' := by
  refine fills_member ?_
  rw [readMember, hfind]
  exact hother

theorem recordObject_eq_ok {t : Tree} :
    recordObject fields other d depth t = .ok d' ↔ ∃ inner ms,
      depth = inner + 1 ∧ t = .object ms true ∧ recordMembers fields other inner d ms = .ok d' := by
  constructor
  · intro h
    unfold recordObject at h
    split at h
    · rename_i inner ms closed
      obtain ⟨e, hms, hclosed⟩ := bind_eq_ok.mp h
      cases closed with
      | true =>
        cases hclosed
        exact ⟨inner, ms, rfl, rfl, hms⟩
      | false => cases hclosed
    · cases h
  · rintro ⟨inner, ms, rfl, rfl, hms⟩
    exact bind_eq_ok.mpr ⟨d', hms, rfl⟩

theorem recordObject_ofValue {members : List (String × Value)}
    (h : Fills fields other depth members d d') :
    recordObject fields other d (depth + 1) (ofValue (.object members)) = .ok d' :=
  recordObject_eq_ok.mpr ⟨depth, ofMembers members, rfl, rfl, h⟩

theorem record_ofValue {members : List (String × Value)}
    (h : Fills fields other depth members d d') :
    record fields other d (depth + 1) (ofValue (.object members)) = .ok d' :=
  recordObject_ofValue h

/-- What every field and every other member preserves, a record preserves. -/
theorem recordMembers_preserves {P : Draft → Prop} {ms : List (Option String × Tree)}
    (hfield : ∀ f ∈ fields, ∀ t d d', f.read depth t d = .ok d' → P d → P d')
    (hother : ∀ name, (∀ f ∈ fields, f.name ≠ name) →
      ∀ t d d', other name depth t d = .ok d' → P d → P d')
    (h : recordMembers fields other depth d ms = .ok d') (hd : P d) : P d' := by
  induction ms generalizing d with
  | nil =>
    cases h
    exact hd
  | cons m rest ih =>
    obtain ⟨name, t⟩ := m
    rw [recordMembers_cons] at h
    obtain ⟨name, _, h⟩ := bind_eq_ok.mp h
    obtain ⟨d₁, hd₁, h⟩ := bind_eq_ok.mp h
    refine ih h ?_
    unfold readMember at hd₁
    split at hd₁
    · rename_i f hf
      split at hd₁
      · cases hd₁
      · exact hfield f (List.mem_of_find?_eq_some hf) t d d₁ hd₁ hd
    · rename_i hnone
      have habsent : ∀ f ∈ fields, f.name ≠ name := by
        simpa using hnone
      exact hother name habsent t d d₁ hd₁ hd

end Record

/-- A text is read if its first value is, and nothing follows it. -/
theorem decode_eq_ok {read : Decoder α} {text : String} {a : α} :
    decode read text = .ok a ↔
      read depthLimit (Document.read text).root = .ok a ∧
        (Document.read text).complete = true := by
  constructor
  · intro h
    obtain ⟨b, hb, hcomplete⟩ := bind_eq_ok.mp h
    split at hcomplete
    · rename_i hwhole
      cases hcomplete
      exact ⟨hb, hwhole⟩
    · cases hcomplete
  · rintro ⟨ha, hwhole⟩
    exact bind_eq_ok.mpr ⟨a, ha, if_pos hwhole⟩

end Replica.Json.Decoder
