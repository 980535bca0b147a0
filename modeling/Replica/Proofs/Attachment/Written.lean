import Replica.Attachment.Reference
import Replica.Proofs.Json.Decoding

/-!
# References written and read back

A reference leaves out what it has no value for. Each member that is written fills its field of the
draft, what is left out keeps the default, and so the reference is read back.
-/
namespace Replica

open Json Json.Decoder Json.Tree

theorem join_map_some {α : Type} (o : Option α) : (o.map some).join = o := by
  cases o <;> rfl

section Members

variable {α Draft : Type} {fields : List (Member Draft)}
  {other : String → Nat → Tree → Draft → Except Fault Draft} {depth : Nat} {d d' : Draft}

/-- A member that is left out where there is no value fills its field where there is one. -/
theorem fills_member? {name : String} {hasDefault : Bool} {write : α → Value}
    {read : Json.Decoder (Option α)} {get : Draft → Option (Option α)}
    {set : Draft → Option α → Draft} {o : Option α}
    (hfind : fields.find? (·.name == name) = some (field name hasDefault read get set))
    (hset : (get d).isSome = false) (hread : ∀ a, read depth (ofValue (write a)) = .ok (some a))
    (hd : (o.elim d fun a => set d (some a)) = d') :
    Fills fields other depth (Reference.member? name write o) d d' := by
  subst hd
  cases o with
  | none => rfl
  | some a => exact fills_field hfind hset (hread a) rfl

/-- A mark that is left out where it does not apply fills its field where it does. -/
theorem fills_mark {name : String} {hasDefault : Bool} {get : Draft → Option Bool}
    {set : Draft → Bool → Draft} {mark : Bool}
    (hfind : fields.find? (·.name == name) = some (field name hasDefault bool get set))
    (hset : (get d).isSome = false) (hd : (if mark then set d true else d) = d') :
    Fills fields other depth (if mark then [(name, .bool true)] else []) d d' := by
  subst hd
  cases mark with
  | false => rfl
  | true => exact fills_field hfind hset rfl rfl

end Members

namespace Reference

theorem optional_word (w : UInt64) (depth : Nat) :
    optional word depth (ofValue (.word w)) = .ok (some w) := by
  change (word depth (ofValue (.word w))).map some = _
  rw [word_ofValue]
  rfl

theorem plain_member? {α : Type} {name : String} {write : α → Value} {depth : Nat}
    (h : ∀ a, (write a).Plain depth) (o : Option α) :
    ∀ m ∈ member? name write o, m.2.Plain depth := by
  cases o with
  | none => exact nofun
  | some a => exact List.forall_mem_singleton.mpr (h a)

theorem plain_toJson (r : Reference) : r.toJson.Plain 1 := by
  have htext (s : String) : (Value.text s).Plain 0 := ⟨rfl, Nat.le_refl 0⟩
  have hword (w : UInt64) : (Value.word w).Plain 0 := ⟨rfl, Nat.le_refl 0⟩
  have hstub : ∀ m ∈ (if r.stub then [("stub", Value.bool true)] else []), m.2.Plain 0 := by
    cases r.stub with
    | false => exact nofun
    | true => exact List.forall_mem_singleton.mpr ⟨rfl, Nat.le_refl 0⟩
  rw [toJson, Value.plain_object]
  simp only [List.forall_mem_append, List.forall_mem_cons]
  exact ⟨⟨⟨⟨⟨⟨htext _, hword _, nofun⟩, plain_member? hword _⟩, plain_member? htext _⟩,
    plain_member? htext _⟩, plain_member? hword _⟩, hstub⟩

theorem decoder_toJson (r : Reference) (depth : Nat) :
    decoder (depth + 1) (ofValue r.toJson) = .ok r := by
  obtain ⟨contentType, length, encodedLength, encoding, digest, revpos, stub⟩ := r
  let d₁ : Draft := { contentType := some contentType, length := some length }
  let d₂ : Draft := { d₁ with encodedLength := encodedLength.map some }
  let d₃ : Draft := { d₂ with encoding := encoding.map some }
  let d₄ : Draft := { d₃ with digest := digest.map some }
  let d₅ : Draft := { d₄ with revpos := revpos.map some }
  let d₆ : Draft := { d₅ with stub := if stub then some true else none }
  have htype : Fills fields ignore depth [("content_type", .text contentType)] {}
      { contentType := some contentType } := fills_field rfl rfl rfl rfl
  have hlength : Fills fields ignore depth [("length", .word length)]
      { contentType := some contentType } d₁ := fills_field rfl rfl (word_ofValue _ _) rfl
  have hencoded :
      Fills fields ignore depth (member? "encoded_length" .word encodedLength) d₁ d₂ :=
    fills_member? rfl rfl (fun w => optional_word w depth) (by cases encodedLength <;> rfl)
  have hencoding : Fills fields ignore depth (member? "encoding" .text encoding) d₂ d₃ :=
    fills_member? rfl rfl (fun _ => rfl) (by cases encoding <;> rfl)
  have hdigest : Fills fields ignore depth (member? "digest" .text digest) d₃ d₄ :=
    fills_member? rfl rfl (fun _ => rfl) (by cases digest <;> rfl)
  have hrevpos : Fills fields ignore depth (member? "revpos" .word revpos) d₄ d₅ :=
    fills_member? rfl rfl (fun w => optional_word w depth) (by cases revpos <;> rfl)
  have hstub : Fills fields ignore depth (if stub then [("stub", .bool true)] else []) d₅ d₆ :=
    fills_mark rfl rfl (by cases stub <;> rfl)
  have hrecord := record_ofValue ((((((htype.append hlength).append hencoded).append
    hencoding).append hdigest).append hrevpos).append hstub)
  have hread : decoder (depth + 1) (ofValue (toJson
      ⟨contentType, length, encodedLength, encoding, digest, revpos, stub⟩)) =
      .ok ⟨contentType, length, (encodedLength.map some).join, (encoding.map some).join,
        (digest.map some).join, (revpos.map some).join,
        (if stub then some true else none).getD false⟩ :=
    bind_eq_ok.mpr ⟨d₆, hrecord, rfl⟩
  rw [hread]
  simp only [join_map_some]
  cases stub <;> rfl

end Reference

end Replica
