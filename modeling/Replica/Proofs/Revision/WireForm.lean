import Replica.Proofs.Attachment.Written
import Replica.Proofs.Revision.Names
import Replica.Revision.Wire

/-!
# Fragments written and read back

A fragment's text is the document of its leaf, with five reserved members before those of the body.
Reading takes the reserved members apart again and lets only other names into the body, so a
fragment is read back exactly where its own body has no reserved name.

Bodies with doubles are left out, and so is any text that no reader takes.
-/
namespace Replica.Fragment

open Json Json.Decoder Json.Tree

/-- The members of a fragment under reserved names, with the leaf's id as given or without it. -/
def reservedMembers (f : Fragment) (rev : Option String) : List (String × Value) :=
  [("_id", .text f.document)] ++ Reference.member? "_rev" .text rev ++
    (if f.deleted then [("_deleted", .bool true)] else []) ++
    [("_revisions", .object [
      ("start", .word (UInt64.ofNat f.start)), ("ids", .array (f.ids.map .text))])] ++
    (if f.attachments.isEmpty then []
      else [("_attachments", .object (f.attachments.entries.map fun (n, r) => (n, r.toJson)))])

/-- The document of a fragment, with the leaf's id as given or without it. -/
def documentWith (f : Fragment) (rev : Option String) : Value :=
  .object (f.reservedMembers rev ++ f.body.members)

theorem toJson_eq (f : Fragment) : f.toJson = f.documentWith (some f.leaf.text) := rfl

theorem plain_reservedMembers (f : Fragment) (rev : Option String) :
    ∀ m ∈ f.reservedMembers rev, m.2.Plain 2 := by
  have htext (s : String) : (Value.text s).Plain 2 := ⟨rfl, Nat.zero_le 2⟩
  have hdeleted : ∀ m ∈ (if f.deleted then [("_deleted", Value.bool true)] else []),
      m.2.Plain 2 := by
    cases f.deleted with
    | false => exact nofun
    | true => exact List.forall_mem_singleton.mpr ⟨rfl, Nat.zero_le 2⟩
  have hhistory : (Value.object [("start", .word (UInt64.ofNat f.start)),
      ("ids", .array (f.ids.map .text))]).Plain 2 :=
    Value.plain_object.mpr (List.forall_mem_cons.mpr
      ⟨⟨rfl, Nat.zero_le 1⟩, List.forall_mem_singleton.mpr (Value.plain_texts f.ids)⟩)
  have hattachments : ∀ m ∈ (if f.attachments.isEmpty then [] else [("_attachments",
      Value.object (f.attachments.entries.map fun (n, r) => (n, r.toJson)))]), m.2.Plain 2 := by
    cases f.attachments.isEmpty with
    | true => exact nofun
    | false =>
      refine List.forall_mem_singleton.mpr (Value.plain_object.mpr ?_)
      intro m hm
      obtain ⟨e, _, rfl⟩ := List.mem_map.mp hm
      exact e.2.plain_toJson
  simp only [reservedMembers, List.forall_mem_append, List.forall_mem_singleton]
  exact ⟨⟨⟨⟨htext _, Reference.plain_member? htext _⟩, hdeleted⟩, hhistory⟩, hattachments⟩

theorem plain_documentWith {f : Fragment} {rev : Option String} {depth : Nat} :
    (f.documentWith rev).Plain (depth + 3) ↔ ∀ m ∈ f.body.members, m.2.Plain (depth + 2) := by
  rw [documentWith, Value.plain_object, List.forall_mem_append]
  exact and_iff_right fun m hm => (f.plain_reservedMembers rev m hm).mono (by omega)

theorem historyDecoder_ofValue (start : UInt64) (ids : List String) (depth : Nat) :
    historyDecoder (depth + 2) (ofValue (.object [
      ("start", .word start), ("ids", .array (ids.map .text))])) = .ok (start, ids) := by
  have hstart : Fills historyFields ignore (depth + 1) [("start", .word start)] {}
      { start := some start } := fills_field rfl rfl (word_ofValue _ _) rfl
  have hids : Fills historyFields ignore (depth + 1) [("ids", .array (ids.map .text))]
      { start := some start } { start := some start, ids := some ids } :=
    fills_field rfl rfl (list_ofValue fun _ _ => rfl) rfl
  exact bind_eq_ok.mpr ⟨_, record_ofValue (hstart.append hids), rfl⟩

theorem find?_fields {name : String} (h : name ∉ reservedNames) :
    fields.find? (·.name == name) = none := by
  have hnames : reservedNames = fields.map (·.name) := rfl
  rw [hnames] at h
  rw [List.find?_eq_none]
  intro f hf heq
  exact h (List.mem_map.mpr ⟨f, hf, beq_iff_eq.mp heq⟩)

/-- No member of the body has a reserved name. -/
def Unreserved (f : Fragment) : Prop := ∀ m ∈ f.body.members, m.1 ∉ reservedNames

instance (f : Fragment) : Decidable f.Unreserved :=
  inferInstanceAs (Decidable (∀ m ∈ f.body.members, m.1 ∉ reservedNames))

theorem keep_eq_ok {name : String} {depth : Nat} {t : Tree} {d d' : Draft} :
    keep name depth t d = .ok d' ↔ ∃ v, ∃ h : t.value? depth = some v,
      { d with body := d.body.insert name v (ordered_of_value? h) } = d' := by
  unfold keep
  constructor
  · intro hkeep
    split at hkeep
    · rename_i v hv
      exact ⟨v, hv, Except.ok.inj hkeep⟩
    · cases hkeep
  · rintro ⟨v, hv, rfl⟩
    split
    · rename_i w hw
      cases hv.symm.trans hw
      rfl
    · rename_i hnone
      cases hv.symm.trans hnone

theorem fills_keep {name : String} {v : Value} (hname : name ∉ reservedNames) (hv : v.Ordered)
    {depth : Nat} (hd : v.nesting ≤ depth) (d : Draft) :
    Fills fields keep depth [(name, v)] d { d with body := d.body.insert name v hv } :=
  fills_other (find?_fields hname) (keep_eq_ok.mpr ⟨v, value?_ofValue hv hd, rfl⟩)

/-- Members under other names rebuild a body that they continue. -/
theorem fills_body {ms : List (String × Value)} {depth : Nat} {d : Draft} {body : Record}
    (hbody : d.body.members ++ ms = body.members) (hnames : ∀ m ∈ ms, m.1 ∉ reservedNames)
    (hdepth : ∀ m ∈ ms, m.2.nesting ≤ depth) :
    Fills fields keep depth ms d { d with body } := by
  induction ms generalizing d with
  | nil =>
    rw [List.append_nil] at hbody
    have heq : d.body = body := Record.eq_of_members hbody
    rw [← heq]
    rfl
  | cons m rest ih =>
    obtain ⟨name, v⟩ := m
    obtain ⟨hname, hnames⟩ := List.forall_mem_cons.mp hnames
    obtain ⟨hd, hdepth⟩ := List.forall_mem_cons.mp hdepth
    obtain ⟨hrising, hordered⟩ := body.ordered
    rw [← hbody] at hrising hordered
    have hv : v.Ordered := Value.orderedMembers_iff.mp hordered (name, v) (by simp)
    have hinsert : (d.body.insert name v hv).members = d.body.members ++ [(name, v)] :=
      Entries.insert_next hrising
    have hrest : (d.body.insert name v hv).members ++ rest = body.members := by
      rw [hinsert, ← List.append_cons, hbody]
    have hlater := @ih { d with body := d.body.insert name v hv } hrest hnames hdepth
    exact (fills_keep hname hv hd d).append hlater

theorem new_parts (f : Fragment) : new f.document (UInt64.ofNat f.start) f.ids =
    .ok { f with deleted := false, attachments := .empty, body := .empty } := by
  have hstart : (UInt64.ofNat f.start).toNat = f.start := UInt64.toNat_ofNat_of_lt f.start_lt
  have hempty : "" ∉ f.ids := fun h => f.id_ne "" h rfl
  have hlength : ¬(UInt64.ofNat f.start).toNat < f.ids.length := by
    have := f.length_le
    omega
  unfold new
  rw [dif_neg f.document_ne, dif_neg f.ids_ne, dif_neg hempty, dif_neg hlength]
  simp only [hstart]

/-- The parts of a fragment make up that fragment, with no id of the leaf or the right one. -/
theorem assemble_parts (f : Fragment) {rev : Option String}
    (hrev : ∀ r ∈ rev, RevisionId.parse r = .ok f.leaf) :
    assemble f.document rev f.deleted (UInt64.ofNat f.start) f.ids f.attachments f.body =
      .ok f := by
  refine bind_eq_ok.mpr ⟨_, new_parts f, ?_⟩
  cases rev with
  | none => rfl
  | some r => exact bind_eq_ok.mpr ⟨f.leaf, hrev r rfl, if_neg fun h => h rfl⟩

/-- What is assembled has a history that was checked, and the rest as it was read. -/
theorem assemble_eq_ok {id : String} {rev : Option String} {deleted : Bool} {start : UInt64}
    {ids : List String} {attachments : Keyed Reference} {body : Record} {f : Fragment}
    (h : assemble id rev deleted start ids attachments body = .ok f) :
    ∃ g, new id start ids = .ok g ∧ f = { g with deleted, attachments, body } := by
  unfold assemble at h
  obtain ⟨g, hnew, h⟩ := bind_eq_ok.mp h
  cases rev with
  | none =>
    cases h
    exact ⟨g, hnew, rfl⟩
  | some r =>
    obtain ⟨declared, _, h⟩ := bind_eq_ok.mp h
    split at h
    · cases h
    · cases h
      exact ⟨g, hnew, rfl⟩

theorem decoder_documentWith {f : Fragment} (hnames : f.Unreserved) {depth : Nat}
    (hdepth : ∀ m ∈ f.body.members, m.2.nesting ≤ depth + 2) {rev : Option String}
    (hrev : ∀ r ∈ rev, RevisionId.parse r = .ok f.leaf) :
    decoder (depth + 3) (ofValue (f.documentWith rev)) = .ok f := by
  -- The draft behind each of the reserved members, and behind those that may be left out.
  let history := (UInt64.ofNat f.start, f.ids)
  let d₁ : Draft := { id := some f.document }
  let d₂ : Draft := { d₁ with rev := rev.map some }
  let d₃ : Draft := { d₂ with deleted := if f.deleted then some true else none }
  let d₄ : Draft := { d₃ with history := some history }
  let d₅ : Draft :=
    { d₄ with attachments := if f.attachments.isEmpty then none else some f.attachments }
  have hid : Fills fields keep (depth + 2) [("_id", .text f.document)] {} d₁ :=
    fills_field rfl rfl rfl rfl
  have hleaf : Fills fields keep (depth + 2) (Reference.member? "_rev" .text rev) d₁ d₂ :=
    fills_member? rfl rfl (fun _ => rfl) (by cases rev <;> rfl)
  have hdeleted : Fills fields keep (depth + 2)
      (if f.deleted then [("_deleted", .bool true)] else []) d₂ d₃ :=
    fills_mark rfl rfl (by simp only [d₃]; cases f.deleted <;> rfl)
  have hhistory : Fills fields keep (depth + 2) [("_revisions", .object [
      ("start", .word history.1), ("ids", .array (history.2.map .text))])] d₃ d₄ :=
    fills_field rfl rfl (historyDecoder_ofValue _ _ _) rfl
  have hattachments : Fills fields keep (depth + 2) (if f.attachments.isEmpty then []
      else [("_attachments", .object (f.attachments.entries.map fun (n, r) => (n, r.toJson)))])
      d₄ d₅ := by
    cases hempty : f.attachments.isEmpty with
    | true =>
      simp only [d₅, hempty]
      rfl
    | false =>
      have hread := map_ofValue fun e (_ : e ∈ f.attachments.entries) =>
        Reference.decoder_toJson e.2 depth
      simp only [d₅, hempty]
      exact fills_field rfl rfl hread rfl
  have hbody : Fills fields keep (depth + 2) f.body.members d₅ { d₅ with body := f.body } :=
    fills_body rfl hnames hdepth
  have hrecord := recordObject_ofValue (((((hid.append hleaf).append hdeleted).append
    hhistory).append hattachments).append hbody)
  have hmark : (if f.deleted then some true else none).getD false = f.deleted := by
    cases f.deleted <;> rfl
  have hkept : (if f.attachments.isEmpty then none else some f.attachments).getD .empty =
      f.attachments := by
    cases hempty : f.attachments.isEmpty with
    | true => exact (Keyed.eq_empty hempty).symm
    | false => rfl
  refine bind_eq_ok.mpr ⟨_, hrecord, ?_⟩
  change (assemble f.document (rev.map some).join _ _ f.ids _ f.body).mapError _ = _
  rw [join_map_some, hmark, hkept, assemble_parts f hrev]
  rfl

/-- Reading a reserved member leaves the body alone. -/
theorem body_of_field {member : Member Draft} (hmember : member ∈ fields) {depth : Nat} {t : Tree}
    {d d' : Draft} (h : member.read depth t d = .ok d') : d'.body = d.body := by
  simp only [fields, List.mem_cons, List.not_mem_nil, or_false] at hmember
  rcases hmember with rfl | rfl | rfl | rfl | rfl
  all_goals
    obtain ⟨a, _, rfl⟩ := map_eq_ok.mp h
    rfl

/-- No reserved name and no deeper nesting than the reader allows gets into a body. -/
theorem body_of_decoder {depth : Nat} {t : Tree} {f : Fragment} (h : decoder depth t = .ok f) :
    ∀ m ∈ f.body.members, m.1 ∉ reservedNames ∧ m.2.nesting < depth := by
  obtain ⟨d, hd, h⟩ := bind_eq_ok.mp h
  obtain ⟨id, _, h⟩ := bind_eq_ok.mp h
  obtain ⟨⟨start, ids⟩, _, h⟩ := bind_eq_ok.mp h
  obtain ⟨g, -, rfl⟩ := assemble_eq_ok (mapError_eq_ok.mp h)
  obtain ⟨inner, ms, rfl, rfl, hms⟩ := recordObject_eq_ok.mp hd
  refine recordMembers_preserves (P := fun d =>
    ∀ m ∈ d.body.members, m.1 ∉ reservedNames ∧ m.2.nesting < inner + 1) ?_ ?_ hms nofun
  · intro member hmember t d d' hread hd
    rw [body_of_field hmember hread]
    exact hd
  · intro name hname t d d' hkeep hd m hm
    obtain ⟨v, hv, rfl⟩ := keep_eq_ok.mp hkeep
    rcases Entries.mem_insert hm with rfl | hm
    · refine ⟨fun hreserved => ?_, Nat.lt_succ_of_le (nesting_of_value? hv)⟩
      obtain ⟨member, hmember, heq⟩ : ∃ member ∈ fields, member.name = name :=
        List.mem_map.mp hreserved
      exact hname member hmember heq
    · exact hd m hm

theorem body_of_parse {text : String} {f : Fragment} (h : parse text = .ok f) :
    f.Unreserved ∧ ∀ m ∈ f.body.members, m.2.nesting < depthLimit := by
  have hbody := body_of_decoder (decode_eq_ok.mp (mapError_eq_ok.mp h)).1
  exact ⟨fun m hm => (hbody m hm).1, fun m hm => (hbody m hm).2⟩

theorem parse_documentWith {f : Fragment} (hnames : f.Unreserved)
    (hfloat : (Value.object f.body.members).isFloatFree = true)
    (hdepth : ∀ m ∈ f.body.members, m.2.nesting < depthLimit) {rev : Option String}
    (hrev : ∀ r ∈ rev, RevisionId.parse r = .ok f.leaf) :
    parse (f.documentWith rev).render = .ok f := by
  have hmembers : ∀ m ∈ f.body.members, m.2.Plain 126 := fun m hm =>
    ⟨Value.allMembersFloatFree_iff.mp hfloat m hm, Nat.le_of_lt_succ (hdepth m hm)⟩
  have hplain : (f.documentWith rev).Plain 127 := plain_documentWith.mpr hmembers
  refine mapError_eq_ok.mpr (decode_eq_ok.mpr ?_)
  rw [Document.read_render hplain.1]
  exact ⟨decoder_documentWith hnames (fun m hm => (hmembers m hm).2) hrev, rfl⟩

/-- What a document may give as the leaf's id: nothing, or its text, with a plus sign or zeros in
front if one likes. -/
def SpellsLeaf (f : Fragment) (rev : Option String) : Prop :=
  rev = none ∨ ∃ plus zeros, rev = some (f.leaf.padded plus zeros)

theorem spellsLeaf_text (f : Fragment) : f.SpellsLeaf (some f.leaf.text) :=
  Or.inr ⟨false, 0, rfl⟩

theorem SpellsLeaf.parse {f : Fragment} {rev : Option String} (h : f.SpellsLeaf rev) :
    ∀ r ∈ rev, RevisionId.parse r = .ok f.leaf := by
  intro r hr
  rcases h with rfl | ⟨plus, zeros, rfl⟩
  · cases hr
  · cases hr
    have hpos : f.leaf.generation ≠ 0 := by
      have hids := f.ids_length_pos
      have hle := f.length_le
      change f.start ≠ 0
      omega
    exact RevisionId.parse_padded hpos f.start_lt (f.id_ne _ (List.head_mem f.ids_ne)) plus zeros

theorem parse_render {f : Fragment} (hnames : f.Unreserved)
    (hfloat : (Value.object f.body.members).isFloatFree = true)
    (hdepth : ∀ m ∈ f.body.members, m.2.nesting < depthLimit) : parse f.render = .ok f := by
  rw [render, toJson_eq]
  exact parse_documentWith hnames hfloat hdepth f.spellsLeaf_text.parse

/-- **The wire form is read back exactly.** A fragment without doubles, within the reader's depth,
is read back from its text exactly if its body has no reserved name. Then the leaf's id may as well
be missing, or be written with a plus sign or zeros in front. A fragment that was read from any text
is read back, and written the same again. -/
theorem parse_render_iff {f : Fragment}
    (hfloat : (Value.object f.body.members).isFloatFree = true) :
    (f.toJson.nesting ≤ depthLimit →
      (parse f.render = .ok f ↔ f.Unreserved) ∧
      (f.Unreserved → ∀ rev, f.SpellsLeaf rev → parse (f.documentWith rev).render = .ok f)) ∧
    ∀ text, parse text = .ok f →
      parse f.render = .ok f ∧ ∀ g, parse f.render = .ok g → g.render = f.render := by
  constructor
  · intro hdepth
    have hmembers : ∀ m ∈ f.body.members, m.2.nesting < depthLimit := fun m hm =>
      Nat.lt_of_lt_of_le (Value.nesting_lt_of_mem (List.mem_append_right _ hm)) hdepth
    refine ⟨⟨fun h => (body_of_parse h).1, fun hnames => ?_⟩, fun hnames rev hrev => ?_⟩
    · exact parse_render hnames hfloat hmembers
    · exact parse_documentWith hnames hfloat hmembers hrev.parse
  · intro text h
    obtain ⟨hnames, hdepth⟩ := body_of_parse h
    have hf := parse_render hnames hfloat hdepth
    refine ⟨hf, fun g hg => ?_⟩
    cases hf.symm.trans hg
    rfl

theorem note_ne_empty : "note" ≠ "" := by decide

theorem three_lt_size : 3 < UInt64.size := by decide

/-- A deletion with a dash in its hash, a stub, and a body with text to be escaped. -/
def writtenSample : Fragment where
  document := "note"
  start := 3
  ids := ["c-1", "b"]
  deleted := true
  attachments := Keyed.empty.insert "photo.png"
    { contentType := "image/png", length := 9, digest := some "sha256-abc", stub := true }
  body := Record.ofMembers [
    ("title", .text "a \"b\"\n"), ("tags", .array [.null, .object []]), ("n", .signed (-7))]
  document_ne := note_ne_empty
  ids_ne := by decide
  id_ne := by decide
  length_le := by decide
  start_lt := three_lt_size

theorem parse_render_writtenSample :
    (Value.object writtenSample.body.members).isFloatFree = true ∧
      writtenSample.toJson.nesting ≤ depthLimit ∧ writtenSample.Unreserved ∧
      parse writtenSample.render = .ok writtenSample ∧
      parse (writtenSample.documentWith (some "+003-c-1")).render = .ok writtenSample ∧
      ∀ g, parse writtenSample.render = .ok g → g.render = writtenSample.render := by
  have hfloat : (Value.object writtenSample.body.members).isFloatFree = true := by decide
  have hdepth : writtenSample.toJson.nesting ≤ depthLimit := by decide
  have hnames : writtenSample.Unreserved := by decide
  obtain ⟨⟨hiff, hrev⟩, hagain⟩ := (parse_render_iff hfloat).imp_left fun h => h hdepth
  have hpadded := hrev hnames (some "+003-c-1") (.inr ⟨true, 2, rfl⟩)
  exact ⟨hfloat, hdepth, hnames, hiff.mpr hnames, hpadded, (hagain _ hpadded).2⟩

end Replica.Fragment
