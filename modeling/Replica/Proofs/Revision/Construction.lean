import Replica.Proofs.Revision.Generations
import Replica.Proofs.Revision.WireForm

/-!
# The revisions of a fragment that was made

A fragment is made from a history, given or read from the wire, and changed in what its leaf holds.
Each way goes through one check of the history, and what comes after leaves the history alone. From
the check alone it follows that generations can be computed in words without wrapping, up to the
largest word, and that every revision of the fragment is an id that could have been checked itself.

The generations of this library are numbers. What words make of them is said beside, by operations
that give nothing where a word would wrap.
-/
namespace Replica

namespace Word

/-- The difference of two words, unless it wraps. -/
def minus? (a b : UInt64) : Option UInt64 := if b ≤ a then some (a - b) else none

/-- The sum of two words, unless it wraps. -/
def plus? (a b : UInt64) : Option UInt64 :=
  if a.toNat + b.toNat < UInt64.size then some (a + b) else none

theorem minus?_ofNat {a : UInt64} {n : Nat} (h : n ≤ a.toNat) :
    ∃ w, minus? a (UInt64.ofNat n) = some w ∧ w.toNat + n = a.toNat := by
  have hn : (UInt64.ofNat n).toNat = n :=
    UInt64.toNat_ofNat_of_lt (Nat.lt_of_le_of_lt h a.toNat_lt)
  have hle : UInt64.ofNat n ≤ a := by rwa [UInt64.le_iff_toNat_le, hn]
  refine ⟨a - UInt64.ofNat n, if_pos hle, ?_⟩
  rw [UInt64.toNat_sub_of_le _ _ hle, hn]
  exact Nat.sub_add_cancel h

theorem plus?_eq_some {a b : UInt64} (h : a.toNat + b.toNat < UInt64.size) :
    ∃ w, plus? a b = some w ∧ w.toNat = a.toNat + b.toNat :=
  ⟨a + b, if_pos h, (UInt64.toNat_add a b).trans (Nat.mod_eq_of_lt h)⟩

end Word

namespace Fragment

variable {f : Fragment}

theorem new_eq_ok_iff {document : String} {start : UInt64} {ids : List String} :
    new document start ids = .ok f ↔
      (document ≠ "" ∧ ids ≠ [] ∧ "" ∉ ids ∧ ids.length ≤ start.toNat) ∧
        f.document = document ∧ f.start = start.toNat ∧ f.ids = ids ∧ f.deleted = false ∧
        f.attachments = .empty ∧ f.body = .empty := by
  constructor
  · intro h
    unfold new at h
    split_ifs at h with hdocument hids hempty hlength
    obtain rfl := Except.ok.inj h
    exact ⟨⟨hdocument, hids, hempty, Nat.le_of_not_lt hlength⟩, rfl, rfl, rfl, rfl, rfl, rfl⟩
  · rintro ⟨⟨hdocument, hids, hempty, hlength⟩, rfl, hstart, rfl, hdeleted, hattachments, hbody⟩
    unfold new
    rw [dif_neg hdocument, dif_neg hids, dif_neg hempty, dif_neg (Nat.not_lt.mpr hlength)]
    cases f
    simp only at hstart hdeleted hattachments hbody
    subst hstart hdeleted hattachments hbody
    rfl

/-- The fragments that can be made: from a history that is given or read, and then by changes of
what the leaf holds. -/
inductive Made : Fragment → Prop where
  | new {document : String} {start : UInt64} {ids : List String} {f : Fragment}
    (h : Fragment.new document start ids = .ok f) : Made f
  | parse {text : String} {f : Fragment} (h : Fragment.parse text = .ok f) : Made f
  | withDeleted {f : Fragment} (deleted : Bool) (h : Made f) : Made (f.withDeleted deleted)
  | withBody {f : Fragment} (body : Json.Record) (h : Made f) : Made (f.withBody body)
  | withAttachment {f : Fragment} (name : String) (reference : Reference) (h : Made f) :
    Made (f.withAttachment name reference)

/-- The fragment's history has passed the check, with this word as the generation of the leaf. -/
def Checked (f : Fragment) (start : UInt64) : Prop :=
  ∃ g, new f.document start f.ids = .ok g ∧ f.start = start.toNat

theorem checked_of_new {document : String} {start : UInt64} {ids : List String}
    (h : new document start ids = .ok f) : f.Checked start := by
  obtain ⟨-, hdocument, hstart, hids, -⟩ := new_eq_ok_iff.mp h
  exact ⟨f, by rw [hdocument, hids, h], hstart⟩

theorem checked_of_parse {text : String} (h : parse text = .ok f) : ∃ start, f.Checked start := by
  have hread := (Json.Decoder.decode_eq_ok.mp (mapError_eq_ok.mp h)).1
  obtain ⟨d, -, hread⟩ := bind_eq_ok.mp hread
  obtain ⟨id, -, hread⟩ := bind_eq_ok.mp hread
  obtain ⟨⟨start, ids⟩, -, hread⟩ := bind_eq_ok.mp hread
  obtain ⟨g, hnew, rfl⟩ := assemble_eq_ok (mapError_eq_ok.mp hread)
  have hchecked : g.Checked start := checked_of_new hnew
  exact ⟨start, hchecked⟩

/-- No fragment is made past the check. -/
theorem Made.checked (h : Made f) : ∃ start, f.Checked start := by
  induction h with
  | new h => exact ⟨_, checked_of_new h⟩
  | parse h => exact checked_of_parse h
  | withDeleted _ _ ih => exact ih
  | withBody _ _ ih => exact ih
  | withAttachment _ _ _ ih => exact ih

/-- The least generation of so many revisions down from a start, in words. -/
def leastWord? (start : UInt64) (count : Nat) : Option UInt64 := do
  let below ← Word.minus? start (UInt64.ofNat count)
  Word.plus? below 1

/-- The generation at a place behind the leaf, in words. -/
def generationWord? (start : UInt64) (place : Nat) : Option UInt64 :=
  Word.minus? start (UInt64.ofNat place)

theorem leastWord?_eq_some {start : UInt64} {count : Nat} (hpos : 0 < count)
    (hle : count ≤ start.toNat) :
    ∃ least, leastWord? start count = some least ∧ least.toNat + count = start.toNat + 1 := by
  obtain ⟨below, hbelow, hdifference⟩ := Word.minus?_ofNat hle
  have hone : (1 : UInt64).toNat = 1 := rfl
  -- At least one is taken off before one is put on, so not even the largest start wraps.
  have hroom : below.toNat + (1 : UInt64).toNat < UInt64.size := by
    have hstart := start.toNat_lt
    have hsize : UInt64.size = 2 ^ 64 := rfl
    omega
  obtain ⟨least, hleast, hsum⟩ := Word.plus?_eq_some hroom
  refine ⟨least, ?_, by omega⟩
  rw [leastWord?, hbelow]
  exact hleast

/-- Behind the leaf of a checked history every place has a generation in words, and with its hash
this makes an id. -/
theorem Checked.exists_id {start : UInt64} (h : f.Checked start) {i : Nat} (hi : i < f.ids.length) :
    ∃ generation r, generationWord? start i = some generation ∧ f.revisions[i]? = some r ∧
      RevisionId.new generation f.ids[i] = .ok r := by
  obtain ⟨g, hnew, hstart⟩ := h
  obtain ⟨-, -, hempty, hlength⟩ := (new_eq_ok_iff.mp hnew).1
  obtain ⟨generation, hword, hdifference⟩ := Word.minus?_ofNat (a := start) (n := i) (by omega)
  have hplace : i < f.revisions.length := by rwa [length_revisions]
  refine ⟨generation, f.revisions[i], hword, List.getElem?_eq_getElem hplace, ?_⟩
  have hpositive : generation ≠ 0 := by
    rintro rfl
    have hzero : (0 : UInt64).toNat = 0 := rfl
    omega
  have hhash : f.ids[i] ≠ "" := fun hblank => hempty (hblank ▸ List.getElem_mem hi)
  have hgeneration : generation.toNat = f.start - i := by omega
  rw [RevisionId.new_eq_ok_iff, getElem_revisions f i hplace hi, hgeneration]
  exact ⟨hpositive, hhash, rfl⟩

/-- **Every fragment that can be made has valid revisions only.** Its history has passed the check.
In words no generation wraps: neither the least one nor that at any place. The generations count
down from that of the leaf to the least one, which is at least one, with the leaf in front and the
oldest revision at the end. Each revision is the id that its generation and its hash make when they
are checked, and is read back from its text. -/
theorem revisions_valid (h : Made f) :
    ∃ start, f.Checked start ∧
      (∃ least, leastWord? start f.ids.length = some least ∧ least.toNat = f.minGeneration) ∧
      1 ≤ f.minGeneration ∧ f.minGeneration + f.ids.length = f.start + 1 ∧
      f.revisions.map (·.generation) = (List.range' f.minGeneration f.ids.length).reverse ∧
      f.revisions.head? = some f.leaf ∧ f.revisions.getLast? = some f.oldest ∧
      ∀ (i : Nat) (hi : i < f.ids.length), ∃ generation r,
        generationWord? start i = some generation ∧ f.revisions[i]? = some r ∧
        RevisionId.new generation f.ids[i] = .ok r ∧ RevisionId.parse r.text = .ok r := by
  obtain ⟨start, hchecked⟩ := h.checked
  obtain ⟨g, hnew, hstart⟩ := hchecked
  obtain ⟨-, hids, -, hlength⟩ := (new_eq_ok_iff.mp hnew).1
  obtain ⟨least, hleast, hsum⟩ := leastWord?_eq_some (List.length_pos_iff.mpr hids) hlength
  have hmin := f.minGeneration_add_length
  refine ⟨start, ⟨g, hnew, hstart⟩, ⟨least, hleast, by omega⟩, f.minGeneration_pos, hmin,
    f.generations_eq, f.head?_revisions, f.getLast?_revisions, fun i hi => ?_⟩
  obtain ⟨generation, r, hword, hplace, hvalid⟩ := Checked.exists_id ⟨g, hnew, hstart⟩ hi
  exact ⟨generation, r, hword, hplace, hvalid, RevisionId.parse_text ⟨_, _, hvalid⟩⟩

theorem largest_lt_size : 18446744073709551615 < UInt64.size := by decide

/-- A leaf of the largest generation there is, with a dash in its hash. -/
def topmost : Fragment where
  document := "note"
  start := 18446744073709551615
  ids := ["b-2", "a"]
  document_ne := note_ne_empty
  ids_ne := by decide
  id_ne := by decide
  length_le := by decide
  start_lt := largest_lt_size

/-- The same as a deletion, with an attachment. -/
def retouched : Fragment :=
  (topmost.withDeleted true).withAttachment "photo.png" { contentType := "image/png", length := 9 }

theorem revisions_valid_retouched :
    Made retouched ∧ ∃ start, retouched.Checked start ∧
      (∃ least, leastWord? start retouched.ids.length = some least ∧
        least.toNat = 18446744073709551614) ∧
      retouched.revisions.map (·.generation) = [18446744073709551615, 18446744073709551614] ∧
      ∀ (i : Nat) (hi : i < retouched.ids.length), ∃ generation r,
        generationWord? start i = some generation ∧ retouched.revisions[i]? = some r ∧
        RevisionId.new generation retouched.ids[i] = .ok r ∧ RevisionId.parse r.text = .ok r := by
  have hread : parse topmost.render = .ok topmost := parse_render nofun rfl nofun
  have hmade : Made retouched := .withAttachment _ _ (.withDeleted _ (.parse hread))
  obtain ⟨start, hchecked, hleast, -, -, hgenerations, -, -, hids⟩ := revisions_valid hmade
  exact ⟨hmade, start, hchecked, hleast, hgenerations, hids⟩

end Fragment

end Replica
