import Replica.Proofs.Attachment.Contents
import Replica.Proofs.Pull.Preservation

/-!
# Where staged attachments come from

Every attachment that is staged in the end comes of one opening, the last one that was made for it:
the openings before, and what was read of their streams, leave nothing behind.
-/
namespace Replica

theorem exists_partner {α β : Type} {R : α → β → Prop} {l : List α} {l' : List β}
    (h : List.Forall₂ R l l') : ∀ a ∈ l, ∃ b ∈ l', R a b := by
  induction h with
  | nil => exact nofun
  | cons hab _ ih =>
    refine List.forall_mem_cons.mpr ⟨⟨_, List.mem_cons_self, hab⟩, fun a ha => ?_⟩
    obtain ⟨b, hb, hR⟩ := ih a ha
    exact ⟨b, List.mem_cons_of_mem _ hb, hR⟩

/-- What comes of staging what was opened. -/
def Opening.staged (stager : Stager) (metadata : Metadata) : Opening → Except PullError Staged
  | .failed e => .error (.ofOpening e)
  | .broke => .error .brokenWorker
  | .stream s => (stager.stage s metadata).1.mapError .document

namespace Processor

variable {σ : Type} {env : Surroundings σ} {inv : σ → Prop} {config : PullConfig}
  {document : String} {revision : RevisionId} {o o' : σ}

theorem attempt_eq (env : Surroundings σ) (stager : Stager) (key : AttachmentKey)
    (metadata : Metadata) (o : σ) :
    attempt env stager key metadata o =
      match checkCancelled env o with
      | (.error e, o) => (.error e, o)
      | (.ok (), o) =>
        ((env.openStream key o).1.staged stager metadata, (env.openStream key o).2) := by
  unfold attempt
  cases checkCancelled env o with
  | mk result next =>
    cases result with
    | error e => rfl
    | ok _ =>
      dsimp only
      cases env.openStream key next with
      | mk opening rest => cases opening <;> rfl

/-- The item was staged for the attachment from one of its openings. -/
def ComesOf (env : Surroundings σ) (inv : σ → Prop) (stager : Stager) (key : AttachmentKey)
    (reference : Reference) (item : StagedItem) : Prop :=
  item.name = key.name ∧ ∃ metadata o, reference.metadata = .ok metadata ∧ inv o ∧
    (env.openStream key o).1.staged stager metadata = .ok item.staged

theorem stageOne_comesOf {key : AttachmentKey} {reference : Reference} {item : StagedItem}
    (hkey : env.Preserves inv key) (ho : inv o)
    (h : stageOne env config key reference o = (.ok item, o')) :
    ComesOf env inv config.stager key reference item := by
  refine ⟨stageOne_name h, ?_⟩
  unfold stageOne at h
  split at h
  · cases h
  · rename_i metadata hmetadata
    split at h
    · cases h
    · rename_i staged retries next hpersist
      obtain rfl := Except.ok.inj (Prod.mk.inj h).1
      obtain ⟨before, hbefore, hattempt⟩ :=
        RetryPolicy.persist_attempted (hkey.attempt config.stager metadata) ho hpersist
      have hlooked := hkey.check hbefore
      rw [attempt_eq] at hattempt
      split at hattempt <;> rename_i hcheck <;> rw [hcheck] at hlooked
      · cases hattempt
      · exact ⟨metadata, _, hmetadata, hlooked, hattempt⟩

theorem runGroup_comesOf {group : List (String × Reference)} {items : List StagedItem}
    (hkeys : ∀ key, env.Preserves inv key) (ho : inv o)
    (h : collect (runGroup env config document revision o group).1 = .ok items) :
    List.Forall₂ (fun m => ComesOf env inv config.stager ⟨document, revision, m.1⟩ m.2) group
      items := by
  induction group generalizing o items with
  | nil =>
    obtain rfl := Except.ok.inj h
    exact .nil
  | cons m rest ih =>
    rw [runGroup_cons] at h
    obtain ⟨item, others, hitem, hothers, rfl⟩ := collect_cons_eq_ok h
    exact .cons (stageOne_comesOf (hkeys _) ho (Prod.ext hitem rfl))
      (ih ((hkeys _).stageOne m.2 ho) hothers)

theorem runGroups_comesOf {groups : List (List (String × Reference))} {items : List StagedItem}
    (hkeys : ∀ key, env.Preserves inv key) (ho : inv o)
    (h : runGroups env config document revision o groups = (.ok items, o')) :
    List.Forall₂ (fun m => ComesOf env inv config.stager ⟨document, revision, m.1⟩ m.2)
      groups.flatten items := by
  induction groups generalizing o o' items with
  | nil =>
    obtain rfl := Except.ok.inj (Prod.mk.inj h).1
    exact .nil
  | cons group rest ih =>
    unfold runGroups at h
    dsimp only at h
    split at h
    · cases (Prod.mk.inj h).1
    · rename_i first hfirst
      obtain ⟨others, hothers, rfl⟩ := map_eq_ok.mp (Prod.mk.inj h).1
      have hgroup : inv (runGroup env config document revision o group).2 :=
        Surroundings.Preserves.runGroup (fun m _ => hkeys _) ho
      rw [List.flatten_cons]
      exact List.rel_append (runGroup_comesOf hkeys ho hfirst) (ih hgroup (Prod.ext hothers rfl))

/-- The items that are handed over are those of the attachments, one by one. -/
theorem stageAttachments_comesOf {f : Fragment} {items : List StagedItem}
    (hkeys : ∀ key, env.Preserves inv key) (ho : inv o)
    (h : stageAttachments env config f o = (.ok items, o')) :
    List.Forall₂ (fun m => ComesOf env inv config.stager ⟨f.document, f.leaf, m.1⟩ m.2) f.pending
      items := by
  have hitems := runGroups_comesOf hkeys ho h
  rwa [flatten_groups] at hitems

/-- Whatever is opened, what is staged holds the bytes that it seals. -/
theorem ComesOf.seals {stager : Stager} {key : AttachmentKey} {reference : Reference}
    {item : StagedItem} (h : ComesOf env inv stager key reference item) :
    ∃ bytes, item.staged.Seals bytes := by
  obtain ⟨_, metadata, o, _, _, hstaged⟩ := h
  cases hopen : (env.openStream key o).1 with
  | failed e =>
    rw [hopen] at hstaged
    cases hstaged
  | broke =>
    rw [hopen] at hstaged
    cases hstaged
  | stream stream =>
    rw [hopen] at hstaged
    have hstage := mapError_eq_ok.mp hstaged
    exact ⟨_, (Stager.stage_eq_ok (Prod.ext hstage rfl)).2⟩

end Processor

end Replica
