import Replica.Proofs.Pull.Steps

/-!
# What a success says of the cancel flag

A look at the flag that is answered with yes makes an attempt fail for good, hence its attachment,
and hence the fragment. So when all attachments of a fragment have been staged, every look on the
way was answered with no, also before the attempts that had to be repeated. That is stated for
surroundings that remember what they answered.
-/
namespace Replica

/-- The states in which the surroundings have been told to cancel are those behind a look at the
flag that was answered with yes. -/
structure Surroundings.Remembers {σ : Type} (env : Surroundings σ) (told : σ → Prop) : Prop where
  look : ∀ o, told (Processor.look env o) ↔ told o ∨ (env.isCancelled o).1 = true
  opening : ∀ key o, told (env.openStream key o).2 ↔ told o

/-- Whatever all attempts preserve, the cancelled ones apart, a success at the end preserves: a
cancelled attempt is not repeated. -/
theorem RetryPolicy.persist_preserves {σ α : Type} (inv : σ → Prop) {p : RetryPolicy}
    {attempt : σ → Except PullError α × σ} {retries : Nat} {s s' : σ} {a : α × Nat}
    (hattempt : ∀ s, (attempt s).1 ≠ .error .cancelled → inv s → inv (attempt s).2)
    (h : p.persist attempt retries s = (.ok a, s')) (hs : inv s) : inv s' := by
  fun_induction RetryPolicy.persist p attempt retries s with
  | case1 retries s b next hnow =>
    obtain rfl := (Prod.mk.inj h).2
    have hnext := hattempt s
    rw [hnow] at hnext
    exact hnext nofun hs
  | case2 retries s e next hnow hagain ih =>
    have hnext := hattempt s
    rw [hnow] at hnext
    refine ih h (hnext ?_ hs)
    rintro ⟨⟩
    cases hagain.1
  | case3 => cases (Prod.mk.inj h).1

namespace Processor

variable {σ : Type} {env : Surroundings σ} {config : PullConfig} {told : σ → Prop}

theorem untold_check {o o' : σ} (hmem : env.Remembers told)
    (h : checkCancelled env o = (.ok (), o')) (ho : ¬ told o) : ¬ told o' := by
  obtain ⟨hclear, rfl⟩ := checkCancelled_eq_ok.mp h
  rw [hmem.look, hclear]
  simpa using ho

theorem untold_attempt {stager : Stager} {key : AttachmentKey} {metadata : Metadata} {o : σ}
    (hmem : env.Remembers told) (h : (attempt env stager key metadata o).1 ≠ .error .cancelled)
    (ho : ¬ told o) : ¬ told (attempt env stager key metadata o).2 := by
  unfold attempt at h ⊢
  cases hcheck : checkCancelled env o with
  | mk result o₁ =>
    cases result with
    | error e =>
      rw [hcheck, checkCancelled_error hcheck] at h
      exact absurd rfl h
    | ok _ =>
      have hopened := (hmem.opening key o₁).not.mpr (untold_check hmem hcheck ho)
      dsimp only
      split <;> rename_i hopen <;> rw [hopen] at hopened <;> exact hopened

theorem untold_stageOne {key : AttachmentKey} {reference : Reference} {o o' : σ}
    {item : StagedItem} (hmem : env.Remembers told)
    (h : stageOne env config key reference o = (.ok item, o')) (ho : ¬ told o) : ¬ told o' := by
  unfold stageOne at h
  split at h
  · cases (Prod.mk.inj h).1
  · split at h
    · cases (Prod.mk.inj h).1
    · rename_i hpersist
      obtain rfl := (Prod.mk.inj h).2
      exact RetryPolicy.persist_preserves (fun o => ¬ told o) (fun _ => untold_attempt hmem)
        hpersist ho

theorem untold_runGroup {document : String} {revision : RevisionId}
    {group : List (String × Reference)} {o : σ} {items : List StagedItem}
    (hmem : env.Remembers told)
    (h : collect (runGroup env config document revision o group).1 = .ok items) (ho : ¬ told o) :
    ¬ told (runGroup env config document revision o group).2 := by
  induction group generalizing o items with
  | nil => exact ho
  | cons member rest ih =>
    rw [runGroup_cons] at h ⊢
    obtain ⟨item, others, hitem, hothers, rfl⟩ := collect_cons_eq_ok h
    exact ih hothers (untold_stageOne hmem (Prod.ext hitem rfl) ho)

theorem untold_runGroups {document : String} {revision : RevisionId}
    {groups : List (List (String × Reference))} {o o' : σ} {items : List StagedItem}
    (hmem : env.Remembers told)
    (h : runGroups env config document revision o groups = (.ok items, o')) (ho : ¬ told o) :
    ¬ told o' := by
  induction groups generalizing o items with
  | nil =>
    obtain rfl := (Prod.mk.inj h).2
    exact ho
  | cons group rest ih =>
    unfold runGroups at h
    dsimp only at h
    split at h
    · cases (Prod.mk.inj h).1
    · rename_i staged hstaged
      obtain ⟨hresult, hrest⟩ := Prod.mk.inj h
      obtain ⟨others, hothers, _⟩ := map_eq_ok.mp hresult
      exact ih (Prod.ext hothers hrest) (untold_runGroup hmem hstaged ho)

/-- Surroundings that hand over a fragment's attachments have not been told to cancel. -/
theorem untold_stageAttachments {f : Fragment} {o o' : σ} {items : List StagedItem}
    (hmem : env.Remembers told) (h : stageAttachments env config f o = (.ok items, o'))
    (ho : ¬ told o) : ¬ told o' := untold_runGroups hmem h ho

end Processor

end Replica
