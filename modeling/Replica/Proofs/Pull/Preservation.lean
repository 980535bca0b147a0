import Replica.Proofs.Pull.Steps

/-!
# What staging leaves alone outside the store

Staging meets the outside only in looks at the cancel flag and in openings of attachments. What both
leave alone, all attempts and groups leave alone, whether they succeed or not. And where neither can
tell two states apart, staging comes to the same in both.
-/
namespace Replica

variable {σ : Type}

/-- Two runs that come to the same, in states that are related. -/
def InStep {α : Type} (R : σ → σ → Prop) (x y : α × σ) : Prop := x.1 = y.1 ∧ R x.2 y.2

theorem InStep.of_left {α : Type} {R : σ → σ → Prop} {x y : α × σ} {a : α} {s : σ}
    (h : InStep R x y) (hx : x = (a, s)) : ∃ t, y = (a, t) ∧ R s t := by
  subst hx
  exact ⟨y.2, Prod.ext h.1.symm rfl, h.2⟩

/-- A property that neither a look at the flag nor an opening of the attachment disturbs. -/
structure Surroundings.Preserves (env : Surroundings σ) (inv : σ → Prop) (key : AttachmentKey) :
    Prop where
  look : ∀ {o}, inv o → inv (Processor.look env o)
  opening : ∀ {o}, inv o → inv (env.openStream key o).2

/-- Related states are told apart neither by a look at the flag nor by an opening of the
attachment. -/
structure Surroundings.Respects (env : Surroundings σ) (R : σ → σ → Prop) (key : AttachmentKey) :
    Prop where
  look : ∀ {s t}, R s t → InStep R (env.isCancelled s) (env.isCancelled t)
  opening : ∀ {s t}, R s t → InStep R (env.openStream key s) (env.openStream key t)

namespace RetryPolicy

variable {α : Type} {p : RetryPolicy} {attempt : σ → Except PullError α × σ} {retries : Nat}
  {s next : σ}

/-- After so many repetitions and another failure, the policy allows one more attempt. -/
def Allows (p : RetryPolicy) (retries : Nat) (e : PullError) : Prop :=
  e.isRetryable = true ∧ (p.pause (retries + 1)).isSome = true

theorem persist_ok {a : α} (h : attempt s = (.ok a, next)) :
    p.persist attempt retries s = (.ok (a, retries), next) := by
  rw [persist]
  split <;> rename_i hnow <;> rw [h] at hnow <;> cases hnow
  rfl

theorem persist_again {e : PullError} (h : attempt s = (.error e, next))
    (hagain : p.Allows retries e) :
    p.persist attempt retries s = p.persist attempt (retries + 1) next := by
  rw [persist]
  split <;> rename_i hnow <;> rw [h] at hnow <;> cases hnow
  exact dif_pos hagain

theorem persist_stop {e : PullError} (h : attempt s = (.error e, next))
    (hstop : ¬ p.Allows retries e) : p.persist attempt retries s = (.error e, next) := by
  rw [persist]
  split <;> rename_i hnow <;> rw [h] at hnow <;> cases hnow
  exact dif_neg hstop

theorem persist_invariant {inv : σ → Prop} (hattempt : ∀ {s}, inv s → inv (attempt s).2)
    (retries : Nat) (hs : inv s) : inv (p.persist attempt retries s).2 := by
  fun_induction RetryPolicy.persist p attempt retries s with
  | case1 retries s a next hnow =>
    have h := hattempt hs
    rwa [hnow] at h
  | case2 retries s e next hnow hagain ih =>
    have h := hattempt hs
    rw [hnow] at h
    exact ih h
  | case3 retries s e next hnow hdone =>
    have h := hattempt hs
    rwa [hnow] at h

/-- What is handed over was given by one of the attempts. -/
theorem persist_attempted {inv : σ → Prop} (hattempt : ∀ {s}, inv s → inv (attempt s).2)
    (hs : inv s) {a : α} {n : Nat} (h : p.persist attempt retries s = (.ok (a, n), next)) :
    ∃ t, inv t ∧ (attempt t).1 = .ok a := by
  fun_induction persist p attempt retries s with
  | case1 retries s b after hnow =>
    obtain ⟨rfl, _⟩ := Prod.mk.inj (Except.ok.inj (Prod.mk.inj h).1)
    exact ⟨s, hs, by rw [hnow]⟩
  | case2 retries s e after hnow hagain ih =>
    have hafter := hattempt hs
    rw [hnow] at hafter
    exact ih hafter h
  | case3 => cases (Prod.mk.inj h).1

/-- Attempts that cannot tell two states apart are repeated alike. -/
theorem persist_inStep {R : σ → σ → Prop}
    (hattempt : ∀ {s t}, R s t → InStep R (attempt s) (attempt t)) (retries : Nat) {t : σ}
    (h : R s t) : InStep R (p.persist attempt retries s) (p.persist attempt retries t) := by
  fun_induction persist p attempt retries s generalizing t with
  | case1 retries s a next hnow =>
    obtain ⟨next', hother, hnext⟩ := (hattempt h).of_left hnow
    rw [persist_ok hother]
    exact ⟨rfl, hnext⟩
  | case2 retries s e next hnow hagain ih =>
    obtain ⟨next', hother, hnext⟩ := (hattempt h).of_left hnow
    rw [persist_again hother hagain]
    exact ih hnext
  | case3 retries s e next hnow hstop =>
    obtain ⟨next', hother, hnext⟩ := (hattempt h).of_left hnow
    rw [persist_stop hother hstop]
    exact ⟨rfl, hnext⟩

end RetryPolicy

theorem InStep.check {env : Surroundings σ} {R : σ → σ → Prop} {s t : σ}
    (h : InStep R (env.isCancelled s) (env.isCancelled t)) :
    InStep R (Processor.checkCancelled env s) (Processor.checkCancelled env t) := by
  unfold Processor.checkCancelled
  cases hs : env.isCancelled s with
  | mk cancelled s' =>
    obtain ⟨t', ht, hnext⟩ := h.of_left hs
    rw [ht]
    cases cancelled <;> exact ⟨rfl, hnext⟩

namespace Surroundings.Preserves

open Processor

variable {env : Surroundings σ} {inv : σ → Prop} {key : AttachmentKey} {config : PullConfig}
  {document : String} {revision : RevisionId} {o : σ}

theorem check (h : env.Preserves inv key) (ho : inv o) : inv (checkCancelled env o).2 := by
  rw [checkCancelled_snd]
  exact h.look ho

theorem attempt (h : env.Preserves inv key) (stager : Stager) (metadata : Metadata) (ho : inv o) :
    inv (attempt env stager key metadata o).2 := by
  have hcheck := h.check ho
  unfold Processor.attempt
  split <;> rename_i hlooked <;> rw [hlooked] at hcheck
  · exact hcheck
  · have hopened := h.opening hcheck
    split <;> rename_i hopen <;> rw [hopen] at hopened <;> exact hopened

theorem stageOne (h : env.Preserves inv key) (reference : Reference) (ho : inv o) :
    inv (stageOne env config key reference o).2 := by
  unfold Processor.stageOne
  split
  · exact ho
  · rename_i metadata _
    have hend := config.retry.persist_invariant (h.attempt config.stager metadata) 0 ho
    split <;> rename_i hpersist <;> rw [hpersist] at hend <;> exact hend

theorem runGroup {group : List (String × Reference)}
    (h : ∀ m ∈ group, env.Preserves inv ⟨document, revision, m.1⟩) (ho : inv o) :
    inv (runGroup env config document revision o group).2 := by
  induction group generalizing o with
  | nil => exact ho
  | cons m rest ih =>
    obtain ⟨hm, hrest⟩ := List.forall_mem_cons.mp h
    rw [runGroup_cons]
    exact ih hrest (hm.stageOne m.2 ho)

theorem runGroups {groups : List (List (String × Reference))}
    (h : ∀ name, env.Preserves inv ⟨document, revision, name⟩) (ho : inv o) :
    inv (runGroups env config document revision o groups).2 := by
  induction groups generalizing o with
  | nil => exact ho
  | cons group rest ih =>
    have hgroup : inv (Processor.runGroup env config document revision o group).2 :=
      runGroup (fun m _ => h m.1) ho
    unfold Processor.runGroups
    dsimp only
    split
    · exact hgroup
    · exact ih hgroup

theorem stageAttachments (h : ∀ key, env.Preserves inv key) (f : Fragment) (ho : inv o) :
    inv (stageAttachments env config f o).2 := runGroups (fun _ => h _) ho

end Surroundings.Preserves

namespace Surroundings.Respects

open Processor

variable {env : Surroundings σ} {R : σ → σ → Prop} {key : AttachmentKey} {config : PullConfig}
  {document : String} {revision : RevisionId} {s t : σ}

theorem check (h : env.Respects R key) (hR : R s t) :
    InStep R (checkCancelled env s) (checkCancelled env t) := .check (h.look hR)

theorem attempt (h : env.Respects R key) (stager : Stager) (metadata : Metadata) (hR : R s t) :
    InStep R (attempt env stager key metadata s) (attempt env stager key metadata t) := by
  unfold Processor.attempt
  cases hs : checkCancelled env s with
  | mk result s' =>
    obtain ⟨t', ht, hlooked⟩ := (h.check hR).of_left hs
    rw [ht]
    cases result with
    | error e => exact ⟨rfl, hlooked⟩
    | ok _ =>
      dsimp only
      cases hopen : env.openStream key s' with
      | mk opening s'' =>
        obtain ⟨t'', ht', hopened⟩ := (h.opening hlooked).of_left hopen
        rw [ht']
        cases opening <;> exact ⟨rfl, hopened⟩

theorem stageOne (h : env.Respects R key) (reference : Reference) (hR : R s t) :
    InStep R (stageOne env config key reference s) (stageOne env config key reference t) := by
  unfold Processor.stageOne
  split
  · exact ⟨rfl, hR⟩
  · rename_i metadata _
    cases hs : config.retry.persist (Processor.attempt env config.stager key metadata) 0 s with
    | mk result s' =>
      have hend := config.retry.persist_inStep (h.attempt config.stager metadata) 0 hR
      obtain ⟨t', ht, hnext⟩ := hend.of_left hs
      rw [ht]
      cases result <;> exact ⟨rfl, hnext⟩

theorem runGroup {group : List (String × Reference)}
    (h : ∀ name, env.Respects R ⟨document, revision, name⟩) (hR : R s t) :
    InStep R (runGroup env config document revision s group)
      (runGroup env config document revision t group) := by
  induction group generalizing s t with
  | nil => exact ⟨rfl, hR⟩
  | cons m rest ih =>
    obtain ⟨hfirst, hnext⟩ := @stageOne _ env R _ config _ _ (h m.1) m.2 hR
    obtain ⟨hothers, hlast⟩ := ih hnext
    rw [runGroup_cons, runGroup_cons]
    exact ⟨congrArg₂ List.cons hfirst hothers, hlast⟩

theorem runGroups {groups : List (List (String × Reference))}
    (h : ∀ name, env.Respects R ⟨document, revision, name⟩) (hR : R s t) :
    InStep R (runGroups env config document revision s groups)
      (runGroups env config document revision t groups) := by
  induction groups generalizing s t with
  | nil => exact ⟨rfl, hR⟩
  | cons group rest ih =>
    unfold Processor.runGroups
    cases hs : Processor.runGroup env config document revision s group with
    | mk results s' =>
      obtain ⟨t', ht, hnext⟩ := (runGroup h hR).of_left hs
      rw [ht]
      dsimp only
      split
      · exact ⟨rfl, hnext⟩
      · rename_i items _
        obtain ⟨hothers, hlast⟩ := ih hnext
        exact ⟨congrArg (Except.map (items ++ ·)) hothers, hlast⟩

theorem stageAttachments {f : Fragment}
    (h : ∀ name, env.Respects R ⟨f.document, f.leaf, name⟩) (hR : R s t) :
    InStep R (stageAttachments env config f s) (stageAttachments env config f t) := runGroups h hR

end Surroundings.Respects

end Replica
