import Replica.Proofs.Pull.Repetition

/-!
# What a pull leaves to other documents

A pull shares the log, the blob area, the source and its failures with all other documents. It adds
to the log and to the blob area, and it opens its own attachments; what can be seen of another
document stays as it was, and so does all that another document will meet. Where an attachment lies
in the blob area cannot be seen.
-/
namespace Replica

namespace RevisionStore

/-- The log entries of a document, in order. -/
def logOf (s : RevisionStore) (document : String) : List Inserted :=
  s.log.filter fun entry => entry.document = document

/-- Of the documents in question the stores know and show the same. Neither has a capacity. -/
structure Alike (mine : String → Prop) (s t : RevisionStore) : Prop where
  strict : s.strict = t.strict
  capacity : s.capacity = none ∧ t.capacity = none
  intact : s.Intact ∧ t.Intact
  contains : ∀ document, mine document → ∀ r, s.contains document r = t.contains document r
  shown : ∀ key, mine key.document → s.shown key = t.shown key
  log : ∀ document, mine document → s.logOf document = t.logOf document

variable {mine : String → Prop} {s t u : RevisionStore}

theorem Alike.symm (h : Alike mine s t) : Alike mine t s where
  strict := h.strict.symm
  capacity := h.capacity.symm
  intact := h.intact.symm
  contains d hd r := (h.contains d hd r).symm
  shown key hkey := (h.shown key hkey).symm
  log d hd := (h.log d hd).symm

theorem Alike.trans (h : Alike mine s t) (h' : Alike mine t u) : Alike mine s u where
  strict := h.strict.trans h'.strict
  capacity := ⟨h.capacity.1, h'.capacity.2⟩
  intact := ⟨h.intact.1, h'.intact.2⟩
  contains d hd r := (h.contains d hd r).trans (h'.contains d hd r)
  shown key hkey := (h.shown key hkey).trans (h'.shown key hkey)
  log d hd := (h.log d hd).trans (h'.log d hd)

/-- Whole fragments of other documents make no difference. -/
theorem Alike.of_leftWith {done : List Fragment} (hcapacity : s.capacity = none)
    (hintact : s.Intact) (hothers : ∀ f ∈ done, ¬ mine f.document) (hadds : Advances done s t)
    (hleft : Processor.LeftWith s t done) : Alike mine s t where
  strict := hadds.strict.symm
  capacity := ⟨hcapacity, hadds.capacity.trans hcapacity⟩
  intact := ⟨hintact, hadds.intact hintact⟩
  contains d hd r := by
    refine Bool.eq_iff_iff.mpr ⟨hadds.keeps d r, fun hr => ?_⟩
    rcases hadds.known d r hr with hknown | ⟨f, hf, rfl, _⟩
    · exact hknown
    · exact absurd hd (hothers f hf)
  shown key hkey := by
    refine (hadds.shown hintact fun f hf hfetches => ?_).symm
    obtain ⟨name, _, rfl⟩ := hfetches
    exact hothers f hf hkey
  log d hd := by
    have hnone : ((done.map fun f => f.entry f.pendingNames).filter
        fun entry => entry.document = d) = [] := by
      rw [List.filter_eq_nil_iff]
      rintro entry hentry hsame
      obtain ⟨f, hf, rfl⟩ := List.mem_map.mp hentry
      have hdocument : f.document = d := of_decide_eq_true hsame
      exact hothers f hf (hdocument ▸ hd)
    rw [logOf, logOf, hleft.log, List.filter_append, hnone, List.append_nil]

end RevisionStore

namespace Session

/-- The sessions have the same in store for the documents in question. -/
structure Alike (mine : String → Prop) (s t : Session) : Prop where
  cancelled : s.cancelled = t.cancelled
  agree : ∀ key, mine key.document → Agree key s t

variable {mine : String → Prop} {s t u : Session}

theorem Alike.refl (mine : String → Prop) (s : Session) : Alike mine s s :=
  ⟨rfl, fun key _ => .refl key s⟩

theorem Alike.symm (h : Alike mine s t) : Alike mine t s :=
  ⟨h.cancelled.symm, fun key hkey =>
    ⟨h.cancelled.symm, (h.agree key hkey).content.symm, (h.agree key hkey).failures.symm⟩⟩

theorem Alike.trans (h : Alike mine s t) (h' : Alike mine t u) : Alike mine s u :=
  ⟨h.cancelled.trans h'.cancelled, fun key hkey => (h.agree key hkey).trans (h'.agree key hkey)⟩

theorem preserves_alike {key : AttachmentKey} (hother : ¬ mine key.document) (s : Session) :
    surroundings.Preserves (Alike mine s) key where
  look h := h
  opening {o} h := by
    refine ⟨?_, fun other hmine => ?_⟩
    · change s.cancelled = (openStream key o).2.cancelled
      rw [openStream_eq]
      exact h.cancelled
    · have hne : key ≠ other := by
        rintro rfl
        exact hother hmine
      exact (preserves_agree hne s).opening (h.agree other hmine)

end Session

namespace Surroundings.Preserves

open Processor

variable {σ : Type} {env : Surroundings σ} {inv : σ → Prop} {config : PullConfig} {p : Processor σ}

theorem processFragment {p : Processor σ} {f : Fragment}
    (h : ∀ name, env.Preserves inv ⟨f.document, f.leaf, name⟩) (ho : inv p.outside) :
    inv (processFragment env config p f).2.outside := by
  have hcheck := (h "").check ho
  unfold Processor.processFragment
  split <;> rename_i hlooked <;> rw [hlooked] at hcheck
  · exact hcheck
  · rename_i outside
    have hstage : inv (Processor.stageAttachments env config f outside).2 := runGroups h hcheck
    split <;> rename_i hstaged <;> rw [hstaged] at hstage
    · exact hstage
    · split <;> exact hstage

theorem process {fragments : List Fragment} (hlook : ∀ {o}, inv o → inv (Processor.look env o))
    (h : ∀ f ∈ fragments, ∀ name, env.Preserves inv ⟨f.document, f.leaf, name⟩)
    (ho : inv p.outside) : inv (process env config p fragments).2.outside := by
  have hdocument : inv (processDocument env config p fragments).2.outside :=
    @processDocument_invariant _ env config (fun p => inv p.outside) p fragments hlook
      (fun f hf => processFragment (h f hf)) ho
  unfold Processor.process
  split <;> rename_i hrun <;> rw [hrun] at hdocument <;> exact hdocument

end Surroundings.Preserves

namespace Processor

variable {mine : String → Prop} {config : PullConfig} {p : Processor Session}
  {fragments : List Fragment}

theorem alike_process (hcapacity : p.store.capacity = none) (hintact : p.store.Intact)
    (hothers : ∀ f ∈ fragments, ¬ mine f.document) :
    p.store.Alike mine (process Session.surroundings config p fragments).2.store := by
  obtain ⟨done, o, hdelivers, _, hreports⟩ :=
    process_delivers Session.surroundings config p fragments
  exact .of_leftWith hcapacity hintact (fun f hf => hothers f (hreports.subset hf))
    hdelivers.advances hdelivers.leftWith

theorem alike_process_outside (hothers : ∀ f ∈ fragments, ¬ mine f.document) :
    p.outside.Alike mine (process Session.surroundings config p fragments).2.outside :=
  Surroundings.Preserves.process id
    (fun f hf _ => Session.preserves_alike (hothers f hf) p.outside) (.refl mine p.outside)

end Processor

end Replica
