import Replica.Proofs.Attachment.Fidelity
import Replica.Proofs.Pull.Delivery
import Replica.Proofs.Pull.Recording
import Replica.Proofs.Pull.Retrying

/-!
# How often an attachment is attempted

An attempt fails because the source refuses, because the stream fails, or for want of storage; only
some refusals are final. Each attempt opens the attachment once. A source in memory gives each
failure that it was told of to one attempt, and that attempt fails of it, wherever the stream was
told to break off.
-/
namespace Replica

/-- Why an attempt at an attachment fails. -/
inductive AttemptFailure where
  | opening (e : IoError)
  | reading (e : IoError) (h : e.kind ≠ .interrupted)
  | storing (e : StorageError)

namespace AttemptFailure

def error : AttemptFailure → PullError
  | opening e => .ofOpening e
  | reading e _ => .document (.attachmentIo e)
  | storing e => .document (.storage e)

/-- All failures may pass but an opening that was refused for good. -/
def MayPass : AttemptFailure → Prop
  | opening e => e.kind ∉ [IoErrorKind.notFound, .permissionDenied, .invalidInput, .invalidData]
  | reading _ _ | storing _ => True

theorem isFinal_iff {kind : IoErrorKind} :
    PullError.isFinal kind = true ↔
      kind ∈ [IoErrorKind.notFound, .permissionDenied, .invalidInput, .invalidData] := by
  cases kind <;> decide

theorem isRetryable_error_iff (failure : AttemptFailure) :
    failure.error.isRetryable = true ↔ failure.MayPass := by
  cases failure with
  | opening e =>
    rw [error, PullError.ofOpening, PullError.isRetryable, Bool.not_eq_true', Bool.eq_false_iff,
      Ne, isFinal_iff]
    rfl
  | reading e h => exact iff_of_true rfl trivial
  | storing e => exact iff_of_true rfl trivial

end AttemptFailure

namespace Stager

theorem copyStream_failure {spare : Nat} {stream rest : Stream} {storage : Backend}
    {received : ByteArray} {e : DocumentError}
    (h : copyStream spare stream storage received = (.error e, rest)) :
    ∃ failure : AttemptFailure, failure.error = .document e := by
  fun_induction copyStream spare stream storage received with
  | case1 stream storage received e' stream' hread hkind ih => exact ih h
  | case2 stream storage received e' stream' hread hkind =>
    obtain rfl := Except.error.inj (Prod.mk.inj h).1
    exact ⟨.reading e' hkind, rfl⟩
  | case3 => cases h
  | case4 stream storage received bytes stream' hread hne e' storage' happend =>
    obtain rfl := Except.error.inj (Prod.mk.inj h).1
    exact ⟨.storing e', rfl⟩
  | case5 stream storage received bytes stream' hread hne offset storage' happend ih => exact ih h

theorem stage_failure {s : Stager} {stream : Stream} {metadata : Metadata} {e : DocumentError}
    (h : (s.stage stream metadata).1 = .error e) :
    ∃ failure : AttemptFailure, failure.error = .document e := by
  unfold stage at h
  split at h
  · rename_i e' _
    obtain rfl := Except.error.inj h
    exact ⟨.storing e', rfl⟩
  · split at h
    · rename_i e' rest hcopy
      obtain rfl := Except.error.inj h
      exact copyStream_failure hcopy
    · split at h
      · rename_i e' _ _
        obtain rfl := Except.error.inj h
        exact ⟨.storing e', rfl⟩
      · cases h

end Stager

theorem Opening.staged_failure {stager : Stager} {metadata : Metadata} {opening : Opening}
    {e : PullError} (h : opening.staged stager metadata = .error e) :
    e = .brokenWorker ∨ ∃ failure : AttemptFailure, failure.error = e := by
  cases opening with
  | failed io => exact Or.inr ⟨.opening io, Except.error.inj h⟩
  | broke => exact Or.inl (Except.error.inj h).symm
  | stream s =>
    rw [staged] at h
    cases hstage : (stager.stage s metadata).1 with
    | ok item =>
      rw [hstage] at h
      cases h
    | error e' =>
      rw [hstage] at h
      obtain rfl := Except.error.inj h
      exact Or.inr (Stager.stage_failure hstage)

namespace Processor

variable {σ : Type} {env : Surroundings σ} {config : PullConfig} {key : AttachmentKey}
  {reference : Reference} {metadata : Metadata} {o : σ}

/-- The attempts at an attachment. -/
def attempts (env : Surroundings σ) (config : PullConfig) (key : AttachmentKey)
    (metadata : Metadata) (o : σ) : Attempts σ Staged :=
  ⟨attempt env config.stager key metadata, o⟩

theorem attempt_clear (hclear : (env.isCancelled o).1 = false) (stager : Stager) :
    attempt env stager key metadata o =
      ((env.openStream key (look env o)).1.staged stager metadata,
        (env.openStream key (look env o)).2) := by
  have hcheck : checkCancelled env o = (.ok (), look env o) :=
    checkCancelled_eq_ok.mpr ⟨hclear, rfl⟩
  rw [attempt_eq, hcheck]

theorem attempt_recorded (hclear : (env.isCancelled o).1 = false) (stager : Stager)
    (opened : List AttachmentKey) :
    attempt env.recorded stager key metadata (o, opened) =
      ((attempt env stager key metadata o).1, (attempt env stager key metadata o).2,
        opened ++ [key]) := by
  have hrecorded : (env.recorded.isCancelled (o, opened)).1 = false := hclear
  rw [attempt_clear hclear, attempt_clear hrecorded]
  rfl

/-- Every attempt opens the attachment once. -/
theorem behind_recorded
    (hclear : ∀ n, (env.isCancelled ((attempts env config key metadata o).behind n)).1 = false)
    (opened : List AttachmentKey) (n : Nat) :
    (attempts env.recorded config key metadata (o, opened)).behind n =
      ((attempts env config key metadata o).behind n, opened ++ List.replicate n key) := by
  induction n with
  | zero => exact Prod.ext rfl (List.append_nil opened).symm
  | succ n ih =>
    rw [Attempts.behind_succ, ih, Attempts.behind_succ, List.replicate_succ', ← List.append_assoc]
    exact congrArg Prod.snd (attempt_recorded (hclear n) config.stager _)

theorem outcome_recorded
    (hclear : ∀ n, (env.isCancelled ((attempts env config key metadata o).behind n)).1 = false)
    (opened : List AttachmentKey) (n : Nat) :
    (attempts env.recorded config key metadata (o, opened)).outcome n =
      (attempts env config key metadata o).outcome n := by
  rw [Attempts.outcome, behind_recorded hclear]
  exact congrArg Prod.fst (attempt_recorded (hclear n) config.stager _)

theorem stageOne_endsWith {last : Nat} (hmetadata : reference.metadata = .ok metadata)
    (h : config.retry.EndsWith (attempts env config key metadata o) last) :
    stageOne env config key reference o =
      (((attempts env config key metadata o).outcome last).map (⟨key.name, ·, last⟩),
        (attempts env config key metadata o).behind (last + 1)) := by
  have hrun : config.retry.persist (attempt env config.stager key metadata) 0 o = _ := h.result
  unfold stageOne
  rw [hmetadata]
  dsimp only
  rw [hrun]
  cases (attempts env config key metadata o).outcome last <;> rfl

end Processor

/-- What the attempt fails of that meets the failure. -/
def InjectedFailure.error (key : AttachmentKey) (content? : Option ByteArray) :
    InjectedFailure → PullError
  | .opening kind => .ofOpening (MemorySource.refusal key kind)
  | .midStream _ kind =>
    if content?.isSome then .document (.attachmentIo ⟨kind, "injected stream failure"⟩)
    else .ofOpening (MemorySource.absence key)

namespace Session

/-- What is left of a session behind so many openings of an attachment. -/
structure Behind (key : AttachmentKey) (s : Session) (n : Nat) (t : Session) : Prop where
  cancelled : t.cancelled = s.cancelled
  content : t.source.content? key = s.source.content? key
  failures : MemorySource.failuresOf key t.source.failures =
    (MemorySource.failuresOf key s.source.failures).drop n

theorem Behind.opening {key : AttachmentKey} {s t : Session} {n : Nat} (h : Behind key s n t) :
    Behind key s (n + 1) (openStream key t).2 := by
  rw [openStream_eq, MemorySource.openStream_eq]
  refine ⟨h.cancelled, h.content, ?_⟩
  rw [MemorySource.failuresOf_takeFailure, if_pos rfl, h.failures, List.tail_drop]

end Session

namespace Opening

variable {stager : Stager} {key : AttachmentKey} {metadata : Metadata} {content : ByteArray}

/-- Where the stream breaks off does not matter, nor how much is read at a time. -/
theorem staged_injected {failure : InjectedFailure} {content? : Option ByteArray}
    (hfailure : ∀ after, failure ≠ .midStream after .interrupted) :
    ∃ e, (ofAnswer (MemorySource.answer key (some failure) content?)).staged stager metadata =
        .error e ∧ (stager.location.Open → e = failure.error key content?) := by
  cases failure with
  | opening kind => exact ⟨_, rfl, fun _ => rfl⟩
  | midStream after kind =>
    have hkind : kind ≠ .interrupted := fun heq => hfailure after (by rw [heq])
    cases content? with
    | none => exact ⟨_, rfl, fun _ => rfl⟩
    | some content =>
      by_cases hopen : stager.location.Open
      · have hends : (MemorySource.breakingOff content after kind).failure? =
            some ⟨kind, "injected stream failure"⟩ := if_neg hkind
        refine ⟨_, ?_, fun _ => rfl⟩
        simp only [MemorySource.answer, ofAnswer, staged, Stager.stage_fails hopen metadata hends]
        rfl
      · cases hstage : (stager.stage (MemorySource.breakingOff content after kind) metadata).1 with
        | ok item => exact absurd hstage (Stager.stage_breakingOff hkind)
        | error e =>
          refine ⟨.document e, ?_, fun h => absurd h hopen⟩
          simp only [MemorySource.answer, ofAnswer, staged, hstage]
          rfl

theorem staged_calm (hopen : stager.location.Open) :
    ∃ staged, (ofAnswer (MemorySource.answer key none (some content))).staged stager metadata =
        .ok staged ∧ staged.metadata = metadata ∧ staged.Preserves content := by
  have hends : (Stream.ofBytes content).failure? = none := ite_self none
  obtain ⟨item, rest, hstage, hmetadata, hpreserves⟩ := Stager.stage_ends hopen metadata hends
  rw [Stream.delivered_ofBytes] at hpreserves
  refine ⟨item, ?_, hmetadata, hpreserves⟩
  simp only [MemorySource.answer, ofAnswer, staged, hstage]
  rfl

end Opening

namespace Processor

variable {σ : Type} {env : Surroundings σ} {config : PullConfig} {key : AttachmentKey}
  {reference : Reference} {metadata : Metadata} {s : Session} {o : σ}

theorem behind_session (hclear : s.cancelled = false) (n : Nat) :
    s.Behind key n ((attempts Session.surroundings config key metadata s).behind n) := by
  induction n with
  | zero => exact ⟨rfl, rfl, rfl⟩
  | succ n ih =>
    rw [Attempts.behind_succ]
    change s.Behind key (n + 1) (attempt _ config.stager key metadata _).2
    rw [attempt_session, if_neg (by rw [ih.cancelled, hclear]; exact Bool.false_ne_true)]
    exact ih.opening

/-- An attempt meets the failure whose turn it is. -/
theorem outcome_session (hclear : s.cancelled = false) (n : Nat) :
    (attempts Session.surroundings config key metadata s).outcome n =
      (Opening.ofAnswer (MemorySource.answer key
        (MemorySource.failuresOf key s.source.failures)[n]? (s.source.content? key))).staged
          config.stager metadata := by
  have h : s.Behind key n ((attempts Session.surroundings config key metadata s).behind n) :=
    behind_session hclear n
  change (attempt _ config.stager key metadata _).1 = _
  rw [attempt_session, if_neg (by rw [h.cancelled, hclear]; exact Bool.false_ne_true),
    Session.openStream_eq, MemorySource.openStream_eq, h.content, h.failures, List.head?_drop]

/-- **An attachment is attempted as often as it fails at first and once more, unless the policy
allows less.** Whatever attempts come to, their number is that, the last one decides, and the word
that counts repetitions does not overflow. Each attempt opens the attachment once. It fails because
the source refused, because the stream failed, or for want of storage, and of these only some
refusals are final. From a source in memory the attempts meet the failures that it was told of one
by one, then the content; where a stream was told to break off does not matter, nor how much is read
at a time. -/
theorem stageOne_attempts (hmetadata : reference.metadata = .ok metadata)
    (hbound : config.retry.attempts < UInt32.size)
    (hclear : ∀ n, (env.isCancelled ((attempts env config key metadata o).behind n)).1 = false)
    (opened : List AttachmentKey) :
    (∀ {τ : Type} (t : Attempts τ Staged), ∃ last, config.retry.EndsWith t last) ∧
    (∃ last, config.retry.EndsWith (attempts env config key metadata o) last ∧
      stageOne env config key reference o =
        (((attempts env config key metadata o).outcome last).map (⟨key.name, ·, last⟩),
          (attempts env config key metadata o).behind (last + 1)) ∧
      (stageOne env.recorded config key reference (o, opened)).2.2 =
        opened ++ List.replicate (last + 1) key) ∧
    (∀ failure : AttemptFailure, failure.error.isRetryable = true ↔ failure.MayPass) ∧
    (∀ n e, (attempts env config key metadata o).outcome n = .error e →
      e = .brokenWorker ∨ ∃ failure : AttemptFailure, failure.error = e) ∧
    ∀ s : Session, s.cancelled = false →
      (∀ after, .midStream after .interrupted ∉ MemorySource.failuresOf key s.source.failures) →
      ∀ n, s.Behind key n ((attempts Session.surroundings config key metadata s).behind n) ∧
        (∀ failure, (MemorySource.failuresOf key s.source.failures)[n]? = some failure →
          ∃ e, (attempts Session.surroundings config key metadata s).outcome n = .error e ∧
            (config.stager.location.Open → e = failure.error key (s.source.content? key))) ∧
        (∀ content, (MemorySource.failuresOf key s.source.failures)[n]? = none →
          s.source.content? key = some content → config.stager.location.Open →
          ∃ staged, (attempts Session.surroundings config key metadata s).outcome n = .ok staged ∧
            staged.metadata = metadata ∧ staged.Preserves content) := by
  refine ⟨config.retry.persist_endsWith hbound, ?_, AttemptFailure.isRetryable_error_iff,
    fun n e h => ?_, fun s hsession hkinds n => ⟨behind_session hsession n, ?_, ?_⟩⟩
  · obtain ⟨last, hlast⟩ :=
      config.retry.persist_endsWith hbound (attempts env config key metadata o)
    obtain ⟨last', hlast'⟩ :=
      config.retry.persist_endsWith hbound (attempts env.recorded config key metadata (o, opened))
    obtain rfl := hlast'.last_eq hlast (outcome_recorded hclear opened)
    refine ⟨last', hlast, stageOne_endsWith hmetadata hlast, ?_⟩
    rw [stageOne_endsWith hmetadata hlast', behind_recorded hclear]
  · change (attempt env config.stager key metadata _).1 = _ at h
    rw [attempt_clear (hclear n)] at h
    exact Opening.staged_failure h
  · intro failure hfailure
    rw [outcome_session hsession, hfailure]
    exact Opening.staged_injected fun after heq =>
      hkinds after (heq ▸ List.mem_of_getElem? hfailure)
  · intro content hspent hcontent hopen
    rw [outcome_session hsession, hspent, hcontent]
    exact Opening.staged_calm hopen

/-- The stream that breaks off is opened again, and then all is read. -/
theorem stageOne_attempts_shaky :
    picture.metadata = .ok ⟨"image/png", .gzip, 9, 2⟩ ∧ twice.retry.attempts < UInt32.size ∧
    ∃ staged, (stageOne Session.surroundings twice scan picture shaky).1 =
        .ok ⟨"scan", staged, 1⟩ ∧ staged.Preserves ⟨#[1, 2]⟩ ∧
      (stageOne Session.surroundings.recorded twice scan picture (shaky, [])).2.2 =
        [scan, scan] := by
  have hmetadata : picture.metadata = .ok ⟨"image/png", .gzip, 9, 2⟩ := by cbv
  have hbound : twice.retry.attempts < UInt32.size := by decide
  have hkinds : ∀ after, .midStream after .interrupted ∉
      MemorySource.failuresOf scan shaky.source.failures := by
    intro after hmem
    cases List.mem_singleton.mp hmem
  have hclear : ∀ n, (Session.surroundings.isCancelled ((attempts Session.surroundings twice scan
      ⟨"image/png", .gzip, 9, 2⟩ shaky).behind n)).1 = false :=
    fun n => (behind_session rfl n).cancelled
  obtain ⟨-, ⟨last, hends, hrun, hopened⟩, -, -, hsession⟩ :=
    stageOne_attempts hmetadata hbound hclear []
  obtain ⟨-, hfirst, -⟩ := hsession shaky rfl hkinds 0
  obtain ⟨e, hfailed, he⟩ := hfirst (.midStream 1 .connectionReset) rfl
  obtain ⟨-, -, hsecond⟩ := hsession shaky rfl hkinds 1
  obtain ⟨staged, hok, -, hpreserves⟩ := hsecond ⟨#[1, 2]⟩ rfl rfl trivial
  have hleading : (attempts Session.surroundings twice scan
      ⟨"image/png", .gzip, 9, 2⟩ shaky).leadingFailures = 1 := by
    refine Attempts.leadingFailures_eq (fun i hi => ?_) ?_
    · obtain rfl : i = 0 := by omega
      exact ⟨e, hfailed, by rw [he trivial]; rfl⟩
    · rw [hok]
      exact not_retryableFailure_ok staged
  have hcount := hends.count
  rw [hleading] at hcount
  have htwo : ((last + 1 : Nat) : ℕ∞) = (2 : Nat) := hcount.trans (by decide)
  obtain rfl : last = 1 := Nat.succ.inj (Nat.cast_inj.mp htwo)
  refine ⟨hmetadata, hbound, staged, ?_, hpreserves, hopened⟩
  rw [hrun, hok]
  rfl

end Processor

end Replica
