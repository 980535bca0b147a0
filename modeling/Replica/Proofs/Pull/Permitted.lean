import Mathlib.Algebra.BigOperators.Group.Multiset.Basic
import Replica.Proofs.Pull.Delivery
import Replica.Proofs.Pull.Recording

/-!
# Which openings may be made

Each worker has an allowance of openings: of its own attachment as many as attempts are left to it,
of others none. A turn spends from the allowance what it opens, so all turns together, in whatever
order, open no more than the allowances of the members with which a group began. A fragment is begun
only after those before it have been inserted.
-/
namespace Replica

variable {σ : Type}

/-- Between the states some openings were made and taken off an allowance. -/
def Spends (before after : Multiset AttachmentKey) (s s' : σ × List AttachmentKey) : Prop :=
  ∃ made : List AttachmentKey, s'.2 = s.2 ++ made ∧ (made : Multiset AttachmentKey) + after ≤ before

namespace Spends

variable {a b c : Multiset AttachmentKey} {s t u : σ × List AttachmentKey}

theorem nothing (h : b ≤ a) (hrecord : t.2 = s.2) : Spends a b s t :=
  ⟨[], by rw [hrecord, List.append_nil], by rwa [Multiset.coe_nil, zero_add]⟩

theorem trans (h : Spends a b s t) (h' : Spends b c t u) : Spends a c s u := by
  obtain ⟨made, hrecord, hle⟩ := h
  obtain ⟨more, hrecord', hle'⟩ := h'
  refine ⟨made ++ more, by rw [hrecord', hrecord, List.append_assoc], ?_⟩
  calc ((made ++ more : List AttachmentKey) : Multiset AttachmentKey) + c
      = made + (more + c) := by rw [← Multiset.coe_add, add_assoc]
    _ ≤ made + b := add_le_add_right hle' _
    _ ≤ a := hle

theorem mono {a' b' : Multiset AttachmentKey} (h : Spends a b s t) (ha : a ≤ a') (hb : b' ≤ b) :
    Spends a' b' s t := by
  obtain ⟨made, hrecord, hle⟩ := h
  exact ⟨made, hrecord, (add_le_add_right hb _).trans (hle.trans ha)⟩

/-- What others may open stays theirs. -/
theorem frame (h : Spends a b s t) (other : Multiset AttachmentKey) :
    Spends (a + other) (b + other) s t := by
  obtain ⟨made, hrecord, hle⟩ := h
  refine ⟨made, hrecord, ?_⟩
  rw [← add_assoc]
  exact add_le_add_left hle other

end Spends

namespace RetryPolicy

/-- The openings of an attachment for which the policy leaves attempts after so many repetitions. -/
def left (p : RetryPolicy) (retries : Nat) (key : AttachmentKey) : Multiset AttachmentKey :=
  Multiset.replicate (max 1 (p.attempts - retries)) key

variable {p : RetryPolicy} {retries : Nat}

@[simp]
theorem mem_left {key other : AttachmentKey} : other ∈ p.left retries key ↔ other = key := by
  simp [left, Multiset.mem_replicate]

theorem singleton_le_left (key : AttachmentKey) : {key} ≤ p.left retries key := by
  rw [left, ← Multiset.replicate_one]
  exact Multiset.replicate_mono key (Nat.le_max_left _ _)

/-- An attempt that may be repeated takes one of the openings and leaves the others. -/
theorem singleton_add_left_le {e : PullError} (hagain : p.Allows retries e) (key : AttachmentKey) :
    {key} + p.left (retries + 1) key ≤ p.left retries key := by
  have hmore : retries + 1 < p.attempts := lt_attempts_of_pause hagain.2
  rw [left, left, ← Multiset.replicate_one, ← Multiset.replicate_add]
  apply Multiset.replicate_mono
  omega

end RetryPolicy

namespace Worker

/-- The openings that a worker may still make. -/
def allowance (config : PullConfig) : Worker → Multiset AttachmentKey
  | atWork key _ retries => config.retry.left retries key
  | through _ _ => 0

/-- The openings that workers may still make together. -/
def allowances (config : PullConfig) (ws : List Worker) : Multiset AttachmentKey :=
  (ws.map (allowance config)).sum

variable {env : Surroundings σ} {config : PullConfig}

/-- An attempt opens its attachment once, or nothing. -/
theorem spends_attempt (env : Surroundings σ) (stager : Stager) (key : AttachmentKey)
    (metadata : Metadata) (s : σ × List AttachmentKey) :
    Spends {key} 0 s (Processor.attempt env.recorded stager key metadata s).2 := by
  have hlooked := Processor.record_check env s
  rw [Processor.attempt_eq]
  split <;> rename_i hcheck <;> rw [hcheck] at hlooked
  · exact .nothing (Multiset.zero_le _) hlooked
  · exact ⟨[key], congrArg (· ++ [key]) hlooked, le_refl _⟩

theorem spends_turn (w : Worker) (s : σ × List AttachmentKey) :
    Spends (w.allowance config) ((w.turn env.recorded config s).1.allowance config) s
      (w.turn env.recorded config s).2 := by
  cases w with
  | through => exact .nothing (le_refl _) rfl
  | atWork key metadata retries =>
    have hspent := spends_attempt env config.stager key metadata s
    unfold turn
    dsimp only
    split <;> rename_i hnow <;> rw [hnow] at hspent
    · exact hspent.mono (RetryPolicy.singleton_le_left key) (le_refl _)
    · split
      · rename_i hagain
        have hleft := RetryPolicy.singleton_add_left_le (Bool.and_eq_true_iff.mp hagain) key
        have hframed := hspent.frame (config.retry.left (retries + 1) key)
        rw [zero_add] at hframed
        exact hframed.mono hleft (le_refl _)
      · exact hspent.mono (RetryPolicy.singleton_le_left key) (le_refl _)

theorem spends_persist (key : AttachmentKey) (metadata : Metadata) (retries : Nat)
    (s : σ × List AttachmentKey) :
    Spends (config.retry.left retries key) 0 s
      (config.retry.persist (Processor.attempt env.recorded config.stager key metadata) retries
        s).2 := by
  fun_induction RetryPolicy.persist config.retry
      (Processor.attempt env.recorded config.stager key metadata) retries s with
  | case1 retries s staged next hnow =>
    have hspent := spends_attempt env config.stager key metadata s
    rw [hnow] at hspent
    exact hspent.mono (RetryPolicy.singleton_le_left key) (le_refl _)
  | case2 retries s e next hnow hagain ih =>
    have hframed := (spends_attempt env config.stager key metadata s).frame
      (config.retry.left (retries + 1) key)
    rw [hnow, zero_add] at hframed
    exact (hframed.mono (RetryPolicy.singleton_add_left_le hagain key) (le_refl _)).trans ih
  | case3 retries s e next hnow hstop =>
    have hspent := spends_attempt env config.stager key metadata s
    rw [hnow] at hspent
    exact hspent.mono (RetryPolicy.singleton_le_left key) (le_refl _)

theorem spends_finish (w : Worker) (s : σ × List AttachmentKey) :
    Spends (w.allowance config) 0 s (w.finish env.recorded config s).2 := by
  cases w with
  | through => exact .nothing (le_refl _) rfl
  | atWork key metadata retries => exact spends_persist key metadata retries s

theorem spends_turnAt (ws : List Worker) (place : Nat) (s : σ × List AttachmentKey) :
    Spends (allowances config ws) (allowances config (turnAt env.recorded config ws place s).1) s
      (turnAt env.recorded config ws place s).2 := by
  induction ws generalizing place with
  | nil => exact .nothing (le_refl _) rfl
  | cons w rest ih =>
    cases place with
    | zero => exact (spends_turn w s).frame (allowances config rest)
    | succ place =>
      have hrest := (ih place).frame (w.allowance config)
      rw [add_comm, add_comm _ (w.allowance config)] at hrest
      exact hrest

theorem spends_takeTurns (schedule : List Nat) (ws : List Worker) (s : σ × List AttachmentKey) :
    Spends (allowances config ws)
      (allowances config (takeTurns env.recorded config schedule ws s).1) s
      (takeTurns env.recorded config schedule ws s).2 := by
  induction schedule generalizing ws s with
  | nil => exact .nothing (le_refl _) rfl
  | cons place schedule ih => exact (spends_turnAt ws place s).trans (ih _ _)

theorem spends_finishAll (ws : List Worker) (s : σ × List AttachmentKey) :
    Spends (allowances config ws) 0 s (finishAll env.recorded config ws s).2 := by
  induction ws generalizing s with
  | nil => exact .nothing (le_refl _) rfl
  | cons w rest ih =>
    have hfirst : Spends (allowances config (w :: rest)) (0 + allowances config rest) s
        (w.finish env.recorded config s).2 := (spends_finish w s).frame _
    rw [zero_add] at hfirst
    exact hfirst.trans (ih _)

/-- A member that has not begun may open its own attachment, if its encoding is known. -/
theorem mem_allowance_start {document : String} {revision : RevisionId}
    {member : String × Reference} {key : AttachmentKey} :
    key ∈ (start document revision member).allowance config ↔
      key = ⟨document, revision, member.1⟩ ∧ ∃ metadata, member.2.metadata = .ok metadata := by
  unfold start
  cases member.2.metadata with
  | error e => simp [allowance]
  | ok metadata => simp [allowance]

theorem count_allowance_start (config : PullConfig) (document : String) (revision : RevisionId)
    (member : String × Reference) (key : AttachmentKey) :
    ((start document revision member).allowance config).count key ≤
      max 1 config.retry.attempts := by
  unfold start
  split
  · exact Nat.zero_le _
  · exact (Multiset.count_le_card _ _).trans_eq (Multiset.card_replicate _ _)

theorem mem_allowances {ws : List Worker} {key : AttachmentKey}
    (h : key ∈ allowances config ws) : ∃ w ∈ ws, key ∈ w.allowance config := by
  induction ws with
  | nil => cases h
  | cons w rest ih =>
    rcases Multiset.mem_add.mp h with hw | hrest
    · exact ⟨w, List.mem_cons_self, hw⟩
    · obtain ⟨v, hv, hkey⟩ := ih hrest
      exact ⟨v, List.mem_cons_of_mem w hv, hkey⟩

/-- Members with different names share no attachment, so none is allowed more openings than one
member is. -/
theorem count_allowances_start {document : String} {revision : RevisionId}
    {members : List (String × Reference)} (hnames : (members.map (·.1)).Nodup)
    (key : AttachmentKey) :
    (allowances config (members.map (start document revision))).count key ≤
      max 1 config.retry.attempts := by
  induction members with
  | nil => exact Nat.zero_le _
  | cons member rest ih =>
    obtain ⟨hfresh, hrest⟩ := List.nodup_cons.mp hnames
    have hfirst := count_allowance_start config document revision member key
    change (allowance config _ + allowances config (rest.map _)).count key ≤ _
    rw [Multiset.count_add]
    by_cases hmember : key ∈ (start document revision member).allowance config
    · have hothers : key ∉ allowances config (rest.map (start document revision)) := by
        intro hkey
        obtain ⟨w, hw, hallowed⟩ := mem_allowances hkey
        obtain ⟨other, hother, rfl⟩ := List.mem_map.mp hw
        rw [mem_allowance_start] at hmember hallowed
        have hname : member.1 = other.1 :=
          Processor.key_injective _ _ (hmember.1.symm.trans hallowed.1)
        exact hfresh (List.mem_map.mpr ⟨other, hother, hname.symm⟩)
      rw [Multiset.count_eq_zero_of_notMem hothers, add_zero]
      exact hfirst
    · rw [Multiset.count_eq_zero_of_notMem hmember, zero_add]
      exact ih hrest

end Worker

/-- What may be opened for a fragment: attachments of its leaf that are no stubs and whose encoding
is known, each at most as often as the policy has attempts, or once if it has none. -/
def Fragment.Permits (f : Fragment) (retry : RetryPolicy) (opened : List AttachmentKey) : Prop :=
  ∀ key ∈ opened,
    (∃ name r, key = ⟨f.document, f.leaf, name⟩ ∧ f.attachments.get? name = some r ∧
      r.stub = false ∧ ∃ encoding, Encoding.ofName r.encoding = .ok encoding) ∧
    opened.count key ≤ max 1 retry.attempts

namespace Processor

variable (env : Surroundings σ) (config : PullConfig)

theorem spends_runGroupUnder (document : String) (revision : RevisionId) (schedule : List Nat)
    (s : σ × List AttachmentKey) (group : List (String × Reference)) :
    Spends (Worker.allowances config (group.map (Worker.start document revision))) 0 s
      (runGroupUnder env.recorded config document revision schedule s group).2 :=
  (Worker.spends_takeTurns schedule _ s).trans (Worker.spends_finishAll _ _)

theorem spends_runGroupsUnder (document : String) (revision : RevisionId)
    (schedules : Nat → List Nat) (s : σ × List AttachmentKey)
    (groups : List (List (String × Reference))) :
    Spends (Worker.allowances config (groups.flatten.map (Worker.start document revision))) 0 s
      (runGroupsUnder env.recorded config document revision schedules s groups).2 := by
  induction groups generalizing schedules s with
  | nil => exact .nothing (le_refl _) rfl
  | cons group rest ih =>
    let others := Worker.allowances config (rest.flatten.map (Worker.start document revision))
    have hsplit : Worker.allowances config
          ((group :: rest).flatten.map (Worker.start document revision)) =
        Worker.allowances config (group.map (Worker.start document revision)) + others := by
      rw [Worker.allowances, List.flatten_cons, List.map_append, List.map_append, List.sum_append]
      rfl
    have hgroup := (spends_runGroupUnder env config document revision (schedules 0) s group).frame
      others
    rw [zero_add, ← hsplit] at hgroup
    unfold runGroupsUnder
    dsimp only
    split
    · exact hgroup.mono (le_refl _) (Multiset.zero_le _)
    · exact hgroup.trans (ih _ _)

/-- Under every schedule only what is permitted is opened for a fragment. -/
theorem stageUnder_permitted (schedules : Nat → List Nat) (f : Fragment)
    (s : σ × List AttachmentKey) :
    ∃ opened, (stageUnder env.recorded config schedules f s).2.2 = s.2 ++ opened ∧
      f.Permits config.retry opened := by
  obtain ⟨opened, hrecord, hallowed⟩ := spends_runGroupsUnder env config f.document f.leaf
    schedules s (groups (config.maxConcurrent - 1) f.pending)
  rw [flatten_groups, add_zero] at hallowed
  refine ⟨opened, hrecord, fun key hkey => ⟨?_, ?_⟩⟩
  · obtain ⟨w, hw, hmember⟩ := Worker.mem_allowances (Multiset.mem_of_le hallowed hkey)
    obtain ⟨⟨name, r⟩, hpending, rfl⟩ := List.mem_map.mp hw
    rw [Worker.mem_allowance_start] at hmember
    obtain ⟨hname, metadata, hmetadata⟩ := hmember
    obtain ⟨hentry, hdownload⟩ := List.mem_filter.mp hpending
    obtain ⟨encoding, hencoding, -⟩ := map_eq_ok.mp hmetadata
    have hstub : r.stub = false := (Bool.not_eq_true' r.stub).mp hdownload
    exact ⟨name, r, hname, Keyed.get?_eq_some_iff.mpr hentry, hstub, encoding, hencoding⟩
  · rw [← Multiset.coe_count]
    exact (Multiset.count_le_of_le key hallowed).trans
      (Worker.count_allowances_start f.pendingNames_nodup key)

theorem processFragmentUnder_permitted (schedules : Nat → List Nat)
    (p : Processor (σ × List AttachmentKey)) (f : Fragment) :
    ∃ opened, (processFragmentUnder env.recorded config schedules p f).2.outside.2 =
        p.outside.2 ++ opened ∧ f.Permits config.retry opened := by
  have hlooked := record_check env p.outside
  unfold processFragmentUnder
  split <;> rename_i hcheck <;> rw [hcheck] at hlooked
  · exact ⟨[], hlooked.trans (List.append_nil _).symm, nofun⟩
  · rename_i looked
    obtain ⟨opened, hrecord, hpermits⟩ := stageUnder_permitted env config schedules f looked
    rw [show looked.2 = p.outside.2 from hlooked] at hrecord
    refine ⟨opened, ?_, hpermits⟩
    split <;> rename_i hstage <;> rw [hstage] at hrecord
    · exact hrecord
    · split <;> exact hrecord

end Processor

/-- The revision that was inserted, with its document. -/
def Inserted.revision (entry : Inserted) : String × RevisionId := (entry.document, entry.leaf)

namespace Processor

theorem processFragmentUnder_inserted {env : Surroundings σ} {config : PullConfig}
    {schedules : Nat → List Nat} {p q : Processor σ} {f : Fragment} {n : Nat}
    (h : processFragmentUnder env config schedules p f = (.ok n, q)) :
    q.store.log.map Inserted.revision =
      p.store.log.map Inserted.revision ++ [(f.document, f.leaf)] := by
  unfold processFragmentUnder at h
  split at h
  · cases (Prod.mk.inj h).1
  · split at h
    · cases (Prod.mk.inj h).1
    · split at h
      · cases (Prod.mk.inj h).1
      · rename_i hinsert
        obtain ⟨-, -, committed, blobs, -, rfl⟩ := RevisionStore.insert_eq_ok.mp hinsert
        obtain rfl := (Prod.mk.inj h).2
        exact List.map_append

/-- From `p` on a pull has inserted these fragments, and opened so much on the way. -/
def HasInserted (env : Surroundings σ) (config : PullConfig) (schedules : Nat → Nat → List Nat)
    (p : Processor (σ × List AttachmentKey)) (done : List Fragment)
    (opened : List AttachmentKey) : Prop :=
  ∃ count q,
    processFragmentsUnder env.recorded config schedules p done =
      (.ok (done.map (·.leaf), count), q) ∧
    q.store.log.map Inserted.revision =
      p.store.log.map Inserted.revision ++ done.map (fun f => (f.document, f.leaf)) ∧
    q.outside.2 = p.outside.2 ++ opened

variable {env : Surroundings σ} {config : PullConfig} {schedules : Nat → Nat → List Nat}
  {p q : Processor (σ × List AttachmentKey)}

theorem HasInserted.nil : HasInserted env config schedules p [] [] :=
  ⟨0, p, rfl, (List.append_nil _).symm, (List.append_nil _).symm⟩

theorem HasInserted.cons {f : Fragment} {done : List Fragment} {n : Nat}
    {first others : List AttachmentKey}
    (hfirst : processFragmentUnder env.recorded config (schedules 0) p f = (.ok n, q))
    (hrecord : q.outside.2 = p.outside.2 ++ first)
    (hothers : HasInserted env config (fun place => schedules (place + 1)) q done others) :
    HasInserted env config schedules p (f :: done) (first ++ others) := by
  obtain ⟨count, r, hrun, hlog, hopened⟩ := hothers
  refine ⟨n + count, r, ?_, ?_, ?_⟩
  · simp only [processFragmentsUnder, hfirst, hrun]
    rfl
  · rw [hlog, processFragmentUnder_inserted hfirst, List.append_assoc]
    rfl
  · rw [hopened, hrecord, List.append_assoc]

theorem processFragmentsUnder_permitted (env : Surroundings σ) (config : PullConfig)
    (schedules : Nat → Nat → List Nat) (p : Processor (σ × List AttachmentKey))
    (fragments : List Fragment) :
    ∃ openings : List (List AttachmentKey),
      (processFragmentsUnder env.recorded config schedules p fragments).2.outside.2 =
        p.outside.2 ++ openings.flatten ∧
      openings.length ≤ fragments.length ∧
      ∀ j (_ : j < openings.length) (_ : j < fragments.length),
        fragments[j].Permits config.retry openings[j] ∧
        HasInserted env config schedules p (fragments.take j) (openings.take j).flatten := by
  induction fragments generalizing schedules p with
  | nil => exact ⟨[], (List.append_nil _).symm, le_refl 0, nofun⟩
  | cons f rest ih =>
    obtain ⟨first, hrecord, hpermits⟩ :=
      processFragmentUnder_permitted env config (schedules 0) p f
    unfold processFragmentsUnder
    split <;> rename_i hfirst <;> rw [hfirst] at hrecord
    · -- The fragment fails, so no later one is begun.
      refine ⟨[first], hrecord.trans (by rw [List.flatten_singleton]), by simp, ?_⟩
      intro j hj _
      obtain rfl : j = 0 := Nat.lt_one_iff.mp hj
      exact ⟨hpermits, .nil⟩
    · rename_i n q
      obtain ⟨openings, hrest, hlength, hothers⟩ := ih (fun place => schedules (place + 1)) q
      refine ⟨first :: openings, ?_, Nat.succ_le_succ hlength, ?_⟩
      · dsimp only
        rw [hrest, hrecord, List.flatten_cons, List.append_assoc]
      · intro j hj hf
        cases j with
        | zero => exact ⟨hpermits, .nil⟩
        | succ j =>
          obtain ⟨hpermitsNext, hinserted⟩ :=
            hothers j (Nat.lt_of_succ_lt_succ hj) (Nat.lt_of_succ_lt_succ hf)
          exact ⟨hpermitsNext, .cons hfirst hrecord hinserted⟩

end Processor

theorem Batch.document_of_mem {fragments : List Fragment} {batch : Batch}
    (h : new fragments = .ok batch) {f : Fragment} (hf : f ∈ fragments) :
    f.document = batch.document := by
  unfold new at h
  split at h
  · cases h
  · rename_i first rest
    split at h
    · cases h
    · rename_i hstray
      obtain rfl := Except.ok.inj h
      rcases List.mem_cons.mp hf with rfl | hrest
      · rfl
      · simpa using List.find?_eq_none.mp hstray f hrest

namespace Processor

/-- Fragments are processed only if the flag is found clear and the batch is one. -/
theorem processUnder_cases {τ : Type} (env : Surroundings τ) (config : PullConfig)
    (schedules : Nat → Nat → List Nat) (p : Processor τ) (fragments : List Fragment) :
    (processUnder env config schedules p fragments).2.outside = look env p.outside ∨
      (env.isCancelled p.outside).1 = false ∧ ∃ batch, Batch.new fragments = .ok batch ∧
        (processUnder env config schedules p fragments).2.outside =
          (processFragmentsUnder env config schedules { p with outside := look env p.outside }
            batch.fragments).2.outside := by
  have houtside : (processUnder env config schedules p fragments).2.outside =
      (processDocumentUnder env config schedules p fragments).2.outside := by
    unfold processUnder
    split <;> rename_i hrun <;> rw [hrun]
  rw [houtside]
  unfold processDocumentUnder
  split
  · rename_i hcheck
    exact Or.inl ((congrArg Prod.snd hcheck).symm.trans (checkCancelled_snd env p.outside))
  · rename_i hcheck
    obtain ⟨hclear, rfl⟩ := checkCancelled_eq_ok.mp hcheck
    dsimp only
    split
    · exact Or.inl rfl
    · rename_i batch hbatch
      exact Or.inr ⟨hclear, batch, hbatch, rfl⟩

/-- **Streams are opened only when they may be.** Whatever the surroundings answer, under every
schedule and also in a pull that fails, what is opened falls into one stretch for each fragment that
was begun, in the order of insertion. A stretch holds only what is permitted for its fragment, and
begins when the fragments before it have been inserted by this pull. Without fragments, with
fragments of different documents, and if the first look at the flag is answered with yes, nothing is
opened. -/
theorem opens_permitted (env : Surroundings σ) (config : PullConfig)
    (schedules : Nat → Nat → List Nat) (p : Processor σ) (fragments : List Fragment) :
    let order := Batch.sorted fragments
    let run :=
      processUnder env.recorded config schedules ⟨p.store, p.stats, p.outside, []⟩ fragments
    run.map id (viewed Prod.fst) = processUnder env config schedules p fragments ∧
    processUnder env config (fun _ _ => []) p fragments = process env config p fragments ∧
    (∃ openings : List (List AttachmentKey),
      run.2.outside.2 = openings.flatten ∧ openings.length ≤ order.length ∧
      ∀ j (_ : j < openings.length) (_ : j < order.length),
        order[j].Permits config.retry openings[j] ∧
        HasInserted env config schedules ⟨p.store, p.stats, look env p.outside, []⟩
          (order.take j) (openings.take j).flatten) ∧
    (fragments = [] ∨ (∃ f ∈ fragments, ∃ g ∈ fragments, f.document ≠ g.document) ∨
      (env.isCancelled p.outside).1 = true → run.2.outside.2 = []) := by
  intro order run
  refine ⟨env.recorded_mirrors.processUnder schedules _ fragments,
    processUnder_nil env config p fragments, ?_⟩
  rcases processUnder_cases env.recorded config schedules ⟨p.store, p.stats, p.outside, []⟩
    fragments with hnone | ⟨hclear, batch, hbatch, hsome⟩
  · -- Nothing is begun, and a look leaves the record alone.
    have hempty : run.2.outside.2 = [] := congrArg Prod.snd hnone
    exact ⟨⟨[], hempty, Nat.zero_le _, nofun⟩, fun _ => hempty⟩
  · obtain ⟨openings, hrecord, hlength, hopenings⟩ := processFragmentsUnder_permitted env config
      schedules ⟨p.store, p.stats, look env p.outside, []⟩ order
    rw [Batch.fragments_eq_sorted hbatch] at hsome
    refine ⟨⟨openings, (congrArg Prod.snd hsome).trans hrecord, hlength, hopenings⟩, ?_⟩
    rintro (rfl | ⟨f, hf, g, hg, hne⟩ | hcancelled)
    · cases hbatch
    · exact absurd ((Batch.document_of_mem hbatch hf).trans
        (Batch.document_of_mem hbatch hg).symm) hne
    · cases hclear.symm.trans hcancelled

/-- Surroundings whose source cannot be reached. -/
def unreachable : Surroundings Unit where
  isCancelled s := (false, s)
  openStream _ s := (.failed ⟨.timedOut, "no answer"⟩, s)

/-- Both attempts are made, each opening the picture, before the pull is given up. -/
theorem opens_permitted_unreachable :
    (processUnder unreachable.recorded twice (fun _ _ => [0]) ⟨small, {}, (), []⟩
      [illustrated]).2.outside.2 = [scan, scan] ∧
    illustrated.Permits twice.retry [scan, scan] := by
  have hrun : (processUnder unreachable.recorded twice (fun _ _ => [0]) ⟨small, {}, (), []⟩
      [illustrated]).2.outside.2 = [scan, scan] := by cbv
  have horder : Batch.sorted [illustrated] = [illustrated] := List.mergeSort_singleton _
  obtain ⟨-, -, ⟨openings, hrecord, hlength, hpermits⟩, -⟩ :=
    opens_permitted unreachable twice (fun _ _ => [0]) ⟨small, {}, ()⟩ [illustrated]
  have hflat : openings.flatten = [scan, scan] := hrecord.symm.trans hrun
  rw [horder] at hlength hpermits
  -- There is one fragment, so all openings are in one stretch.
  rcases openings with - | ⟨stretch, - | ⟨next, rest⟩⟩
  · cases hflat
  · obtain rfl : stretch = [scan, scan] := List.flatten_singleton.symm.trans hflat
    exact ⟨hrun, (hpermits 0 Nat.one_pos Nat.one_pos).1⟩
  · exact absurd (Nat.le_of_succ_le_succ hlength) (Nat.not_succ_le_zero _)

end Processor

end Replica
