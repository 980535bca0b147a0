import Replica.Proofs.Pull.WholeFragments
import Replica.Proofs.Pull.Workers

/-!
# Schedules of a fragment

Under a limit the attachments of a fragment are staged in groups, each group under a schedule of its
own. In a session the schedules do not show at all, neither in what is staged nor in what is left
behind. What comes of an attachment is what comes of it alone, whatever group it is in and whatever
the others of the group do; so the limit decides nothing either, except how much has been opened by
the time that a failure is reported.
-/
namespace Replica

namespace Processor

variable {σ : Type}

/-- Runs all members of a group to their ends, under a schedule. -/
def runGroupUnder (env : Surroundings σ) (config : PullConfig) (document : String)
    (revision : RevisionId) (schedule : List Nat) (s : σ) (group : List (String × Reference)) :
    List (Except PullError StagedItem) × σ :=
  let (ws, s) := Worker.takeTurns env config schedule (group.map (Worker.start document revision)) s
  Worker.finishAll env config ws s

/-- Stages group after group, each under its own schedule, up to the first that fails. -/
def runGroupsUnder (env : Surroundings σ) (config : PullConfig) (document : String)
    (revision : RevisionId) (schedules : Nat → List Nat) (s : σ) :
    List (List (String × Reference)) → Except PullError (List StagedItem) × σ
  | [] => (.ok [], s)
  | group :: rest =>
    let (results, s) := runGroupUnder env config document revision (schedules 0) s group
    match collect results with
    | .error e => (.error e, s)
    | .ok items =>
      let (others, s) :=
        runGroupsUnder env config document revision (fun n => schedules (n + 1)) s rest
      (others.map (items ++ ·), s)

/-- Stages all attachments of the fragment's leaf that have to be fetched, the groups under the
schedules. -/
def stageUnder (env : Surroundings σ) (config : PullConfig) (schedules : Nat → List Nat)
    (f : Fragment) (s : σ) : Except PullError (List StagedItem) × σ :=
  runGroupsUnder env config f.document f.leaf schedules s
    (groups (config.maxConcurrent - 1) f.pending)

/-- Stages attachments one at a time, up to the first that fails. -/
def stageInTurn (env : Surroundings σ) (config : PullConfig) (document : String)
    (revision : RevisionId) (s : σ) :
    List (String × Reference) → Except PullError (List StagedItem) × σ
  | [] => (.ok [], s)
  | (name, reference) :: rest =>
    match stageOne env config ⟨document, revision, name⟩ reference s with
    | (.error e, s) => (.error e, s)
    | (.ok item, s) =>
      let (others, s) := stageInTurn env config document revision s rest
      (others.map (item :: ·), s)

theorem collect_append (results others : List (Except PullError StagedItem)) :
    collect (results ++ others) =
      match collect results with
      | .error e => .error e
      | .ok items => (collect others).map (items ++ ·) := by
  induction results with
  | nil => cases h : collect others <;> simp [collect, h, Except.map]
  | cons result rest ih =>
    cases result with
    | error e => rfl
    | ok item =>
      simp only [List.cons_append, collect, ih]
      cases collect rest with
      | error e => rfl
      | ok items => cases collect others <;> rfl

theorem collect_eq_ok {results : List (Except PullError StagedItem)} {items : List StagedItem} :
    collect results = .ok items ↔ results = items.map .ok := by
  induction results generalizing items with
  | nil => cases items <;> simp [collect]
  | cons result rest ih =>
    cases result with
    | error e => cases items <;> simp [collect]
    | ok item =>
      rw [collect, map_eq_ok]
      constructor
      · rintro ⟨others, hothers, rfl⟩
        rw [ih.mp hothers, List.map_cons]
      · intro h
        cases items with
        | nil => cases h
        | cons first others =>
          obtain ⟨hfirst, hrest⟩ := List.cons.inj h
          obtain rfl := Except.ok.inj hfirst
          exact ⟨others, ih.mpr hrest, rfl⟩

/-- The failure that is reported is the first one. -/
theorem collect_eq_error {results : List (Except PullError StagedItem)} {e : PullError} :
    collect results = .error e ↔
      ∃ (items : List StagedItem) (later : List (Except PullError StagedItem)),
        results = items.map .ok ++ .error e :: later := by
  constructor
  · intro h
    induction results with
    | nil => cases h
    | cons result rest ih =>
      cases result with
      | error first =>
        obtain rfl := Except.error.inj h
        exact ⟨[], rest, rfl⟩
      | ok item =>
        rw [collect] at h
        cases hrest : collect rest with
        | ok others =>
          rw [hrest] at h
          cases h
        | error first =>
          rw [hrest] at h
          obtain rfl := Except.error.inj h
          obtain ⟨items, later, rfl⟩ := ih hrest
          exact ⟨item :: items, later, rfl⟩
  · rintro ⟨items, later, rfl⟩
    rw [collect_append, collect_eq_ok.mpr rfl]
    rfl

variable {config : PullConfig} {document : String} {revision : RevisionId}

/-- Without turns to begin with, the members of a group are staged one after another. -/
theorem runGroupUnder_nil {σ : Type} {env : Surroundings σ} (s : σ)
    (group : List (String × Reference)) :
    runGroupUnder env config document revision [] s group =
      runGroup env config document revision s group := by
  induction group generalizing s with
  | nil => rfl
  | cons member rest ih =>
    have hrest := ih (stageOne env config ⟨document, revision, member.1⟩ member.2 s).2
    simp only [runGroupUnder, Worker.takeTurns, List.map_cons, Worker.finishAll,
      Worker.finish_start, runGroup] at hrest ⊢
    rw [hrest]

theorem runGroupsUnder_of_eq {σ : Type} {env : Surroundings σ} {schedules : Nat → List Nat}
    {groups : List (List (String × Reference))}
    (h : ∀ place s, ∀ group ∈ groups,
      runGroupUnder env config document revision (schedules place) s group =
        runGroup env config document revision s group) (s : σ) :
    runGroupsUnder env config document revision schedules s groups =
      runGroups env config document revision s groups := by
  induction groups generalizing schedules s with
  | nil => rfl
  | cons group rest ih =>
    have hfirst := h 0 s group List.mem_cons_self
    have hrest := @ih (fun n => schedules (n + 1))
      fun place s group hgroup => h (place + 1) s group (List.mem_cons_of_mem _ hgroup)
    unfold runGroupsUnder runGroups
    rw [hfirst]
    cases runGroup env config document revision s group with
    | mk results next =>
      dsimp only
      cases collect results with
      | error e => rfl
      | ok items => rw [hrest next]

theorem stageUnder_nil {σ : Type} (env : Surroundings σ) (f : Fragment) (s : σ) :
    stageUnder env config (fun _ => []) f s = stageAttachments env config f s :=
  runGroupsUnder_of_eq (fun _ s group _ => runGroupUnder_nil s group) s

theorem keys_start (group : List (String × Reference)) :
    (group.map (Worker.start document revision)).map Worker.key =
      (group.map (·.1)).map fun name => ⟨document, revision, name⟩ := by
  rw [List.map_map, List.map_map]
  exact List.map_congr_left fun member _ => Worker.key_start document revision member

theorem key_injective (document : String) (revision : RevisionId) :
    Function.Injective (AttachmentKey.mk document revision) :=
  fun _ _ h => (AttachmentKey.mk.inj h).2.2

/-- A schedule decides neither what comes of a group nor what the session is afterwards. -/
theorem runGroupUnder_eq {group : List (String × Reference)} (hnames : (group.map (·.1)).Nodup)
    (schedule : List Nat) (s : Session) :
    runGroupUnder Session.surroundings config document revision schedule s group =
      runGroup Session.surroundings config document revision s group := by
  have hkeys : ((group.map (Worker.start document revision)).map Worker.key).Nodup := by
    rw [keys_start]
    exact hnames.map (key_injective document revision)
  rw [← runGroupUnder_nil]
  exact Worker.finishAll_takeTurns hkeys schedule s

theorem groups_nodup (spare : Nat) (f : Fragment) :
    ((groups spare f.pending).flatten.map (·.1)).Nodup := by
  rw [flatten_groups]
  exact f.pendingNames_nodup

/-- **No schedule matters.** In a session, staging the attachments of a fragment comes to the same
under all schedules, and leaves the same behind: as many openings, and the same failures to come. -/
theorem stageUnder_eq (config : PullConfig) (schedules : Nat → List Nat) (f : Fragment)
    (s : Session) :
    stageUnder Session.surroundings config schedules f s =
      stageAttachments Session.surroundings config f s := by
  have hnames := groups_nodup (config.maxConcurrent - 1) f
  rw [List.map_flatten] at hnames
  exact runGroupsUnder_of_eq (fun place s group hgroup => runGroupUnder_eq
    ((List.nodup_flatten.mp hnames).1 _ (List.mem_map_of_mem hgroup)) (schedules place) s) s

/-- What comes of staging an attachment of a revision alone. -/
def alone (config : PullConfig) (document : String) (revision : RevisionId) (s : Session)
    (member : String × Reference) : Except PullError StagedItem :=
  (stageOne Session.surroundings config ⟨document, revision, member.1⟩ member.2 s).1

theorem alone_agree {members : List (String × Reference)} {s t : Session}
    (h : ∀ name ∈ members.map (·.1), Session.Agree ⟨document, revision, name⟩ s t) :
    members.map (alone config document revision s) =
      members.map (alone config document revision t) :=
  List.map_congr_left fun _ hm => stageOne_agree config _ (h _ (List.mem_map_of_mem hm))

/-- Staging one attachment of a revision does not change what another one meets. -/
theorem agree_stageOne {name other : String} (hne : name ≠ other) (reference : Reference)
    (s : Session) :
    Session.Agree ⟨document, revision, other⟩ s
      (stageOne Session.surroundings config ⟨document, revision, name⟩ reference s).2 :=
  Surroundings.Preserves.stageOne
    (Session.preserves_agree (fun h => hne (key_injective document revision h)) s) reference
    (.refl _ s)

theorem runGroup_alone {group : List (String × Reference)} (hnames : (group.map (·.1)).Nodup)
    (s : Session) :
    (runGroup Session.surroundings config document revision s group).1 =
      group.map (alone config document revision s) := by
  induction group generalizing s with
  | nil => rfl
  | cons member rest ih =>
    obtain ⟨hfresh, hrest⟩ := List.nodup_cons.mp hnames
    rw [runGroup_cons, List.map_cons, alone_agree fun other hother =>
      agree_stageOne (ne_of_mem_of_not_mem hother hfresh).symm member.2 s]
    exact congrArg (List.cons _) (ih hrest _)

/-- A group does not change what an attachment outside it meets. -/
theorem agree_runGroup {group : List (String × Reference)} {name : String}
    (hname : name ∉ group.map (·.1)) (s : Session) :
    Session.Agree ⟨document, revision, name⟩ s
      (runGroup Session.surroundings config document revision s group).2 := by
  refine Surroundings.Preserves.runGroup (fun member hmember => ?_) (.refl _ s)
  have hne : member.1 ≠ name := ne_of_mem_of_not_mem (List.mem_map_of_mem hmember) hname
  exact Session.preserves_agree (fun h => hne (key_injective document revision h)) s

/-- Whatever the groups, what comes of each attachment is what comes of it alone. -/
theorem runGroups_alone {groups : List (List (String × Reference))}
    (hnames : (groups.flatten.map (·.1)).Nodup) (s : Session) :
    (runGroups Session.surroundings config document revision s groups).1 =
      collect (groups.flatten.map (alone config document revision s)) := by
  induction groups generalizing s with
  | nil => rfl
  | cons group rest ih =>
    rw [List.flatten_cons, List.map_append] at hnames
    obtain ⟨hgroup, hrest, hdisjoint⟩ := List.nodup_append.mp hnames
    -- No name comes twice, so the later groups meet what they would have met at the beginning.
    have hothers : ∀ name ∈ rest.flatten.map (·.1), Session.Agree ⟨document, revision, name⟩ s
        (runGroup Session.surroundings config document revision s group).2 :=
      fun name hname => agree_runGroup (fun h => hdisjoint name h name hname rfl) s
    rw [List.flatten_cons, List.map_append, collect_append, alone_agree hothers,
      ← runGroup_alone hgroup s]
    unfold runGroups
    dsimp only
    cases collect (runGroup Session.surroundings config document revision s group).1 with
    | error e => rfl
    | ok items => exact congrArg (Except.map _) (ih hrest _)

theorem stageAttachments_alone (config : PullConfig) (f : Fragment) (s : Session) :
    (stageAttachments Session.surroundings config f s).1 =
      collect (f.pending.map (alone config f.document f.leaf s)) := by
  rw [stageAttachments, runGroups_alone (groups_nodup _ f), flatten_groups]

theorem stageInTurn_eq {members : List (String × Reference)} (hnames : (members.map (·.1)).Nodup)
    (s : Session) :
    (stageInTurn Session.surroundings config document revision s members).1 =
      collect (members.map (alone config document revision s)) := by
  induction members generalizing s with
  | nil => rfl
  | cons member rest ih =>
    obtain ⟨name, reference⟩ := member
    obtain ⟨hfresh, hrest⟩ := List.nodup_cons.mp hnames
    rw [List.map_cons, alone_agree fun other hother =>
      agree_stageOne (ne_of_mem_of_not_mem hother hfresh).symm reference s]
    unfold stageInTurn alone
    cases stageOne Session.surroundings config ⟨document, revision, name⟩ reference s with
    | mk result next =>
      cases result with
      | error e => rfl
      | ok item => exact congrArg (Except.map _) (ih hrest next)

/-- **Neither the limit nor the schedule matters.** Under every limit, every schedule of every group
and in every state of the source, staging a fragment's attachments gives what staging them one at a
time, in the order of their names, gives: all of them, or the failure of the first that fails. -/
theorem stage_any_schedule (config : PullConfig) (limit : Nat) (schedules : Nat → List Nat)
    (f : Fragment) (s : Session) :
    let inTurn := (stageInTurn Session.surroundings config f.document f.leaf s f.pending).1
    let each := f.pending.map (alone config f.document f.leaf s)
    (f.pendingNames.Pairwise (· < ·) ∧ ∀ name, name ∈ f.pendingNames ↔
      ∃ r, f.attachments.get? name = some r ∧ r.stub = false) ∧
    (stageUnder Session.surroundings { config with maxConcurrent := limit } schedules f s).1 =
      inTurn ∧
    (stageAttachments Session.surroundings { config with maxConcurrent := limit } f s).1 = inTurn ∧
    (∀ items, inTurn = .ok items ↔ each = items.map .ok) ∧
    ∀ e, inTurn = .error e ↔ ∃ (items : List StagedItem) (later : List _),
      each = items.map .ok ++ .error e :: later := by
  intro inTurn each
  have hinTurn : inTurn = collect each := stageInTurn_eq f.pendingNames_nodup s
  have hgroups := stageAttachments_alone { config with maxConcurrent := limit } f s
  refine ⟨⟨f.pendingNames_rising, fun name => f.mem_pendingNames⟩, ?_, hgroups.trans hinTurn.symm,
    fun items => ?_, fun e => ?_⟩
  · rw [stageUnder_eq]
    exact hgroups.trans hinTurn.symm
  · rw [hinTurn, collect_eq_ok]
  · rw [hinTurn, collect_eq_error]

end Processor

end Replica
