import Replica.Proofs.Pull.Records

/-!
# The counts of a processor keep the books of its store

A fragment is counted when the store has accepted it, with the attachments that were handed over
with it; the store then has logged their names and taken their bytes. Where a fragment fails,
neither the counts nor the store are touched, so the two agree after any requests. Nothing is said
of the number of retries, which leaves no trace in the store.
-/
namespace Replica

namespace PullStats

/-- What an inserted fragment with these attachments adds to the counts. -/
def gain (items : List StagedItem) : PullStats where
  revisionsInserted := 1
  attachmentsStaged := items.length
  bytesStaged := (items.map (·.staged.storedLength)).sum
  retries := (items.map (·.retries)).sum

/-- Two counts together. -/
def plus (a b : PullStats) : PullStats where
  documents := a.documents + b.documents
  revisionsInserted := a.revisionsInserted + b.revisionsInserted
  attachmentsStaged := a.attachmentsStaged + b.attachmentsStaged
  bytesStaged := a.bytesStaged + b.bytesStaged
  retries := a.retries + b.retries
  failedDocuments := a.failedDocuments + b.failedDocuments

theorem countInserted_eq (stats : PullStats) (items : List StagedItem) :
    stats.countInserted items = stats.plus (gain items) := by
  induction items generalizing stats with
  | nil => rfl
  | cons item rest ih =>
    -- It does not matter to the counting whether the fragment or an attachment comes first.
    have hlater : stats.countInserted (item :: rest) = (stats.countItem item).countInserted rest :=
      rfl
    rw [hlater, ih]
    simp only [plus, gain, countItem, List.length_cons, List.map_cons, List.sum_cons,
      PullStats.mk.injEq, true_and, and_true]
    omega

end PullStats

namespace RevisionStore

/-- The attachments add as many bytes to the blob area as are stored for them. -/
theorem commitAll_size {capacity : Option Nat} {blobs blobs' : Memory}
    {attachments : List (String × Staged)} {committed : List (String × Committed)}
    (h : commitAll capacity blobs attachments = (.ok committed, blobs'))
    (hseals : ∀ a ∈ attachments, ∃ bytes, a.2.Seals bytes) :
    blobs'.bytes.size = blobs.bytes.size + (attachments.map (·.2.storedLength)).sum := by
  induction attachments generalizing blobs committed with
  | nil =>
    obtain rfl := (Prod.mk.inj h).2
    rfl
  | cons attachment rest ih =>
    obtain ⟨⟨bytes, hbytes⟩, hothers⟩ := List.forall_mem_cons.mp hseals
    obtain ⟨c, between, others, _, hone, hrest, _⟩ := commitAll_cons_eq_ok h
    have hfirst : between.bytes.size = blobs.bytes.size + attachment.2.storedLength := by
      rw [(Staged.commit_eq_ok hbytes hone).1, ByteArray.size_append, hbytes.length]
    rw [ih hrest hothers, hfirst, List.map_cons, List.sum_cons, Nat.add_assoc]

end RevisionStore

namespace Processor

variable {σ : Type} {env : Surroundings σ} {config : PullConfig} {p q : Processor σ} {calls : Nat}

/-- The counts of the processor are those of its store, after so many documents. -/
structure Balanced (calls : Nat) (p : Processor σ) : Prop where
  revisions : p.stats.revisionsInserted = p.store.log.length
  attachments : p.stats.attachmentsStaged = (p.store.log.flatMap (·.attachments)).length
  bytes : p.stats.bytesStaged = p.store.blobs.bytes.size
  documents : p.stats.documents + p.stats.failedDocuments = calls

theorem Balanced.elsewhere (h : Balanced calls p) (outside : σ) :
    Balanced calls { p with outside } := ⟨h.revisions, h.attachments, h.bytes, h.documents⟩

theorem balanced_new (strict : Bool) (capacity : Option Nat) (outside : σ) :
    Balanced 0 ⟨{ strict, capacity }, {}, outside⟩ := ⟨rfl, rfl, rfl, rfl⟩

theorem Balanced.processFragment (h : Balanced calls p) (f : Fragment) :
    Balanced calls (processFragment env config p f).2 := by
  cases hf : Processor.processFragment env config p f with
  | mk result q =>
    cases result with
    | error e =>
      obtain ⟨hstore, hstats⟩ := processFragment_error hf
      constructor <;> rw [hstats]
      · rw [hstore, h.revisions]
      · rw [hstore, h.attachments]
      · rw [hstore, h.bytes]
      · exact h.documents
    | ok n =>
      obtain ⟨o, items, o', store, _, hstage, hinsert, _, rfl⟩ := processFragment_eq_ok.mp hf
      have hnames := names_handedOver hstage
      have hlength := length_handedOver hstage
      obtain ⟨_, _, committed, blobs, hcommit, rfl⟩ := RevisionStore.insert_eq_ok.mp hinsert
      have hsize := RevisionStore.commitAll_size hcommit (stageAttachments_seals hstage)
      rw [List.map_map] at hsize
      constructor <;> simp only [PullStats.countInserted_eq, PullStats.plus, PullStats.gain,
        RevisionStore.extended]
      · rw [List.length_append, List.length_singleton, h.revisions]
      · rw [List.flatMap_append, List.length_append, List.flatMap_singleton, Fragment.entry, hnames,
          h.attachments, hlength]
      · rw [hsize, h.bytes]
        rfl
      · exact h.documents

/-- A document is counted once, whether it was pulled or not. -/
theorem Balanced.process (h : Balanced calls p) (fragments : List Fragment) :
    Balanced (calls + 1) (process env config p fragments).2 := by
  have hdone : Balanced calls (processDocument env config p fragments).2 :=
    processDocument_invariant (fun h => h.elsewhere _) (fun f _ h => h.processFragment f) h
  unfold Processor.process
  split <;> rename_i q hrun <;> rw [hrun] at hdone
  all_goals have hcalls : q.stats.documents + q.stats.failedDocuments = calls := hdone.documents
  · refine ⟨hdone.revisions, hdone.attachments, hdone.bytes, ?_⟩
    show q.stats.documents + (q.stats.failedDocuments + 1) = calls + 1
    omega
  · refine ⟨hdone.revisions, hdone.attachments, hdone.bytes, ?_⟩
    show q.stats.documents + 1 + q.stats.failedDocuments = calls + 1
    omega

/-- The documents that are begun when they are processed one after another: all up to the first that
fails, that one included. -/
def begun (env : Surroundings σ) (config : PullConfig) (p : Processor σ) :
    List (List Fragment) → List (List Fragment)
  | [] => []
  | fragments :: rest =>
    match process env config p fragments with
    | (.error _, _) => [fragments]
    | (.ok _, p) => fragments :: begun env config p rest

theorem Balanced.processAll (h : Balanced calls p) (documents : List (List Fragment)) :
    Balanced (calls + (begun env config p documents).length)
      (processAll env config p documents).2 := by
  induction documents generalizing calls p with
  | nil => exact h
  | cons fragments rest ih =>
    have hfirst := @Balanced.process _ env config _ _ h fragments
    unfold Processor.processAll begun
    cases hrun : Processor.process env config p fragments with
    | mk result q =>
      rw [hrun] at hfirst
      cases result with
      | error e => exact hfirst
      | ok pull =>
        dsimp only
        rw [List.length_cons, Nat.add_comm (begun env config q rest).length, ← Nat.add_assoc]
        exact ih hfirst

/-- What is asked of a processor, or happens to it between two pulls. -/
inductive Request (σ : Type) where
  | pull (fragments : List Fragment)
  | pullAll (documents : List (List Fragment))
  /-- Outside something changes: the cancel flag is set or cleared, or the source gets other
  contents or failures. -/
  | meanwhile (change : σ → σ)

/-- The processor after a request. -/
def serve (env : Surroundings σ) (config : PullConfig) (p : Processor σ) : Request σ → Processor σ
  | .pull fragments => (process env config p fragments).2
  | .pullAll documents => (processAll env config p documents).2
  | .meanwhile change => { p with outside := change p.outside }

/-- How many documents a request makes the processor begin. -/
def callsOf (env : Surroundings σ) (config : PullConfig) (p : Processor σ) : Request σ → Nat
  | .pull _ => 1
  | .pullAll documents => (begun env config p documents).length
  | .meanwhile _ => 0

/-- The processor after requests, one after another. -/
def serveAll (env : Surroundings σ) (config : PullConfig) (p : Processor σ)
    (requests : List (Request σ)) : Processor σ := requests.foldl (serve env config) p

/-- How many documents the requests make the processor begin, in all. -/
def callsOfAll (env : Surroundings σ) (config : PullConfig) (p : Processor σ) :
    List (Request σ) → Nat
  | [] => 0
  | request :: rest =>
    callsOf env config p request + callsOfAll env config (serve env config p request) rest

theorem Balanced.serve (h : Balanced calls p) (request : Request σ) :
    Balanced (calls + callsOf env config p request) (serve env config p request) := by
  cases request with
  | pull fragments => exact h.process fragments
  | pullAll documents => exact h.processAll documents
  | meanwhile change => exact h.elsewhere _

theorem Balanced.serveAll (h : Balanced calls p) (requests : List (Request σ)) :
    Balanced (calls + callsOfAll env config p requests) (serveAll env config p requests) := by
  induction requests generalizing calls p with
  | nil => exact h
  | cons request rest ih =>
    rw [callsOfAll, ← Nat.add_assoc]
    exact ih (h.serve request)

/-- **The counts keep the books.** A new processor over an empty store, strict or not and of any
capacity, has after any requests, and whatever it met outside: counted as many revisions as its
store has logged, as many attachments as the log has names, as many bytes as the blob area has, and
each document that was begun once, pulled or failed. -/
theorem counts_balance (env : Surroundings σ) (config : PullConfig) (strict : Bool)
    (capacity : Option Nat) (outside : σ) (requests : List (Request σ)) :
    let new : Processor σ := ⟨{ strict, capacity }, {}, outside⟩
    let p := serveAll env config new requests
    p.stats.revisionsInserted = p.store.log.length ∧
      p.stats.attachmentsStaged = (p.store.log.flatMap (·.attachments)).length ∧
      p.stats.bytesStaged = p.store.blobs.bytes.size ∧
      p.stats.documents + p.stats.failedDocuments = callsOfAll env config new requests := by
  intro new p
  have hbalanced : Balanced (0 + callsOfAll env config new requests) p :=
    (balanced_new strict capacity outside).serveAll requests
  rw [Nat.zero_add] at hbalanced
  exact ⟨hbalanced.revisions, hbalanced.attachments, hbalanced.bytes, hbalanced.documents⟩

/-- The request to cancel the pulls of a session. -/
def cancel : Request Session := .meanwhile fun s => { s with cancelled := true }

/-- The request to cancel them no longer. -/
def resetCancel : Request Session := .meanwhile fun s => { s with cancelled := false }

/-- The second run ends with its first document, which is cancelled; the third one with its second
document, which is empty. -/
example :
    let p := serveAll Session.surroundings once ⟨{}, {}, {}⟩
      [.pull [RevisionStore.root], cancel, .pullAll [[second], [RevisionStore.root]], resetCancel,
        .pullAll [[second], [], [RevisionStore.root]]]
    (p.stats.documents, p.stats.failedDocuments, p.store.log.length) = (2, 2, 2) := by cbv

end Processor

end Replica
