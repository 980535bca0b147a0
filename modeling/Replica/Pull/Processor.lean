import Replica.Attachment.Stager
import Replica.Pull.Retry
import Replica.Pull.Store
import Replica.Revision.Batch

/-!
# Pulling documents

A pull takes the fragments received for one document, puts them in insertion order, and for each of
them stages the attachments of its leaf and hands both to the store. Attachments are staged in
groups, in the order of their names. Every member of a group runs to its end, with its own retries;
if one fails, the failure of the first in name order is reported, later groups do not start, and the
fragment is not inserted. What was inserted before stays.

What a pull meets outside the store is given by its `Surroundings`: the source, and the flag by
which it may be cancelled. The flag is looked at before a document, before each fragment, and before
each attempt at an attachment.
-/
namespace Replica

inductive Opening where
  | stream (s : Stream)
  | failed (e : IoError)
  /-- The worker that opened it broke down. -/
  | broke

/-- What a pull meets outside the store. -/
structure Surroundings (σ : Type) where
  /-- Is the pull to be cancelled? -/
  isCancelled : σ → Bool × σ
  openStream : AttachmentKey → σ → Opening × σ

structure PullConfig where
  stager : Stager
  retry : RetryPolicy
  /-- How many attachments of a revision are staged at the same time. -/
  maxConcurrent : Nat := 4

/-- The configuration with another limit, at least one. -/
def PullConfig.withMaxConcurrent (c : PullConfig) (limit : Nat) : PullConfig :=
  { c with maxConcurrent := max limit 1 }

/-- Counts over all documents. -/
structure PullStats where
  documents : Nat := 0
  revisionsInserted : Nat := 0
  attachmentsStaged : Nat := 0
  bytesStaged : Nat := 0
  retries : Nat := 0
  failedDocuments : Nat := 0
  deriving DecidableEq

structure DocumentPull where
  document : String
  /-- The leaves inserted, in order. -/
  inserted : List RevisionId
  attachments : Nat
  deriving DecidableEq

/-- An attachment that was staged after so many repetitions. -/
structure StagedItem where
  name : String
  staged : Staged
  retries : Nat

def PullStats.countItem (stats : PullStats) (item : StagedItem) : PullStats :=
  { stats with
    attachmentsStaged := stats.attachmentsStaged + 1
    bytesStaged := stats.bytesStaged + item.staged.storedLength
    retries := stats.retries + item.retries }

def PullStats.countInserted (stats : PullStats) (items : List StagedItem) : PullStats :=
  items.foldl countItem { stats with revisionsInserted := stats.revisionsInserted + 1 }

/-- A processor: its store, its counts, and what it meets outside. -/
structure Processor (σ : Type) where
  store : RevisionStore
  stats : PullStats := {}
  outside : σ

namespace Processor

variable {σ : Type}

/-- Fails if the pull is to be cancelled. -/
def checkCancelled (env : Surroundings σ) (s : σ) : Except PullError Unit × σ :=
  match env.isCancelled s with
  | (true, s) => (.error .cancelled, s)
  | (false, s) => (.ok (), s)

/-- One attempt at an attachment. -/
def attempt (env : Surroundings σ) (stager : Stager) (key : AttachmentKey) (metadata : Metadata)
    (s : σ) : Except PullError Staged × σ :=
  match checkCancelled env s with
  | (.error e, s) => (.error e, s)
  | (.ok (), s) =>
    match env.openStream key s with
    | (.failed e, s) => (.error (.ofOpening e), s)
    | (.broke, s) => (.error .brokenWorker, s)
    | (.stream stream, s) => ((stager.stage stream metadata).1.mapError .document, s)

/-- Stages one attachment, with retries. An encoding that is not known fails before anything is
opened. -/
def stageOne (env : Surroundings σ) (config : PullConfig) (key : AttachmentKey)
    (reference : Reference) (s : σ) : Except PullError StagedItem × σ :=
  match reference.metadata with
  | .error e => (.error (.document e), s)
  | .ok metadata =>
    match config.retry.persist (attempt env config.stager key metadata) 0 s with
    | (.error e, s) => (.error e, s)
    | (.ok (staged, retries), s) => (.ok ⟨key.name, staged, retries⟩, s)

/-- Runs all members of a group to their ends. -/
def runGroup (env : Surroundings σ) (config : PullConfig) (document : String)
    (revision : RevisionId) (s : σ) :
    List (String × Reference) → List (Except PullError StagedItem) × σ
  | [] => ([], s)
  | (name, reference) :: rest =>
    let (result, s) := stageOne env config ⟨document, revision, name⟩ reference s
    let (results, s) := runGroup env config document revision s rest
    (result :: results, s)

/-- The items, or the first failure. -/
def collect : List (Except PullError StagedItem) → Except PullError (List StagedItem)
  | [] => .ok []
  | .error e :: _ => .error e
  | .ok item :: rest => (collect rest).map (item :: ·)

/-- Splits a list into groups of one more than `spare`. -/
def groups {α : Type} (spare : Nat) : List α → List (List α)
  | [] => []
  | a :: rest => (a :: rest.take spare) :: groups spare (rest.drop spare)
  termination_by l => l.length
  decreasing_by simp only [List.length_drop, List.length_cons]; omega

/-- Stages group after group, up to the first that fails. -/
def runGroups (env : Surroundings σ) (config : PullConfig) (document : String)
    (revision : RevisionId) (s : σ) :
    List (List (String × Reference)) → Except PullError (List StagedItem) × σ
  | [] => (.ok [], s)
  | group :: rest =>
    let (results, s) := runGroup env config document revision s group
    match collect results with
    | .error e => (.error e, s)
    | .ok items =>
      let (others, s) := runGroups env config document revision s rest
      (others.map (items ++ ·), s)

/-- Stages all attachments of the fragment's leaf that have to be fetched. -/
def stageAttachments (env : Surroundings σ) (config : PullConfig) (f : Fragment) (s : σ) :
    Except PullError (List StagedItem) × σ :=
  runGroups env config f.document f.leaf s (groups (config.maxConcurrent - 1) f.pending)

/-- Stages and inserts one fragment. Gives back the number of its attachments. -/
def processFragment (env : Surroundings σ) (config : PullConfig) (p : Processor σ) (f : Fragment) :
    Except PullError Nat × Processor σ :=
  match checkCancelled env p.outside with
  | (.error e, outside) => (.error e, { p with outside })
  | (.ok (), outside) =>
    match stageAttachments env config f outside with
    | (.error e, outside) => (.error e, { p with outside })
    | (.ok items, outside) =>
      match p.store.insert f (items.map fun i => (i.name, i.staged)) with
      | (.error e, store) => (.error e, { p with store, outside })
      | (.ok (), store) => (.ok items.length, ⟨store, p.stats.countInserted items, outside⟩)

/-- Processes fragments in order, up to the first that fails. -/
def processFragments (env : Surroundings σ) (config : PullConfig) (p : Processor σ) :
    List Fragment → Except PullError (List RevisionId × Nat) × Processor σ
  | [] => (.ok ([], 0), p)
  | f :: rest =>
    match processFragment env config p f with
    | (.error e, p) => (.error e, p)
    | (.ok n, p) =>
      let (result, p) := processFragments env config p rest
      (result.map fun (leaves, count) => (f.leaf :: leaves, n + count), p)

/-- Puts the fragments of a document in order and processes them. -/
def processDocument (env : Surroundings σ) (config : PullConfig) (p : Processor σ)
    (fragments : List Fragment) : Except PullError DocumentPull × Processor σ :=
  match checkCancelled env p.outside with
  | (.error e, outside) => (.error e, { p with outside })
  | (.ok (), outside) =>
    let p := { p with outside }
    match Batch.new fragments with
    | .error e => (.error (.document e), p)
    | .ok batch =>
      let (result, p) := processFragments env config p batch.fragments
      (result.map fun (leaves, count) => ⟨batch.document, leaves, count⟩, p)

def process (env : Surroundings σ) (config : PullConfig) (p : Processor σ)
    (fragments : List Fragment) : Except PullError DocumentPull × Processor σ :=
  match processDocument env config p fragments with
  | (.error e, p) =>
    (.error e, { p with stats := { p.stats with failedDocuments := p.stats.failedDocuments + 1 } })
  | (.ok pull, p) =>
    (.ok pull, { p with stats := { p.stats with documents := p.stats.documents + 1 } })

/-- Processes documents one after another, up to the first that fails. -/
def processAll (env : Surroundings σ) (config : PullConfig) (p : Processor σ) :
    List (List Fragment) → Except PullError (List DocumentPull) × Processor σ
  | [] => (.ok [], p)
  | fragments :: rest =>
    match process env config p fragments with
    | (.error e, p) => (.error e, p)
    | (.ok pull, p) =>
      let (pulls, p) := processAll env config p rest
      (pulls.map (pull :: ·), p)

end Processor

/-- A source in memory together with the flag by which its pulls are cancelled. -/
structure Session where
  source : MemorySource := {}
  cancelled : Bool := false

namespace Session

def openStream (key : AttachmentKey) (s : Session) : Opening × Session :=
  match s.source.openStream key with
  | (.ok stream, source) => (.stream stream, { s with source })
  | (.error e, source) => (.failed e, { s with source })

def surroundings : Surroundings Session where
  isCancelled s := (s.cancelled, s)
  openStream := openStream

end Session

end Replica
