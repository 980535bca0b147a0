import Replica.Attachment.Stager
import Replica.CommandLine.Command
import Replica.CommandLine.Report
import Replica.Query.Request
import Replica.Revision.Wire

/-!
# Running a command

A command reads one file and answers with a status, what it prints, and a complaint if it failed.
Status zero means success, one that the command failed, two that the arguments were wrong. Staging
prints its report also when the length is wrong, and then fails; every other failure prints nothing.
-/
namespace Replica.CommandLine

inductive Failure where
  | file (source : IoError)
  | json (fault : Json.Fault)
  | document (e : DocumentError)
  | query (e : QueryError)
  /-- The staged content was reported, and its length is wrong. -/
  | reported (complaint : String)
  deriving DecidableEq

def Failure.message : Failure → String
  | .file source => source.message
  | .json fault => fault.message
  | .document e => e.message
  | .query e => e.message
  | .reported complaint => complaint

/-- The files that commands meet. -/
structure Files where
  read : String → Except IoError ByteArray
  /-- A directory for temporary files. -/
  directory : String → Directory
  /-- The directory for temporary files when none is named. -/
  defaultDirectory : Directory

/-- What a command leaves behind. -/
structure Outcome where
  status : Nat := 0
  output : String := ""
  complaint : Option String := none
  deriving DecidableEq

def Outcome.ofFailure (f : Failure) : Outcome := { status := 1, complaint := some f.message }

def versionNumber : String := "0.3.0"

def Files.readText (files : Files) (path : String) : Except Failure String :=
  match files.read path with
  | .error e => .error (.file e)
  | .ok bytes =>
    match String.fromUTF8? bytes with
    | some text => .ok text
    | none => .error (.file ⟨.invalidData, "stream did not contain valid UTF-8"⟩)

/-- The entries of the fragments in a JSON text. -/
def orderEntries (text : String) : Except Failure (List OrderEntry) := do
  let fragments ← (Json.decode (Json.Decoder.list Fragment.decoder) text).mapError Failure.json
  let batch ← (Batch.new fragments).mapError Failure.document
  return OrderEntry.ofBatch batch

def orderText (format : Format) (entries : List OrderEntry) : String :=
  match format with
  | .text => String.join (entries.map OrderEntry.line)
  | .json => (Json.Value.array (entries.map OrderEntry.toJson)).layOut ++ "\n"

/-- Stages a file. A length that is not declared is that of the file, and an encoded length that is
not declared is the other length. -/
def stageFile (files : Files) (path : String) (o : StageOptions) : Except Failure Staged := do
  let bytes ← (files.read path).mapError Failure.file
  let length := o.length.getD (UInt64.ofNat bytes.size)
  let directory := match o.directory with
    | some path => files.directory path
    | none => files.defaultDirectory
  let stager : Stager := { location := .directory directory }
  let (staged, _) := stager.stageNamed (.ofBytes bytes) o.contentType o.encoding length
    (o.encodedLength.getD length)
  staged.mapError Failure.document

def stageText (format : Format) (r : StageReport) : String :=
  match format with
  | .text => r.lines
  | .json => r.toJson.layOut ++ "\n"

/-- The query for the criteria in a JSON text, as it is printed. -/
def queryText (parameterized permissive : Bool) (text : String) : Except Failure String := do
  let requests ← (CriterionRequest.parseList text).mapError Failure.json
  let policy : MembershipPolicy := if permissive then .permissive else .strict
  let plan ← (CriterionRequest.plan policy requests).mapError Failure.query
  if parameterized then
    let (sql, values) ← plan.compileParameterized.mapError Failure.query
    return sql ++ "\n" ++ (Json.Value.array (values.map IndexValue.toJson)).render ++ "\n"
  else
    let sql ← plan.compile.mapError Failure.query
    return sql ++ "\n"

/-- The outcome of something that prints or fails. -/
def Outcome.ofPrinted : Except Failure String → Outcome
  | .ok output => { output }
  | .error f => .ofFailure f

def Outcome.ofStaged (id : String) (format : Format) : Except Failure Staged → Outcome
  | .error f => .ofFailure f
  | .ok staged =>
    let report := StageReport.ofStaged id staged
    let output := stageText format report
    match report.complaint with
    | none => { output }
    | some complaint => { Outcome.ofFailure (.reported complaint) with output }

/-- Runs a command. What is staged goes by the given id. -/
def Command.run (files : Files) (id : String) : Command → Outcome
  | .order file format =>
    .ofPrinted (do return orderText format (← orderEntries (← files.readText file)))
  | .stage file options format => .ofStaged id format (stageFile files file options)
  | .query file parameterized permissive =>
    .ofPrinted (do queryText parameterized permissive (← files.readText file))
  | .version =>
    { output := programName ++ " CLI v" ++ versionNumber ++ "\n" ++
        programName ++ " core v" ++ versionNumber ++ "\n" }

/-- The outcome of arguments that lead to no command. -/
def Outcome.ofStop : Stop → Outcome
  | .help topic => { output := topic.page.text }
  | .version => { output := programName ++ " " ++ versionNumber ++ "\n" }
  | .usage reason => { status := 2, complaint := some reason }

def run (files : Files) (id : String) (arguments : List String) : Outcome :=
  match Command.ofArguments arguments with
  | .ok command => command.run files id
  | .error stop => .ofStop stop

end Replica.CommandLine
