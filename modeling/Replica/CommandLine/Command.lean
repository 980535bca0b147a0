import Replica.CommandLine.Arguments
import Replica.Numeral

/-!
# Commands

What the program can be asked to do, and how it is asked. The options of the program come before the
name of the command, and those of the command behind it; `--verbose` may stand in both places.
-/
namespace Replica.CommandLine

inductive Format where
  | text
  | json
  deriving DecidableEq

/-- The format of that name; every unknown name means text. -/
def Format.ofName (name : String) : Format := if name = "json" then .json else .text

/-- What is declared about a file that is staged, and where it is staged. -/
structure StageOptions where
  contentType : String := "application/octet-stream"
  encoding : Option String := none
  length : Option UInt64 := none
  encodedLength : Option UInt64 := none
  directory : Option String := none
  deriving DecidableEq

inductive Command where
  | order (file : String) (format : Format)
  | stage (file : String) (options : StageOptions) (format : Format)
  | query (file : String) (parameterized permissive : Bool)
  | version
  deriving DecidableEq

namespace Command

/-- A path; it must not be empty. -/
def path? (text : String) : Option String := if text = "" then none else some text

def length? (text : String) : Option UInt64 :=
  (Numeral.natural? Numeral.maxWord text).map UInt64.ofNat

/-- A command that is being read. Which of the fields count depends on the command. -/
structure Draft where
  verbose : Bool := false
  file : Option String := none
  format : Option String := none
  contentType : Option String := none
  encoding : Option String := none
  length : Option UInt64 := none
  encodedLength : Option UInt64 := none
  directory : Option String := none
  parameterized : Bool := false
  permissive : Bool := false

def verboseSwitch : Switch Draft :=
  .flag (some 'v') "verbose" (·.verbose) fun d => { d with verbose := true }

def formatSwitch : Switch Draft :=
  .value (some 'f') "format" some (·.format) fun d v => { d with format := some v }

def orderSwitches : List (Switch Draft) := [formatSwitch, verboseSwitch, .help .order]

def stageSwitches : List (Switch Draft) := [
  .value none "content-type" some (·.contentType) fun d v => { d with contentType := some v },
  verboseSwitch,
  .value none "encoding" some (·.encoding) fun d v => { d with encoding := some v },
  .value none "length" length? (·.length) fun d v => { d with length := some v },
  .value none "encoded-length" length? (·.encodedLength)
    fun d v => { d with encodedLength := some v },
  .value none "staging-dir" path? (·.directory) fun d v => { d with directory := some v },
  formatSwitch,
  .help .stage]

def querySwitches : List (Switch Draft) := [
  .flag (some 'p') "parameterized" (·.parameterized) fun d => { d with parameterized := true },
  verboseSwitch,
  .flag none "permissive" (·.permissive) fun d => { d with permissive := true },
  .help .query]

def versionSwitches : List (Switch Draft) := [verboseSwitch, .help .version]

def programSwitches : List (Switch Draft) :=
  [verboseSwitch, .help .program, ⟨some 'V', "version", .flag fun _ => .error .version⟩]

def unexpected (text : String) : Stop := .usage ("unexpected argument " ++ text)

/-- Takes the operand that names the file. -/
def takeFile (text : String) (d : Draft) : Except Stop Draft :=
  match d.file, path? text with
  | some _, _ => .error (unexpected text)
  | none, none => .error (.usage "the file must not be empty")
  | none, some path => .ok { d with file := some path }

def takeNothing (text : String) (_ : Draft) : Except Stop Draft := .error (unexpected text)

/-- Reads the arguments of a command that works on a file. -/
def readFileCommand (switches : List (Switch Draft)) (arguments : List String) :
    Except Stop (String × Draft) := do
  let d ← readArguments switches takeFile (.ready {}) arguments
  match d.file with
  | some file => return (file, d)
  | none => throw (.usage "a file is required")

def topic? : String → Option Topic
  | "order" => some .order
  | "stage" => some .stage
  | "query" => some .query
  | "version" => some .version
  | "help" => some .help
  | _ => none

/-- The help that is asked for by naming a topic. -/
def helpOn : List String → Stop
  | [] => .help .program
  | name :: rest =>
    match topic? name, rest with
    | some topic, [] => .help topic
    | some _, other :: _ => unexpected other
    | none, _ => unexpected name

/-- The command of some name with its arguments. -/
def ofNamed (name : String) (arguments : List String) : Except Stop Command :=
  match topic? name with
  | some .order => do
    let (file, d) ← readFileCommand orderSwitches arguments
    return .order file (.ofName (d.format.getD "text"))
  | some .stage => do
    let (file, d) ← readFileCommand stageSwitches arguments
    let options : StageOptions := {
      contentType := d.contentType.getD "application/octet-stream"
      encoding := d.encoding
      length := d.length
      encodedLength := d.encodedLength
      directory := d.directory }
    return .stage file options (.ofName (d.format.getD "text"))
  | some .query => do
    let (file, d) ← readFileCommand querySwitches arguments
    return .query file d.parameterized d.permissive
  | some .version => do
    let _ ← readArguments versionSwitches takeNothing (.ready {}) arguments
    return .version
  | some .help => .error (helpOn arguments)
  | _ => .error (unexpected name)

/-- The command that the program's arguments ask for, given what its options have said so far. -/
def ofArgumentsAfter (d : Draft) : List String → Except Stop Command
  | [] => .error (.usage "a command is required")
  | text :: rest => do
    let progress ←
      match Argument.ofText text with
      | .operand => return ← ofNamed text rest
      | .endOfOptions => throw (.usage "a command is required")
      | .long name value => readLong programSwitches name value d
      | .bundle letters => readBundle programSwitches d letters
    match progress with
    | .ready d => ofArgumentsAfter d rest
    | .pending .. => throw (.usage "a value is required")

def ofArguments (arguments : List String) : Except Stop Command := ofArgumentsAfter {} arguments

end Command

end Replica.CommandLine
