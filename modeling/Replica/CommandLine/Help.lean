import Replica.CommandLine.Arguments

/-!
# Help

A page says what a command is for and how it is asked for, and lists commands, operands and options
with what they mean. Meanings stand in a column behind the terms; if one of a section would not fit
into a line of a hundred characters, all of that section stand on lines of their own.
-/
namespace Replica.CommandLine

def programName : String := "docsync"

/-- A term of a help page and what it means. -/
structure HelpEntry where
  term : String
  meaning : String

structure HelpSection where
  heading : String
  entries : List HelpEntry

structure HelpPage where
  subject : String
  usage : String
  sections : List HelpSection

def alignLeft (width : Nat) (s : String) : String :=
  s ++ String.ofList (List.replicate (width - s.length) ' ')

def alignRight (width : Nat) (s : String) : String :=
  String.ofList (List.replicate (width - s.length) ' ') ++ s

namespace HelpSection

/-- The width of the longest term. -/
def width (s : HelpSection) : Nat := s.entries.foldl (fun w e => max w e.term.length) 0

/-- Do the meanings stand on lines of their own? -/
def isStacked (s : HelpSection) : Bool :=
  s.entries.any fun e => 100 < s.width + e.meaning.length + 4

/-- A line or two for an entry. -/
def entryText (s : HelpSection) (e : HelpEntry) : String :=
  if s.isStacked then "  " ++ e.term ++ "\n          " ++ e.meaning ++ "\n"
  else "  " ++ alignLeft s.width e.term ++ "  " ++ e.meaning ++ "\n"

def text (s : HelpSection) : String :=
  "\n" ++ s.heading ++ ":\n" ++ String.join (s.entries.map s.entryText)

end HelpSection

def HelpPage.text (p : HelpPage) : String :=
  p.subject ++ "\n\nUsage: " ++ programName ++ " " ++ p.usage ++ "\n" ++
    String.join (p.sections.map HelpSection.text)

namespace Topic

/-- What a command is for. -/
def subject : Topic → String
  | .program => programName ++ " command-line tools"
  | .order => "Print the insertion order of revision history fragments"
  | .stage => "Stage a file as an attachment and verify its length"
  | .query => "Compile index criteria into a query"
  | .version => "Show version information"
  | .help => "Print this message or the help of the given subcommand(s)"

end Topic

namespace HelpEntry

def verbose : HelpEntry := ⟨"-v, --verbose", "Enable verbose output"⟩

def help : HelpEntry := ⟨"-h, --help", "Print help"⟩

def version : HelpEntry := ⟨"-V, --version", "Print version"⟩

def format : HelpEntry := ⟨"-f, --format <FORMAT>", "Output format (text, json) [default: text]"⟩

def command (name : String) (topic : Topic) : HelpEntry := ⟨name, topic.subject⟩

end HelpEntry

namespace HelpSection

def commands : HelpSection :=
  ⟨"Commands", [.command "order" .order, .command "stage" .stage, .command "query" .query,
    .command "version" .version, .command "help" .help]⟩

def operand (term meaning : String) : HelpSection := ⟨"Arguments", [⟨term, meaning⟩]⟩

def options (entries : List HelpEntry) : HelpSection := ⟨"Options", entries⟩

def stageOptions : HelpSection := options [
  ⟨"    --content-type <CONTENT_TYPE>",
    "Declared content type [default: application/octet-stream]"⟩,
  .verbose,
  ⟨"    --encoding <ENCODING>", "Declared encoding (identity, gzip)"⟩,
  ⟨"    --length <LENGTH>", "Declared decoded length (defaults to the file size)"⟩,
  ⟨"    --encoded-length <ENCODED_LENGTH>",
    "Declared encoded length (defaults to the decoded length)"⟩,
  ⟨"    --staging-dir <STAGING_DIR>",
    "Directory for temporary staging files (defaults to the OS temp dir)"⟩,
  .format,
  .help]

def queryOptions : HelpSection := options [
  ⟨"-p, --parameterized", "Emit \x60?\x60 placeholders and the values to bind"⟩,
  .verbose,
  ⟨"    --permissive", "Drop unsupported membership values instead of failing"⟩,
  .help]

end HelpSection

namespace Topic

/-- How a command is asked for, behind the name of the program. -/
def usage : Topic → String
  | .program => "[OPTIONS] <COMMAND>"
  | .order => "order [OPTIONS] <FILE>"
  | .stage => "stage [OPTIONS] <FILE>"
  | .query => "query [OPTIONS] <FILE>"
  | .version => "version [OPTIONS]"
  | .help => "help [COMMAND]..."

def sections : Topic → List HelpSection
  | .program => [.commands, .options [.verbose, .help, .version]]
  | .order => [
      .operand "<FILE>" "JSON file holding an array of fragments in replication wire form",
      .options [.format, .verbose, .help]]
  | .stage => [.operand "<FILE>" "File holding the attachment bytes", .stageOptions]
  | .query => [.operand "<FILE>" "JSON file holding an array of criteria", .queryOptions]
  | .version => [.options [.verbose, .help]]
  | .help => [.operand "[COMMAND]..." "Print help for the subcommand(s)"]

def page (t : Topic) : HelpPage := ⟨t.subject, t.usage, t.sections⟩

end Topic

end Replica.CommandLine
