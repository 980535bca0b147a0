/-!
# Reading arguments

Arguments are read from left to right, and the first one that cannot stand where it stands ends the
reading; so does a request for help. An argument of two dashes and a name is a long option, one of a
dash and letters a bundle of short ones. A dash alone is an operand, and so is everything behind an
argument of two dashes.

A value follows its option in the same argument, behind a long option's equals sign or a short
option's letter, or else it is the next argument, which then must not look like an option.
-/
namespace Replica.CommandLine

inductive Topic where
  | program
  | order
  | stage
  | query
  | version
  | help
  deriving DecidableEq

/-- Why arguments do not say what to run. -/
inductive Stop where
  | help (topic : Topic)
  | version
  | usage (reason : String)
  deriving DecidableEq

inductive Argument where
  | endOfOptions
  | long (name : List Char) (value : Option (List Char))
  | bundle (letters : List Char)
  | operand
  deriving DecidableEq

namespace Argument

/-- A long option: its name up to the first equals sign, and the value behind it. -/
def ofLong (text : List Char) : Argument :=
  match text.dropWhile (· != '=') with
  | [] => .long text none
  | _ :: value => .long (text.takeWhile (· != '=')) (some value)

/-- How an argument reads before the end of options. -/
def ofText (text : String) : Argument :=
  match text.toList with
  | ['-', '-'] => .endOfOptions
  | '-' :: '-' :: rest => ofLong rest
  | '-' :: c :: rest => .bundle (c :: rest)
  | _ => .operand

end Argument

/-- What an option does to what has been read. -/
inductive Effect (σ : Type) where
  | flag (set : σ → Except Stop σ)
  | value (set : String → σ → Except Stop σ)

/-- An option: what it is called, and what it does. -/
structure Switch (σ : Type) where
  letter : Option Char
  name : String
  effect : Effect σ

namespace Switch

variable {σ α : Type}

def repeated (name : String) : Stop := .usage ("--" ++ name ++ " cannot be used multiple times")

/-- A flag that may occur once. -/
def flag (letter : Option Char) (name : String) (isSet : σ → Bool) (set : σ → σ) : Switch σ where
  letter := letter
  name := name
  effect := .flag fun s => if isSet s then .error (repeated name) else .ok (set s)

/-- An option that may occur once, with a value that has to be readable. -/
def value (letter : Option Char) (name : String) (read : String → Option α) (get : σ → Option α)
    (set : σ → α → σ) : Switch σ where
  letter := letter
  name := name
  effect := .value fun text s =>
    if (get s).isSome then .error (repeated name)
    else
      match read text with
      | some a => .ok (set s a)
      | none => .error (.usage ("invalid value for --" ++ name))

def help (topic : Topic) : Switch σ := ⟨some 'h', "help", .flag fun _ => .error (.help topic)⟩

end Switch

/-- What an argument leaves behind: what has been read so far, and perhaps an option that still
needs its value. -/
inductive Progress (σ : Type) where
  | ready (s : σ)
  | pending (set : String → σ → Except Stop σ) (s : σ)

variable {σ : Type}

def readLong (switches : List (Switch σ)) (name : List Char) (value : Option (List Char)) (s : σ) :
    Except Stop (Progress σ) :=
  match switches.find? (·.name.toList == name) with
  | none => .error (.usage ("unexpected argument --" ++ String.ofList name))
  | some switch =>
    match switch.effect, value with
    | .flag set, none => (set s).map .ready
    | .flag _, some _ => .error (.usage ("--" ++ switch.name ++ " takes no value"))
    | .value set, none => .ok (.pending set s)
    | .value set, some text => (set (String.ofList text) s).map .ready

/-- Reads a bundle of short options. The first one that takes a value takes the rest of the bundle,
without an equals sign in front. -/
def readBundle (switches : List (Switch σ)) (s : σ) : List Char → Except Stop (Progress σ)
  | [] => .ok (.ready s)
  | letter :: rest =>
    match switches.find? (·.letter == some letter) with
    | none => .error (.usage ("unexpected argument -" ++ letter.toString))
    | some switch =>
      match switch.effect with
      | .flag set =>
        match set s with
        | .error stop => .error stop
        | .ok s => readBundle switches s rest
      | .value set =>
        match rest with
        | [] => .ok (.pending set s)
        | '=' :: text => (set (String.ofList text) s).map .ready
        | text => (set (String.ofList text) s).map .ready

def readOperands (operand : String → σ → Except Stop σ) (s : σ) : List String → Except Stop σ
  | [] => .ok s
  | text :: rest =>
    match operand text s with
    | .error stop => .error stop
    | .ok s => readOperands operand s rest

def readArguments (switches : List (Switch σ)) (operand : String → σ → Except Stop σ) :
    Progress σ → List String → Except Stop σ
  | .ready s, [] => .ok s
  | .pending .., [] => .error (.usage "a value is required")
  | .pending set s, text :: rest =>
    if Argument.ofText text = .operand then
      match set text s with
      | .error stop => .error stop
      | .ok s => readArguments switches operand (.ready s) rest
    else .error (.usage "a value is required")
  | .ready s, text :: rest =>
    let progress :=
      match Argument.ofText text with
      | .endOfOptions => none
      | .long name value => some (readLong switches name value s)
      | .bundle letters => some (readBundle switches s letters)
      | .operand => some ((operand text s).map .ready)
    match progress with
    | none => readOperands operand s rest
    | some (.error stop) => .error stop
    | some (.ok progress) => readArguments switches operand progress rest

end Replica.CommandLine
