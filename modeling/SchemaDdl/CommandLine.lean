import SchemaDdl.Check.Shape
import SchemaDdl.Ddl.Generate
import SchemaDdl.Document.Text
import SchemaDdl.Files
import SchemaDdl.Script.Resolve

/-!
# The command line

A run reads one file, which is a document if its extension says so and a script otherwise, and
prints or writes one text. Reading and writing are left to the caller.
-/

namespace SchemaDdl.CommandLine

inductive Command where
  | generate
  | parse
  | check
  deriving DecidableEq, Repr

def Command.ofName? (name : String) : Option Command :=
  if name == "generate" then some .generate
  else if name == "parse" then some .parse
  else if name == "check" then some .check
  else none

structure Flags where
  strict : Bool := false
  noImplicitId : Bool := false
  verbose : Bool := false
  output : Option String := none
  input : Option String := none
  deriving DecidableEq, Repr

structure Invocation where
  command : Command
  flags : Flags
  input : String
  deriving DecidableEq, Repr

/-- Sets a switch, which may be given once. -/
def setOnce (flag : Bool) (set : Flags) : Option Flags :=
  if flag then none else some set

/-- Sets a value, which may be given once and may not be empty. -/
def setValue (old : Option String) (new : String) (set : String → Flags) : Option Flags :=
  if old.isSome || new == "" then none else some (set new)

def withOutput (command : Command) (f : Flags) (path : String) : Option Flags :=
  if command == .check then none else setValue f.output path fun p => { f with output := some p }

def withInput (f : Flags) (path : String) : Option Flags :=
  setValue f.input path fun p => { f with input := some p }

def withVerbose (f : Flags) : Option Flags :=
  setOnce f.verbose { f with verbose := true }

/-- What an argument turns out to be. -/
inductive Argument where
  | flags (f : Flags)
  /-- The next argument is the output file. -/
  | outputFollows (f : Flags)

/-- A cluster of short options. The text behind `o` is the output file. -/
def shortOptions (command : Command) (f : Flags) : List Char → Option Argument
  | [] => some (.flags f)
  | 'v' :: cs => do shortOptions command (← withVerbose f) cs
  | ['o'] => some (.outputFollows f)
  | 'o' :: '=' :: cs => (withOutput command f (String.ofList cs)).map .flags
  | 'o' :: cs => (withOutput command f (String.ofList cs)).map .flags
  | _ => none

def longOption (command : Command) (f : Flags) (option : String) : Option Argument :=
  if option == "strict" then (setOnce f.strict { f with strict := true }).map .flags
  else if option == "no-implicit-id" then
    (setOnce f.noImplicitId { f with noImplicitId := true }).map .flags
  else if option == "verbose" then (withVerbose f).map .flags
  else if option == "output" then some (.outputFollows f)
  else if option.startsWith "output=" then
    (withOutput command f (String.ofList (option.toList.drop 7))).map .flags
  else none

def argument (command : Command) (f : Flags) (arg : String) : Option Argument :=
  match arg.toList with
  | '-' :: '-' :: option => longOption command f (String.ofList option)
  | '-' :: c :: cs => shortOptions command f (c :: cs)
  | _ => (withInput f arg).map .flags

/-- Reads the arguments behind the command. -/
def arguments (command : Command) (f : Flags) : List String → Option Flags
  | [] => some f
  | "--" :: args => args.foldlM withInput f
  | [arg] => do
    match ← argument command f arg with
    | .flags f => some f
    | .outputFollows _ => none
  | arg :: next :: args => do
    match ← argument command f arg with
    | .flags f => arguments command f (next :: args)
    | .outputFollows f =>
      if next != "-" && next.startsWith "-" then none
      else arguments command (← withOutput command f next) args

/-- Reads a whole command line. The switch for verbose runs may also stand before the command. -/
def invocation? : List String → Option Invocation
  | [] => none
  | arg :: args =>
    if arg == "-v" || arg == "--verbose" then
      match args with
      | [] => none
      | name :: args => (commandWith name args).map fun inv =>
        { inv with flags := { inv.flags with verbose := true } }
    else commandWith arg args
where
  commandWith (name : String) (args : List String) : Option Invocation := do
    let command ← Command.ofName? name
    let flags ← arguments command {} args
    return { command, flags, input := ← flags.input }

/-- The parts of a path, without those that lead nowhere. -/
def pathParts (path : String) : List String :=
  (Location.parts path).filter fun part => part != "" && part != "."

/-- The text behind the last point of the last part, if there is something before the point. -/
def extension? (path : String) : Option String := do
  let last ← (pathParts path).getLast?
  if last == ".." then none
  else
    let cs := last.toList.reverse
    let stem := (cs.dropWhile (· != '.')).drop 1
    if stem.isEmpty then none else some (String.ofList (cs.takeWhile (· != '.')).reverse)

def isDocument (path : String) : Bool :=
  extension? path == some "pgjson" || extension? path == some "json"

/-- One link in the chain of what went wrong, the outermost first. -/
inductive Cause where
  | read (path : String)
  | load (path : String)
  | parse (path : String)
  | write (path : String)
  | system (message : String)
  | inputOutput (message : String)
  | script (e : Script.ParseError)
  | document (e : DocumentError)
  | json
  | issues (errors warnings : Nat)

def Cause.message : Cause → String
  | .read path => s!"Failed to read {path}"
  | .load path => s!"Failed to load {path}"
  | .parse path => s!"Failed to parse {path}"
  | .write path => s!"Failed to write {path}"
  | .system message => message
  | .inputOutput message => s!"I/O error: {message}"
  | .script e => e.message
  | .document e => e.message
  | .json => "the text is not JSON of the expected form"
  | .issues errors warnings => s!"{errors} error(s), {warnings} warning(s)"

def documentCauses : DocumentError → List Cause
  | .invalid => [.document .invalid, .json]
  | e => [.document e]

structure Outcome where
  stdout : String := ""
  /-- A file to write, and its text. -/
  file : Option (String × String) := none
  causes : List Cause := []

namespace Outcome

def exitCode (o : Outcome) : Nat :=
  if o.causes.isEmpty then 0 else 1

def failed (causes : List Cause) : Outcome where
  causes

/-- What becomes of an outcome whose file cannot be written. -/
def writeFailed (path message : String) : Outcome :=
  failed [.write path, .system message]

end Outcome

namespace Invocation

def options (inv : Invocation) : Script.Options where
  strict := inv.flags.strict
  inferId := !inv.flags.noImplicitId

/-- The model in the input file, which holds `text` or could not be read. -/
def load (ids : Ids) (inv : Invocation) (text : Except String String) :
    Except (List Cause) Model :=
  if isDocument inv.input then
    match text with
    | .error message => .error [.load inv.input, .inputOutput message, .system message]
    | .ok text =>
      (Model.ofDocument text).mapError fun e => .load inv.input :: documentCauses e
  else
    match text with
    | .error message => .error [.read inv.input, .system message]
    | .ok text =>
      (Script.parse ids inv.options text).mapError fun e => [.parse inv.input, .script e]

/-- A text goes to the output file, or else to the standard output with a line break. -/
def emit (inv : Invocation) (text : String) : Outcome :=
  match inv.flags.output with
  | some path => { file := some (path, text) }
  | none => { stdout := text ++ "\n" }

/-- The issues of the input file. -/
def issues (ids : Ids) (inv : Invocation) (text : Except String String) :
    Except (List Cause) (List Check.Issue) :=
  if isDocument inv.input then
    match text with
    | .error message => .error [.read inv.input, .system message]
    | .ok text =>
      match Json.parseCanonical? text with
      | some j => .ok (Check.validateDocument j)
      | none => .error [.parse inv.input, .json]
  else (inv.load ids text).map Check.validate

/-- One issue on each line. Any error makes the run fail. -/
def report (issues : List Check.Issue) : Outcome :=
  let errors := issues.countP Check.Issue.isError
  { stdout := String.join (issues.map fun i => i.text ++ "\n")
    causes := if errors == 0 then [] else [.issues errors (issues.length - errors)] }

def run (ids : Ids) (inv : Invocation) (text : Except String String) : Outcome :=
  let outcome : Except (List Cause) Outcome :=
    match inv.command with
    | .generate => (inv.load ids text).map fun m => inv.emit (Ddl.generate m)
    | .parse => (inv.load ids text).map fun m => inv.emit m.toDocument
    | .check => (inv.issues ids text).map report
  match outcome with
  | .ok o => o
  | .error causes => .failed causes

end Invocation

/-- Runs a command line among files, up to the writing. None if the command line is wrong. -/
def runAmong (ids : Ids) (files : Files) (args : List String) : Option Outcome := do
  let inv ← invocation? args
  let outcome := inv.run ids ((files.read inv.input).mapError FileError.message)
  match outcome.file with
  | none => outcome
  | some (path, _) =>
    match files.target path with
    | .ok _ => outcome
    | .error e => some (.writeFailed path e.message)

end SchemaDdl.CommandLine
