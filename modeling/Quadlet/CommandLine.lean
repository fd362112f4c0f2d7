import Quadlet.Report
/-!
# The command line — decode a stream, one line for each value

`[--tables DIR] [--format json|text] [--json-input] [FILE]`: the stream is that of a file, or else of the standard
input; the tables are those of a directory, or else the KERI v1 tables.  All work is a function from the arguments and
the contents of the files to what is printed.
-/
namespace Quadlet.CommandLine

/-! ## Arguments -/

structure Options where
  file : Option String := none
  tables : Option String := none
  format : Option Format := none
  json : Bool := false
deriving DecidableEq, Repr

/-- Starts like an option; a single dash does not. -/
def looksLikeOption (arg : String) : Bool := arg.startsWith "-" && arg != "-"

/-- One file may be named, by a name that is not empty. -/
def Options.withFile? (o : Options) (arg : String) : Option Options :=
  if o.file.isSome || arg.isEmpty then none else some { o with file := some arg }

def Options.withTables? (o : Options) (value : String) : Option Options :=
  if o.tables.isSome || value.isEmpty then none else some { o with tables := some value }

def Options.withFormat? (o : Options) (value : String) : Option Options :=
  if o.format.isSome then none else (Format.ofString? value).map (fun f => { o with format := some f })

def Options.withJson? (o : Options) : Option Options :=
  if o.json then none else some { o with json := true }

/-- An argument split at its first equals sign. -/
def splitValue (arg : String) : String × Option String :=
  match arg.toList.span (· != '=') with
  | (name, []) => (String.ofList name, none)
  | (name, _ :: value) => (String.ofList name, some (String.ofList value))

/-- One argument that needs no other: a file, the flag, or an option with its value behind an equals sign. -/
def single? (o : Options) (arg : String) : Option Options :=
  if looksLikeOption arg then
    match splitValue arg with
    | ("--json-input", none) => o.withJson?
    | ("--tables", some value) => o.withTables? value
    | ("--format", some value) => o.withFormat? value
    | _ => none
  else o.withFile? arg

/-- The options of the arguments behind those that gave `o`; none if the arguments are not understood.  The value of an
option may be the next argument, if that does not look like an option itself; `--` ends the options. -/
def parseFrom (o : Options) : List String → Option Options
  | [] => some o
  | "--" :: files => files.foldlM Options.withFile? o
  | [arg] => single? o arg
  | arg :: next :: rest =>
    if arg = "--tables" then
      if looksLikeOption next then none else (o.withTables? next).bind (parseFrom · rest)
    else if arg = "--format" then
      if looksLikeOption next then none else (o.withFormat? next).bind (parseFrom · rest)
    else (single? o arg).bind (parseFrom · (next :: rest))

def parse (args : List String) : Option Options := parseFrom {} args

/-! ## Tables from a directory -/

/-- A file of a directory. -/
def path (dir file : String) : String :=
  if dir.isEmpty || dir.endsWith "/" then dir ++ file else dir ++ "/" ++ file

/-- The text of a file. -/
def readText (files : String → Option Bytes) (path : String) : Except TableError String :=
  match (files path).bind (fun b => (Utf8.decode b).toOption) with
  | none => .error (.unreadable path)
  | some text => .ok text

/-- The registry of the three documents in a directory, under the name of the directory. -/
def registryOf (files : String → Option Bytes) (dir : String) : Except TableError Registry := do
  let sizes ← readText files (path dir "sizes.json")
  let codex ← readText files (path dir "codex.json")
  let counter ← readText files (path dir "counter.json")
  return (← Registry.ofJson sizes codex counter).named dir

/-- The registry of a directory if one is named, else that of KERI v1. -/
def loadRegistry (files : String → Option Bytes) (dir : Option String) : Except CommandError Registry :=
  match dir with
  | none => .ok .keriV1
  | some dir => (registryOf files dir).mapError (fun e => .refused (.table e))

/-! ## The command -/

/-- What the command prints, and how it ends. -/
structure Outcome where
  lines : List String
  result : Except CommandError Nat

/-- The files that the command may read. -/
def Options.paths (o : Options) : List String :=
  o.file.toList ++ (o.tables.map (fun dir => ["sizes.json", "codex.json", "counter.json"].map (path dir))).getD []

/-- The stream is read first, then the tables. -/
def load (o : Options) (stdin : Bytes) (files : String → Option Bytes) : Except CommandError (Input × Registry) := do
  let bytes ← match o.file with
    | none => .ok stdin
    | some file =>
      match files file with
      | none => .error .unreadable
      | some bytes => .ok bytes
  let input ← Input.read bytes o.json
  let registry ← loadRegistry files o.tables
  return (input, registry)

def execute (o : Options) (stdin : Bytes) (files : String → Option Bytes) : Outcome :=
  match load o stdin files with
  | .error e => ⟨[], .error e⟩
  | .ok (input, registry) =>
    let (lines, result) := Report.render input.toBytes registry (o.format.getD .json)
    ⟨lines, result⟩

namespace Outcome

def exitCode (o : Outcome) : Nat :=
  match o.result with
  | .ok _ => 0
  | .error _ => 1

/-- The text on the standard output: every line with its line break. -/
def output (o : Outcome) : String := String.join (o.lines.map (· ++ "\n"))

/-- The line on the standard error output; empty when the command succeeds. -/
def complaint (o : Outcome) : String :=
  match o.result with
  | .ok _ => ""
  | .error e =>
    match e.message? with
    | some message => "error: " ++ message
    | none => "error:"

end Outcome
end Quadlet.CommandLine
