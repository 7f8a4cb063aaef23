/-
The command line: options, commands and their arguments.

Options are read from left to right. `--name value`, `--name=value`, `-n value`, `-nvalue` and `-n=value` say the same,
and short options without a value may stand together. The value of an option is looked at only when the next option or
argument comes, or at the end, so a fault further right may be told first. A command ends the options of the program and
starts its own; the workspace may be given among either, and the inner one counts. After `--` only arguments follow.
-/
import BuildImport.Path

namespace BuildImport.CommandLine

open Text

/-- why a command line is not carried out; the first three ask for a text to be shown -/
inductive Usage where
  | help
  | version
  /-- nothing was given at all -/
  | nothingGiven
  | missingCommand
  | unknownCommand
  | missingArgument
  | unknownArgument
  /-- a value that is missing, or empty where it must not be -/
  | badValue
  | unneededValue
  | repeatedOption
  deriving DecidableEq, Repr, Inhabited

/-- how the program ends: a text that was asked for is a success, all else is not -/
def Usage.exitCode : Usage → Nat
  | .help | .version => 0
  | _ => 2

/-- what an option takes: nothing, a path, which must not be empty, or any text, again and again -/
inductive Takes where
  | nothing
  | path
  | texts
  /-- nothing; it asks for a text at once -/
  | showing (usage : Usage)
  deriving DecidableEq, Repr, Inhabited

structure Opt where
  long : String
  short : Option Char := none
  takes : Takes := .nothing
  deriving DecidableEq, Repr, Inhabited

namespace Opt

def takesValue (o : Opt) : Bool :=
  match o.takes with
  | .path | .texts => true
  | _ => false

end Opt

/-- what may stand on one level of a command line -/
structure Grammar where
  options : List Opt
  /-- how many arguments -/
  arguments : Nat := 0
  commands : List String := []
  deriving Inhabited

/-- what was read on one level -/
structure Reading where
  /-- names of options and their values, in order -/
  values : List (String × String) := []
  arguments : List String := []
  /-- the last option with a value, and the value once it came -/
  pending : Option (Opt × Option String) := none
  deriving Inhabited

namespace Reading

def isGiven (r : Reading) (name : String) : Bool := r.values.any fun v => v.1 == name

def value? (r : Reading) (name : String) : Option String := r.values.lookup name

def allValues (r : Reading) (name : String) : List String := (r.values.filter fun v => v.1 == name).map (·.2)

/-- takes an option with its value for good -/
def accept (r : Reading) (o : Opt) (value : String) : Except Usage Reading :=
  if o.takes ≠ .texts ∧ r.isGiven o.long then .error .repeatedOption
  else if o.takes = .path ∧ value = "" then .error .badValue
  else .ok { r with values := r.values ++ [(o.long, value)] }

/-- looks at the option that waits -/
def settle (r : Reading) : Except Usage Reading :=
  match r.pending with
  | none => .ok r
  | some (_, none) => .error .badValue
  | some (o, some value) => accept { r with pending := none } o value

/-- an option without a value -/
def flag (r : Reading) (o : Opt) : Except Usage Reading := do
  let r ← r.settle
  match o.takes with
  | .showing usage => throw usage
  | _ => r.accept o ""

/-- an option whose value stands in the same piece -/
def attached (r : Reading) (o : Opt) (value : String) : Except Usage Reading := do
  (← r.settle).accept o value

/-- an option whose value is still to come -/
def await (r : Reading) (o : Opt) : Except Usage Reading := do
  return { ← r.settle with pending := some (o, none) }

/-- whether a value is still to come -/
def isWaiting (r : Reading) : Bool :=
  match r.pending with
  | some (_, none) => true
  | _ => false

end Reading

/-! ## Pieces -/

/-- a piece that starts with two dashes -/
def readLong (g : Grammar) (r : Reading) (piece : String) : Except Usage Reading :=
  let (name, value) :=
    match cutFirst '=' piece.toList with
    | some (name, value) => (String.ofList name, some (String.ofList value))
    | none => (piece, none)
  match g.options.find? fun o => o.long == name with
  | none => .error .unknownArgument
  | some o =>
    match o.takesValue, value with
    | true, some v => r.attached o v
    | true, none => r.await o
    | false, some _ => .error .unneededValue
    | false, none => r.flag o

/-- the letters of a piece that starts with one dash -/
def readShort (g : Grammar) (r : Reading) : List Char → Except Usage Reading
  | [] => .ok r
  | c :: cs =>
    match g.options.find? fun o => o.short == some c with
    | none => .error .unknownArgument
    | some o =>
      if o.takesValue then
        match cs with
        | [] => r.await o
        | '=' :: value => r.attached o (String.ofList value)
        | value => r.attached o (String.ofList value)
      else do readShort g (← r.flag o) cs

/-- a piece that is no option -/
def readArgument (g : Grammar) (r : Reading) (onlyArguments : Bool) (piece : String) : Except Usage Reading :=
  if r.arguments.length < g.arguments then do
    let r ← r.settle
    return { r with arguments := r.arguments ++ [piece] }
  else if g.commands.isEmpty || (onlyArguments && g.commands.contains piece) then .error .unknownArgument
  else .error .unknownCommand

/-- reads one level; it ends where a command starts, whose name and pieces are given back -/
def read (g : Grammar) (r : Reading) (onlyArguments : Bool) :
    List String → Except Usage (Reading × Option (String × List String))
  | [] => .ok (r, none)
  | piece :: rest =>
    if onlyArguments then do read g (← readArgument g r true piece) true rest
    else if !r.isWaiting && g.commands.contains piece then .ok (r, some (piece, rest))
    else if piece = "--" then read g r true rest
    else
      match dropPrefix? "--" piece, piece.toList with
      | some name, _ => do read g (← readLong g r name) false rest
      | none, '-' :: c :: cs => do read g (← readShort g r (c :: cs)) false rest
      | none, _ =>
        match r.pending with
        | some (o, none) => read g { r with pending := some (o, some piece) } false rest
        | _ => do read g (← readArgument g r false piece) false rest

/-! ## The program -/

/-- what to do -/
inductive Command where
  /-- import the project from the files in a directory -/
  | sync (aspectOutput : Path) (execRoot : Option Path) (refresh json : Bool)
  /-- list the input files of a target -/
  | inputs (target : String) (actionGraph : Path) (endings : List String) (execRoot : Option Path)
  /-- list the output files of a target -/
  | outputs (target : String) (actionGraph : Path) (endings : List String)
  | showConfig
  deriving DecidableEq, Repr, Inhabited

structure Invocation where
  workspace : Option Path
  command : Command
  deriving DecidableEq, Repr, Inhabited

def helpOption : Opt := { long := "help", short := some 'h', takes := .showing .help }

def workspaceOption : Opt := { long := "workspace", short := some 'w', takes := .path }

def graphOption : Opt := { long := "action-graph", short := some 'g', takes := .path }

def endingOption : Opt := { long := "suffix", short := some 's', takes := .texts }

def execRootOption : Opt := { long := "exec-root", takes := .path }

def aspectOption : Opt := { long := "aspect-output", short := some 'a', takes := .path }

def refreshOption : Opt := { long := "refresh", short := some 'r' }

def jsonOption : Opt := { long := "json" }

/-- the name of the command that shows a text about the others -/
def helpCommand : String := "help"

/-- the options and commands of the program -/
def program : Grammar where
  options := [workspaceOption, helpOption, { long := "version", short := some 'V', takes := .showing .version }]
  commands := ["sync", "inputs", "outputs", "show-config", helpCommand]

/-- the options and arguments of a command -/
def grammarOf (command : String) : Grammar :=
  match command with
  | "sync" => { options := [aspectOption, execRootOption, refreshOption, jsonOption, workspaceOption, helpOption] }
  | "inputs" =>
    { options := [graphOption, endingOption, execRootOption, workspaceOption, helpOption], arguments := 1 }
  | "outputs" => { options := [graphOption, endingOption, workspaceOption, helpOption], arguments := 1 }
  | _ => { options := [workspaceOption, helpOption] }

/-- the endings given, or the usual ones -/
def endingsOr (usual : List String) (r : Reading) : List String :=
  if r.isGiven endingOption.long then r.allValues endingOption.long else usual

def path? (r : Reading) (o : Opt) : Option Path := (r.value? o.long).map Path.mk

/-- the command that was read; what it needs must be there -/
def commandOf (command : String) (r : Reading) : Except Usage Command :=
  match command with
  | "sync" =>
    match path? r aspectOption with
    | some d => .ok (.sync d (path? r execRootOption) (r.isGiven refreshOption.long) (r.isGiven jsonOption.long))
    | none => .error .missingArgument
  | "inputs" =>
    match r.arguments, path? r graphOption with
    | target :: _, some g => .ok (.inputs target g (endingsOr [".jar", "js"] r) (path? r execRootOption))
    | _, _ => .error .missingArgument
  | "outputs" =>
    match r.arguments, path? r graphOption with
    | target :: _, some g => .ok (.outputs target g (endingsOr [".jar"] r))
    | _, _ => .error .missingArgument
  | _ => .ok .showConfig

/-- what is shown about commands: there must be at most one, and it must be known -/
def helpOn : List String → Usage
  | [] => .help
  | [command] => if program.commands.contains command then .help else .unknownCommand
  | _ => .unknownCommand

/-- what a command line says -/
def parse (pieces : List String) : Except Usage Invocation := do
  let (outer, found) ← read program {} false pieces
  match found with
  | none =>
    let outer ← outer.settle
    throw (if outer.values.isEmpty then .nothingGiven else .missingCommand)
  | some (name, rest) =>
    if name = helpCommand then throw (helpOn rest)
    let (inner, _) ← read (grammarOf name) {} false rest
    let inner ← inner.settle
    let command ← commandOf name inner
    let outer ← outer.settle
    return ⟨(path? inner workspaceOption).or (path? outer workspaceOption), command⟩

end BuildImport.CommandLine
