/-
Carrying out commands: what they print, what they leave in the file system, and how they fail.

A failure is a cause with the steps that it hindered, the outermost first.
-/
import BuildImport.CommandLine
import BuildImport.Config
import BuildImport.ActionGraph
import BuildImport.Digest.Md5
import BuildImport.ProjectCache
import BuildImport.Report
import BuildImport.Resolution
import BuildImport.Storage

namespace BuildImport.Session

open CommandLine

inductive Cause where
  | error (e : Error)
  | system (e : SystemError)
  deriving DecidableEq, Inhabited

namespace Cause

def message : Cause → String
  | error e => e.message
  | system e => e.message

end Cause

/-- a cause and the steps that it hindered -/
structure Failure where
  contexts : List String
  cause : Cause
  deriving DecidableEq, Inhabited

/-- what a command works with: the file system and the place for projects that the environment tells -/
structure World where
  files : FileTree
  cachePlace : Option String := none
  deriving Inhabited

/-- one more step that an error hindered -/
def within {α : Type} (context : String) : Except Error α → Except Failure α
  | .ok a => .ok a
  | .error e => .error ⟨[context], .error e⟩

/-- one more step that the system hindered -/
def withinSystem {α : Type} (context : String) : Except SystemError α → Except Failure α
  | .ok a => .ok a
  | .error e => .error ⟨[context], .system e⟩

/-- an error that hindered no step in particular -/
def plainly {α : Type} : Except Error α → Except Failure α
  | .ok a => .ok a
  | .error e => .error ⟨[], .error e⟩

/-- the workspace root, given or the current directory -/
def workspaceRoot (t : FileTree) (given : Option Path) : Except Failure Path :=
  let root := given.getD ⟨"/" ++ "/".intercalate t.current⟩
  withinSystem ("Workspace root " ++ root.text ++ " does not exist") (t.canonical root)

/-! ## Importing -/

/-- where the project of a workspace is stored -/
def storageFor (w : World) (root : Path) (config : Config) : Storage :=
  ⟨config.cachePath root w.cachePlace, Digest.Md5.ofText⟩

/-- projects resolved from files and stored in a file -/
def backend (r : Resolution) (s : Storage) : Backend FileTree Project where
  resolve stop t := (r.run t stop, t)
  load t := (s.load t, t)
  store p t :=
    let (t, done) := s.store t p
    (done, t)

/-- the project at hand or a new one, and the file system afterwards -/
def currentProject (b : Backend FileTree Project) (refresh : Bool) (t : FileTree) : Except Error Project × FileTree :=
  let cache : ProjectCache Unit Project := {}
  if refresh then
    let (r, _, t) := ProjectCache.refreshLocked b cache false t
    (r.answer, t)
  else
    let (r, _, t) := ProjectCache.get b cache false t
    (r, t)

/-- imports the project and prints it, whole or in short -/
def sync (w : World) (workspace : Option Path) (aspectOutput : Path) (execRoot : Option Path) (refresh json : Bool) :
    Except Failure (List String) × FileTree :=
  let prepared : Except Failure (Path × Config) := do
    let root ← workspaceRoot w.files workspace
    return (root, ← within "Failed to load configuration" (Config.loadFor w.files root))
  match prepared with
  | .error f => (.error f, w.files)
  | .ok (root, config) =>
    let resolution : Resolution := ⟨.directory aspectOutput, ⟨root, execRoot.getD root⟩, config⟩
    let (project, t) := currentProject (backend resolution (storageFor w root config)) refresh w.files
    (do
      let p ← within "Failed to resolve project" project
      return if json then [Encoded.pretty p] else Report.projectLines p, t)

/-! ## Asking -/

/-- the action graph in a file -/
def loadGraph (t : FileTree) (file : Path) : Except Failure ActionGraph := do
  let text ← withinSystem ("Failed to read " ++ file.text) (t.readText file)
  within ("Failed to parse " ++ file.text) ((Encoded.parse ActionGraph text).mapError .serialization)

/-- the input files of a target: addresses of those with the endings, or paths of those on its class path -/
def inputs (t : FileTree) (target : String) (file : Path) (endings : List String) (execRoot : Option Path) :
    Except Failure (List String) := do
  let g ← loadGraph t file
  match execRoot with
  | some root => return (← plainly (g.inputPaths target root)).map Path.text
  | none => plainly (g.inputs target endings)

/-- the output files of a target -/
def outputs (t : FileTree) (target : String) (file : Path) (endings : List String) : Except Failure (List String) := do
  plainly ((← loadGraph t file).outputs target endings)

/-- the configuration that counts -/
def showConfig (w : World) (workspace : Option Path) : Except Failure (List String) := do
  let root ← workspaceRoot w.files workspace
  let file := root.join ⟨Config.fileName⟩
  let config ← within "Failed to load configuration" (Config.loadFor w.files root)
  let origin :=
    if w.files.exists? file then file.text else "defaults (no " ++ Config.fileName ++ " found)"
  return ["📋 Config: " ++ origin, "💾 Cache: " ++ (config.cachePath root w.cachePlace).text, Encoded.pretty config]

/-- carries out a command: the lines that it prints, and the file system afterwards -/
def run (w : World) (i : Invocation) : Except Failure (List String) × FileTree :=
  match i.command with
  | .sync aspectOutput execRoot refresh json => sync w i.workspace aspectOutput execRoot refresh json
  | .inputs target file endings execRoot => (inputs w.files target file endings execRoot, w.files)
  | .outputs target file endings => (outputs w.files target file endings, w.files)
  | .showConfig => (showConfig w i.workspace, w.files)

end BuildImport.Session
