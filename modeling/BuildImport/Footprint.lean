/-
What a command looks at: the files whose content, or absence, its outcome may depend on.

They are told from the file system as far as it is known. The configuration tells where the project is stored, and the
records tell the source files; so a footprint taken once more, after the files of the last one were looked up, may name
more. After `rounds` times it names all.
-/
import BuildImport.Session

namespace BuildImport

structure Footprint where
  /-- files and directories that are looked up by name -/
  paths : List Path := []
  /-- directories in which files with records are searched -/
  searched : List Path := []
  deriving DecidableEq, Inhabited

namespace Footprint

open CommandLine

/-- how often a footprint has to be taken: for the workspace root, the configuration with all that the command line
names, and the records -/
def rounds : Nat := 3

/-- the sources of the targets that become modules -/
def sources (t : FileTree) (directory : Path) (roots : Roots) (config : Config) : List Path :=
  match AspectOutput.fetch t directory config.targets false with
  | .error _ => []
  | .ok u => (Mapping.selected u).flatMap fun r => r.sources.map (roots.resolve t)

/-- what the configuration of a workspace is read from, and the rest of what a command with it looks at -/
def ofWorkspace (w : Session.World) (given : Option Path) (rest : Path → Config → Footprint) : Footprint :=
  match Session.workspaceRoot w.files given with
  | .error _ => { paths := [given.getD ⟨"."⟩] }
  | .ok root =>
    let further := match Config.loadFor w.files root with
      | .error _ => ({} : Footprint)
      | .ok config => rest root config
    { further with paths := root.join ⟨Config.fileName⟩ :: further.paths }

def of (w : Session.World) (i : Invocation) : Footprint :=
  match i.command with
  | .inputs _ file _ _ | .outputs _ file _ => { paths := [file] }
  | .showConfig => ofWorkspace w i.workspace fun _ _ => ({} : Footprint)
  | .sync directory execRoot _ _ => ofWorkspace w i.workspace fun root config =>
    let storage := Session.storageFor w root config
    { paths := [storage.path, storage.draft] ++ sources w.files directory ⟨root, execRoot.getD root⟩ config
      searched := [directory] }

end Footprint

end BuildImport
