/-
A whole import: the records are fetched for the view of the configuration and mapped to a project.

Records come from a source, which is asked once and may find the import stopped meanwhile.
-/
import BuildImport.AspectOutput
import BuildImport.Mapping

namespace BuildImport

/-- where records come from: given the view and whether the import is to stop, what was fetched and whether the import
is to stop now -/
abbrev TargetSource := FileTree → ProjectView → Bool → Except Error Universe × Bool

namespace TargetSource

/-- the files in a directory -/
def directory (d : Path) : TargetSource := fun t view stop => (AspectOutput.fetch t d view stop, stop)

end TargetSource

/-- what a project is resolved from -/
structure Resolution where
  source : TargetSource
  roots : Roots
  config : Config

namespace Resolution

/-- the project, and whether the import is to stop now -/
def run (r : Resolution) (t : FileTree) (stop : Bool) : Except Error Project × Bool :=
  match r.source t r.config.targets stop with
  | (.error e, stop) => (.error e, stop)
  | (.ok u, stop) =>
    if stop then (.error .cancelled, stop)
    else ((Mapping.ofConfig r.roots r.config).createProject t u r.config.targets stop, stop)

end Resolution

end BuildImport
