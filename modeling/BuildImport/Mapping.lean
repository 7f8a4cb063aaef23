/-
From the target universe to the project.

Every root target with a record and a label of the main workspace becomes a module, in the order of the ids, unless it is
to be hidden. Then the modules of one directory may be merged, and placeholders are put where they are needed.

An import can be stopped. The wish to stop is looked at before each module, before merging and at the end; a plugin may
utter it while it makes a module.
-/
import BuildImport.Config
import BuildImport.Merging
import BuildImport.Placeholder
import BuildImport.Plugin
import BuildImport.Project

namespace BuildImport

/-- what an import goes by -/
structure Mapping where
  roots : Roots
  plugins : List Plugin := Plugin.standard
  table : LanguageTable := .standard
  merge : MergeConfig := {}
  placeholders : PlaceholderConfig := {}
  deriving Inhabited

namespace Mapping

def ofConfig (roots : Roots) (c : Config) : Mapping :=
  { roots, merge := c.merge, placeholders := c.placeholders }

/-- the mapping after its plugins had a look at the universe -/
def prepare (m : Mapping) (u : Universe) : Mapping := { m with plugins := m.plugins.map (Plugin.prepare u) }

/-! ## One module -/

/-- the rule whose sources always count as Scala -/
def scalaProgramRule : String := "scala_binary"

/-- the languages of a record, by its rule or by the names of its sources -/
def languagesOf (m : Mapping) (r : TargetRecord) : SortedSet Language :=
  if r.kind = scalaProgramRule then .singleton .scala
  else .ofList (r.sources.flatMap fun s => (m.table.languagesOf s.relativePath).toList)

def pluginFor (m : Mapping) (r : TargetRecord) : Plugin := Plugin.choose m.plugins (m.languagesOf r)

/-- source files with the roots of those that have one -/
def sourceSetOf (p : Plugin) (t : FileTree) (sources : SortedSet Path) : SourceSet :=
  ⟨sources, .ofList (sources.toList.filterMap (p.sourceRoot? t))⟩

/-- the module of a record; its label must name a package of the workspace -/
def createModule (m : Mapping) (t : FileTree) (u : Universe) (r : TargetRecord) : Except Error Module := do
  let base ← m.roots.directoryOf ⟨r.id⟩
  let plugin := m.pluginFor r
  return {
    label := ⟨r.id⟩
    dependencies := r.dependencies.map Label.mk
    languages := m.languagesOf r
    tags := Tag.ofRecord r
    baseDirectory := base
    sourceSet := sourceSetOf plugin t (.ofList (r.sources.map (m.roots.resolve t)))
    resources := .ofList (r.resources.map (m.roots.resolve t))
    dependencySources := plugin.dependencySources m.roots t u r
    payload := plugin.payload? m.roots t r }

/-! ## All modules -/

/-- the records of the roots, in the order of their ids -/
def selected (u : Universe) : List TargetRecord := u.recordsAt u.roots.toList

/-- the modules of records, and whether the wish to stop was uttered; records without a module are passed over -/
def createModules (m : Mapping) (t : FileTree) (u : Universe) (stop : Bool) :
    List TargetRecord → Except Error (List Module × Bool)
  | [] => .ok ([], stop)
  | r :: rest =>
    if stop then .error .cancelled
    else
      match m.createModule t u r with
      | .error _ => createModules m t u stop rest
      | .ok made => do
        let (ms, stop) ← createModules m t u ((m.pluginFor r).interrupts r) rest
        return (made :: ms, stop)

/-- fails if the import is to stop -/
def check (stop : Bool) : Except Error Unit := if stop then .error .cancelled else .ok ()

/-- the modules with those of one directory put together, if so configured -/
def mergeModules (m : Mapping) (stop : Bool) (ms : List Module) : Except Error (List Module) :=
  if m.merge.enabled then do
    check stop
    Merging.merge m.merge.ignoredRoots ms
  else .ok ms

/-- the placeholders, if so configured -/
def placeholdersFor (m : Mapping) (view : ProjectView) (ms : List Module) : List Module :=
  if m.placeholders.enabled then Placeholder.make m.roots.workspace ms view else []

/-- the project of a universe. `stop` says whether the import is to be stopped from the beginning. -/
def createProject (m : Mapping) (t : FileTree) (u : Universe) (view : ProjectView) (stop : Bool) :
    Except Error Project := do
  let m := m.prepare u
  check stop
  let (ms, stop) ← m.createModules t u stop (selected u)
  let ms ← m.mergeModules stop (ms.filter fun x => !x.hasTag .noIde)
  check stop
  return .ofModules m.roots.workspace (ms ++ m.placeholdersFor view ms)

end Mapping

end BuildImport
