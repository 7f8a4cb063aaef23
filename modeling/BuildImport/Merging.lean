/-
Merging: the modules of one directory become one module.

Build packages define a library, its tests and generated variants side by side; an editor that knows one unit per
directory gets one module for all of them. The merged module owns what its members own, and every dependency on a member
becomes a dependency on it. Directories are compared as paths; the modules come in the order in which their directories
first appear.

Payloads of two members can be put together only if one of them is for Scala, which then stays.
-/
import BuildImport.Error
import BuildImport.Module

namespace BuildImport.Merging

open Text

/-! ## Groups -/

/-- the base directories in order of first appearance, each once -/
def directories (ms : List Module) : List Path := (ms.map (·.baseDirectory)).eraseDupsBy Path.same

/-- the modules of one directory -/
def inDirectory (ms : List Module) (d : Path) : List Module := ms.filter fun m => m.baseDirectory.same d

/-- the modules by directory -/
def groups (ms : List Module) : List (List Module) := (directories ms).map (inDirectory ms)

/-! ## Parts of a merged module -/

/-- target name of a merged module -/
def mergedName : String := "bridge-merged"

/-- what stays of two payloads, in the order of their modules -/
def mergeTwo : Payload → Payload → Except Error Payload
  | .scala left, _ => .ok (.scala left)
  | .java _, .scala right => .ok (.scala right)
  | .java _, .java _ => .error (.mergeUnsupported .java .java)

/-- what stays of payloads -/
def mergePayloads : List Payload → Except Error (Option Payload)
  | [] => .ok none
  | first :: rest => do return some (← rest.foldlM mergeTwo first)

/-- whether a source root ends in an ignored one, slashes at the ends aside -/
def isIgnored (ignored : List String) (root : Path) : Bool :=
  ignored.any fun i => trimEnd '/' i != "" && endsWith (trimEnd '/' i) (trimEnd '/' root.text)

/-- the sources of several modules; none if a source root of theirs is ignored -/
def mergeSources (ignored : List String) (ms : List Module) : SourceSet :=
  let roots := SortedSet.ofList (ms.flatMap (·.sourceSet.roots.toList))
  if roots.toList.any (isIgnored ignored) then {}
  else ⟨.ofList (ms.flatMap (·.sourceSet.sources.toList)), roots⟩

/-- one module for all of a directory; the first of them gives the directory and the package of the label -/
def mergeMany (ignored : List String) (head : Module) (rest : List Module) : Except Error Module := do
  let ms := head :: rest
  let payload ← mergePayloads (ms.filterMap (·.payload))
  return {
    label := head.label.withName mergedName
    isSynthetic := ms.all (·.isSynthetic)
    dependencies := (ms.flatMap (·.dependencies)).eraseDups
    languages := .ofList (ms.flatMap (·.languages.toList))
    tags := .ofList (ms.flatMap (·.tags.toList))
    baseDirectory := head.baseDirectory
    sourceSet := mergeSources ignored ms
    resources := .ofList (ms.flatMap (·.resources.toList))
    dependencySources := .ofList (ms.flatMap (·.dependencySources.toList))
    payload }

/-- the module for a group; one that is alone stays as it is -/
def mergeGroup (ignored : List String) : List Module → Except Error (Option Module)
  | [] => .ok none
  | [m] => .ok (some m)
  | m :: rest => do return some (← mergeMany ignored m rest)

/-! ## New names -/

/-- the old and the new labels of a group -/
def renamings : List Module → List (Label × Label)
  | [] => []
  | [_] => []
  | head :: rest => (head :: rest).map fun m => (m.label, head.label.withName mergedName)

/-- the label that stands for `l` after merging; of two renamings of one label the later counts -/
def rename (table : List (Label × Label)) (l : Label) : Label := (table.reverse.lookup l).getD l

/-- redirects dependencies, and drops those on the module itself and repeated ones -/
def redirect (table : List (Label × Label)) (m : Module) : Module :=
  { m with dependencies := ((m.dependencies.map (rename table)).filter (· ≠ m.label)).eraseDups }

/-- merges the modules of each directory -/
def merge (ignored : List String) (ms : List Module) : Except Error (List Module) := do
  let merged ← (groups ms).mapM (mergeGroup ignored)
  return (merged.filterMap id).map (redirect ((groups ms).flatMap renamings))

end BuildImport.Merging
