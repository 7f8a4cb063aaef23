/-
The action graph of a build, and the files that the actions of one target take and make.

Files are named three times over. An action lists sets of input files; a set lists artifacts and further sets, which may
refer to each other in circles; an artifact has a path of its own or ends a chain of path fragments. References may
dangle. Where an id is defined more than once the last definition counts.
-/
import BuildImport.Error
import BuildImport.Search
import BuildImport.SortedSet

namespace BuildImport

open Std Text

namespace ActionGraph

/-- a file that actions take or make -/
structure Artifact where
  id : Nat := 0
  fragmentId : Option Nat := none
  execPath : Option String := none
  deriving DecidableEq, Repr, Inhabited

structure Action where
  targetId : Nat := 0
  mnemonic : String := ""
  arguments : List String := []
  inputSets : List Nat := []
  outputs : List Nat := []
  deriving DecidableEq, Repr, Inhabited

structure Target where
  id : Nat := 0
  label : String := ""
  deriving DecidableEq, Repr, Inhabited

/-- a set of files: artifacts of its own and all those of other sets -/
structure FileSet where
  id : Nat := 0
  artifacts : List Nat := []
  sets : List Nat := []
  deriving DecidableEq, Repr, Inhabited

/-- one name of a path; the parent of an outermost one is 0 -/
structure Fragment where
  id : Nat := 0
  label : String := ""
  parentId : Nat := 0
  deriving DecidableEq, Repr, Inhabited

end ActionGraph

open ActionGraph

structure ActionGraph where
  artifacts : List Artifact := []
  actions : List Action := []
  targets : List Target := []
  fileSets : List FileSet := []
  fragments : List Fragment := []
  deriving DecidableEq, Repr, Inhabited

namespace ActionGraph

/-! ## Definitions by id -/

def artifact? (g : ActionGraph) (id : Nat) : Option Artifact := g.artifacts.reverse.find? fun a => a.id == id

def fileSet? (g : ActionGraph) (id : Nat) : Option FileSet := g.fileSets.reverse.find? fun s => s.id == id

def fragment? (g : ActionGraph) (id : Nat) : Option Fragment := g.fragments.reverse.find? fun f => f.id == id

/-! ## Paths of artifacts -/

/-- where the way from a fragment through its parents leads: out to 0, with the names on it from the outermost one down,
or to an id that no fragment has, or round in a circle -/
inductive Way
  | outside (names : List String)
  | undefined (id : Nat)
  | circle
  deriving DecidableEq, Repr

/-- the ids that fragments have -/
def fragmentIds (g : ActionGraph) : SortedSet Nat := .ofList (g.fragments.map (·.id))

/-- Goes on from `id` after `names`, the last of which comes first. More names than `bound`, the number of fragments, are
met in a circle only. -/
def climb (g : ActionGraph) (bound id : Nat) (names : List String) : Way :=
  if id = 0 then .outside names
  else if bound < names.length then .circle
  else
    match g.fragment? id with
    | none => .undefined id
    | some f => g.climb bound f.parentId (f.label :: names)
  termination_by bound + 1 - names.length

/-- the way from a fragment; of several fragments with one id the last is on it, and they count once -/
def way (g : ActionGraph) (id : Nat) : Way := g.climb g.fragmentIds.size id []

/-- the path that ends in a fragment -/
def fragmentPath? (g : ActionGraph) (id : Nat) : Option String :=
  match g.way id with
  | .outside names => some ("/".intercalate names)
  | .undefined _ | .circle => none

/-- the path of an artifact below the execution root -/
def path? (g : ActionGraph) (id : Nat) : Option String := do
  let a ← g.artifact? id
  match a.execPath, a.fragmentId with
  | some path, _ => some path
  | none, some f => g.fragmentPath? f
  | none, none => none

/-! ## Targets and their actions -/

/-- the id of the first target with the label -/
def targetId (g : ActionGraph) (label : String) : Except Error Nat :=
  match g.targets.find? fun t => t.label == label with
  | some t => .ok t.id
  | none => .error (.targetNotFound label (g.targets.map (·.label)))

def actionsOf (g : ActionGraph) (label : String) : Except Error (List Action) := do
  let id ← g.targetId label
  return g.actions.filter fun a => a.targetId == id

/-! ## Files -/

/-- the sets that a set refers to -/
def subsets (g : ActionGraph) (id : Nat) : List Nat := ((g.fileSet? id).map (·.sets)).getD []

/-- the artifacts that a set lists itself -/
def members (g : ActionGraph) (id : Nat) : List Nat := ((g.fileSet? id).map (·.artifacts)).getD []

/-- all artifacts in the given sets and in the sets that can be reached from them -/
def expand (g : ActionGraph) (ids : List Nat) : SortedSet Nat :=
  .ofList ((Search.reached g.subsets (g.fileSets.map (·.id)) ids).flatMap g.members)

/-- what stands before a path below the execution root -/
def scheme : String := "exec-root://"

def hasEnding (endings : List String) (s : String) : Bool := endings.any fun e => endsWith e s

/-- the input files of a target with one of the endings, as sorted addresses -/
def inputs (g : ActionGraph) (label : String) (endings : List String) : Except Error (List String) := do
  let sets := (← g.actionsOf label).flatMap (·.inputSets)
  let paths := (g.expand sets).toList.filterMap g.path?
  let found := (paths.map (scheme ++ ·)).filter (hasEnding endings)
  return (SortedSet.ofList found).toList

/-- the output files of a target with one of the endings, in the order of its actions -/
def outputs (g : ActionGraph) (label : String) (endings : List String) : Except Error (List String) := do
  let ids := (← g.actionsOf label).flatMap (·.outputs)
  return (ids.filterMap g.path?).filter (hasEnding endings)

/-- endings of the files that belong on a class path -/
def classpathEndings : List String := [".jar", "js"]

/-- the class path inputs of a target as paths below `execRoot` -/
def inputPaths (g : ActionGraph) (label : String) (execRoot : Path) : Except Error (List Path) := do
  return (← g.inputs label classpathEndings).map fun uri => execRoot.join ⟨dropPrefixes scheme uri⟩

/-! ## Written form -/

open RecordField Datum

/-- ids have thirty-two bits -/
def idSchema : Schema := .count 4294967295

def idsDatum (ids : List Nat) : Datum := .list (ids.map .count)

instance : Encoded Artifact where
  schema := .record
    [defaulted "id" idSchema (.count 0), ("pathFragmentId", .omitted, .default .none, idSchema),
     ("execPath", .omitted, .default .none, .text)]
  toDatum a := .record [.count a.id, (a.fragmentId.map Datum.count).getD .none, ofText? a.execPath]
  ofDatum?
    | .record [.count id, fragment, path] => do
      return ⟨id, ← asOption? asCount? fragment, ← asOption? asText? path⟩
    | _ => none

instance : Encoded Action where
  schema := .record
    [defaulted "targetId" idSchema (.count 0), defaulted "mnemonic" .text (.text ""),
     defaulted "arguments" (.list .text) (.list []), defaulted "inputDepSetIds" (.list idSchema) (.list []),
     defaulted "outputIds" (.list idSchema) (.list [])]
  toDatum a := .record
    [.count a.targetId, .text a.mnemonic, texts a.arguments, idsDatum a.inputSets, idsDatum a.outputs]
  ofDatum?
    | .record [.count id, .text mnemonic, arguments, inputs, outputs] => do
      return ⟨id, mnemonic, ← asTexts? arguments, ← asList? asCount? inputs, ← asList? asCount? outputs⟩
    | _ => none

instance : Encoded Target where
  schema := .record [defaulted "id" idSchema (.count 0), defaulted "label" .text (.text "")]
  toDatum t := .record [.count t.id, .text t.label]
  ofDatum?
    | .record [.count id, .text label] => some ⟨id, label⟩
    | _ => none

instance : Encoded FileSet where
  schema := .record
    [defaulted "id" idSchema (.count 0), defaulted "directArtifactIds" (.list idSchema) (.list []),
     defaulted "transitiveDepSetIds" (.list idSchema) (.list [])]
  toDatum s := .record [.count s.id, idsDatum s.artifacts, idsDatum s.sets]
  ofDatum?
    | .record [.count id, artifacts, sets] => do
      return ⟨id, ← asList? asCount? artifacts, ← asList? asCount? sets⟩
    | _ => none

instance : Encoded Fragment where
  schema := .record
    [defaulted "id" idSchema (.count 0), defaulted "label" .text (.text ""),
     defaulted "parentId" idSchema (.count 0)]
  toDatum f := .record [.count f.id, .text f.label, .count f.parentId]
  ofDatum?
    | .record [.count id, .text label, .count parent] => some ⟨id, label, parent⟩
    | _ => none

instance : Encoded ActionGraph where
  schema := .record
    [defaulted "artifacts" (.list (Encoded.schema Artifact)) (.list []),
     defaulted "actions" (.list (Encoded.schema Action)) (.list []),
     defaulted "targets" (.list (Encoded.schema Target)) (.list []),
     defaulted "depSetOfFiles" (.list (Encoded.schema FileSet)) (.list []),
     defaulted "pathFragments" (.list (Encoded.schema Fragment)) (.list [])]
  toDatum g := .record
    [.list (g.artifacts.map Encoded.toDatum), .list (g.actions.map Encoded.toDatum),
     .list (g.targets.map Encoded.toDatum), .list (g.fileSets.map Encoded.toDatum),
     .list (g.fragments.map Encoded.toDatum)]
  ofDatum?
    | .record [artifacts, actions, targets, fileSets, fragments] => do
      return ⟨← asList? Encoded.ofDatum? artifacts, ← asList? Encoded.ofDatum? actions,
        ← asList? Encoded.ofDatum? targets, ← asList? Encoded.ofDatum? fileSets,
        ← asList? Encoded.ofDatum? fragments⟩
    | _ => none

end ActionGraph

end BuildImport
