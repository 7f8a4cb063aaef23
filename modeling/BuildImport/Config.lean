/-
The configuration of an import, and the file that holds it.

What the file leaves out has its usual value, and a workspace without the file has the usual configuration. Where the
project is stored is told by the environment, else by the file, else it is a fixed place below the workspace root.
-/
import BuildImport.ProjectView
import BuildImport.FileTree

namespace BuildImport

/-- how targets of one directory are put together -/
structure MergeConfig where
  enabled : Bool := false
  /-- a merged module with a source root that ends so has no sources -/
  ignoredRoots : List String := ["tools/src/main/scala/"]
  deriving DecidableEq, Repr, Inhabited

/-- whether directories without a module get a placeholder -/
structure PlaceholderConfig where
  enabled : Bool := true
  deriving DecidableEq, Repr, Inhabited

structure Config where
  targets : ProjectView := .standard
  merge : MergeConfig := {}
  placeholders : PlaceholderConfig := {}
  /-- where the project is stored, seen from the workspace root -/
  cacheFile : Option Path := none
  deriving DecidableEq, Repr, Inhabited

/-! ## Written form -/

section

open RecordField Datum

instance : Encoded MergeConfig where
  schema := .record
    [defaulted "enabled" .flag (.flag false),
     defaulted "ignored_source_roots" (.list .text) (texts (MergeConfig.ignoredRoots {}))]
  toDatum c := .record [.flag c.enabled, texts c.ignoredRoots]
  ofDatum?
    | .record [.flag enabled, roots] => do return ⟨enabled, ← asTexts? roots⟩
    | _ => none

instance : Encoded PlaceholderConfig where
  schema := .record [defaulted "enabled" .flag (.flag true)]
  toDatum c := .record [.flag c.enabled]
  ofDatum?
    | .record [.flag enabled] => some ⟨enabled⟩
    | _ => none

instance : Encoded Config where
  schema := .record
    [defaulted "targets" (Encoded.schema ProjectView) (Encoded.toDatum ProjectView.standard),
     defaulted "merge" (Encoded.schema MergeConfig) (Encoded.toDatum ({} : MergeConfig)),
     defaulted "tree_fix" (Encoded.schema PlaceholderConfig) (Encoded.toDatum ({} : PlaceholderConfig)),
     ("cache_file", .omitted, .nothing, .text)]
  toDatum c := .record
    [Encoded.toDatum c.targets, Encoded.toDatum c.merge, Encoded.toDatum c.placeholders,
     ofText? (c.cacheFile.map Path.text)]
  ofDatum?
    | .record [targets, merge, placeholders, cache] => do
      return ⟨← Encoded.ofDatum? targets, ← Encoded.ofDatum? merge, ← Encoded.ofDatum? placeholders,
        ← asOption? Encoded.ofDatum? cache⟩
    | _ => none

end

/-! ## Files -/

namespace Config

/-- the name of the file in the workspace root -/
def fileName : String := ".bazel-bridge.json"

/-- the environment variable that says where the project is stored -/
def cacheVariable : String := "BAZEL_BRIDGE_CACHE"

/-- where the project is stored if nobody says so -/
def usualCacheFile : Path := ⟨".bazel-bridge/project-cache.json"⟩

/-- the configuration in a file -/
def load (t : FileTree) (file : Path) : Except Error Config :=
  match t.readText file with
  | .error e => .error (.io e)
  | .ok content =>
    match Encoded.parse Config content with
    | .ok c => .ok c
    | .error fault => .error (.config file fault)

/-- the configuration of a workspace -/
def loadFor (t : FileTree) (workspace : Path) : Except Error Config :=
  let file := workspace.join ⟨fileName⟩
  if t.exists? file then load t file else .ok {}

def save (t : FileTree) (file : Path) (c : Config) : Except Error FileTree :=
  match t.write file (Encoded.pretty c).toUTF8 with
  | .ok t => .ok t
  | .error e => .error (.io e)

/-- where the project is stored; `told` is the value from the environment, which counts unless it is empty -/
def cachePath (c : Config) (workspace : Path) (told : Option String) : Path :=
  match told.filter (· ≠ "") with
  | some place => workspace.join ⟨place⟩
  | none => workspace.join (c.cacheFile.getD usualCacheFile)

end Config

end BuildImport
