/-
What the build graph says about one target: its rule, its dependencies, its files and the settings of its compiler.

A file location is not yet a path. It holds a relative path, the output root it was built under, and whether it is a
source file and whether it belongs to another repository.
-/
import BuildImport.Json.Schema

namespace BuildImport

/-- a file as the build graph reports it -/
structure FileLocation where
  relativePath : String := ""
  /-- output root such as `bazel-out/k8-fastbuild/bin` -/
  rootFragment : String := ""
  isSource : Bool := false
  isExternal : Bool := false
  deriving DecidableEq, Repr, Inhabited

namespace FileLocation

def source (path : String) : FileLocation := { relativePath := path, isSource := true }

def generated (root path : String) : FileLocation := { relativePath := path, rootFragment := root }

end FileLocation

/-- the archives that one compilation wrote -/
structure OutputJars where
  binary : List FileLocation := []
  interface : List FileLocation := []
  source : List FileLocation := []
  deriving DecidableEq, Repr, Inhabited

/-- settings and outputs of a compilation for the Java machine -/
structure JavaInfo where
  jars : List OutputJars := []
  javacOpts : List String := []
  jvmFlags : List String := []
  mainClass : String := ""
  args : List String := []
  runtimeClasspath : List FileLocation := []
  compileClasspath : List FileLocation := []
  sourceClasspath : List FileLocation := []
  deriving DecidableEq, Repr, Inhabited

/-- settings of a Scala compilation -/
structure ScalaInfo where
  scalacOpts : List String := []
  compilerClasspath : List FileLocation := []
  deriving DecidableEq, Repr, Inhabited

/-- everything known about one target -/
structure TargetRecord where
  id : String := ""
  /-- the rule that defines it, such as `java_library` -/
  kind : String := ""
  /-- tags as they are written in the build file -/
  tags : List String := []
  /-- ids of the targets it depends on directly, as listed -/
  dependencies : List String := []
  sources : List FileLocation := []
  resources : List FileLocation := []
  java : Option JavaInfo := none
  scala : Option ScalaInfo := none
  deriving DecidableEq, Repr, Inhabited

/-! ## Written form -/

open RecordField Datum

namespace FileLocation

instance : Encoded FileLocation where
  schema := .record
    [defaulted "relative_path" .text (.text ""), defaulted "root_execution_path_fragment" .text (.text ""),
     defaulted "is_source" .flag (.flag false), defaulted "is_external" .flag (.flag false)]
  toDatum l := .record [.text l.relativePath, .text l.rootFragment, .flag l.isSource, .flag l.isExternal]
  ofDatum?
    | .record [.text path, .text root, .flag source, .flag external] => some ⟨path, root, source, external⟩
    | _ => none

/-- the shape of a list of locations -/
def listSchema : Schema := .list (Encoded.schema FileLocation)

def listDatum (ls : List FileLocation) : Datum := .list (ls.map Encoded.toDatum)

def ofListDatum? : Datum → Option (List FileLocation) := asList? Encoded.ofDatum?

end FileLocation

open FileLocation

instance : Encoded OutputJars where
  schema := .record
    [defaulted "binary_jars" listSchema (.list []), defaulted "interface_jars" listSchema (.list []),
     defaulted "source_jars" listSchema (.list [])]
  toDatum j := .record [listDatum j.binary, listDatum j.interface, listDatum j.source]
  ofDatum?
    | .record [binary, interface, source] => do
      return ⟨← ofListDatum? binary, ← ofListDatum? interface, ← ofListDatum? source⟩
    | _ => none

instance : Encoded JavaInfo where
  schema := .record
    [defaulted "jars" (.list (Encoded.schema OutputJars)) (.list []),
     defaulted "javac_opts" (.list .text) (.list []), defaulted "jvm_flags" (.list .text) (.list []),
     defaulted "main_class" .text (.text ""), defaulted "args" (.list .text) (.list []),
     defaulted "runtime_classpath" listSchema (.list []), defaulted "compile_classpath" listSchema (.list []),
     defaulted "source_classpath" listSchema (.list [])]
  toDatum i := .record
    [.list (i.jars.map Encoded.toDatum), texts i.javacOpts, texts i.jvmFlags, .text i.mainClass, texts i.args,
     listDatum i.runtimeClasspath, listDatum i.compileClasspath, listDatum i.sourceClasspath]
  ofDatum?
    | .record [jars, javac, jvm, .text main, args, runtime, compile, source] => do
      return {
        jars := ← asList? Encoded.ofDatum? jars
        javacOpts := ← asTexts? javac
        jvmFlags := ← asTexts? jvm
        mainClass := main
        args := ← asTexts? args
        runtimeClasspath := ← ofListDatum? runtime
        compileClasspath := ← ofListDatum? compile
        sourceClasspath := ← ofListDatum? source }
    | _ => none

instance : Encoded ScalaInfo where
  schema := .record
    [defaulted "scalac_opts" (.list .text) (.list []), defaulted "compiler_classpath" listSchema (.list [])]
  toDatum i := .record [texts i.scalacOpts, listDatum i.compilerClasspath]
  ofDatum?
    | .record [opts, classpath] => do return ⟨← asTexts? opts, ← ofListDatum? classpath⟩
    | _ => none

namespace TargetRecord

/-- a dependency is written as an object with its id -/
def dependencySchema : Schema := .record [required "id" .text]

def ofDependency? : Datum → Option String
  | .record [.text id] => some id
  | _ => none

instance : Encoded TargetRecord where
  schema := .record
    [defaulted "id" .text (.text ""), defaulted "kind" .text (.text ""), defaulted "tags" (.list .text) (.list []),
     defaulted "dependencies" (.list dependencySchema) (.list []), defaulted "sources" listSchema (.list []),
     defaulted "resources" listSchema (.list []),
     ("java_target_info", .omitted, .default .none, Encoded.schema JavaInfo),
     ("scala_target_info", .omitted, .default .none, Encoded.schema ScalaInfo)]
  toDatum r := .record
    [.text r.id, .text r.kind, texts r.tags, .list (r.dependencies.map fun id => .record [.text id]),
     listDatum r.sources, listDatum r.resources, (r.java.map Encoded.toDatum).getD .none,
     (r.scala.map Encoded.toDatum).getD .none]
  ofDatum?
    | .record [.text id, .text kind, tags, dependencies, sources, resources, java, scala] => do
      return {
        id, kind
        tags := ← asTexts? tags
        dependencies := ← asList? ofDependency? dependencies
        sources := ← ofListDatum? sources
        resources := ← ofListDatum? resources
        java := ← asOption? Encoded.ofDatum? java
        scala := ← asOption? Encoded.ofDatum? scala }
    | _ => none

end TargetRecord

end BuildImport
