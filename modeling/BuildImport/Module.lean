/-
Modules: the units that an editor imports, each made from one or more build targets.

A module owns files, its sources and its resources, and may carry the settings of its compiler as a payload. A Scala
payload may hold a Java payload, since Scala runs on the Java machine; `Payload.java?` finds the one or the other.
-/
import BuildImport.Path
import BuildImport.Label
import BuildImport.Language
import BuildImport.Tag

namespace BuildImport

open Std RecordField Datum

/-! ## Payloads -/

/-- settings for the Java machine -/
structure JavaPayload where
  /-- the language level of the whole project -/
  javaVersion : Option String := none
  javacOpts : List String := []
  jvmOpts : List String := []
  mainOutput : Option Path := none
  allOutputs : List Path := []
  mainClass : Option String := none
  args : List String := []
  runtimeClasspath : List Path := []
  compileClasspath : List Path := []
  sourcesClasspath : List Path := []
  deriving DecidableEq, Repr, Inhabited

structure ScalaPayload where
  scalacOpts : List String := []
  compilerClasspath : List Path := []
  java : Option JavaPayload := none
  deriving DecidableEq, Repr, Inhabited

/-- the settings of a module's compiler -/
inductive Payload where
  | java (p : JavaPayload)
  | scala (p : ScalaPayload)
  deriving DecidableEq, Repr, Inhabited

namespace Payload

/-- which compiler a payload is for -/
inductive Kind where
  | java
  | scala
  deriving DecidableEq, Repr, Inhabited

def Kind.name : Kind → String
  | .java => "java"
  | .scala => "scala"

def kind : Payload → Kind
  | java _ => .java
  | scala _ => .scala

/-- the settings for the Java machine, the payload's own or the ones inside -/
def java? : Payload → Option JavaPayload
  | java p => some p
  | scala p => p.java

end Payload

/-! ## Modules -/

/-- source files and the directories that their packages start from -/
structure SourceSet where
  sources : SortedSet Path := ∅
  roots : SortedSet Path := ∅
  deriving DecidableEq, Inhabited

namespace SourceSet

def isEmpty (s : SourceSet) : Bool := s.sources.isEmpty && s.roots.isEmpty

end SourceSet

structure Module where
  label : Label
  /-- whether no target stands behind it -/
  isSynthetic : Bool := false
  dependencies : List Label := []
  languages : SortedSet Language := ∅
  tags : SortedSet Tag := ∅
  baseDirectory : Path
  sourceSet : SourceSet := {}
  resources : SortedSet Path := ∅
  /-- archives with the sources of what it depends on -/
  dependencySources : SortedSet Path := ∅
  payload : Option Payload := none
  deriving DecidableEq, Inhabited

namespace Module

def hasTag (m : Module) (t : Tag) : Bool := m.tags.contains t

/-- the files that belong to the module: sources, then resources -/
def owned (m : Module) : List Path := m.sourceSet.sources.toList ++ m.resources.toList

end Module

/-! ## Written form -/

namespace Path

instance : Encoded Path where
  schema := .text
  toDatum p := .text p.text
  ofDatum? d := d.asText?.map Path.mk

def listDatum (ps : List Path) : Datum := .list (ps.map Encoded.toDatum)

def ofListDatum? : Datum → Option (List Path) := asList? Encoded.ofDatum?

/-- the paths of a set, of which the first of equal ones stays -/
def ofSetDatum? (d : Datum) : Option (SortedSet Path) := (ofListDatum? d).map .ofInserts

end Path

namespace Label

instance : Encoded Label where
  schema := .text
  toDatum l := .text l.text
  ofDatum? d := d.asText?.map Label.mk

end Label

instance : Encoded JavaPayload where
  schema := .record
    [("java_version", .nullable, .nothing, .text), required "javac_opts" (.list .text),
     required "jvm_opts" (.list .text), ("main_output", .nullable, .nothing, .text),
     required "all_outputs" (.list .text), ("main_class", .nullable, .nothing, .text), required "args" (.list .text),
     required "runtime_classpath" (.list .text), required "compile_classpath" (.list .text),
     required "sources_classpath" (.list .text)]
  toDatum p := .record
    [ofText? p.javaVersion, texts p.javacOpts, texts p.jvmOpts, ofText? (p.mainOutput.map Path.text),
     Path.listDatum p.allOutputs, ofText? p.mainClass, texts p.args, Path.listDatum p.runtimeClasspath,
     Path.listDatum p.compileClasspath, Path.listDatum p.sourcesClasspath]
  ofDatum?
    | .record [version, javac, jvm, mainOutput, outputs, mainClass, args, runtime, compile, sources] => do
      return {
        javaVersion := ← asOption? asText? version
        javacOpts := ← asTexts? javac
        jvmOpts := ← asTexts? jvm
        mainOutput := ← asOption? Encoded.ofDatum? mainOutput
        allOutputs := ← Path.ofListDatum? outputs
        mainClass := ← asOption? asText? mainClass
        args := ← asTexts? args
        runtimeClasspath := ← Path.ofListDatum? runtime
        compileClasspath := ← Path.ofListDatum? compile
        sourcesClasspath := ← Path.ofListDatum? sources }
    | _ => none

instance : Encoded ScalaPayload where
  schema := .record
    [required "scalac_opts" (.list .text), required "compiler_classpath" (.list .text),
     ("java_module", .nullable, .nothing, Encoded.schema JavaPayload)]
  toDatum p := .record
    [texts p.scalacOpts, Path.listDatum p.compilerClasspath, (p.java.map Encoded.toDatum).getD .none]
  ofDatum?
    | .record [opts, classpath, java] => do
      return ⟨← asTexts? opts, ← Path.ofListDatum? classpath, ← asOption? Encoded.ofDatum? java⟩
    | _ => none

namespace Payload

/-- the fields of a record's schema -/
def fieldsOf : Schema → List RecordField
  | .record fields => fields
  | _ => []

/-- the parts of a record -/
def partsOf : Datum → List Datum
  | .record ds => ds
  | _ => []

/-- the key `kind` says which payload the other keys hold -/
instance : Encoded Payload where
  schema := .variant "kind"
    [("java", fieldsOf (Encoded.schema JavaPayload)), ("scala", fieldsOf (Encoded.schema ScalaPayload))]
  toDatum
    | java p => .variant "java" (partsOf (Encoded.toDatum p))
    | scala p => .variant "scala" (partsOf (Encoded.toDatum p))
  ofDatum?
    | .variant kind ds =>
      if kind = "java" then (Encoded.ofDatum? (.record ds)).map java
      else if kind = "scala" then (Encoded.ofDatum? (.record ds)).map scala
      else none
    | _ => none

end Payload

namespace SourceSet

instance : Encoded SourceSet where
  schema := .record [required "sources" (.list .text), required "source_roots" (.list .text)]
  toDatum s := .record [Path.listDatum s.sources.toList, Path.listDatum s.roots.toList]
  ofDatum?
    | .record [sources, roots] => do return ⟨← Path.ofSetDatum? sources, ← Path.ofSetDatum? roots⟩
    | _ => none

end SourceSet

namespace Module

instance : Encoded Module where
  schema := .record
    [required "label" .text, required "is_synthetic" .flag, required "direct_dependencies" (.list .text),
     required "languages" (.list (Encoded.schema Language)), required "tags" (.list (Encoded.schema Tag)),
     required "base_directory" .text, required "source_set" (Encoded.schema SourceSet),
     required "resources" (.list .text), required "source_dependencies" (.list .text),
     ("language_data", .omitted, .default .none, Encoded.schema Payload)]
  toDatum m := .record
    [.text m.label.text, .flag m.isSynthetic, .list (m.dependencies.map Encoded.toDatum),
     .list (m.languages.toList.map Encoded.toDatum), .list (m.tags.toList.map Encoded.toDatum),
     .text m.baseDirectory.text, Encoded.toDatum m.sourceSet, Path.listDatum m.resources.toList,
     Path.listDatum m.dependencySources.toList, (m.payload.map Encoded.toDatum).getD .none]
  ofDatum?
    | .record [.text label, .flag synthetic, dependencies, languages, tags, .text base, sources, resources,
        dependencySources, payload] => do
      return {
        label := ⟨label⟩
        isSynthetic := synthetic
        dependencies := ← asList? Encoded.ofDatum? dependencies
        languages := .ofInserts (← asList? Encoded.ofDatum? languages)
        tags := .ofInserts (← asList? Encoded.ofDatum? tags)
        baseDirectory := ⟨base⟩
        sourceSet := ← Encoded.ofDatum? sources
        resources := ← Path.ofSetDatum? resources
        dependencySources := ← Path.ofSetDatum? dependencySources
        payload := ← asOption? Encoded.ofDatum? payload }
    | _ => none

end Module

end BuildImport
