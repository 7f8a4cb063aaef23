/-
Language plugins: what a module gets from the languages of its sources.

A plugin turns the language part of a record into a payload, finds source roots and collects the archives with the
sources of dependencies. It is chosen by the languages of the module; the plain plugin serves all others. Before modules
are made the plugins look at the whole universe and agree on one language level for it.
-/
import BuildImport.Roots
import BuildImport.SourceRoot
import BuildImport.Universe
import BuildImport.Module
import BuildImport.Text.Blank

namespace BuildImport

open Text

inductive Plugin where
  /-- `version` is the language level of the project, once it is known -/
  | scala (version : Option String)
  | java (version : Option String)
  /-- for modules that no other plugin serves -/
  | plain
  /-- asks to stop the import when it meets the target; gives no payload -/
  | interrupting (target : String) (languages : List Language)
  deriving DecidableEq, Repr, Inhabited

namespace Plugin

def name : Plugin → String
  | scala _ => "scala"
  | java _ => "java"
  | plain => "empty"
  | interrupting _ _ => "cancel-on"

/-- the languages it is for -/
def languages : Plugin → List Language
  | scala _ => [.scala]
  | java _ => [.java, .kotlin]
  | plain => []
  | interrupting _ ls => ls

/-! ## Choice -/

/-- the plugins used where nothing else is asked for; Scala comes before Java -/
def standard : List Plugin := [scala none, java none]

/-- the first plugin for any of the languages -/
def choose (ps : List Plugin) (ls : SortedSet Language) : Plugin :=
  (ps.find? fun p => p.languages.any ls.contains).getD plain

/-! ## Language level -/

/-- the language levels that compiler options ask for -/
def levelsIn : List String → List String
  | [] => []
  | [opt] => (dropPrefix? "--release=" opt).toList
  | opt :: value :: rest =>
    if opt = "-source" ∨ opt = "--release" then value :: levelsIn rest
    else (dropPrefix? "--release=" opt).toList ++ levelsIn (value :: rest)

/-- all language levels asked for in the universe -/
def levels (u : Universe) : List String :=
  u.records.values.flatMap fun r => ((r.java.map (·.javacOpts)).map levelsIn).getD []

/-- the element that stands most often in a list, the smallest of several -/
def mostFrequent (xs : List String) : Option String :=
  (SortedSet.ofList xs).toList.foldl
    (fun best x =>
      match best with
      | none => some x
      | some b => if xs.count b < xs.count x then some x else some b)
    none

/-- the language level of the project -/
def level (u : Universe) : Option String := mostFrequent (levels u)

/-- the plugin after a look at the universe -/
def prepare (u : Universe) : Plugin → Plugin
  | scala _ => scala (level u)
  | java _ => java (level u)
  | p => p

/-! ## Payloads -/

/-- the settings for the Java machine of a record that has some -/
def javaPayload? (version : Option String) (r : Roots) (t : FileTree) (record : TargetRecord) : Option JavaPayload :=
  record.java.map fun info =>
    let main := trim isBlank info.mainClass
    { javaVersion := version
      javacOpts := info.javacOpts
      jvmOpts := info.jvmFlags
      mainOutput := (info.jars.head?.bind (·.binary.head?)).map (r.resolve t)
      allOutputs := (info.jars.flatMap fun j => j.interface ++ j.binary).map (r.resolve t)
      mainClass := if main = "" then none else some main
      args := info.args
      runtimeClasspath := info.runtimeClasspath.map (r.resolve t)
      compileClasspath := info.compileClasspath.map (r.resolve t)
      sourcesClasspath := info.sourceClasspath.map (r.resolve t) }

/-- the payload of a record's module -/
def payload? (p : Plugin) (r : Roots) (t : FileTree) (record : TargetRecord) : Option Payload :=
  match p with
  | scala version => record.scala.map fun info =>
      .scala ⟨info.scalacOpts, info.compilerClasspath.map (r.resolve t), javaPayload? version r t record⟩
  | java version => (javaPayload? version r t record).map .java
  | _ => none

/-- whether making the payload asks to stop the import -/
def interrupts (p : Plugin) (record : TargetRecord) : Bool :=
  match p with
  | interrupting target _ => record.id == target
  | _ => false

/-! ## Sources -/

/-- the archives with sources that a compilation wrote -/
def sourceJars (info : JavaInfo) : List FileLocation := info.jars.flatMap (·.source)

/-- the archives with sources of what a record depends on: those on its own class path, and those of the dependencies
that are not represented by root targets -/
def dependencySources (p : Plugin) (r : Roots) (t : FileTree) (u : Universe) (record : TargetRecord) :
    SortedSet Path :=
  match p, record.java with
  | scala _, some info | java _, some info =>
    let further := ((u.withoutRoots record.id).filterMap (·.java)).flatMap sourceJars
    .ofList ((info.sourceClasspath ++ further).map (r.resolve t))
  | _, _ => .empty

/-- the source root of a file -/
def sourceRoot? (p : Plugin) (t : FileTree) (file : Path) : Option Path :=
  match p with
  | scala _ => SourceRoot.ofFile? t true file
  | java _ => SourceRoot.ofFile? t false file
  | _ => file.parent?

end Plugin

end BuildImport
