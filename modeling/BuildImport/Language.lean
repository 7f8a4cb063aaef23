/-
Programming languages of modules, and the table that tells them from file names.

One extension may stand for several languages: a Kotlin source also counts as Java, because an editor needs the Java
tools to work with it.
-/
import BuildImport.Text
import BuildImport.SortedSet
import BuildImport.Json.Schema

namespace BuildImport

open Std Text

inductive Language where
  | java
  | kotlin
  | scala
  | cpp
  | python
  | thrift
  | rust
  deriving DecidableEq, Repr, Inhabited

namespace Language

/-- all languages in their order -/
def all : List Language := [java, kotlin, scala, cpp, python, thrift, rust]

/-- the place among all languages -/
def rank : Language → Nat
  | java => 0
  | kotlin => 1
  | scala => 2
  | cpp => 3
  | python => 4
  | thrift => 5
  | rust => 6

def name : Language → String
  | java => "java"
  | kotlin => "kotlin"
  | scala => "scala"
  | cpp => "cpp"
  | python => "python"
  | thrift => "thrift"
  | rust => "rust"

instance : Ord Language := ⟨compareOn rank⟩

instance : TransOrd Language := inferInstanceAs (TransCmp (compareOn rank))

def ofName? (s : String) : Option Language := all.find? fun l => l.name == s

theorem ofName?_name (l : Language) : ofName? l.name = some l := by
  cases l <;> decide

instance : Encoded Language where
  schema := .name (all.map name)
  toDatum l := .text l.name
  ofDatum? d := d.asText?.bind ofName?

end Language

/-- endings of file names and the languages they stand for, in the order of registration -/
structure LanguageTable where
  entries : List (String × Language)
  deriving DecidableEq, Repr, Inhabited

namespace LanguageTable

def empty : LanguageTable := ⟨[]⟩

/-- adds an entry unless it is there -/
def register (t : LanguageTable) (ending : String) (l : Language) : LanguageTable :=
  if t.entries.contains (ending, l) then t else ⟨t.entries ++ [(ending, l)]⟩

def ofList (entries : List (String × Language)) : LanguageTable :=
  entries.foldl (fun t e => t.register e.1 e.2) empty

/-- the table used where nothing else is asked for -/
def standard : LanguageTable := ofList
  [(".java", .java), (".kt", .kotlin), (".kt", .java), (".scala", .scala), (".c", .cpp), (".cc", .cpp),
   (".cpp", .cpp), (".h", .cpp), (".hh", .cpp), (".hpp", .cpp), (".py", .python), (".thrift", .thrift),
   (".rs", .rust)]

/-- all languages whose endings the file name has -/
def languagesOf (t : LanguageTable) (path : String) : SortedSet Language :=
  .ofList ((t.entries.filter fun e => endsWith e.1 path).map (·.2))

end LanguageTable

end BuildImport
