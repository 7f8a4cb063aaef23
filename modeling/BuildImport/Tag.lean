/-
What a module is, told from the rule that defines its target.

A rule's name ends in what it makes: a library, a program or a test. A target of any other rule is hidden from the
editor, and so is one whose build file says so.
-/
import BuildImport.TargetRecord
import BuildImport.SortedSet
import BuildImport.Text

namespace BuildImport

open Std Text

inductive Tag where
  | library
  | application
  | test
  | noIde
  | noBuild
  | manual
  deriving DecidableEq, Repr, Inhabited

namespace Tag

/-- all tags in their order -/
def all : List Tag := [library, application, test, noIde, noBuild, manual]

/-- the place among all tags -/
def rank : Tag → Nat
  | library => 0
  | application => 1
  | test => 2
  | noIde => 3
  | noBuild => 4
  | manual => 5

/-- the name in stored projects -/
def name : Tag → String
  | library => "library"
  | application => "application"
  | test => "test"
  | noIde => "no_ide"
  | noBuild => "no_build"
  | manual => "manual"

instance : Ord Tag := ⟨compareOn rank⟩

instance : TransOrd Tag := inferInstanceAs (TransCmp (compareOn rank))

def ofName? (s : String) : Option Tag := all.find? fun t => t.name == s

theorem ofName?_name (t : Tag) : ofName? t.name = some t := by
  cases t <;> decide

instance : Encoded Tag where
  schema := .name (all.map name)
  toDatum t := .text t.name
  ofDatum? d := d.asText?.bind ofName?

/-! ## Tags of a target -/

/-- endings of rule names; no rule name has two of them -/
def ruleEndings : List (String × Tag) := [("_library", library), ("_binary", application), ("_test", test)]

/-- the rule that bundles resources for several libraries -/
def resourceBundleRule : String := "resources_union"

/-- the tag in a build file that hides a target from the editor -/
def hiddenMark : String := "no-ide"

/-- what a rule makes -/
def ofRule (kind : String) : Tag :=
  if kind = resourceBundleRule then library
  else
    match ruleEndings.find? fun e => endsWith e.1 kind with
    | some (_, tag) => tag
    | none => noIde

/-- the tags of a target's module -/
def ofRecord (r : TargetRecord) : SortedSet Tag :=
  let rule := SortedSet.singleton (ofRule r.kind)
  if r.tags.contains hiddenMark then rule.insert noIde else rule

end Tag

end BuildImport
