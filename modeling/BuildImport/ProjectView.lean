/-
Project views: patterns that select the root targets of an import.

A pattern names a target (`//pkg:name`), all targets of a package (`//pkg`, `//pkg:all`) or all targets below a package
(`//pkg/...`). A pattern with a `-` in front takes away what the rest of it selects, wherever it stands in the list.
-/
import BuildImport.Text
import BuildImport.Text.Blank
import BuildImport.Json.Schema

namespace BuildImport

open Text

structure ProjectView where
  patterns : List String
  deriving DecidableEq, Repr, Inhabited

namespace ProjectView

/-- the view of these patterns, without the white space around them and without empty ones -/
def ofPatterns (ps : List String) : ProjectView := ⟨(ps.map (trim isBlank)).filter (· ≠ "")⟩

/-- the pattern that selects the whole workspace -/
def everything : String := "//..."

/-- the view used where nothing else is asked for -/
def standard : ProjectView := ofPatterns [everything]

/-- the mark of a pattern that takes away -/
def exclusion : String := "-"

def included (v : ProjectView) : List String := v.patterns.filter fun p => !startsWith exclusion p

/-- the patterns that take away, without their mark -/
def excluded (v : ProjectView) : List String := v.patterns.filterMap (dropPrefix? exclusion)

/-- whether a pattern for the whole workspace is included -/
def isFull (v : ProjectView) : Bool := v.included.any (startsWith everything)

/-- the patterns as a build takes them, those that take away at the end -/
def buildArgs (v : ProjectView) : List String := v.included ++ v.excluded.map (exclusion ++ ·)

/-- the beginning of a pattern for all targets below a package -/
def subtree? (pattern : String) : Option String :=
  ((dropSuffix? "..." pattern).or (dropSuffix? "...:all" pattern)).map (trimEnd '/')

/-- target names of a pattern for a whole package -/
def wholePackage : List String := ["all", "*", "all-targets"]

/-- whether `pattern` selects `label`; only labels of the main workspace with a package and a name are selected -/
def selects (pattern label : String) : Bool :=
  startsWith "//" label &&
    match cutFirst ':' label.toList with
    | none => false
    | some (package, _) =>
      let package := String.ofList package
      match subtree? pattern with
      | some base => base == "" || package == base || startsWith (base ++ "/") package
      | none =>
        match cutFirst ':' pattern.toList with
        | some (p, name) =>
          if wholePackage.contains (String.ofList name) then String.ofList p == package else pattern == label
        | none => pattern == package

/-- whether the view selects `label` -/
def selectsLabel (v : ProjectView) (label : String) : Bool :=
  v.included.any (selects · label) && !v.excluded.any (selects · label)

instance : Encoded ProjectView where
  schema := .list .text
  toDatum v := .texts v.patterns
  ofDatum? d := d.asTexts?.map ProjectView.mk

end ProjectView

end BuildImport
