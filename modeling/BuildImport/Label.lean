/-
Labels of build targets, such as `//pkg:name` or `@repo//pkg:name`.

A label is its text: nothing is normalised, and labels are compared and ordered as texts.
-/
import BuildImport.Text

namespace BuildImport

open Std Text

/-- canonical identifier of a build target -/
structure Label where
  text : String
  deriving DecidableEq, Repr, Inhabited

namespace Label

instance : Ord Label := ⟨compareOn text⟩

instance : TransOrd Label := inferInstanceAs (TransCmp (compareOn text))

instance : LawfulEqOrd Label where
  eq_of_compare {a b} h := by
    cases a; cases b
    exact congrArg Label.mk (LawfulEqOrd.eq_of_compare (show compare (α := String) _ _ = .eq from h))

/-- targets of the main repository start with `//` -/
def isMain (l : Label) : Bool := startsWith "//" l.text

/-- the package, `pkg/sub` for `//pkg/sub:name`: what stands between the first `//` and the `:` after it -/
def package? (l : Label) : Option String :=
  (afterFirst ['/', '/'] l.text.toList).map fun rest =>
    match cutFirst ':' rest with
    | some (package, _) => String.ofList package
    | none => String.ofList rest

/-- the target name, `name` for `//pkg:name`: what follows the last `:` -/
def name? (l : Label) : Option String :=
  (cutLast ':' l.text.toList).map fun (_, name) => String.ofList name

/-- this label with another target name; a label without a `:` stays as it is -/
def withName (l : Label) (name : String) : Label :=
  match cutLast ':' l.text.toList with
  | some (front, _) => ⟨String.ofList front ++ ":" ++ name⟩
  | none => l

end Label

end BuildImport
