/-
Slash-separated paths.

A path keeps its text as written. Equality and order go by its components: repeated slashes, a slash at the end and a
`.` that is not first do not count, and nothing is folded at `..`. So `/a//b` and `/a/b/` are one path in two spellings,
and `/a/b` comes before `/a-b` although its text does not.

`join`, `parent?`, `fileName?`, `stripPrefix?` and `withExtension` give texts, not only components: what is kept of the
spelling shows in answers.
-/
import BuildImport.Text

namespace BuildImport

open Std Text

/-- one step of a path -/
inductive Component where
  | root
  | here
  | up
  | name (text : String)
  deriving DecidableEq, Repr

namespace Component

/-- the root comes first, then `.`, then `..`, then names by their text -/
def rank : Component → Nat
  | root => 0
  | here => 1
  | up => 2
  | name _ => 3

def text : Component → String
  | name n => n
  | _ => ""

instance : Ord Component := ⟨compareLex (compareOn rank) (compareOn text)⟩

instance : TransOrd Component :=
  inferInstanceAs (TransCmp (compareLex (compareOn rank) (compareOn text)))

/-- what a piece between slashes stands for, after the first piece; an empty piece and `.` stand for nothing -/
def ofPiece? : List Char → Option Component
  | [] => none
  | ['.'] => none
  | ['.', '.'] => some .up
  | n => some (.name (String.ofList n))

end Component

/-- a path as it is written -/
structure Path where
  text : String
  deriving DecidableEq, Repr, Inhabited

namespace Path

/-- the text between the slashes -/
def pieces (p : Path) : List (List Char) := splitOn '/' p.text.toList

/-- the components of a list of pieces; a first piece that is empty, with another behind it, is the root -/
def componentsOf : List (List Char) → List Component
  | [] => []
  | [[]] => []
  | [] :: rest => .root :: rest.filterMap Component.ofPiece?
  | ['.'] :: rest => .here :: rest.filterMap Component.ofPiece?
  | first :: rest => (first :: rest).filterMap Component.ofPiece?

def components (p : Path) : List Component := componentsOf p.pieces

/-- paths are ordered by their components -/
instance : Ord Path := ⟨compareOn components⟩

instance : TransOrd Path := inferInstanceAs (TransCmp (compareOn components))

/-- same components, whatever the spelling -/
def same (p q : Path) : Bool := p.components == q.components

def isAbsolute (p : Path) : Bool := startsWith "/" p.text

/-- the text of pieces; the root alone is a slash -/
def ofPieces : List (List Char) → Path
  | [[]] => ⟨"/"⟩
  | ps => ⟨String.ofList (joinWith '/' ps)⟩

/-- a piece that is no component unless it comes first -/
def insignificant (piece : List Char) : Bool := (Component.ofPiece? piece).isNone

/-- the last component, if it is a name -/
def fileName? (p : Path) : Option String :=
  match p.components.getLast? with
  | some (.name n) => some n
  | _ => none

/-- the path without its last component, as it is spelled up to there; the root and the empty path have no parent -/
def parent? (p : Path) : Option Path :=
  match p.pieces with
  | [] => none
  | first :: rest =>
    match dropEndWhile insignificant rest with
    | [] => if first = [] then none else some ⟨""⟩
    | kept => some (ofPieces (first :: dropEndWhile insignificant kept.dropLast))

/-- `q` seen from `p`: an absolute `q` stays as it is, any other is appended with one slash -/
def join (p q : Path) : Path :=
  if q.isAbsolute then q
  else if p.text = "" ∨ endsWith "/" p.text then ⟨p.text ++ q.text⟩
  else ⟨p.text ++ "/" ++ q.text⟩

/-- drops pieces from the front until `n` components are gone -/
def dropComponents : Nat → List (List Char) → List (List Char)
  | 0, ps => ps
  | _, [] => []
  | n + 1, p :: ps => if insignificant p then dropComponents (n + 1) ps else dropComponents n ps

/-- what is left of `p` behind the components of `base`, in the spelling of `p`; none where `p` does not start with
them -/
def stripPrefix? (p base : Path) : Option Path :=
  if base.components.isPrefixOf p.components then
    match p.pieces with
    | [] => some ⟨""⟩
    | first :: rest =>
      match base.components.length with
      | 0 => if first = [] ∧ rest = [] then some ⟨""⟩ else some (ofPieces (first :: dropEndWhile insignificant rest))
      | n + 1 =>
        -- the first component is the first piece, whatever it is
        let left := (dropComponents n rest).dropWhile insignificant
        some ⟨String.ofList (joinWith '/' (dropEndWhile insignificant left))⟩
  else none

/-- a file name cut at its last dot; a name with no dot but at its front has no extension -/
def splitName (name : String) : String × Option String :=
  match cutLast '.' name.toList with
  | none => (name, none)
  | some ([], _) => (name, none)
  | some (stem, ext) => (String.ofList stem, some (String.ofList ext))

/-- the text up to the end of the file name -/
def upToName (p : Path) : List Char :=
  match p.pieces with
  | [] => []
  | first :: rest => joinWith '/' (first :: dropEndWhile insignificant rest)

/-- the text up to the end of the stem, with a dot and `ext` after it; a path that ends in no name stays -/
def endStemWith (p : Path) (ext : String) : Path :=
  match p.fileName? with
  | none => p
  | some name =>
    let stem := (splitName name).1
    ⟨String.ofList (p.upToName.take (p.upToName.length - (name.length - stem.length))) ++ "." ++ ext⟩

/-- `ext` in the place of the extension: the old one is cut off the text first, and what then ends in no name stays -/
def withExtension (p : Path) (ext : String) : Path :=
  match p.fileName? with
  | none => p
  | some name =>
    match (splitName name).2 with
    | none => p.endStemWith ext
    | some old => endStemWith ⟨String.ofList (p.text.toList.take (p.text.length - old.length))⟩ ext

end Path

end BuildImport
