/-
Source roots: the directory that the packages of a source file start from.

A file of package `a.b` lies in a directory `…/a/b`, and its source root is what stands before `a`. The package is told
by the clauses in the text of the file. A Scala file may have several, which are chained; of a Java file the first one
counts. A file that cannot be read, has no clause, or lies in a directory that does not end with its package has its
own directory for a root.
-/
import BuildImport.FileTree
import BuildImport.Text.Blank
import BuildImport.Text.Word

namespace BuildImport.SourceRoot

open Text

/-! ## Package clauses -/

/-- the characters of a package name -/
def isNameChar (c : Char) : Bool := isWord c || c = '.'

/-- what follows a word and the blanks after it, of which there must be some -/
def afterWord? (word line : List Char) : Option (List Char) :=
  if word.isPrefixOf line then
    match line.drop word.length with
    | c :: rest => if isBlank c then some (rest.dropWhile isBlank) else none
    | [] => none
  else none

def nameAt (cs : List Char) : List Char := cs.takeWhile isNameChar

/-- the package named by a line, if it is a package clause. `package object x` declares a member and names none. -/
def clause? (line : List Char) : Option String := do
  let rest ← afterWord? "package".toList (line.dropWhile isBlank)
  let name := nameAt rest
  let member := ((afterWord? "object".toList rest).map nameAt).getD []
  if name.isEmpty || !member.isEmpty then none else some (String.ofList name)

/-- all package clauses of a text, in order -/
def clauses (text : String) : List String := (lines text).filterMap clause?

/-- the package of a text; `chained` puts all clauses together -/
def package? (chained : Bool) (text : String) : Option String :=
  match clauses text with
  | [] => none
  | first :: rest => if chained then some (".".intercalate (first :: rest)) else some first

/-- the names in a package -/
def names (package : String) : List String :=
  ((splitOn '.' package.toList).filter (!·.isEmpty)).map String.ofList

/-! ## Roots -/

/-- the directory without the names at its end, the last one first; none where it does not end with them -/
def strip? (directory : Path) : List String → Option Path
  | [] => some directory
  | n :: ns => if directory.fileName? = some n then directory.parent?.bind (strip? · ns) else none

/-- the source root of a file with this package in this directory -/
def ofPackage (directory : Path) : Option String → Path
  | none => directory
  | some package => (strip? directory (names package).reverse).getD directory

/-- the source root of a file; a path without a parent has none -/
def ofFile? (t : FileTree) (chained : Bool) (file : Path) : Option Path :=
  file.parent?.map fun directory => ofPackage directory ((t.readText file).toOption.bind (package? chained))

end BuildImport.SourceRoot
