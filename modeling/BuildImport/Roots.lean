/-
Where the files and packages of a workspace are.

Sources of the main workspace lie below the workspace root, all other files below the execution root. A location that a
rule has already made absolute stays as it is.
-/
import BuildImport.FileTree

namespace BuildImport

open Text

structure Roots where
  workspace : Path
  exec : Path
  deriving DecidableEq, Repr, Inhabited

namespace Roots

/-- whether the location is absolute and there -/
def isExistingAbsolute (t : FileTree) (l : FileLocation) : Bool :=
  Path.isAbsolute ⟨l.relativePath⟩ && t.exists? ⟨l.relativePath⟩

/-- the path of a file -/
def resolve (r : Roots) (t : FileTree) (l : FileLocation) : Path :=
  if isExistingAbsolute t l then ⟨l.relativePath⟩
  else if l.isSource && !l.isExternal then r.workspace.join ⟨l.relativePath⟩
  else (r.exec.join ⟨l.rootFragment⟩).join ⟨l.relativePath⟩

/-- the package of a label of the main workspace -/
def packageOf (l : Label) : Except LabelFault String :=
  match dropPrefix? "//" l.text with
  | none => .error .notMain
  | some rest =>
    match cutFirst ':' rest.toList with
    | some (package, name) => if name.contains ':' then .error .notOneColon else .ok (String.ofList package)
    | none => .error .notOneColon

/-- the directory of the package that defines `l` -/
def directoryOf (r : Roots) (l : Label) : Except Error Path :=
  match packageOf l with
  | .ok package => .ok (r.workspace.join ⟨package⟩)
  | .error fault => .error (.malformedLabel l fault)

theorem join_absolute {p q : Path} (h : q.isAbsolute = true) : p.join q = q := by
  simp [Path.join, h]

end Roots

end BuildImport
