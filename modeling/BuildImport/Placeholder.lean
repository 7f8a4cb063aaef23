/-
Placeholders: modules without a target that keep the directory tree of an editor in one piece.

An editor shows only directories that belong to a module. An import of the whole workspace needs one placeholder, for the
workspace root; an import of a part needs one for each topmost base directory. No placeholder is made for a directory
that is a source root. Topmost is meant textually: a directory belongs under another one whose text it starts with.
-/
import BuildImport.Module
import BuildImport.ProjectView

namespace BuildImport.Placeholder

open Text

/-- label of the placeholder of the workspace root -/
def rootLabel : String := "bazel-bridge-workspace-root"

/-- what the label of another placeholder ends in -/
def labelEnding : String := "-modules-root"

/-- the module that owns a directory and is never built -/
def ofDirectory (label : String) (directory : Path) : Module where
  label := ⟨label⟩
  isSynthetic := true
  tags := .singleton .noBuild
  baseDirectory := directory
  resources := .singleton directory

/-- the label for a directory: its path seen from the workspace root -/
def labelFor (workspace directory : Path) : String :=
  let seen := ((directory.stripPrefix? workspace).map fun p => trimEnd '/' p.text).getD directory.text
  if seen = "" then rootLabel else seen ++ labelEnding

/-- the texts, in ascending order, that start with none of those before them; `head` is the last of those -/
def heads (head : Option String) : List String → List String
  | [] => []
  | text :: rest =>
    if head.any (startsWith · text) then heads head rest else text :: heads (some text) rest

/-- the topmost base directories -/
def topmost (ms : List Module) : List Path :=
  (heads none ((ms.map (·.baseDirectory.text)).mergeSort fun a b => decide (a ≤ b))).map Path.mk

/-- whether a module has the directory for a source root -/
def isSourceRoot (ms : List Module) (d : Path) : Bool := ms.any fun m => m.sourceSet.roots.contains d

/-- the placeholders that an import needs -/
def make (workspace : Path) (ms : List Module) (view : ProjectView) : List Module :=
  if view.isFull then
    if isSourceRoot ms workspace then [] else [ofDirectory rootLabel workspace]
  else
    ((topmost ms).filter fun d => !isSourceRoot ms d).map fun d => ofDirectory (labelFor workspace d) d

end BuildImport.Placeholder
