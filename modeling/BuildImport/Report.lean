/-
What is shown of a project and its modules to someone at a terminal.
-/
import BuildImport.Project

namespace BuildImport.Report

/-- a tag in a list of tags -/
def tagName : Tag → String
  | .noIde => "no-ide"
  | .noBuild => "no-build"
  | t => t.name

/-- the tags of a module -/
def tags (m : Module) : String := ", ".intercalate (m.tags.toList.map tagName)

/-- a line across the page -/
def rule : String := String.join (List.replicate 80 "=")

/-- the lines about a module; those with nothing to say are left out -/
def moduleLines (m : Module) : List String :=
  let languages := m.languages.toList.map Language.name
  let files := m.sourceSet
  [(if m.isSynthetic then "📁 " else "📦 ") ++ m.label.text ++ " [" ++ tags m ++ "]",
    "   📂 " ++ m.baseDirectory.text] ++
  (if languages.isEmpty then [] else ["   🔤 " ++ ", ".intercalate languages]) ++
  (if files.isEmpty then []
    else ["   📄 " ++ toString files.sources.size ++ " sources in " ++ toString files.roots.size ++ " roots"]) ++
  (if m.dependencies.isEmpty then [] else ["   🔗 " ++ toString m.dependencies.length ++ " dependencies"])

/-- the lines about a project -/
def projectLines (p : Project) : List String :=
  ["🏗️  Workspace: " ++ p.workspaceRoot.text, rule] ++ p.modules.flatMap moduleLines ++
  [rule, "✅ " ++ toString p.modules.length ++ " modules, " ++ toString p.owners.size ++ " indexed files"]

end BuildImport.Report
