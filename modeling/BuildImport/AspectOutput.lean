/-
The files that a build leaves behind for an import: one record in each.

Such a file is known by the end of its name. Of two files with a record of the same target the later one counts; a file
that cannot be read makes the whole set unreadable.
-/
import BuildImport.FileTree
import BuildImport.ProjectView
import BuildImport.Universe

namespace BuildImport.AspectOutput

open Text

/-- the end of the name of a file with a record -/
def ending : String := ".target-info.json"

def isInfoFile (p : Path) : Bool := p.fileName?.any (endsWith ending)

/-- the record in the bytes of a file -/
def recordOf (bytes : ByteArray) : Except Error TargetRecord :=
  match FileTree.textOf bytes with
  | .error e => .error (.io e)
  | .ok text =>
    match Encoded.parse TargetRecord text with
    | .ok r => .ok r
    | .error fault => .error (.serialization fault)

/-- the record in a file -/
def readRecord (t : FileTree) (p : Path) : Except Error TargetRecord :=
  match t.read p with
  | .error e => .error (.io e)
  | .ok bytes => recordOf bytes

/-- the records in files, by their ids -/
def readRecords (t : FileTree) (ps : List Path) : Except Error (SortedMap String TargetRecord) := do
  return Universe.recordsOf (← ps.mapM (readRecord t))

/-- the contents of the files with records at or below a directory -/
def infoFiles (t : FileTree) (directory : Path) : Except Error (List ByteArray) :=
  match t.filesFrom directory with
  | .error e => .error (.walk directory e)
  | .ok files => .ok ((files.filter fun f => endsWith ending f.1).map (·.2))

/-- the universe in a directory, with the roots that the view selects; `stop` is looked at once the directory was
walked -/
def fetch (t : FileTree) (directory : Path) (view : ProjectView) (stop : Bool) : Except Error Universe := do
  let files ← infoFiles t directory
  if stop then throw .cancelled
  let records := Universe.recordsOf (← files.mapM recordOf)
  return ⟨records, .ofList (records.keys.filter view.selectsLabel)⟩

end BuildImport.AspectOutput
