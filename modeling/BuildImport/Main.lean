/-
The program: looks up what a command looks at, carries the command out, and writes back what it changed.

All decisions are made by `Footprint.of`, `Session.run` and `Help`; here bytes are moved.
-/
import BuildImport.Footprint
import BuildImport.Help

namespace BuildImport.Main

/-- the name of a file on disk -/
def diskName (key : List String) : String := "/" ++ "/".intercalate key

/-- the names in an absolute path -/
def keyOf (p : Path) : List String :=
  p.components.filterMap fun c =>
    match c with
    | .name n => some n
    | _ => none

/-- takes what is on disk at `key` over into the tree, unless it is known already -/
def takeOver (t : FileTree) (key : List String) : IO FileTree := do
  if (t.node? key).isSome then return t
  let name := diskName key
  try
    match (← (← IO.FS.realPath name).metadata).type with
    | .dir => return t.set key .directory
    | .file => return t.set key (.file (← IO.FS.readBinFile name))
    | _ =>
      let bytes ← IO.FS.readBinFile name
      return t.set key (if bytes.isEmpty then .sink else .file bytes)
  catch _ => return t

/-- takes over what a path leads through, and what it leads to -/
def lookUp (t : FileTree) (p : Path) : IO FileTree := do
  let mut t := t
  let mut key := if p.isAbsolute then [] else t.current
  for c in p.components do
    match c with
    | .up => key := key.dropLast
    | .name n =>
      key := key ++ [n]
      t ← takeOver t key
    | _ => pure ()
  return t

/-- takes over the files with records at or below a directory -/
def search (t : FileTree) (directory : Path) : IO FileTree := do
  let mut t ← lookUp t directory
  if let .ok (key, .directory) := t.find directory then
    for entry in ← ((← IO.currentDir) / diskName key).walkDir do
      let found : Path := ⟨entry.toString⟩
      if AspectOutput.isInfoFile found then
        t ← takeOver t (keyOf found)
  return t

/-- the file system as far as a command looks at it -/
def gather (i : CommandLine.Invocation) : IO Session.World := do
  let current : Path := ⟨(← IO.currentDir).toString⟩
  let cachePlace ← IO.getEnv Config.cacheVariable
  let mut files ← lookUp { entries := .empty, current := keyOf current } current
  for _ in List.range Footprint.rounds do
    let footprint := Footprint.of { files, cachePlace } i
    files ← footprint.paths.foldlM lookUp files
    files ← footprint.searched.foldlM search files
  return { files, cachePlace }

/-- writes back what is new or changed; a file is replaced as a whole -/
def save (before after : FileTree) : IO Unit := do
  for (key, n) in after.entries.entries do
    if before.node? key ≠ some n then
      let name := diskName key
      match n with
      | .directory => IO.FS.createDirAll name
      | .file bytes =>
        let draft := (Path.withExtension ⟨name⟩ "json.tmp").text
        IO.FS.writeBinFile draft bytes
        IO.FS.rename draft name
      | .sink => pure ()

end BuildImport.Main

open BuildImport in
def main (arguments : List String) : IO UInt32 := do
  match CommandLine.parse arguments with
  | .error usage =>
    let out ← if usage.exitCode = 0 then IO.getStdout else IO.getStderr
    (Help.usageLines usage).forM out.putStrLn
    return usage.exitCode.toUInt32
  | .ok invocation =>
    let world ← Main.gather invocation
    let (outcome, files) := Session.run world invocation
    Main.save world.files files
    match outcome with
    | .ok lines =>
      lines.forM IO.println
      return 0
    | .error failure =>
      (Help.failureLines failure).forM IO.eprintln
      return 1
