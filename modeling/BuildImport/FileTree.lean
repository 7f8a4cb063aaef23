/-
A file system as a value: files and directories by the names on the way to them from the root.

A `Path` is found as the system finds it (`locate`): name by name, where every name but the last must be a directory,
`.` and a doubled slash stay where they are, `..` goes one up, and a path that does not start at the root starts at the
current directory. A slash at the end asks for a directory. The operations report what the system would report.

Entries are in the order of their names from the root, so that everything below a directory stands together and in the
order in which a walk through sorted directories meets it.
-/
import BuildImport.Error
import BuildImport.SortedMap

namespace BuildImport

open Std Text

/-- contents are compared byte by byte -/
local instance bytesDecidableEq : DecidableEq ByteArray := ByteArray.instDecidableEq

inductive Node where
  | file (content : ByteArray)
  | directory
  /-- a device that is always empty and forgets what is written to it -/
  | sink
  deriving DecidableEq, Inhabited

structure FileTree where
  /-- all nodes but the root -/
  entries : SortedMap (List String) Node
  /-- names from the root to the current directory -/
  current : List String
  deriving Inhabited

namespace FileTree

/-- the root is always there and a directory -/
def node? (t : FileTree) : List String → Option Node
  | [] => some .directory
  | key => t.entries.find? key

/-! ## Finding -/

/-- where a path leads: to a directory that is there, or to a name in one; `slash` asks that it be a directory -/
inductive Place where
  | directory (key : List String)
  | named (key : List String) (slash : Bool)
  deriving DecidableEq, Repr

/-- goes on from the directory `key` through the pieces of a path -/
def descend (t : FileTree) (key : List String) : List (List Char) → Except SystemError Place
  | [] => .ok (.directory key)
  | piece :: rest =>
    match Component.ofPiece? piece with
    | some .up => descend t key.dropLast rest
    | some (.name n) =>
      if rest.all List.isEmpty then .ok (.named (key ++ [n]) (!rest.isEmpty))
      else
        match t.node? (key ++ [n]) with
        | some .directory => descend t (key ++ [n]) rest
        | some _ => .error .notDirectory
        | none => .error .notFound
    | _ => descend t key rest

/-- where `p` leads -/
def locate (t : FileTree) (p : Path) : Except SystemError Place :=
  if p.text = "" then .error .notFound
  else descend t (if p.isAbsolute then [] else t.current) p.pieces

/-- what is at a place: its names from the root and the node -/
def at? (t : FileTree) : Place → Except SystemError (List String × Node)
  | .directory key => .ok (key, .directory)
  | .named key slash =>
    match t.node? key with
    | none => .error .notFound
    | some .directory => .ok (key, .directory)
    | some n => if slash then .error .notDirectory else .ok (key, n)

def find (t : FileTree) (p : Path) : Except SystemError (List String × Node) := do
  t.at? (← t.locate p)

/-- whether anything is there -/
def exists? (t : FileTree) (p : Path) : Bool := (t.find p).toOption.isSome

def isDirectory (t : FileTree) (p : Path) : Bool := (t.find p).toOption.any fun e => e.2 = .directory

/-- the absolute path without `.`, `..` or doubled slashes -/
def canonical (t : FileTree) (p : Path) : Except SystemError Path := do
  let (key, _) ← t.find p
  return ⟨"/" ++ "/".intercalate key⟩

/-! ## Reading -/

/-- the text that bytes hold -/
def textOf (bytes : ByteArray) : Except SystemError String :=
  match String.fromUTF8? bytes with
  | some s => .ok s
  | none => .error .notText

def read (t : FileTree) (p : Path) : Except SystemError ByteArray := do
  match (← t.find p).2 with
  | .file bytes => return bytes
  | .sink => return .empty
  | .directory => throw .isDirectory

def readText (t : FileTree) (p : Path) : Except SystemError String := do
  textOf (← t.read p)

/-- whether `key` lies below the directory `base` -/
def isBelow (base key : List String) : Bool := base.isPrefixOf key && base.length < key.length

/-- the files at or below `p`, each with its name, in the order of a walk through sorted directories -/
def filesFrom (t : FileTree) (p : Path) : Except SystemError (List (String × ByteArray)) := do
  match ← t.find p with
  | (_, .file bytes) => return [(p.fileName?.getD "", bytes)]
  | (_, .sink) => return []
  | (base, .directory) =>
    return t.entries.entries.filterMap fun (key, n) =>
      match n with
      | .file bytes => if isBelow base key then some (key.getLast?.getD "", bytes) else none
      | _ => none

/-! ## Writing -/

def set (t : FileTree) (key : List String) (n : Node) : FileTree := { t with entries := t.entries.insert key n }

def drop (t : FileTree) (key : List String) : FileTree := { t with entries := t.entries.erase key }

/-- a new file, or new content for one that is there -/
def write (t : FileTree) (p : Path) (content : ByteArray) : Except SystemError FileTree := do
  match ← t.locate p with
  | .directory _ => throw .isDirectory
  | .named key slash =>
    if slash then throw .isDirectory
    match t.node? key with
    | some .directory => throw .isDirectory
    | some .sink => return t
    | _ => return t.set key (.file content)

/-- a new directory -/
def makeDirectory (t : FileTree) (p : Path) : Except SystemError FileTree := do
  match ← t.locate p with
  | .directory _ => throw .alreadyThere
  | .named key _ =>
    match t.node? key with
    | some _ => throw .alreadyThere
    | none => return t.set key .directory

/-- a directory with all that lead to it, as far as they are missing; `fuel` bounds their number. Those that were made
stay when a later one cannot be. -/
def makeDirectories (fuel : Nat) (t : FileTree) (p : Path) : FileTree × Except SystemError Unit :=
  match fuel with
  | 0 => (t, .error .notFound)
  | fuel + 1 =>
    if p.components.isEmpty then (t, .ok ())
    else
      match t.makeDirectory p with
      | .ok t => (t, .ok ())
      | .error .notFound =>
        match p.parent? with
        | none => (t, .error .notFound)
        | some parent =>
          match makeDirectories fuel t parent with
          | (t, .error e) => (t, .error e)
          | (t, .ok ()) =>
            match t.makeDirectory p with
            | .ok t => (t, .ok ())
            | .error e => (t, if t.isDirectory p then .ok () else .error e)
      | .error e => (t, if t.isDirectory p then .ok () else .error e)

/-- a directory and all above it -/
def ensureDirectory (t : FileTree) (p : Path) : FileTree × Except SystemError Unit :=
  makeDirectories (p.text.length + 1) t p

/-- moves a file to another name, in the place of a file that is there -/
def rename (t : FileTree) (old new : Path) : Except SystemError FileTree := do
  match ← t.locate old, ← t.locate new with
  | .named old oldSlash, .named new newSlash =>
    match t.node? old with
    | none => throw .notFound
    | some .directory => throw .isDirectory
    | some n =>
      if oldSlash || newSlash then throw .notDirectory
      if t.node? new = some .directory then throw .isDirectory
      return (t.drop old).set new n
  | _, _ => throw .busy

end FileTree

end BuildImport
