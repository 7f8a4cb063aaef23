/-
The stored project: one file with the project, the version of its form and a checksum.

The checksum is taken over the compact form of the project and decides whether the file is believed. Storing writes
another file first and then renames it, so that the stored project is either the old or the new one. How a checksum is
made is left open here: any function from texts to texts will do.
-/
import BuildImport.FileTree
import BuildImport.Project

namespace BuildImport

open RecordField Datum

/-- what the file holds -/
structure Envelope where
  version : Nat
  checksum : String
  project : Project
  deriving DecidableEq, Inhabited

instance : Encoded Envelope where
  schema := .record
    [required "version" (.count 4294967295), required "checksum" .text,
     required "project" (Encoded.schema Project)]
  toDatum e := .record [.count e.version, .text e.checksum, Encoded.toDatum e.project]
  ofDatum?
    | .record [.count version, .text checksum, project] => do return ⟨version, checksum, ← Encoded.ofDatum? project⟩
    | _ => Option.none

/-- a file for a project, and how its checksum is made -/
structure Storage where
  path : Path
  checksum : String → String

namespace Storage

/-- the envelope of a project -/
def enclose (s : Storage) (p : Project) : Envelope := ⟨Error.storedVersion, s.checksum (Encoded.compact p), p⟩

/-- the project in an envelope, if it may be believed -/
def accept (s : Storage) (e : Envelope) : Except Error Project :=
  if e.version ≠ Error.storedVersion then .error (.cacheVersion e.version s.path)
  else if s.checksum (Encoded.compact e.project) ≠ e.checksum then .error (.cacheChecksum s.path)
  else .ok e.project

/-- the stored project; nothing if there is no file -/
def load (s : Storage) (t : FileTree) : Except Error (Option Project) :=
  if t.exists? s.path then
    match t.readText s.path with
    | .error e => .error (.io e)
    | .ok content =>
      match Encoded.parse Envelope content with
      | .error fault => .error (.serialization fault)
      | .ok e => (s.accept e).map some
  else .ok Option.none

/-- the file that is written before it is renamed -/
def draft (s : Storage) : Path := s.path.withExtension "json.tmp"

/-- writes the text to the draft and renames it -/
def commit (s : Storage) (t : FileTree) (content : String) : FileTree × Except SystemError Unit :=
  match t.write s.draft content.toUTF8 with
  | .error e => (t, .error e)
  | .ok t =>
    match t.rename s.draft s.path with
    | .error e => (t, .error e)
    | .ok t => (t, .ok ())

/-- stores a project; the files are as far as storing came -/
def store (s : Storage) (t : FileTree) (p : Project) : FileTree × Except Error Unit :=
  let (t, made) :=
    match s.path.parent? with
    | some parent => t.ensureDirectory parent
    | Option.none => (t, .ok ())
  match made with
  | .error e => (t, .error (.io e))
  | .ok () =>
    let (t, done) := s.commit t (Encoded.pretty (s.enclose p))
    (t, done.mapError .io)

end Storage

/-- a store that keeps the last project and forgets it when the program ends -/
structure MemoryStorage where
  held : Option Project := Option.none
  deriving DecidableEq, Inhabited

namespace MemoryStorage

def load (s : MemoryStorage) : Option Project := s.held

def store (_ : MemoryStorage) (p : Project) : MemoryStorage := ⟨some p⟩

end MemoryStorage

end BuildImport
