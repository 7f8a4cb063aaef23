/-
What can go wrong, and how it is told.

An error is its cause; `message` words it. What the file system refuses is a `SystemError`, whose wording is that of the
system.
-/
import BuildImport.Json.Scan
import BuildImport.Module

namespace BuildImport

/-- why the file system refuses -/
inductive SystemError where
  | notFound
  | notDirectory
  | isDirectory
  | alreadyThere
  | busy
  /-- the bytes of a file are no text -/
  | notText
  deriving DecidableEq, Repr, Inhabited

namespace SystemError

def message : SystemError → String
  | notFound => "No such file or directory (os error 2)"
  | notDirectory => "Not a directory (os error 20)"
  | isDirectory => "Is a directory (os error 21)"
  | alreadyThere => "File exists (os error 17)"
  | busy => "Device or resource busy (os error 16)"
  | notText => "stream did not contain valid UTF-8"

end SystemError

namespace Fault

def message : Fault → String
  | unfinished => "the text ends too early"
  | malformed => "the text is not JSON"
  | shape => "the value has another shape"
  | missingField name => String.join ["missing field \x60", name, "\x60"]
  | unknownName given expected =>
    String.join ["unknown variant '", given, "', expected one of: ", ", ".intercalate expected]

end Fault

/-- why a label names no package of the workspace -/
inductive LabelFault where
  | notMain
  | notOneColon
  deriving DecidableEq, Repr, Inhabited

namespace LabelFault

def reason : LabelFault → String
  | notMain => "label didn't start with //"
  | notOneColon => "label didn't contain exactly one ':'"

end LabelFault

inductive Error where
  | malformedLabel (label : Label) (fault : LabelFault)
  | targetNotFound (label : String) (known : List String)
  | mergeUnsupported (left right : Payload.Kind)
  | io (e : SystemError)
  | serialization (fault : Fault)
  /-- a configuration file that holds no configuration -/
  | config (file : Path) (fault : Fault)
  /-- a stored project of another version -/
  | cacheVersion (version : Nat) (file : Path)
  /-- a stored project that was changed -/
  | cacheChecksum (file : Path)
  /-- a project that could not be stored -/
  | cacheStore (cause : Error)
  /-- what another store reports -/
  | cache (text : String)
  | cancelled
  /-- a directory that could not be walked -/
  | walk (root : Path) (e : SystemError)
  | other (text : String)
  deriving DecidableEq, Inhabited

namespace Error

/-- the version of stored projects -/
def storedVersion : Nat := 1

def message : Error → String
  | malformedLabel label fault => String.join ["Malformed label ", label.text, ": ", fault.reason]
  | targetNotFound label known =>
    String.join
      ["Target ", label, " not found in action graph; known targets: [", ", ".intercalate known, "]"]
  | mergeUnsupported left right =>
    String.join ["Cannot merge language data of kinds ", left.name, " and ", right.name]
  | io e => String.join ["IO error: ", e.message]
  | serialization fault => String.join ["Serialization error: ", fault.message]
  | config file fault =>
    String.join ["Configuration error: Failed to parse ", file.text, ": ", fault.message]
  | cacheVersion version file =>
    String.join
      ["Cache error: Unsupported cache version ", toString version, " in ", file.text, " (expected ",
       toString storedVersion, ")"]
  | cacheChecksum file => String.join ["Cache error: Checksum mismatch in ", file.text]
  | cacheStore cause => String.join ["Cache error: Failed to store project: ", cause.message]
  | cache text => String.join ["Cache error: ", text]
  | cancelled => "Project resolution was cancelled"
  | walk root e =>
    String.join ["Failed to walk aspect output: IO error for operation on ", root.text, ": ", e.message]
  | other text => text

end Error

end BuildImport
