/-
Shapes of JSON values: one declaration per type, from which both reading and writing follow.

A `Schema` says how a value is written, a `Datum` is what a value of some schema holds, free of keys, defaults and
spelling. `Schema.read` takes the scan of a text to a datum or to the first fault in the order of the text;
`Schema.write` takes a datum to the JSON value that stands for it.

Rules of reading, besides the obvious ones:
* keys that a record does not declare are passed over; a declared key may stand once;
* a missing key is filled in as its field says, and the first one that cannot be is named;
* a record may also be an array of its fields in order, whose last fields may be missing if they have a default;
* names are recognised without regard to case.
-/
import BuildImport.Json.Value
import BuildImport.Json.Scan

namespace BuildImport

/-- what a value holds -/
inductive Datum where
  | none
  | flag (b : Bool)
  | count (n : Nat)
  | text (s : String)
  | list (items : List Datum)
  | dictionary (entries : List (String × Datum))
  | record (fields : List Datum)
  | variant (name : String) (fields : List Datum)
  deriving Inhabited

/-- what stands for a field that is not written -/
inductive Absence where
  /-- it must be written -/
  | required
  /-- this value; a field with `null` for it holds a value or nothing -/
  | default (value : Datum)
  /-- nothing, in a record written with keys; in an array the field must be there -/
  | nothing
  deriving Inhabited

/-- how often an optional field is written: never when it holds nothing, or always, then as `null` -/
inductive Presence where
  | always
  | nullable
  | omitted
  deriving DecidableEq, Inhabited

/-- whether `null` may stand where the field holds nothing -/
def Presence.admitsNull : Presence → Bool
  | .always => false
  | .nullable | .omitted => true

/-- the shape of a value -/
inductive Schema where
  | text
  | flag
  /-- a natural number up to `max` -/
  | count (max : Nat)
  /-- one of the names -/
  | name (known : List String)
  | list (item : Schema)
  /-- any keys, all values of one shape -/
  | dictionary (value : Schema)
  | record (fields : List (String × Presence × Absence × Schema))
  /-- a record with one more key whose text chooses between lists of fields -/
  | variant (key : String) (cases : List (String × List (String × Presence × Absence × Schema)))
  deriving Inhabited

/-- key, way of writing, stand-in and shape of one part of a record -/
abbrev RecordField := String × Presence × Absence × Schema

namespace RecordField

/-- a field that is always written and must be -/
def required (name : String) (schema : Schema) : RecordField := (name, .always, .required, schema)

/-- a field that is always written; `value` stands in where it is missing -/
def defaulted (name : String) (schema : Schema) (value : Datum) : RecordField := (name, .always, .default value, schema)

end RecordField

namespace Schema

/-! ## Names -/

/-- lower case for the letters that can occur in a known name: the ASCII ones and the Kelvin sign, which is a `K` -/
def lowerChar (c : Char) : Char :=
  if c = '\u212A' then 'k' else c.toLower

/-- the known name that `given` spells -/
def nameOf? (known : List String) (given : String) : Option String :=
  known.find? fun n => n.toList == given.toList.map lowerChar

/-! ## Reading -/

/-- the fault for a value of another shape: one inside a token comes first -/
def mismatch : Scan → Fault
  | .flawed flaw => flaw.read
  | _ => .shape

/-- what comes first: an earlier fault, or the result -/
def after {α : Type} (fault : Option Fault) (result : Except Fault α) : Except Fault α :=
  match fault with
  | some f => .error f
  | none => result

/-- the text that a key must be -/
def keyText : Except Flaw String → Except Fault String
  | .ok k => .ok k
  | .error flaw => .error flaw.read

/-- the data of the fields in the order of their declaration, from the keys that were met -/
def settle (met : List (String × Datum)) : List RecordField → Except Fault (List Datum)
  | [] => .ok []
  | (key, _, absence, _) :: fs => do
    let d ← match met.lookup key with
      | some d => pure d
      | none =>
        match absence with
        | .required => throw (.missingField key)
        | .default d => pure d
        | .nothing => pure .none
    return d :: (← settle met fs)

/-- the stand-ins for fields at the end of an array -/
def standIns : List RecordField → Except Fault (List Datum)
  | [] => .ok []
  | (_, _, .default d, _) :: fs => do return d :: (← standIns fs)
  | _ :: _ => .error .shape

/-- a wrong count of elements in a part that has been read before is a matter of shape -/
def asShape {α : Type} : Except Fault α → Except Fault α
  | .error .malformed => .error .shape
  | r => r

/-- the fields that the text under `key` chooses among the members of an object. The key may stand once, and all other
values must be sound; `depth` bounds their brackets. -/
def choice (key : String) (cases : List (String × List RecordField)) (depth : Nat)
    (chosen : Option (String × List RecordField)) :
    List (Except Flaw String × Scan) → Except Fault (Option (String × List RecordField))
  | [] => .ok chosen
  | (k, v) :: ms => do
    if (← keyText k) = key then
      if chosen.isSome then throw .shape
      match v with
      | .text s =>
        match cases.lookup s with
        | some fields => choice key cases depth (some (s, fields)) ms
        | none => throw .shape
      | v => throw (mismatch v)
    else after (v.whole depth) (choice key cases depth chosen ms)

mutual
/-- the datum of a scan, or the first fault; brackets may stand less than `depth` deep -/
def read (depth : Nat) (schema : Schema) (scan : Scan) : Except Fault Datum :=
  match scan with
  | .flawed flaw => .error flaw.read
  | .null => .error .shape
  | .bool b =>
    match schema with
    | flag => .ok (.flag b)
    | _ => .error .shape
  | .number n =>
    match schema, n with
    | count max, some n => if n ≤ max then .ok (.count n) else .error .shape
    | _, _ => .error .shape
  | .text s =>
    match schema with
    | text => .ok (.text s)
    | name known =>
      match nameOf? known s with
      | some n => .ok (.text n)
      | none => .error (.unknownName s known)
    | _ => .error .shape
  | .array items close =>
    match schema with
    | list item => do
      let ds ← readItems (depth - 1) item items
      after close (.ok (.list ds))
    | record fields => do return .record (← readPositions (depth - 1) fields close items)
    | variant key cases =>
      match items with
      | [] => after close (.error (.missingField key))
      | .text s :: rest =>
        match cases.lookup s with
        | none => .error .shape
        | some fields =>
          after ((Scan.wholeItems (depth - 1) rest).or close) do
            return .variant s (← asShape (readPositions (depth - 1) fields close rest))
      | v :: _ => .error (mismatch v)
    | _ => .error .shape
  | .object members close =>
    match schema with
    | dictionary value => do
      let es ← readEntries (depth - 1) value members
      after close (.ok (.dictionary es))
    | record fields => do
      let met ← readMembers (depth - 1) fields [] members
      after close do return .record (← settle met fields)
    | variant key cases => do
      let chosen ← choice key cases (depth - 1) none members
      after close do
        match chosen with
        | none => throw (.missingField key)
        | some (s, fields) => asShape do
          let met ← readMembers (depth - 1) fields [] members
          return .variant s (← settle met fields)
    | _ => .error .shape

/-- elements that all have one shape -/
def readItems (depth : Nat) (item : Schema) : List Scan → Except Fault (List Datum)
  | [] => .ok []
  | v :: vs => do
    let d ← read depth item v
    return d :: (← readItems depth item vs)

/-- the fields of a record written as an array -/
def readPositions (depth : Nat) (fields : List RecordField) (close : Option Fault) :
    List Scan → Except Fault (List Datum)
  | [] => after close (standIns fields)
  | v :: vs =>
    match fields with
    | [] => .error .malformed
    | (_, presence, _, schema) :: fs => do
      let d ← if presence.admitsNull && v.isNull then pure .none else read depth schema v
      return d :: (← readPositions depth fs close vs)

/-- the declared fields among the members, in the order met; `met` are those before -/
def readMembers (depth : Nat) (fields : List RecordField) (met : List (String × Datum)) :
    List (Except Flaw String × Scan) → Except Fault (List (String × Datum))
  | [] => .ok met
  | (k, v) :: ms => do
    let key ← keyText k
    match fields.lookup key with
    | none => after v.skip (readMembers depth fields met ms)
    | some (presence, _, schema) =>
      if (met.lookup key).isSome then throw .shape
      let d ← if presence.admitsNull && v.isNull then pure .none else read depth schema v
      readMembers depth fields (met ++ [(key, d)]) ms

/-- members whose keys are free -/
def readEntries (depth : Nat) (value : Schema) :
    List (Except Flaw String × Scan) → Except Fault (List (String × Datum))
  | [] => .ok []
  | (k, v) :: ms => do
    let key ← keyText k
    let d ← read depth value v
    return (key, d) :: (← readEntries depth value ms)
end

/-- how deep brackets may stand in a text -/
def maxDepth : Nat := 128

/-- the datum of a whole text: one value with white space around it -/
def readText (schema : Schema) (s : String) : Except Fault Datum := do
  let (scan, rest) := Scan.ofText s
  let d ← schema.read maxDepth scan
  match rest.map Scan.skipSpace with
  | some [] => return d
  | _ => throw .malformed

/-! ## Writing -/

mutual
/-- the JSON value for a datum; `null` for one of another shape -/
def write (schema : Schema) (datum : Datum) : Json :=
  match datum with
  | .none => .null
  | .flag b => .bool b
  | .count n => .number n
  | .text s => .text s
  | .list items =>
    match schema with
    | list item => .array (writeItems item items)
    | _ => .null
  | .dictionary entries =>
    match schema with
    | dictionary value => .object (writeEntries value entries)
    | _ => .null
  | .record ds =>
    match schema with
    | record fields => .object (writeFields fields ds)
    | _ => .null
  | .variant s ds =>
    match schema with
    | variant key cases => .object ((key, .text s) :: writeFields ((cases.lookup s).getD []) ds)
    | _ => .null

def writeItems (item : Schema) : List Datum → List Json
  | [] => []
  | d :: ds => write item d :: writeItems item ds

def writeEntries (value : Schema) : List (String × Datum) → List (String × Json)
  | [] => []
  | (k, d) :: es => (k, write value d) :: writeEntries value es

/-- the fields in order; one that holds nothing may be left out -/
def writeFields (fields : List RecordField) : List Datum → List (String × Json)
  | [] => []
  | d :: ds =>
    match fields with
    | [] => []
    | (key, presence, _, schema) :: fs =>
      match presence, d with
      | .omitted, .none => writeFields fs ds
      | _, d => (key, write schema d) :: writeFields fs ds
end

end Schema

/-! ## Types with a schema -/

/-- a type whose values are written by a schema -/
class Encoded (α : Type) where
  schema : Schema
  toDatum : α → Datum
  ofDatum? : Datum → Option α

namespace Encoded

variable {α : Type} [Encoded α]

/-- the JSON value of `a` -/
def toJson (a : α) : Json := (schema α).write (toDatum a)

def compact (a : α) : String := (toJson a).compact

def pretty (a : α) : String := (toJson a).pretty

variable (α) in
/-- the value of a datum that was read -/
def ofDatum (d : Datum) : Except Fault α :=
  match ofDatum? d with
  | some a => .ok a
  | none => .error .shape

variable (α) in
/-- the value that a scan holds -/
def ofScan (s : Scan) : Except Fault α := (schema α).read Schema.maxDepth s >>= ofDatum α

variable (α) in
/-- the value that a text holds -/
def parse (s : String) : Except Fault α := (schema α).readText s >>= ofDatum α

end Encoded

/-! ## Data of common types -/

namespace Datum

def texts (xs : List String) : Datum := .list (xs.map .text)

/-- a text, or nothing -/
def ofText? : Option String → Datum
  | some s => .text s
  | Option.none => .none

def asText? : Datum → Option String
  | .text s => some s
  | _ => Option.none

def asCount? : Datum → Option Nat
  | .count n => some n
  | _ => Option.none

/-- the elements, each read by `f` -/
def asList? {α : Type} (f : Datum → Option α) : Datum → Option (List α)
  | .list ds => ds.mapM f
  | _ => Option.none

def asTexts? : Datum → Option (List String) := asList? asText?

/-- nothing, or a value read by `f` -/
def asOption? {α : Type} (f : Datum → Option α) : Datum → Option (Option α)
  | .none => some Option.none
  | d => (f d).map some

end Datum

/-- lists are written as arrays -/
instance {α : Type} [Encoded α] : Encoded (List α) where
  schema := .list (Encoded.schema α)
  toDatum xs := .list (xs.map Encoded.toDatum)
  ofDatum? := Datum.asList? Encoded.ofDatum?

instance : Encoded String where
  schema := .text
  toDatum := .text
  ofDatum? := Datum.asText?

end BuildImport
