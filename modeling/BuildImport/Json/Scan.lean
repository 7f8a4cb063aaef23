/-
What a text holds when it is read as JSON, faults included.

A reader that knows which value it wants meets the faults of a text one after the other, and only the first one counts:
a wrong shape early in the text comes before a missing bracket at its end. So scanning never fails. It gives a tree in
which every fault stands where it was found, and whoever walks the tree in the order of the text reports the first
fault on the way.

A value that nobody wants is passed over, and passing over is more lenient than reading: it does not put the halves of
a surrogate pair together and does not ask whether a number is too large. A `Flaw` therefore says what reading reports
and what passing over reports.
-/
import BuildImport.Json.Magnitude

namespace BuildImport

/-- why a text cannot be read as the wanted value -/
inductive Fault where
  /-- the text ends too early -/
  | unfinished
  /-- the text is not JSON -/
  | malformed
  /-- the text is JSON of another shape -/
  | shape
  /-- an object lacks a key that it must have -/
  | missingField (name : String)
  /-- a text is none of the names it may be -/
  | unknownName (given : String) (expected : List String)
  deriving DecidableEq, Repr, Inhabited

/-- a part that cannot be read: the fault for a reader who wants it, and for one who passes over it, if any -/
structure Flaw where
  read : Fault
  skip : Option Fault
  deriving DecidableEq, Repr

namespace Flaw

/-- the same fault for everyone -/
def plain (f : Fault) : Flaw := ⟨f, some f⟩

end Flaw

/-- a text taken apart. A number counts only when it is written as digits alone; a sign, a fraction or an exponent
gives `number none`. `close` is the fault found in the place of a comma or of the closing bracket. -/
inductive Scan where
  | flawed (flaw : Flaw)
  | null
  | bool (b : Bool)
  | number (n : Option Nat)
  | text (s : String)
  | array (items : List Scan) (close : Option Fault)
  | object (members : List (Except Flaw String × Scan)) (close : Option Fault)

namespace Scan

def isNull : Scan → Bool
  | null => true
  | _ => false

/-- a piece of the text and what follows it; nothing follows a fault that stops the scan -/
abbrev Step (α : Type) := α × Option (List Char)

/-! ## Tokens -/

/-- the white space of JSON -/
def isSpace (c : Char) : Bool := c = ' ' || c = '\n' || c = '\t' || c = '\r'

def skipSpace (cs : List Char) : List Char := cs.dropWhile isSpace

/-- the letters of a literal -/
def literal (value : Scan) : List Char → List Char → Step Scan
  | [], cs => (value, some cs)
  | _ :: _, [] => (flawed (.plain .unfinished), none)
  | w :: ws, c :: cs => if w = c then literal value ws cs else (flawed (.plain .malformed), none)

/-- the value of a hexadecimal digit -/
def hexValue? (c : Char) : Option Nat :=
  if '0' ≤ c ∧ c ≤ '9' then some (c.toNat - 48)
  else if 'a' ≤ c ∧ c ≤ 'f' then some (c.toNat - 87)
  else if 'A' ≤ c ∧ c ≤ 'F' then some (c.toNat - 55)
  else none

/-- four hexadecimal digits. Where fewer than four bytes are left the text ends too early, whatever they are. -/
def hexCode (cs : List Char) : Except Fault (Nat × List Char) :=
  match cs with
  | a :: b :: c :: d :: rest =>
    match hexValue? a, hexValue? b, hexValue? c, hexValue? d with
    | some a, some b, some c, some d => .ok (((a * 16 + b) * 16 + c) * 16 + d, rest)
    | _, _, _, _ => .error .malformed
  | short => .error (if (String.ofList short).utf8ByteSize < 4 then .unfinished else .malformed)

/-- the character that a one-letter escape stands for -/
def escaped? (c : Char) : Option Char :=
  match c with
  | '"' => some '"'
  | '\\' => some '\\'
  | '/' => some '/'
  | 'b' => some '\x08'
  | 'f' => some '\x0c'
  | 'n' => some '\n'
  | 'r' => some '\r'
  | 't' => some '\t'
  | _ => none

/-- first halves of surrogate pairs -/
def isHighSurrogate (n : Nat) : Bool := 0xD800 ≤ n && n ≤ 0xDBFF

/-- second halves of surrogate pairs -/
def isLowSurrogate (n : Nat) : Bool := 0xDC00 ≤ n && n ≤ 0xDFFF

/-- the second half of the pair that `high` starts, and the character of the two -/
def lowHalf (high : Nat) : List Char → Except Fault (Char × List Char)
  | '\\' :: 'u' :: rest => do
    let (low, rest) ← hexCode rest
    if isLowSurrogate low then return (Char.ofNat (0x10000 + (high - 0xD800) * 0x400 + (low - 0xDC00)), rest)
    else throw .malformed
  | [] => .error .unfinished
  | ['\\'] => .error .unfinished
  | _ => .error .malformed

/-- the character of a `\u` escape, possibly of two of them -/
def unicodeEscape (cs : List Char) : Except Fault (Char × List Char) := do
  let (n, rest) ← hexCode cs
  if isLowSurrogate n then throw .malformed
  else if isHighSurrogate n then lowHalf n rest
  else return (Char.ofNat n, rest)

/-- passes over a text up to its closing quote: escapes are looked at, but pairs are not put together -/
def skipText : Nat → List Char → Except Fault (List Char)
  | _, [] => .error .unfinished
  | 0, _ => .error .unfinished
  | fuel + 1, c :: cs =>
    if c = '"' then .ok cs
    else if c = '\\' then
      match cs with
      | [] => .error .unfinished
      | 'u' :: rest => do
        let (_, rest) ← hexCode rest
        skipText fuel rest
      | e :: rest => if (escaped? e).isSome then skipText fuel rest else .error .malformed
    else if c.toNat < 32 then .error .malformed
    else skipText fuel cs

/-- reads a text up to its closing quote; `fuel` bounds its characters -/
def readText : Nat → List Char → Except Fault (List Char × List Char)
  | _, [] => .error .unfinished
  | 0, _ => .error .unfinished
  | fuel + 1, c :: cs =>
    if c = '"' then .ok ([], cs)
    else if c = '\\' then
      match cs with
      | [] => .error .unfinished
      | 'u' :: rest => do
        let (x, rest) ← unicodeEscape rest
        let (xs, rest) ← readText fuel rest
        return (x :: xs, rest)
      | e :: rest =>
        match escaped? e with
        | some x => do
          let (xs, rest) ← readText fuel rest
          return (x :: xs, rest)
        | none => .error .malformed
    else if c.toNat < 32 then .error .malformed
    else do
      let (xs, rest) ← readText fuel cs
      return (c :: xs, rest)

/-- a text after its opening quote -/
def string (cs : List Char) : Step (Except Flaw String) :=
  match readText (cs.length + 1) cs with
  | .ok (xs, rest) => (.ok (String.ofList xs), some rest)
  | .error f =>
    match skipText (cs.length + 1) cs with
    | .ok rest => (.error ⟨f, none⟩, some rest)
    | .error g => (.error ⟨f, some g⟩, none)

/-! ## Numbers -/

def takeDigits (cs : List Char) : List Char × List Char := (cs.takeWhile Char.isDigit, cs.dropWhile Char.isDigit)

def digitValue (c : Char) : Nat := c.toNat - 48

def natOf (ds : List Char) : Nat := ds.foldl (fun n d => n * 10 + digitValue d) 0

/-- digits where at least one is needed. A reader tells the end of the text from a wrong character, one who passes over
does not. -/
def someDigits (cs : List Char) : Except Flaw (List Char × List Char) :=
  match takeDigits cs with
  | ([], []) => .error ⟨.unfinished, some .malformed⟩
  | ([], _) => .error (.plain .malformed)
  | taken => .ok taken

/-- the digits before a point: a zero stands alone -/
def wholePart (cs : List Char) : Except Flaw (List Char × List Char) := do
  let (ds, rest) ← someDigits cs
  match ds with
  | '0' :: _ :: _ => throw (.plain .malformed)
  | _ => return (ds, rest)

/-- the digits after a point, if there is one -/
def fraction : List Char → Except Flaw (Option (List Char) × List Char)
  | '.' :: cs => do
    let (ds, rest) ← someDigits cs
    return (some ds, rest)
  | cs => .ok (none, cs)

/-- the exponent, if there is one -/
def exponentPart : List Char → Except Flaw (Option Int × List Char)
  | c :: cs =>
    if c = 'e' ∨ c = 'E' then
      match cs with
      | '-' :: cs => do
        let (ds, rest) ← someDigits cs
        return (some (-(natOf ds : Int)), rest)
      | '+' :: cs => do
        let (ds, rest) ← someDigits cs
        return (some (natOf ds : Int), rest)
      | cs => do
        let (ds, rest) ← someDigits cs
        return (some (natOf ds : Int), rest)
    else .ok (none, c :: cs)
  | [] => .ok (none, [])

/-- a number without its sign -/
def numeral (negative : Bool) (cs : List Char) : Step Scan :=
  let parts : Except Flaw (Option Nat × Bool × List Char) := do
    let (whole, rest) ← wholePart cs
    let (frac, rest) ← fraction rest
    let (exp, rest) ← exponentPart rest
    let size := Magnitude.ofDigits (whole.map digitValue) ((frac.getD []).map digitValue) (exp.getD 0)
    return (if negative ∨ frac.isSome ∨ exp.isSome then none else some (natOf whole), size.isTooLarge, rest)
  match parts with
  | .ok (n, false, rest) => (number n, some rest)
  | .ok (_, true, rest) => (flawed ⟨.malformed, none⟩, some rest)
  | .error flaw => (flawed flaw, none)

/-! ## Values -/

/-- the end of an array or object in the place of a comma: what closes it, or a fault -/
def closing (bracket : Char) : List Char → Option (List Char) × Option Fault
  | [] => (none, some .unfinished)
  | c :: cs => if c = bracket then (some cs, none) else (none, some .malformed)

mutual
/-- one value; `fuel` bounds the length of the text -/
def value : Nat → List Char → Step Scan
  | 0, _ => (flawed (.plain .unfinished), none)
  | fuel + 1, cs =>
    match skipSpace cs with
    | [] => (flawed (.plain .unfinished), none)
    | 'n' :: rest => literal null ['u', 'l', 'l'] rest
    | 't' :: rest => literal (bool true) ['r', 'u', 'e'] rest
    | 'f' :: rest => literal (bool false) ['a', 'l', 's', 'e'] rest
    | '"' :: rest =>
      match string rest with
      | (.ok s, rest) => (text s, rest)
      | (.error flaw, rest) => (flawed flaw, rest)
    | '-' :: rest => numeral true rest
    | '[' :: rest =>
      match skipSpace rest with
      | [] => (array [] (some .unfinished), none)
      | ']' :: rest => (array [] none, some rest)
      | rest =>
        let (items, close, rest) := elements fuel rest
        (array items close, rest)
    | '{' :: rest =>
      match skipSpace rest with
      | [] => (object [] (some .unfinished), none)
      | '}' :: rest => (object [] none, some rest)
      | '"' :: rest =>
        let (ms, close, rest) := members fuel rest
        (object ms close, rest)
      | _ => (object [] (some .malformed), none)
    | c :: rest => if c.isDigit then numeral false (c :: rest) else (flawed (.plain .malformed), none)

/-- the elements from here on, at least one -/
def elements : Nat → List Char → List Scan × Option Fault × Option (List Char)
  | 0, _ => ([], some .unfinished, none)
  | fuel + 1, cs =>
    match value fuel cs with
    | (v, none) => ([v], none, none)
    | (v, some rest) =>
      match skipSpace rest with
      | ',' :: rest =>
        match skipSpace rest with
        | ']' :: _ => ([v, flawed (.plain .malformed)], none, none)
        | rest =>
          let (vs, close, rest) := elements fuel rest
          (v :: vs, close, rest)
      | rest =>
        let (rest, close) := closing ']' rest
        ([v], close, rest)

/-- the members from here on, at least one; the quote that opens the key is gone -/
def members : Nat → List Char → List (Except Flaw String × Scan) × Option Fault × Option (List Char)
  | 0, _ => ([], some .unfinished, none)
  | fuel + 1, cs =>
    match string cs with
    | (key, none) => ([(key, null)], none, none)
    | (key, some rest) =>
      match skipSpace rest with
      | [] => ([(key, flawed (.plain .unfinished))], none, none)
      | ':' :: rest =>
        match value fuel rest with
        | (v, none) => ([(key, v)], none, none)
        | (v, some rest) =>
          match skipSpace rest with
          | ',' :: rest =>
            match skipSpace rest with
            | '"' :: rest =>
              let (ms, close, rest) := members fuel rest
              ((key, v) :: ms, close, rest)
            | [] => ([(key, v)], some .unfinished, none)
            | _ => ([(key, v)], some .malformed, none)
          | rest =>
            let (rest, close) := closing '}' rest
            ([(key, v)], close, rest)
      | _ => ([(key, flawed (.plain .malformed))], none, none)
end

/-- the first value of a text and what follows it -/
def ofText (s : String) : Step Scan := value (2 * s.length + 2) s.toList

/-! ## Passing over -/

mutual
/-- the first fault met when the value is passed over -/
def skip : Scan → Option Fault
  | flawed flaw => flaw.skip
  | null => none
  | bool _ => none
  | number _ => none
  | text _ => none
  | array items close => (skipItems items).or close
  | object ms close => (skipMembers ms).or close

def skipItems : List Scan → Option Fault
  | [] => none
  | v :: vs => (skip v).or (skipItems vs)

def skipMembers : List (Except Flaw String × Scan) → Option Fault
  | [] => none
  | (key, v) :: ms =>
    let atKey := match key with
      | .ok _ => none
      | .error flaw => flaw.skip
    (atKey.or (skip v)).or (skipMembers ms)
end

/-! ## Reading everything -/

mutual
/-- the first fault met when the whole value is read without a wish for its shape; brackets may stand less than `depth`
deep -/
def whole (depth : Nat) : Scan → Option Fault
  | flawed flaw => some flaw.read
  | null => none
  | bool _ => none
  | number _ => none
  | text _ => none
  | array items close => if depth ≤ 1 then some .malformed else (wholeItems (depth - 1) items).or close
  | object ms close => if depth ≤ 1 then some .malformed else (wholeMembers (depth - 1) ms).or close

def wholeItems (depth : Nat) : List Scan → Option Fault
  | [] => none
  | v :: vs => (whole depth v).or (wholeItems depth vs)

def wholeMembers (depth : Nat) : List (Except Flaw String × Scan) → Option Fault
  | [] => none
  | (key, v) :: ms =>
    let atKey := match key with
      | .ok _ => none
      | .error flaw => some flaw.read
    (atKey.or (whole depth v)).or (wholeMembers depth ms)
end

end Scan

end BuildImport
