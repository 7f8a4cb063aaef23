/-
JSON values and their two written forms.

An object is a list of members: the order of its keys is part of the value. `compact` writes no blanks at all;
`pretty` starts a line for each element and member, two blanks deeper than the line of the bracket, and writes an
empty array or object in one piece. Both escape the same characters of a text: the quote, the backslash and the
controls below the blank; everything else stands as it is.
-/
namespace BuildImport

/-- a JSON value; the numbers are the natural ones -/
inductive Json where
  | null
  | bool (b : Bool)
  | number (n : Nat)
  | text (s : String)
  | array (items : List Json)
  | object (members : List (String × Json))
  deriving Inhabited

namespace Json

/-! ## Texts -/

/-- the hexadecimal digits, in lower case -/
def hexDigit (n : Nat) : Char := "0123456789abcdef".toList.getD n '0'

/-- how a character of a text is written -/
def escape (c : Char) : List Char :=
  if c = '"' then ['\\', '"']
  else if c = '\\' then ['\\', '\\']
  else if c = '\x08' then ['\\', 'b']
  else if c = '\x0c' then ['\\', 'f']
  else if c = '\n' then ['\\', 'n']
  else if c = '\r' then ['\\', 'r']
  else if c = '\t' then ['\\', 't']
  else if c.toNat < 32 then ['\\', 'u', '0', '0', hexDigit (c.toNat / 16), hexDigit (c.toNat % 16)]
  else [c]

/-- a text between quotes -/
def quoted (s : String) : List Char := '"' :: s.toList.flatMap escape ++ ['"']

def digits (n : Nat) : List Char := Nat.toDigits 10 n

/-! ## Compact form -/

mutual
/-- no blanks between the parts -/
def compactChars : Json → List Char
  | null => ['n', 'u', 'l', 'l']
  | bool true => ['t', 'r', 'u', 'e']
  | bool false => ['f', 'a', 'l', 's', 'e']
  | number n => digits n
  | text s => quoted s
  | array [] => ['[', ']']
  | array (v :: vs) => '[' :: compactChars v ++ compactItems vs ++ [']']
  | object [] => ['{', '}']
  | object ((k, v) :: ms) => '{' :: quoted k ++ ':' :: compactChars v ++ compactMembers ms ++ ['}']

/-- the elements after the first -/
def compactItems : List Json → List Char
  | [] => []
  | v :: vs => ',' :: compactChars v ++ compactItems vs

/-- the members after the first -/
def compactMembers : List (String × Json) → List Char
  | [] => []
  | (k, v) :: ms => ',' :: quoted k ++ ':' :: compactChars v ++ compactMembers ms
end

def compact (v : Json) : String := String.ofList v.compactChars

/-! ## Pretty form -/

/-- a new line that is `depth` steps in -/
def newLine (depth : Nat) : List Char := '\n' :: List.replicate (2 * depth) ' '

mutual
/-- one part to a line; the value itself stands `depth` steps in -/
def prettyChars (depth : Nat) : Json → List Char
  | null => ['n', 'u', 'l', 'l']
  | bool true => ['t', 'r', 'u', 'e']
  | bool false => ['f', 'a', 'l', 's', 'e']
  | number n => digits n
  | text s => quoted s
  | array [] => ['[', ']']
  | array (v :: vs) =>
    '[' :: newLine (depth + 1) ++ prettyChars (depth + 1) v ++ prettyItems (depth + 1) vs ++ newLine depth ++ [']']
  | object [] => ['{', '}']
  | object ((k, v) :: ms) =>
    '{' :: newLine (depth + 1) ++ quoted k ++ ':' :: ' ' :: prettyChars (depth + 1) v ++
      prettyMembers (depth + 1) ms ++ newLine depth ++ ['}']

/-- the elements after the first, `depth` steps in -/
def prettyItems (depth : Nat) : List Json → List Char
  | [] => []
  | v :: vs => ',' :: newLine depth ++ prettyChars depth v ++ prettyItems depth vs

/-- the members after the first, `depth` steps in -/
def prettyMembers (depth : Nat) : List (String × Json) → List Char
  | [] => []
  | (k, v) :: ms =>
    ',' :: newLine depth ++ quoted k ++ ':' :: ' ' :: prettyChars depth v ++ prettyMembers depth ms
end

def pretty (v : Json) : String := String.ofList (v.prettyChars 0)

end Json

end BuildImport
