/-
White space: the characters with the Unicode property White_Space.

The property is a fixed list of twenty-five characters. Core's `Char.isWhitespace` knows only the ASCII ones among them.
-/
namespace BuildImport.Text

/-- the code points with the property White_Space -/
def blankCodes : List Nat :=
  [0x9, 0xA, 0xB, 0xC, 0xD, 0x20, 0x85, 0xA0, 0x1680, 0x2000, 0x2001, 0x2002, 0x2003, 0x2004, 0x2005, 0x2006, 0x2007,
   0x2008, 0x2009, 0x200A, 0x2028, 0x2029, 0x202F, 0x205F, 0x3000]

def isBlank (c : Char) : Bool := blankCodes.contains c.toNat

end BuildImport.Text
