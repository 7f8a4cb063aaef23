/-
The MD5 digest of a text, written in hexadecimal.

A message is padded to whole blocks of sixty-four bytes, a one bit first and the length of the message in bits last. Each
block changes four words in sixty-four rounds; the words after the last block, low byte first, are the digest. A stored
project is guarded by the digest of its text, against accidents only.
-/
namespace BuildImport.Digest.Md5

/-- by how much the rounds rotate -/
def shifts : List UInt32 :=
  [7, 12, 17, 22, 7, 12, 17, 22, 7, 12, 17, 22, 7, 12, 17, 22,
   5, 9, 14, 20, 5, 9, 14, 20, 5, 9, 14, 20, 5, 9, 14, 20,
   4, 11, 16, 23, 4, 11, 16, 23, 4, 11, 16, 23, 4, 11, 16, 23,
   6, 10, 15, 21, 6, 10, 15, 21, 6, 10, 15, 21, 6, 10, 15, 21]

/-- what the rounds add: the whole part of `2 ^ 32` times the sine of the round's number, without its sign -/
def sines : List UInt32 :=
  [0xd76aa478, 0xe8c7b756, 0x242070db, 0xc1bdceee, 0xf57c0faf, 0x4787c62a, 0xa8304613, 0xfd469501,
   0x698098d8, 0x8b44f7af, 0xffff5bb1, 0x895cd7be, 0x6b901122, 0xfd987193, 0xa679438e, 0x49b40821,
   0xf61e2562, 0xc040b340, 0x265e5a51, 0xe9b6c7aa, 0xd62f105d, 0x02441453, 0xd8a1e681, 0xe7d3fbc8,
   0x21e1cde6, 0xc33707d6, 0xf4d50d87, 0x455a14ed, 0xa9e3e905, 0xfcefa3f8, 0x676f02d9, 0x8d2a4c8a,
   0xfffa3942, 0x8771f681, 0x6d9d6122, 0xfde5380c, 0xa4beea44, 0x4bdecfa9, 0xf6bb4b60, 0xbebfbc70,
   0x289b7ec6, 0xeaa127fa, 0xd4ef3085, 0x04881d05, 0xd9d4d039, 0xe6db99e5, 0x1fa27cf8, 0xc4ac5665,
   0xf4292244, 0x432aff97, 0xab9423a7, 0xfc93a039, 0x655b59c3, 0x8f0ccc92, 0xffeff47d, 0x85845dd1,
   0x6fa87e4f, 0xfe2ce6e0, 0xa3014314, 0x4e0811a1, 0xf7537e82, 0xbd3af235, 0x2ad7d2bb, 0xeb86d391]

/-- the state between blocks -/
structure Words where
  a : UInt32
  b : UInt32
  c : UInt32
  d : UInt32
  deriving DecidableEq, Repr, Inhabited

def start : Words := ⟨0x67452301, 0xefcdab89, 0x98badcfe, 0x10325476⟩

def rotate (x n : UInt32) : UInt32 := (x <<< n) ||| (x >>> (32 - n))

/-- the function of round `i` and the word of the block that it takes -/
def mix (i : Nat) (w : Words) : UInt32 × Nat :=
  if i < 16 then ((w.b &&& w.c) ||| (~~~w.b &&& w.d), i)
  else if i < 32 then ((w.d &&& w.b) ||| (~~~w.d &&& w.c), (5 * i + 1) % 16)
  else if i < 48 then (w.b ^^^ w.c ^^^ w.d, (3 * i + 5) % 16)
  else (w.c ^^^ (w.b ||| ~~~w.d), (7 * i) % 16)

/-- one round: its number, rotation and summand -/
def round (block : Array UInt32) (w : Words) (step : Nat × UInt32 × UInt32) : Words :=
  let (i, shift, sine) := step
  let (f, k) := mix i w
  ⟨w.d, w.b + rotate (f + w.a + sine + block.getD k 0) shift, w.b, w.c⟩

/-- numbers, rotations and summands of the rounds -/
def steps : List (Nat × UInt32 × UInt32) := (List.range 64).zip (shifts.zip sines)

/-- the state after a block of sixteen words -/
def absorb (w : Words) (block : Array UInt32) : Words :=
  let v := steps.foldl (round block) w
  ⟨w.a + v.a, w.b + v.b, w.c + v.c, w.d + v.d⟩

/-- the low bytes of a number, the lowest first -/
def lowBytes : Nat → Nat → List UInt8
  | 0, _ => []
  | count + 1, n => UInt8.ofNat (n % 256) :: lowBytes count (n / 256)

/-- the message in whole blocks -/
def pad (message : List UInt8) : List UInt8 :=
  message ++ 0x80 :: List.replicate ((119 - message.length % 64) % 64) 0 ++ lowBytes 8 (8 * message.length)

/-- bytes as words, four to each, the low one first -/
def wordsOf : List UInt8 → List UInt32
  | b0 :: b1 :: b2 :: b3 :: rest =>
    (b0.toUInt32 ||| (b1.toUInt32 <<< 8) ||| (b2.toUInt32 <<< 16) ||| (b3.toUInt32 <<< 24)) :: wordsOf rest
  | _ => []

/-- the first `count` blocks of sixteen words -/
def blocksOf : Nat → List UInt32 → List (Array UInt32)
  | 0, _ => []
  | count + 1, ws => (ws.take 16).toArray :: blocksOf count (ws.drop 16)

def digest (message : List UInt8) : List UInt8 :=
  let ws := wordsOf (pad message)
  let w := (blocksOf (ws.length / 16) ws).foldl absorb start
  [w.a, w.b, w.c, w.d].flatMap fun x => lowBytes 4 x.toNat

/-- the digest of a text in hexadecimal digits -/
def ofText (s : String) : String :=
  String.ofList ((digest s.toUTF8.toList).flatMap fun b =>
    ((Nat.toDigits 16 (b.toNat / 16)) ++ Nat.toDigits 16 (b.toNat % 16)))

end BuildImport.Digest.Md5
