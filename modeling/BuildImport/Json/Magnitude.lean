/-
How large the numbers of a text may be.

A number is taken as a significand below `2 ^ 64` and a power of ten: digits go into the significand for as long as they
fit, and of the others only those before the point count, each as one more factor of ten. Its value is then computed
with fifty-three binary digits. The significand, the power and their product are each rounded to the nearest such value,
and a number whose product is rounded past the largest of them is too large. Digits that did not fit therefore never
decide, and a power below one makes nothing too large.

`round_of_lt` says that whole numbers of at most fifty-three binary digits stay what they are.
-/
namespace BuildImport

/-- the number `significand * 10 ^ exponent` -/
structure Magnitude where
  significand : Nat
  exponent : Int
  deriving DecidableEq, Repr, Inhabited

namespace Magnitude

/-- significands lie below this -/
def significandEnd : Nat := Nat.pow 2 64

/-- appends digits to a significand for as long as they fit, and gives the digits that are left -/
def fill (n : Nat) : List Nat → Nat × List Nat
  | [] => (n, [])
  | d :: ds => if n * 10 + d < significandEnd then fill (n * 10 + d) ds else (n, d :: ds)

/-- a number of its digits before and after the point and its exponent. Digits after the point go on filling the
significand even where one before it did not fit. -/
def ofDigits (whole frac : List Nat) (exponent : Int) : Magnitude :=
  let (n, before) := fill 0 whole
  let (significand, after) := fill n frac
  ⟨significand, exponent + before.length - (frac.length - after.length)⟩

/-- the value of the last of the fifty-three binary digits that a number keeps -/
def lastPlace (n : Nat) : Nat := Nat.pow 2 (n.log2 + 1 - 53)

/-- a number rounded to fifty-three binary digits; a half goes to the even neighbour -/
def round (n : Nat) : Nat :=
  let place := lastPlace n
  let q := n / place
  let twice := 2 * (n % place)
  if twice < place then q * place
  else if twice > place then (q + 1) * place
  else (q + q % 2) * place

theorem round_of_lt {n : Nat} (h : n < Nat.pow 2 53) : round n = n := by
  have short : n.log2 + 1 - 53 = 0 := by
    by_cases hn : n = 0
    · simp [hn]
    · have := (Nat.log2_lt hn).2 h
      omega
  have place : lastPlace n = 1 := by rw [lastPlace, short]
  simp [round, place, Nat.mod_one]

/-- products from here on are rounded past the largest value: half a place above it -/
def rangeEnd : Nat := Nat.pow 2 1024 - Nat.pow 2 970

/-- whether a number is too large to be held. The largest power of ten in the range is `10 ^ 308`. -/
def isTooLarge (m : Magnitude) : Bool :=
  if m.significand = 0 then false
  else
    match m.exponent with
    | .ofNat k => if k > 308 then true else decide (rangeEnd ≤ round m.significand * round (Nat.pow 10 k))
    | .negSucc _ => false

end Magnitude

end BuildImport
