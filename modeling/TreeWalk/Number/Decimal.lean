/-
The decimal text of floating-point numbers.

A number is shown with the fewest digits that read back as it, never with an
exponent and with no fraction where there is none; or, on request, with a fixed
number of places, rounded from the exact binary value with a half going to the
even neighbour.
-/
import TreeWalk.Number.Binary

namespace TreeWalk
namespace Decimal

/-- `num / den` to the nearest integer, a half to the even one. -/
def roundHalfEven (num den : Nat) : Nat :=
  let q := num / den
  let r := num % den
  if 2 * r < den then q
  else if den < 2 * r then q + 1
  else if q % 2 = 0 then q else q + 1

/-- A ratio of natural numbers as `num * 10 ^ scale / den`, with the power moved
to the side on which it is a whole number. -/
def scaleTen (num den : Nat) (scale : Int) : Nat × Nat :=
  if 0 ≤ scale then (num * Nat.pow 10 scale.toNat, den) else (num, den * Nat.pow 10 (-scale).toNat)

/-- The first of `e, e - 1, …` at which `10 ^ e` does not exceed `num / den`,
looking at no more than `fuel` of them. -/
def exponentFrom (num den : Nat) : Nat → Int → Int
  | 0, e => e
  | fuel + 1, e =>
    let (n, d) := scaleTen num den (-e)
    if d ≤ n then e else exponentFrom num den fuel (e - 1)

/-- The exponent of the leading decimal digit of `num / den`, for a positive
ratio.  The binary lengths bound the ratio within a factor of four, and
`log₁₀ 2` is a little below `30103 / 100000`, so the search from the estimate is
a few steps long. -/
def leadingExponent (num den : Nat) : Int :=
  let binary : Int := (num.log2 : Int) + 1 - den.log2
  exponentFrom num den 8 (Int.fdiv (binary * 30103) 100000 + 1)

/-- The set of numbers that read back as a given one: the ratios between
`low / den` and `high / den`, the ends included if `closed`. -/
structure Interval where
  low : Nat
  value : Nat
  high : Nat
  den : Nat
  closed : Bool

namespace Interval

/-- The interval of `mantissa * 2 ^ exponent`.  It reaches half way to the two
neighbours; below a power of two the neighbour is only half as far.  The ends
read back as the number itself exactly when its mantissa is even. -/
def ofBinary (mantissa : Nat) (exponent : Int) : Interval :=
  let nearBelow := mantissa = Nat.pow 2 52 ∧ Binary.leastExponent < exponent
  let up := exponent.toNat
  let down := (-exponent).toNat
  { low := (4 * mantissa - (if nearBelow then 1 else 2)) * Nat.pow 2 up
    value := 4 * mantissa * Nat.pow 2 up
    high := (4 * mantissa + 2) * Nat.pow 2 up
    den := 4 * Nat.pow 2 down
    closed := mantissa % 2 = 0 }

/-- Whether `digits * 10 ^ place` lies in the interval. -/
def contains (i : Interval) (digits : Nat) (place : Int) : Bool :=
  let (point, den) := scaleTen (digits * i.den) 1 place
  if i.closed then i.low * den ≤ point ∧ point ≤ i.high * den
  else i.low * den < point ∧ point < i.high * den

/-- The digits and the place of the shortest decimal in the interval, trying
`count` digits and then more.  On the grid of a place only the two neighbours of
the value need a look.  Of two that fit the nearer is taken, the upper one if
they are equally near. -/
def shortest (i : Interval) (lead : Int) : Nat → Nat → Nat × Int
  | 0, count => (0, lead - count)
  | fuel + 1, count =>
    let place := lead - count + 1
    let (num, den) := scaleTen i.value i.den (-place)
    let below := num / den
    match i.contains below place, i.contains (below + 1) place with
    | true, true => (if den ≤ 2 * (num % den) then below + 1 else below, place)
    | true, false => (below, place)
    | false, true => (below + 1, place)
    | false, false => i.shortest lead fuel (count + 1)

end Interval

/-- The fewest digits, with their place, that read back as
`mantissa * 2 ^ exponent`.  Seventeen digits always do.  Only the step from 9 up
to 10 leaves a final zero, which moves into the place. -/
def shortestDigits (mantissa : Nat) (exponent : Int) : Nat × Int :=
  if mantissa = 0 then (0, 0)
  else
    let i := Interval.ofBinary mantissa exponent
    let (digits, place) := i.shortest (leadingExponent i.value i.den) 18 1
    if digits % 10 = 0 then (digits / 10, place + 1) else (digits, place)

/-- `digits * 10 ^ place` written out in full. -/
def positional (digits : Nat) (place : Int) : String :=
  let text := Nat.repr digits
  if 0 ≤ place then
    if digits = 0 then text else text ++ String.ofList (List.replicate place.toNat '0')
  else
    let places := (-place).toNat
    let padded := String.ofList (List.replicate (places + 1 - text.length) '0') ++ text
    let whole := padded.length - places
    String.ofList (padded.toList.take whole) ++ "." ++ String.ofList (padded.toList.drop whole)

def signed (negative : Bool) (text : String) : String := if negative then "-" ++ text else text

/-- The shortest text that reads back as `x`. -/
def text (x : Double) : String :=
  match Binary.ofDouble x with
  | .notANumber => "NaN"
  | .infinite negative => signed negative "inf"
  | .finite negative mantissa exponent =>
    let (digits, place) := shortestDigits mantissa exponent
    signed negative (positional digits place)

/-- `x` with exactly `places` digits after the point. -/
def fixedText (x : Double) (places : Nat) : String :=
  match Binary.ofDouble x with
  | .notANumber => "NaN"
  | .infinite negative => signed negative "inf"
  | .finite negative mantissa exponent =>
    let num := mantissa * Nat.pow 2 exponent.toNat * Nat.pow 10 places
    let digits := roundHalfEven num (Nat.pow 2 (-exponent).toNat)
    signed negative (positional digits (-places))

end Decimal
end TreeWalk
