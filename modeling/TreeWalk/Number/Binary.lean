/-
Floating-point numbers as exact binary fractions.

`ofBits` splits a number into its sign and the exact value `mantissa * 2 ^ exponent`.
What is printed, read or divided exactly starts from this view, in `Nat` and
`Int`, and never from a rounded operation.
-/
import TreeWalk.Number.Double

namespace TreeWalk

/-- The exact meaning of a floating-point number. -/
inductive Binary where
  | notANumber
  | infinite (negative : Bool)
  /-- Plus or minus `mantissa * 2 ^ exponent`. -/
  | finite (negative : Bool) (mantissa : Nat) (exponent : Int)
  deriving DecidableEq, Repr

namespace Binary

/-- The exponent of the last place of the smallest numbers. -/
def leastExponent : Int := -1074

def ofBits (bits : UInt64) : Binary :=
  let bits := bits.toNat
  let negative := bits / Nat.pow 2 63 = 1
  let biased : Nat := bits / Nat.pow 2 52 % Nat.pow 2 11
  let fraction : Nat := bits % Nat.pow 2 52
  if biased = 2047 then
    if fraction = 0 then infinite negative else notANumber
  else if biased = 0 then finite negative fraction leastExponent
  else finite negative (Nat.pow 2 52 + fraction) ((biased : Int) - 1075)

def ofDouble (x : Double) : Binary := ofBits x.bits

/-- The number `mantissa * 2 ^ exponent`, for a mantissa of at most 53 bits and
an exponent in reach. -/
def scaled (negative : Bool) (mantissa : Nat) (exponent : Int) : Double :=
  let x := Double.ofFloat ((Float.ofNat mantissa).scaleB exponent)
  if negative then -x else x

/-- The remainder of `x` by `y` with the sign of `x`, computed exactly: both
numbers are multiples of the smaller of their last places, and the remainder of
those multiples fits where the smaller number does. -/
def remainder (x y : Double) : Double :=
  match ofDouble x, ofDouble y with
  | .notANumber, _ => x
  | _, .notANumber => y
  | .finite negative m e, .finite _ n f =>
    if n = 0 then Double.indefinite
    else
      let place := min e f
      scaled negative ((m * Nat.pow 2 (e - place).toNat) % (n * Nat.pow 2 (f - place).toNat)) place
  | .finite .., .infinite _ => x
  | .infinite _, _ => Double.indefinite

/-- `x` without its fraction. -/
def truncate (x : Float) : Float := if x < 0.0 then x.ceil else x.floor

/-- The word that `x` without its fraction is, if 64 bits hold it. -/
def toWord? (x : Double) : Option Int64 :=
  let t := truncate x.toFloat
  if -9223372036854775808.0 ≤ t ∧ t < 9223372036854775808.0 then some t.toInt64 else none

end Binary
end TreeWalk
