/-
Reading numbers from text.

An integer is an optional sign and one or more ASCII digits whose value fits in
64 bits.  A floating-point number is an optional sign followed by `inf`,
`infinity` or `nan` in any mixture of cases, or by digits with an optional point
(at least one digit on either side of it) and an optional exponent.
-/
import TreeWalk.Number.Double
import TreeWalk.Number.Word

namespace TreeWalk
namespace Reader

/-- A leading sign and what follows it; `true` is a minus. -/
def splitSign : List Char → Bool × List Char
  | '-' :: rest => (true, rest)
  | '+' :: rest => (false, rest)
  | rest => (false, rest)

def isDigit (c : Char) : Bool := '0' ≤ c ∧ c ≤ '9'

def digitValue (c : Char) : Nat := c.toNat - '0'.toNat

/-- The number that a list of digits denotes. -/
def digitsValue (digits : List Char) : Nat := digits.foldl (fun n c => 10 * n + digitValue c) 0

/-- The number written as one or more digits. -/
def natural? (cs : List Char) : Option Nat :=
  if cs ≠ [] ∧ cs.all isDigit then some (digitsValue cs) else none

def integer? (s : String) : Option Int64 := do
  let (negative, digits) := splitSign s.toList
  let n ← natural? digits
  Word.ofInt? (if negative then -(n : Int) else n)

/-- The exponent part: nothing, or `e`, an optional sign and digits. -/
def exponent? : List Char → Option Int
  | [] => some 0
  | c :: rest =>
    if c = 'e' ∨ c = 'E' then do
      let (negative, digits) := splitSign rest
      let n ← natural? digits
      some (if negative then -(n : Int) else n)
    else none

/-- The number nearest to `mantissa * 10 ^ exponent`.  Powers far outside the
range of the format are answered at once, so that no enormous power is built. -/
def nearest (mantissa : Nat) (exponent : Int) : Float :=
  if mantissa = 0 then 0.0
  else
    let size : Int := (Nat.repr mantissa).length + exponent
    if size < -400 then 0.0
    else if 400 < size then 1.0 / 0.0
    else if 0 ≤ exponent then Float.ofScientific (mantissa * Nat.pow 10 exponent.toNat) false 0
    else Float.ofScientific mantissa true (-exponent).toNat

/-- Digits with an optional point and an optional exponent. -/
def decimal? (cs : List Char) : Option Float :=
  let whole := cs.takeWhile isDigit
  let afterWhole := cs.dropWhile isDigit
  let (fraction, tail) :=
    match afterWhole with
    | '.' :: rest => (rest.takeWhile isDigit, rest.dropWhile isDigit)
    | rest => ([], rest)
  if whole = [] ∧ fraction = [] then none
  else do
    let e ← exponent? tail
    some (nearest (digitsValue (whole ++ fraction)) (e - fraction.length))

def float? (s : String) : Option Double := do
  let (negative, rest) := splitSign s.toList
  let x ←
    match String.ofList (rest.map Char.toLower) with
    | "inf" | "infinity" => some (Double.ofFloat (1.0 / 0.0))
    | "nan" => some Double.nan
    | _ => (decimal? rest).map Double.ofFloat
  some (if negative then -x else x)

end Reader
end TreeWalk
