/-
Ranges, indices and slices.

Indices and bounds are 64-bit integers; negative ones count from the end.
Lengths are natural numbers, but a sequence longer than the greatest integer
cannot be indexed.
-/
import TreeWalk.Value.Basic

namespace TreeWalk

namespace Range

/-- The greatest length that is told apart from greater ones. -/
def lengthLimit : Nat := Nat.pow 2 64 - 1

/-- The number of integers in the range. -/
def length (r : Range) : Nat :=
  if r.stop.toInt < r.start.toInt then 0
  else min ((r.stop.toInt - r.start.toInt).toNat + 1) lengthLimit

def contains (r : Range) (n : Int64) : Bool := r.start ≤ n && n ≤ r.stop

/-- `n` integers from `start` on. -/
def countFrom (start : Int) : Nat → List Int
  | 0 => []
  | n + 1 => start :: countFrom (start + 1) n

/-- The integers of the range in increasing order. -/
def toList (r : Range) : List Int64 :=
  (countFrom r.start.toInt (r.stop.toInt - r.start.toInt + 1).toNat).map Int64.ofInt

/-- The range as `start..stop`. -/
def text (r : Range) : String := s!"{r.start.toInt}..{r.stop.toInt}"

/-- The `n`-th integer of the range. -/
def get (r : Range) (n : Nat) : Int64 := Word.saturate (r.start.toInt + n)

end Range

namespace Sequence

/-- A length as an integer, if it is one. -/
def length? (length : Nat) : Option Int := if (length : Int) ≤ Word.greatest then some length else none

/-- An index counted from the front. -/
def fromFront (i : Int64) (length : Int) : Int := if i.toInt < 0 then i.toInt + length else i.toInt

/-- The position that an index names in a sequence of a given length. -/
def resolveIndex? (i : Int64) (length : Nat) : Option Nat := do
  let n ← length? length
  let j := fromFront i n
  if 0 ≤ j ∧ j < n then some j.toNat else none

/-- The positions between which a slice of a sequence of a given length lies. -/
def sliceBounds? (start stop : Int64) (length : Nat) : Option (Nat × Nat) := do
  let n ← length? length
  let low := fromFront start n
  let high := fromFront stop n
  if 0 ≤ low ∧ low ≤ high ∧ high ≤ n then some (low.toNat, high.toNat) else none

/-- The part of a list between two positions. -/
def slice {α : Type} (items : List α) (low high : Nat) : List α := (items.take high).drop low

end Sequence
end TreeWalk
