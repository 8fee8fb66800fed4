/-
Ranges of characters as ranges of bytes.

The UTF-8 forms of a range of characters are, in general, not one range of bytes
after another; the range has to be cut first.  A piece is right when its
characters are of equal length and every byte runs through its range
independently of the others.
-/
import TreeWalk.Text.CharSet

namespace TreeWalk
namespace Regex
namespace Utf8

/-- The bytes of a code point. -/
def encode (n : Nat) : List Nat :=
  if n < 0x80 then [n]
  else if n < 0x800 then [0xC0 + n / 64, 0x80 + n % 64]
  else if n < 0x10000 then [0xE0 + n / 4096, 0x80 + n / 64 % 64, 0x80 + n % 64]
  else [0xF0 + n / 262144, 0x80 + n / 4096 % 64, 0x80 + n / 64 % 64, 0x80 + n % 64]

/-- Where a range has to be cut because lengths differ: behind the last character
of a length. -/
def lengthCut? (first last : Nat) : Option Nat :=
  [0x80, 0x800, 0x10000].find? fun n => first < n && n ≤ last

/-- Where a range has to be cut because the characters under a byte do not take
all forms; `block` is the number of characters that share the bytes before. -/
def blockCut? (first last block : Nat) : Option Nat :=
  if first / block = last / block then none
  else if first % block ≠ 0 then some ((first / block + 1) * block)
  else if last % block ≠ block - 1 then some (last / block * block)
  else none

/-- Where a range has to be cut first, if anywhere. -/
def cut? (first last : Nat) : Option Nat :=
  match lengthCut? first last with
  | some n => some n
  | none => if last < 0x80 then none else [64, 4096, 262144].findSome? (blockCut? first last)

/-- The ranges of bytes of a range of characters without surrogates. -/
def sequencesOf (first last : Nat) : List (List (Nat × Nat)) :=
  match cut? first last with
  | some n =>
    if _h : first < n ∧ n ≤ last then sequencesOf first (n - 1) ++ sequencesOf n last
    else [(encode first).zip (encode last)]
  | none => [(encode first).zip (encode last)]
termination_by last - first
decreasing_by all_goals omega

/-- The ranges of bytes of a range of code points, in order. -/
def sequences (range : Nat × Nat) : List (List (Nat × Nat)) :=
  let (first, last) := range
  let low := min last 0xD7FF
  let high := max first 0xE000
  (if first ≤ low then sequencesOf first low else []) ++
    (if high ≤ last then sequencesOf high last else [])

/-- The ranges of bytes of a set of characters, in order. -/
def ofSet (set : CharSet) : List (List (Nat × Nat)) := set.ranges.flatMap sequences

end Utf8
end Regex
end TreeWalk
