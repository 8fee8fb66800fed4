/-
Suggestions for misspelt names.

A candidate is suggested when few edits lead from the name to it, where "few"
grows with the length of the name; failing that, when one of the two begins with
the other.  Of several the closest is taken, and of equally close ones the first
in alphabetical order, so that the order of the candidates does not matter.
-/

namespace TreeWalk
namespace Suggest

/-- The entries after the first of the next row of the distance table: `c` has
been appended to the first text, the list runs through the second text, and
`left` is the entry before. -/
def rowFrom (c : Char) : List Char → List Nat → Nat → List Nat
  | b :: bs, diagonal :: above :: row, left =>
    let entry := min (min (above + 1) (left + 1)) (diagonal + if c = b then 0 else 1)
    entry :: rowFrom c bs (above :: row) entry
  | _, _, _ => []

/-- The row of distances to the prefixes of `text`, after one more character. -/
def nextRow (text : List Char) (row : List Nat) (c : Char) : List Nat :=
  let first := row.headD 0 + 1
  first :: rowFrom c text row first

/-- The least number of insertions, deletions and substitutions of single
characters that turn one text into the other.  One row of the table of distances
between prefixes is kept. -/
def distance (a b : List Char) : Nat :=
  (a.foldl (nextRow b) (List.range (b.length + 1))).getLastD 0

def editDistance (a b : String) : Nat := distance a.toList b.toList

/-- The greatest distance worth a suggestion for a name of `length` characters. -/
def threshold (length : Nat) : Nat :=
  if length = 0 then 0
  else if length ≤ 2 then 1
  else if length ≤ 5 then 2
  else if length ≤ 10 then 3
  else min (length / 2) 5

/-- The difference of two lengths in bytes. -/
def sizeGap (a b : String) : Nat :=
  max a.utf8ByteSize b.utf8ByteSize - min a.utf8ByteSize b.utf8ByteSize

/-- Whether `candidate` comes before the best found so far. -/
def improves (best : Option (String × Nat)) (candidate : String) (d : Nat) : Bool :=
  match best with
  | none => true
  | some (text, e) => d < e ∨ (d = e ∧ candidate < text)

/-- The closest candidate within `limit` edits of `name`.  Texts that differ by
more than `limit` bytes in length are not compared. -/
def closest (name : String) (limit : Nat) (candidates : List String) : Option (String × Nat) :=
  candidates.foldl (fun best candidate =>
    if sizeGap name candidate ≤ limit then
      let d := editDistance name candidate
      if d ≤ limit ∧ improves best candidate d then some (candidate, d) else best
    else best) none

/-- Whether one of the texts begins with the other. -/
def beginsAlike (a b : String) : Bool := b.toList.isPrefixOf a.toList || a.toList.isPrefixOf b.toList

/-- The alphabetically first candidate of which `name` is a beginning, or that
is one of `name`. -/
def firstExtension (name : String) (candidates : List String) : Option String :=
  (candidates.filter (beginsAlike name)).foldl (fun best candidate =>
    match best with
    | none => some candidate
    | some text => if candidate < text then some candidate else best) none

/-- The suggestion for `name`; never the name itself, nor the empty text. -/
def similar (name : String) (candidates : List String) : Option String :=
  if name = "" then none
  else
    let others := candidates.filter fun c => c ≠ name ∧ c ≠ ""
    match closest name (threshold name.length) others with
    | some (text, _) => some text
    | none => if 2 ≤ name.utf8ByteSize then firstExtension name others else none

end Suggest
end TreeWalk
