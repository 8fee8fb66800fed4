/-
Searching increasing tables by halving.

Line starts, character sets and character properties are all kept as tables of
increasing numbers.  They are asked how many entries do not exceed a given number, or
where a number stands among them.
-/

namespace TreeWalk
namespace Sorted

/-- How many entries of `table` do not exceed `x`, given that the first `lo` of
them do not and that those from `lo + width` on do.  Each round looks at the
middle of the `width` entries in doubt. -/
def countFrom (table : Array Nat) (x lo width : Nat) : Nat :=
  if width = 0 then lo
  else
    let half := width / 2
    if table.getD (lo + half) 0 ≤ x then countFrom table x (lo + half + 1) (width - half - 1)
    else countFrom table x lo half
termination_by width
decreasing_by all_goals omega

/-- How many entries of an increasing table do not exceed `x`. -/
def countUpTo (table : Array Nat) (x : Nat) : Nat := countFrom table x 0 table.size

/-- The place of `x` among the `width` entries of `table` from `lo` on: where it stands, or
else where it would have to be put in. -/
def searchFrom (table : Array Nat) (x lo width : Nat) : Except Nat Nat :=
  if width = 0 then .error lo
  else
    let half := width / 2
    let middle := table.getD (lo + half) 0
    if middle = x then .ok (lo + half)
    else if middle < x then searchFrom table x (lo + half + 1) (width - half - 1)
    else searchFrom table x lo half
termination_by width
decreasing_by all_goals omega

/-- The place of `x` in an increasing table. -/
def search (table : Array Nat) (x : Nat) : Except Nat Nat := searchFrom table x 0 table.size

end Sorted
end TreeWalk
