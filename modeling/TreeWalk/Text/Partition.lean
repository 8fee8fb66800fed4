/-
Tables that give every code point a label.

A table lists the runs of code points of equal label from 0 on, each as its
length followed by its label.  Such a table answers the label of a character by
halving, and the set of all characters with a given kind of label.
-/
import TreeWalk.Text.CharSet

namespace TreeWalk

/-- Labels for code points, by runs. -/
structure Partition (α : Type) where
  runs : List (Nat × α)
  /-- The code points at which a new run begins, the first run left out. -/
  starts : Array Nat
  labels : Array α

namespace Partition

variable {α : Type}

def ofRuns (runs : List (Nat × α)) : Partition α :=
  { runs
    starts := (CharSet.sums 0 (runs.map (·.1))).toArray
    labels := (runs.map (·.2)).toArray }

/-- The table written as a text of words, each a length and the name of a
label. -/
def ofText (label : String → α) (text : String) : Partition α :=
  ofRuns <| (CharSet.words text).map fun word =>
    let (length, name) := CharSet.readNat 0 word.toList
    (length, label (String.ofList name))

/-- The label of a character; `default` past the end of the table. -/
def labelD (p : Partition α) (default : α) (c : Char) : α :=
  p.labels.getD (Sorted.countUpTo p.starts c.toNat) default

/-- The points at which the test of the label changes, from `position` on. -/
def changesFrom (test : α → Bool) (inside : Bool) (position : Nat) : List (Nat × α) → List Nat
  | [] => if inside then [position] else []
  | (length, a) :: rest =>
    if test a = inside then changesFrom test inside (position + length) rest
    else position :: changesFrom test (!inside) (position + length) rest

/-- The characters whose label passes a test. -/
def set (p : Partition α) (test : α → Bool) : CharSet :=
  ⟨(changesFrom test false 0 p.runs).toArray⟩

end Partition
end TreeWalk
