/-
Sets of characters as inversion lists.

A set is the increasing table of the code points at which membership changes,
starting outside.  A character is in the set exactly when the number of changes
up to it is odd.  The set operations walk along both tables at once.
-/
import TreeWalk.Sorted

namespace TreeWalk

/-- A set of code points, given by the points at which membership changes. -/
structure CharSet where
  changes : Array Nat
  deriving DecidableEq, Repr, Inhabited

namespace CharSet

/-- The words of a text, given the word begun before it, last character first. -/
def wordsFrom : List Char → List Char → List String
  | word, [] => if word = [] then [] else [String.ofList word.reverse]
  | word, c :: rest =>
    if c = ' ' || c = '\n' then
      if word = [] then wordsFrom [] rest else String.ofList word.reverse :: wordsFrom [] rest
    else wordsFrom (c :: word) rest

/-- The words of a text in which blanks and line ends separate them. -/
def words (text : String) : List String := wordsFrom [] text.toList

/-- The number written by a run of decimal digits, and the rest. -/
def readNat (n : Nat) : List Char → Nat × List Char
  | [] => (n, [])
  | c :: rest => if c.isDigit then readNat (10 * n + (c.toNat - 48)) rest else (n, c :: rest)

/-- The numbers of a text in which blanks and line ends separate them. -/
def numbers (text : String) : List Nat := (words text).map fun word => (readNat 0 word.toList).1

/-- The running sums of a list. -/
def sums (total : Nat) : List Nat → List Nat
  | [] => []
  | n :: rest => (total + n) :: sums (total + n) rest

/-- The set whose changes lie at the running sums of the listed numbers: the
distance to the first member, the length of the first run of members, the
distance to the next, and so on. -/
def ofGaps (text : String) : CharSet := ⟨(sums 0 (numbers text)).toArray⟩

/-- Whether a code point belongs to the set. -/
def hasPoint (s : CharSet) (n : Nat) : Bool := Sorted.countUpTo s.changes n % 2 = 1

def contains (s : CharSet) (c : Char) : Bool := s.hasPoint c.toNat

def empty : CharSet := ⟨#[]⟩

/-- One more than the last code point. -/
def codePoints : Nat := 0x110000

/-- All characters. -/
def any : CharSet := ⟨#[0, codePoints]⟩

/-- The code points from `first` to `last`. -/
def range (first last : Nat) : CharSet := if first ≤ last then ⟨#[first, last + 1]⟩ else empty

def single (c : Char) : CharSet := range c.toNat c.toNat

/-- The points at which `f` of the memberships in two sets changes, where `inA`
and `inB` tell the memberships before the first of the changes that are left. -/
def combineFrom (f : Bool → Bool → Bool) (inA inB : Bool) : List Nat → List Nat → List Nat
  | [], [] => []
  | a :: as, [] =>
    let rest := combineFrom f (!inA) inB as []
    if f (!inA) inB = f inA inB then rest else a :: rest
  | [], b :: bs =>
    let rest := combineFrom f inA (!inB) [] bs
    if f inA (!inB) = f inA inB then rest else b :: rest
  | a :: as, b :: bs =>
    if a < b then
      let rest := combineFrom f (!inA) inB as (b :: bs)
      if f (!inA) inB = f inA inB then rest else a :: rest
    else if b < a then
      let rest := combineFrom f inA (!inB) (a :: as) bs
      if f inA (!inB) = f inA inB then rest else b :: rest
    else
      let rest := combineFrom f (!inA) (!inB) as bs
      if f (!inA) (!inB) = f inA inB then rest else a :: rest
termination_by as bs => as.length + bs.length

/-- The set of the points whose memberships in `a` and `b` satisfy `f`, which
must not hold outside of both. -/
def combine (f : Bool → Bool → Bool) (a b : CharSet) : CharSet :=
  ⟨(combineFrom f false false a.changes.toList b.changes.toList).toArray⟩

def union (a b : CharSet) : CharSet := combine (· || ·) a b

def inter (a b : CharSet) : CharSet := combine (· && ·) a b

def diff (a b : CharSet) : CharSet := combine (fun x y => x && !y) a b

/-- What belongs to one of two sets but not to both. -/
def symmDiff (a b : CharSet) : CharSet := combine (· != ·) a b

def complement (s : CharSet) : CharSet := any.diff s

instance : Union CharSet := ⟨union⟩

instance : Inter CharSet := ⟨inter⟩

instance : SDiff CharSet := ⟨diff⟩

/-- The union of ranges that are given in no particular order. -/
def ofRanges (ranges : List (Nat × Nat)) : CharSet :=
  ranges.foldl (fun s r => s ∪ range r.1 r.2) empty

/-- The changes of an increasing list of points, of which the one before was
`last`. -/
def runsFrom (last : Nat) : List Nat → List Nat
  | [] => [last + 1]
  | n :: rest =>
    if n = last then runsFrom last rest
    else if n = last + 1 then runsFrom n rest
    else (last + 1) :: n :: runsFrom n rest

/-- The set of points that are given in no particular order. -/
def ofPoints (points : List Nat) : CharSet :=
  match points.mergeSort with
  | [] => empty
  | n :: rest => ⟨(n :: runsFrom n rest).toArray⟩

/-- The first and the last point of each run of members, from changes. -/
def pairs : List Nat → List (Nat × Nat)
  | first :: stop :: rest => (first, stop - 1) :: pairs rest
  | _ => []

/-- The runs of members, each by its first and its last point. -/
def ranges (s : CharSet) : List (Nat × Nat) := pairs s.changes.toList

def isEmpty (s : CharSet) : Bool := s.changes.isEmpty

/-- Whether all members are ASCII characters. -/
def isAscii (s : CharSet) : Bool := s.changes.all (· ≤ 128)

/-- The only member of a set that has just one. -/
def single? (s : CharSet) : Option Char :=
  match s.ranges with
  | [(first, last)] => if first = last then some (Char.ofNat first) else none
  | _ => none

end CharSet
end TreeWalk
