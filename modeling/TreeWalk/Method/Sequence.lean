/-
Methods of arrays, tuples and ranges.

The methods of arrays that call a function back are only named here; what they
do needs the evaluator.
-/
import TreeWalk.Method.Scalar

namespace TreeWalk

open Atomic

variable {M : Type → Type} [Monad M] [Effects M]

/-- Methods of arrays that call nothing back. -/
inductive ArrayAction where
  | contains | empty | first | index | join | last | len | pop | push | reverse | slice | sort
  | toString
  deriving DecidableEq, Repr, Inhabited

/-- Methods of arrays that call a function for every item. -/
inductive ArrayVisit where
  | each | filter | map | reduce
  deriving DecidableEq, Repr, Inhabited

inductive ArrayMethod where
  | act (m : ArrayAction)
  | visit (m : ArrayVisit)
  deriving DecidableEq, Repr, Inhabited

namespace ArrayMethod

def names : List String :=
  ["contains", "each", "empty", "filter", "first", "index", "join", "last", "len", "map", "pop",
   "push", "reduce", "reverse", "slice", "sort", "toString"]

def ofName? : String → Option ArrayMethod
  | "len" => some (act .len)
  | "empty" => some (act .empty)
  | "toString" => some (act .toString)
  | "push" => some (act .push)
  | "pop" => some (act .pop)
  | "first" => some (act .first)
  | "last" => some (act .last)
  | "contains" => some (act .contains)
  | "index" => some (act .index)
  | "join" => some (act .join)
  | "reverse" => some (act .reverse)
  | "sort" => some (act .sort)
  | "slice" => some (act .slice)
  | "map" => some (visit .map)
  | "filter" => some (visit .filter)
  | "each" => some (visit .each)
  | "reduce" => some (visit .reduce)
  | _ => none

instance : MethodTable ArrayMethod := ⟨names, ofName?⟩

end ArrayMethod

namespace Sequence

/-- Whether every two neighbours can be compared. -/
def isOrdered : List Value → Bool
  | a :: b :: rest => (Store.compare? a b).isSome && isOrdered (b :: rest)
  | _ => true

/-- Puts an item behind the last one that is not greater, in a list of which the
last item comes first. -/
def insertBehind (v : Value) : List Value → List Value
  | [] => [v]
  | w :: before =>
    if Store.compare? v w = some .lt then w :: insertBehind v before else v :: w :: before

/-- The items, put in order one after the other. -/
def insertionSort (items : List Value) : List Value :=
  (items.foldl (fun sorted v => insertBehind v sorted) []).reverse

/-- Up to so many items are sorted by insertion, and more by merging. -/
def insertionLimit : Nat := 20

/-- How many items are less than a value. -/
def standing (items : List Value) (v : Value) : Nat :=
  items.countP fun w => Store.compare? w v == some .lt

/-- Whether the items are in a total order: any two of them compare as the numbers of
items that are less than them. -/
def isRanked (items : List Value) : Bool :=
  let ranked := items.map fun v => (v, standing items v)
  ranked.all fun a => ranked.all fun b => Store.compare? a.1 b.1 == some (compare a.2 b.2)

/-- The items from the least to the greatest; equal ones stay in order.

Numbers need not be in a total order, because two integers are compared exactly, and an
integer and a float as floats.  Inserting does not mind.  Merging may notice, and gives
up then; what it comes to otherwise is left open, so it always gives up here. -/
def sort? (items : List Value) : Option (List Value) :=
  if items.length ≤ insertionLimit then some (insertionSort items)
  else if isRanked items then
    some (items.mergeSort fun a b => Store.compare? a b != some .gt)
  else none

/-- What is said where merging gives up. -/
def disorder : String :=
  "user-provided comparison function does not correctly implement a total order"

/-- The bounds of a slice, where a missing end is the end of the sequence. -/
def bounds (start : Int64) (stop : Option Int64) (length : Nat) (pos : Position) :
    M (Nat × Nat) :=
  let stop := stop.getD (Word.ofLength length)
  require (sliceBounds? start stop length) (.slice start stop length) pos

end Sequence

namespace ArrayAction

def run (id : ArrayId) (m : ArrayAction) (args : Args) : M Value := do
  let items ← read (·.array id)
  match m with
  | len =>
    args.empty
    return .ofLength items.size
  | empty =>
    args.empty
    return .ofBool items.isEmpty
  | toString => args.toString (.array id)
  | push =>
    update (·.setArray id (items ++ args.values.toArray))
    return .array id
  | pop =>
    args.empty
    update (·.setArray id items.pop)
    return items.back?.getD .nothing
  | first =>
    args.empty
    return items[0]?.getD .nothing
  | last =>
    args.empty
    return items.back?.getD .nothing
  | contains =>
    let v ← args.one
    return .ofBool (← read fun σ => items.any (σ.equal · v))
  | index =>
    let v ← args.one
    match ← read fun σ => items.findIdx? (σ.equal · v) with
    | some i => return .ofLength i
    | none => return .ofInt (-1)
  | join =>
    let separator ← match ← args.upToOne with
      | some v => args.string 0 v
      | none => pure ""
    return .ofString (separator.intercalate (← read fun σ => items.toList.map σ.display))
  | reverse =>
    args.empty
    newArray items.toList.reverse
  | sort =>
    args.empty
    if Sequence.isOrdered items.toList then
      match Sequence.sort? items.toList with
      | some sorted => newArray sorted
      | none => fault Sequence.disorder
    else args.failInput "mixed or unordered ARRAY"
  | slice =>
    let (a, b) ← args.oneOrTwo
    let start ← args.int 0 a
    let stop ← match b with
      | some b => some <$> args.int 1 b
      | none => pure none
    let (low, high) ← Sequence.bounds start stop items.size args.pos
    newArray (Sequence.slice items.toList low high)

end ArrayAction

inductive TupleMethod where
  | get | len | toArray | toString
  deriving DecidableEq, Repr, Inhabited

namespace TupleMethod

def names : List String := ["get", "len", "toArray", "toString"]

def ofName? : String → Option TupleMethod
  | "len" => some len
  | "get" => some get
  | "toArray" => some toArray
  | "toString" => some toString
  | _ => none

instance : MethodTable TupleMethod := ⟨names, ofName?⟩

def run (items : List Value) (multi : Bool) (m : TupleMethod) (args : Args) : M Value := do
  match m with
  | len =>
    args.empty
    return .ofLength items.length
  | get =>
    let i ← args.int 0 (← args.one)
    require ((Sequence.resolveIndex? i items.length).bind (items[·]?)) (.index i items.length)
      args.pos
  | toArray =>
    args.empty
    newArray items
  | toString => args.toString (.tuple items multi)

end TupleMethod

inductive RangeMethod where
  | contains | len | toArray | toString
  deriving DecidableEq, Repr, Inhabited

namespace RangeMethod

def names : List String := ["contains", "len", "toArray", "toString"]

def ofName? : String → Option RangeMethod
  | "len" => some len
  | "toArray" => some toArray
  | "contains" => some contains
  | "toString" => some toString
  | _ => none

instance : MethodTable RangeMethod := ⟨names, ofName?⟩

def run (r : Range) (m : RangeMethod) (args : Args) : M Value := do
  match m with
  | len =>
    args.empty
    return .ofLength r.length
  | toArray =>
    args.empty
    reserve (r.length * elementSize)
    newArray (r.toList.map .ofInt)
  | contains =>
    let n ← args.int 0 (← args.one)
    return .ofBool (r.contains n)
  | toString => args.toString (.range r)

end RangeMethod
end TreeWalk
