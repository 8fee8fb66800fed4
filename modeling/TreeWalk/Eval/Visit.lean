/-
Methods that call a function for the items of an array or the entries of a hash.

They go through the items that were there when the method was called, so the
function may change the container.
-/
import TreeWalk.Eval.Evaluator
import TreeWalk.Method.Object

namespace TreeWalk
namespace Visit

open Eval

variable (ev : Evaluator)

/-- The arguments for an item: the item, and its index for a function with two
parameters or more. -/
def itemArgs (f item : Value) (index : Nat) : List Value :=
  match f with
  | .function c => if 2 ≤ c.lit.params.length then [item, .ofLength index] else [item]
  | _ => [item]

/-- Calls a function for every item with its index. -/
def callEach (f : Value) (items : List Value) : Eval (List Value) :=
  mapList (fun (item, index) => ev.callBack f (itemArgs f item index)) items.zipIdx

/-- The items for which a function answers something true. -/
def keep (f : Value) (items : List Value) : Eval (List Value) := do
  let kept ← foldList (fun kept (item, index) => do
    let v ← ev.callBack f (itemArgs f item index)
    if ← read (·.truthy v) then return item :: kept else return kept) items.zipIdx []
  return kept.reverse

/-- The result of a function on what it made of the items before and the next
item. -/
def combine (f : Value) (items : List Value) (start : Value) : Eval Value :=
  foldList (fun acc item => ev.callBack f [acc, item]) items start

/-- Methods of arrays that call back. -/
def onArray (id : ArrayId) (m : ArrayVisit) (args : Args) : Eval Value := do
  let items := (← read (·.array id)).toList
  match m with
  | .map =>
    let f ← lift (do args.callable 0 (← args.one))
    let results ← callEach ev f items
    change (·.newArray results.toArray)
  | .filter =>
    let f ← lift (do args.callable 0 (← args.one))
    let kept ← keep ev f items
    change (·.newArray kept.toArray)
  | .each =>
    let f ← lift (do args.callable 0 (← args.one))
    let _ ← callEach ev f items
    return .array id
  | .reduce =>
    let (f, start?) ← lift do
      let (f, start?) ← args.oneOrTwo
      return (← args.callable 0 f, start?)
    match start?, items with
    | some start, items => combine ev f items start
    | none, first :: rest => combine ev f rest first
    | none, [] => return .nothing

/-- The entries for which a function answers something true, as a hash. -/
def keepEntries (f : Value) (entries : List Entry) (pos : Position) : Eval Dict :=
  foldList (fun d e => do
    let v ← ev.callBack f [e.key, e.value]
    if ← read (·.truthy v) then
      let hash ← lift (Atomic.keyOf e.key pos)
      return d.insert hash e.key e.value
    else return d) entries .empty

/-- Methods of hashes that call back. -/
def onHash (id : HashId) (m : HashVisit) (args : Args) : Eval Value := do
  let entries := (← read (·.dict id)).toList
  let f ← lift (do args.callable 0 (← args.one))
  match m with
  | .filter =>
    let d ← keepEntries ev f entries args.pos
    change (·.newDict d)
  | .map =>
    let results ← mapList (fun (e : Entry) => ev.callBack f [e.key, e.value]) entries
    change (·.newArray results.toArray)

end Visit
end TreeWalk
