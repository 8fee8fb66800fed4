/-
Loops.

Every turn of a loop has a scope of its own.  `break` ends the loop whose body
it leaves and `continue` its turn; the conditions of loops and the expressions of
comprehensions are no bodies, and let both pass.

Arrays, hashes and strings are gone through as they were at the beginning; ranges
and channels give up their elements one by one.
-/
import TreeWalk.Eval.Evaluator
import TreeWalk.Store.Access

namespace TreeWalk

/-- An element of a sequence with its position, or a value of a hash with its
key. -/
structure Element where
  key : Value
  value : Value

/-- Elements still to come. -/
inductive Elements where
  | listed (items : List Element)
  /-- The integers from `next` to `stop`. -/
  | counted (next stop : Int)
  /-- What a channel still delivers. -/
  | received (channel : ChannelId)

/-- What a loop goes through. -/
structure Source where
  elements : Elements
  /-- A lone variable is bound to the key. -/
  bindsKey : Bool

namespace Source

open Atomic

/-- Values with their positions as keys. -/
def ofList (items : List Value) : Source :=
  ⟨.listed (items.zipIdx.map fun (v, i) => ⟨.ofLength i, v⟩), false⟩

/-- What a loop over a value goes through. -/
def ofValue (v : Value) (pos : Position) : Atomic Source := do
  let refused : Atomic Source := fail (.notIterable v.kind) pos
  match v with
  | .array id => return ofList (← read (·.array id)).toList
  | .tuple items _ => return ofList items
  | .str s =>
    match s.get? with
    | some s => return ofList (s.toList.map fun c => .ofString c.toString)
    | none => refused
  | .hash id => return ⟨.listed ((← read (·.dict id)).toList.map fun e => ⟨e.key, e.value⟩), true⟩
  | .range r => return ⟨.counted r.start.toInt r.stop.toInt, false⟩
  | .channel id => return ⟨.received id, false⟩
  | .object (.host id _ _ _) =>
    match (← read (·.host id)).items with
    | some items => return ofList items
    | none => refused
  | _ => refused

end Source

namespace Elements

open Eval

/-- The next element, the one at position `index`, and what comes after it. -/
def next (index : Nat) : Elements → Eval (Option (Element × Elements))
  | listed [] => pure none
  | listed (e :: rest) => pure (some (e, listed rest))
  | counted i stop =>
    if stop < i then pure none
    else pure (some (⟨.ofLength index, .ofInt (Int64.ofInt i)⟩, counted (i + 1) stop))
  | received id => do
    match ← await (.received id) with
    | some v => return some (⟨.ofLength index, v⟩, received id)
    | none => return none

end Elements

/-- The variables of a loop over elements. -/
structure LoopNames where
  key : Option String
  value : String

namespace LoopNames

open Eval

/-- Binds the variables, and `$_` to the number of the turn. -/
def bind (names : LoopNames) (bindsKey : Bool) (index : Nat) (e : Element) : Eval Unit := do
  match names.key with
  | some key =>
    bindName key e.key
    bindName names.value e.value
  | none => bindName names.value (if bindsKey then e.key else e.value)
  bindName "$_" (.ofLength index)

end LoopNames

namespace Loop

open Eval

variable (ev : Evaluator) (fuel : Nat)

/-- Whether a loop goes on after its body has ended so. -/
def goesOn : Except Exit Value → Eval Bool
  | .ok _ => pure true
  | .error .next => pure true
  | .error .brk => pure false
  | .error e => exit e

/-- `while cond { body }` -/
def whileLoop (cond : Expr) (body : Block) : Eval Value :=
  iterate (fun _ => do
    if ← ev.test cond then
      if ← goesOn (← attempt (ev.innerBlock body)) then
        yieldTurn
        return .inl ()
      else return .inr .nothing
    else return .inr .nothing) fuel ()

/-- Runs a body until `break`. -/
def forever (body : Block) : Eval Value :=
  iterate (fun _ => do
    if ← goesOn (← attempt (ev.innerBlock body)) then
      yieldTurn
      return .inl ()
    else return .inr .nothing) fuel ()

/-- Whether an optional condition holds; a missing one does. -/
def passes (cond : Option Expr) : Eval Bool :=
  match cond with
  | some e => ev.test e
  | none => pure true

/-- `for (init; cond; update) { body }`, where the variables of `init` belong to
the loop, and `update` follows a turn that `continue` ended, too. -/
def forLoop (init : Option Stmt) (cond update : Option Expr) (body : Block) : Eval Value :=
  withChildScope do
    if let some s := init then
      let _ ← ev.stmt s
    iterate (fun _ => do
      if ← passes ev cond then
        if ← goesOn (← attempt (ev.innerBlock body)) then
          if let some e := update then
            let _ ← ev.expr e
          yieldTurn
          return .inl ()
        else return .inr .nothing
      else return .inr .nothing) fuel ()

/-- Takes the elements of the value of an expression into a state, in turn; the
step for an element runs where the variables are bound, and ends the loop by
`.inr`. -/
def overElements {β : Type} (names : LoopNames) (iterable : Expr) (pos : Position) (start : β)
    (step : Bool → β → Element → Eval (β ⊕ β)) : Eval β := do
  let source ← lift (Source.ofValue (← ev.expr iterable) pos)
  iterate (fun (index, elements, b) => do
    match ← Elements.next index elements with
    | none => return .inr b
    | some (e, rest) =>
      let result ← withChildScope do
        names.bind source.bindsKey index e
        step source.bindsKey b e
      match result with
      | .inl b =>
        yieldTurn
        return .inl (index + 1, rest, b)
      | .inr b => return .inr b) fuel (0, source.elements, start)

/-- An array of results that were collected last first. -/
def collected (results : List Value) : Eval Value := change (·.newArray results.reverse.toArray)

/-- `for key, value in iterable where filter { body }`: the results of the body in
an array, those before a `break` included. -/
def forEach (names : LoopNames) (iterable : Expr) (filter : Option Expr) (body : Block)
    (pos : Position) : Eval Value := do
  let results ← overElements ev fuel names iterable pos [] fun _ results _ => do
    let turn ← attempt do
      if ← passes ev filter then
        return some (← ev.block body)
      else return none
    match turn with
    | .ok (some v) => return .inl (v :: results)
    | .ok none => return .inl results
    | .error .next => return .inl results
    | .error .brk => return .inr results
    | .error e => exit e
  collected results

/-- `[output for key, value in iterable where filter]` -/
def arrayOf (names : LoopNames) (iterable : Expr) (filter : Option Expr) (output : Expr)
    (pos : Position) : Eval Value := do
  let results ← overElements ev fuel names iterable pos [] fun _ results _ => do
    if ← passes ev filter then
      return .inl ((← ev.expr output) :: results)
    else return .inl results
  collected results

/-- The comprehension of a hash.  A later entry of a key takes the place of an
earlier one. -/
def hashOf (names : LoopNames) (iterable : Expr) (filter : Option Expr)
    (outputKey outputValue : Expr) (pos : Position) : Eval Value := do
  let d ← overElements ev fuel names iterable pos Dict.empty fun _ d _ => do
    if ← passes ev filter then
      let key ← ev.expr outputKey
      let hash ← lift (Atomic.keyOf key pos)
      let value ← ev.expr outputValue
      return .inl (d.insert hash key value)
    else return .inl d
  change (·.newDict d)

/-- `grep name in iterable { cond }`: the elements for which `cond` holds. -/
def grep (name : String) (iterable cond : Expr) (pos : Position) : Eval Value := do
  let kept ← overElements ev fuel ⟨none, name⟩ iterable pos [] fun bindsKey kept e => do
    if ← ev.test cond then
      return .inl ((if bindsKey then e.key else e.value) :: kept)
    else return .inl kept
  collected kept

/-- `map name in iterable { body }`: what `body` is for each element. -/
def map (name : String) (iterable body : Expr) (pos : Position) : Eval Value := do
  let results ← overElements ev fuel ⟨none, name⟩ iterable pos [] fun _ results _ => do
    return .inl ((← ev.expr body) :: results)
  collected results

/-- Without a filter every element counts. -/
theorem map_eq_arrayOf (name : String) (iterable body : Expr) (pos : Position) :
    map ev fuel name iterable body pos =
      arrayOf ev fuel ⟨none, name⟩ iterable none body pos := by
  unfold map arrayOf
  simp only [passes, pure_bind, if_true]

end Loop
end TreeWalk
