/-
Bindings and assignments.

The target of an assignment is evaluated to a place once, also where the place is
both read and written.
-/
import TreeWalk.Eval.Evaluator
import TreeWalk.Store.Operator
import TreeWalk.Store.Place

namespace TreeWalk
namespace Assign

open Eval

variable (ev : Evaluator)

/-- Binds names to values pairwise in the current scope. -/
def bindAll : List String → List Value → Eval Unit
  | name :: names, v :: values => do
    bindName name v
    bindAll names values
  | _, _ => pure ()

/-- The items into which a value comes apart; `none` for a value that does not. -/
def parts? (σ : Store) : Value → Option (List Value)
  | .tuple items _ => some items
  | .array id => some (σ.array id).toList
  | _ => none

/-- `let names = values`: pairwise, or by taking a single value apart. -/
def define (names : List String) (values : List Expr) (pos : Position) : Eval Value := do
  if names.length = values.length then
    bindAll names (← ev.exprs values)
    return .nothing
  else
    match values with
    | [single] =>
      let v ← ev.expr single
      match ← read (parts? · v) with
      | some items =>
        if items.length = names.length then
          bindAll names items
          return .nothing
        else fail (.letCount names.length items.length) pos
      | none => fail (.letCount names.length 1) pos
    | _ => fail (.letCount names.length values.length) pos

/-- The place that an expression names. -/
def resolve (target : Expr) (pos : Position) : Eval Place := do
  match target.form with
  | .ident name => return .name name
  | .index object key =>
    let container ← ev.expr object
    let key ← ev.expr key
    return .element container key
  | .member object name => return .member (← ev.expr object) name
  | .call _ _ => fail (.assignTarget "a call") pos
  | .method _ _ _ => fail (.assignTarget "a call") pos
  | _ => fail (.assignTarget "this expression") pos

/-- What a place holds, seen from the current scope. -/
def readPlace (place : Place) (pos : Position) : Eval Value := do
  let scope := (← fiber).scope
  lift (place.get scope pos)

def writePlace (place : Place) (v : Value) (declare : Bool) (pos : Position) : Eval Unit := do
  let scope := (← fiber).scope
  update (← lift (place.write scope v declare pos))

/-- `target op value`.  The value is what is stored. -/
def assign (op : AssignOp) (target value : Expr) (pos : Position) : Eval Value := do
  let place ← resolve ev target pos
  let v ← match op.operator? with
    | none => ev.expr value
    | some operator => do
      let current ← readPlace place pos
      let operand ← ev.expr value
      lift (Operator.binary operator current operand pos)
  writePlace place v (op.operator?.isNone) pos
  return v

/-- The value one further, up or down. -/
def stepped (op : PostfixOp) (v : Value) (pos : Position) : Atomic Value := do
  let refused : Atomic Value := Atomic.fail (.postfixOp op.symbol v.kind) pos
  match v with
  | .int n =>
    match n.get?, op with
    | some k, .increment => Operator.exact (Word.add? k 1) op.symbol pos
    | some k, .decrement => Operator.exact (Word.add? k (-1)) op.symbol pos
    | none, _ => refused
  | .float x =>
    match x.get?, op with
    | some y, .increment => return .ofFloat (y + .one)
    | some y, .decrement => return .ofFloat (y + -.one)
    | none, _ => refused
  | _ => refused

/-- `target++` and `target--`.  The value is the one before. -/
def step (op : PostfixOp) (target : Expr) (pos : Position) : Eval Value := do
  let place ← resolve ev target pos
  let old ← readPlace place pos
  let new ← lift (stepped op old pos)
  writePlace place new false pos
  return old

end Assign
end TreeWalk
