/-
The parts of the evaluator that call each other.

What a construct does is defined in terms of an evaluator for its parts, so each
construct can be understood, and reasoned about, without the others.
-/
import TreeWalk.Eval.Step

namespace TreeWalk

structure Evaluator where
  expr : Expr → Eval Value
  stmt : Stmt → Eval Value
  /-- Calls a value with arguments from a position. -/
  call : Value → List Value → Position → Eval Value

namespace Evaluator

open Eval

variable (ev : Evaluator)

/-- Evaluates expressions from left to right. -/
def exprs (items : List Expr) : Eval (List Value) := mapList ev.expr items

/-- Evaluates statements in the current scope.  The value is that of the last
one. -/
def block (body : Block) : Eval Value := foldList (fun _ s => ev.stmt s) body .nothing

/-- Evaluates statements in a scope of their own. -/
def innerBlock (body : Block) : Eval Value := withChildScope (ev.block body)

/-- Evaluates an optional block, in a scope of its own. -/
def innerBlockOr (otherwise : Option Block) (v : Value) : Eval Value :=
  match otherwise with
  | some body => ev.innerBlock body
  | none => pure v

/-- Whether the value of an expression counts as true. -/
def test (cond : Expr) : Eval Bool := do
  let v ← ev.expr cond
  read (·.truthy v)

/-- Calls a value from the current position. -/
def callBack (f : Value) (args : List Value) : Eval Value := do
  ev.call f args (← position)

end Evaluator
end TreeWalk
