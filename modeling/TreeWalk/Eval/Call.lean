/-
Calls.

The body of a function runs in a scope of its own inside of the scope that the
function was made in, and its frame is on the call stack meanwhile.  Whatever
the parameters and the body end with, the calls put off on the frame run next,
and then the frame is taken off again.  Only a fault leaves it there.
-/
import TreeWalk.Builtin
import TreeWalk.Eval.Evaluator

namespace TreeWalk

namespace FunctionLit

/-- Whether a function can be called with so many arguments. -/
def accepts (lit : FunctionLit) (count : Nat) : Bool :=
  lit.requiredCount ≤ count && (lit.variadic || count ≤ lit.fixedCount)

/-- The numbers of arguments that a function can be called with. -/
def countText (lit : FunctionLit) : String :=
  if lit.variadic then "at least " ++ toString lit.requiredCount
  else if lit.requiredCount = lit.fixedCount then toString lit.requiredCount
  else toString lit.requiredCount ++ " to " ++ toString lit.fixedCount

/-- The number of parameters, the one that collects the rest included. -/
def arity (lit : FunctionLit) : Nat := lit.params.length

end FunctionLit

namespace Eval

/-- Puts a frame on the call stack, unless that is full. -/
def pushFrame (frame : Frame) : Eval Unit := fun f σ =>
  match f.stack.push? frame with
  | some stack => .done (.ok ()) { f with stack := stack } σ
  | none => fail (.stackOverflow (f.stack.limit.getD 0)) frame.callSite f σ

def popFrame : Eval Unit := updateFiber fun f => { f with stack := f.stack.pop }

end Eval

namespace Call

open Eval

variable (ev : Evaluator)

/-- Binds parameters to arguments in turn, and answers the arguments left over.
A parameter without an argument takes its default, which is evaluated where the
parameters before it are bound. -/
def bindFixed : List Param → List Value → Eval (List Value)
  | [], args => pure args
  | p :: params, a :: args => do
    bindName p.name a
    bindFixed params args
  | p :: params, [] => do
    let v ← match p.default with
      | some e => ev.expr e
      | none => pure .nothing
    bindName p.name v
    bindFixed params []

/-- Binds the parameters of a function, and `$argc` to the number of arguments. -/
def bindParameters (lit : FunctionLit) (args : List Value) : Eval Unit := do
  let rest ← bindFixed ev lit.fixedParams args
  if lit.variadic then
    match lit.params.getLast? with
    | some p =>
      let collected ← change (·.newArray rest.toArray)
      bindName p.name collected
    | none => pure ()
  bindName "$argc" (.ofLength args.length)

/-- Runs one call that was put off.  What it ends with does not matter. -/
def runOne (d : Deferred) : Eval Unit := do
  let _ ← attempt (withScope d.scope (ev.expr d.call))

/-- Runs the calls put off on a frame, and those put off meanwhile. -/
def runDeferred (fuel : Nat) (frame : FrameId) : Eval Unit :=
  iterate (fun _ => do
    match ← change (·.takeDeferred frame) with
    | [] => return .inr ()
    | calls =>
      foldList (fun _ d => runOne ev d) calls ()
      return .inl ()) fuel ()

/-- What a call answers when its body has ended: `return` ends here, and so does
a `break` or `continue` that belongs to no loop. -/
def settle : Except Exit Value → Except Exit Value
  | .error (.ret v) => .ok v
  | .error .brk => .ok .nothing
  | .error .next => .ok .nothing
  | result => result

/-- The parameters and the body of a call, and then what was put off. -/
def activate (fuel : Nat) (lit : FunctionLit) (args : List Value) (frame : FrameId) :
    Eval (Except Exit Value) := do
  let result ← attempt do
    bindParameters ev lit args
    ev.block lit.body
  runDeferred ev fuel frame
  return settle result

/-- Calls a function written in the language. -/
def invoke (fuel : Nat) (f : Closure) (args : List Value) (pos : Position) : Eval Value := do
  let name := f.lit.displayName
  if f.lit.accepts args.length then
    let frame ← change (·.newFrame name pos)
    pushFrame frame
    let scope ← change (·.activation f.scope frame)
    let result ← withScope scope (activate ev fuel f.lit args frame.id)
    popFrame
    ofResult result
  else fail (.argumentCount name f.lit.countText args.length) pos

/-- Calls a function of the language. -/
def callNative (f : Native) (args : List Value) (pos : Position) : Eval Value := do
  let pos ← enter pos
  let sink := (← fiber).sink
  lift (f.run args pos sink)

/-- Calls a value. -/
def value (fuel : Nat) (f : Value) (args : List Value) (pos : Position) : Eval Value :=
  match f with
  | .function f => invoke ev fuel f args pos
  | .native f => callNative f args pos
  | v => fail (.notCallable v.kind) pos

end Call
end TreeWalk
