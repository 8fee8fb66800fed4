/-
Expressions and statements.

A node makes its position the current one if the position is known, and all that
goes wrong in the node itself is reported there.  `evaluator` ties the evaluator
of a node to the evaluators of its parts; `fuel` bounds how deep nodes and calls
are nested, and how many turns a loop takes.
-/
import TreeWalk.Eval.Assign
import TreeWalk.Eval.Call
import TreeWalk.Eval.Control
import TreeWalk.Eval.Loop
import TreeWalk.Eval.MachineStack
import TreeWalk.Eval.Method

namespace TreeWalk
namespace Node

open Eval

variable (ev : Evaluator)

/-- What a name stands for in the current scope. -/
def lookup (name : String) (pos : Position) : Eval Value := do
  let scope := (← fiber).scope
  lift (Access.lookup scope name pos)

/-- The text of one part of a string with holes. -/
def partText : TextPart → Eval String
  | .text s => pure s
  | .hole e => do
    let v ← ev.expr e
    read (·.display v)

def interpolated (parts : List TextPart) : Eval Value := do
  return .ofString (String.join (← mapList (partText ev) parts))

/-- The entries of a hash literal, evaluated and filed in turn. -/
def hashEntry (d : Dict) (entry : Expr × Expr) : Eval Dict := do
  let key ← ev.expr entry.1
  let hash ← lift (Atomic.keyOf key (← position))
  let value ← ev.expr entry.2
  return d.insert hash key value

def hashLiteral (entries : List (Expr × Expr)) : Eval Value := do
  let d ← foldList (hashEntry ev) entries .empty
  change (·.newDict d)

def arrayLiteral (items : List Expr) : Eval Value := do
  let values ← ev.exprs items
  change (·.newArray values.toArray)

def rangeLiteral (start stop : Expr) (pos : Position) : Eval Value := do
  let a ← ev.expr start
  let b ← ev.expr stop
  match a.int?, b.int? with
  | some m, some n => return .range ⟨m, n⟩
  | _, _ => fail (.rangeType a.kind b.kind) pos

def functionLiteral (lit : FunctionLit) : Eval Value := do
  let scope := (← fiber).scope
  change (·.newFunction lit scope)

/-- `left op right`.  `&&` and `||` leave the right side alone when the left one
decides. -/
def infixed (op : InfixOp) (left right : Expr) (pos : Position) : Eval Value := do
  let a ← ev.expr left
  let truth ← read (·.truthy a)
  if op = .and && !truth then return .ofBool false
  else if op = .or && truth then return .ofBool true
  else
    let b ← ev.expr right
    lift (Operator.binary op a b pos)

def prefixed (op : PrefixOp) (operand : Expr) (pos : Position) : Eval Value := do
  let v ← ev.expr operand
  lift (Operator.unary op v pos)

/-- `callee(args)`.  A callee that is a name is looked up at the position of the
call. -/
def call (callee : Expr) (args : List Expr) (pos : Position) : Eval Value := do
  let f ← match callee.form with
    | .ident name => lookup name pos
    | _ => ev.expr callee
  ev.call f (← ev.exprs args) pos

/-- What the host has published under the name of a receiver and a member. -/
def published (object : Expr) (name : String) : Eval (Option Value) :=
  match object.form with
  | .ident base => read (Access.published? · base name)
  | _ => pure none

/-- A published function is called; another published value is the answer to a
call without arguments. -/
def callPublished (v : Value) (args : List Value) (pos : Position) : Eval Value :=
  if v.isCallable then ev.call v args pos
  else if args.isEmpty then pure v
  else fail (.notCallable v.kind) pos

/-- `receiver.name(args)` -/
def method (receiver : Expr) (name : String) (args : List Expr) (pos : Position) :
    Eval Value := do
  match ← published receiver name with
  | some v => callPublished ev v (← ev.exprs args) pos
  | none =>
    let v ← ev.expr receiver
    let values ← ev.exprs args
    let _ ← enter pos
    Method.call ev v name values

/-- `object.name` -/
def member (object : Expr) (name : String) (pos : Position) : Eval Value := do
  match ← published object name with
  | some v => return v
  | none =>
    let v ← ev.expr object
    lift (Access.member v name pos)

/-- `object[key]` -/
def index (object key : Expr) (pos : Position) : Eval Value := do
  let v ← ev.expr object
  let k ← ev.expr key
  lift (Access.index v k pos)

/-- A bound of a slice, if there is one. -/
def bound (v : Value) (given : Option Expr) (pos : Position) : Eval (Option Int64) := do
  match given with
  | some e =>
    let b ← ev.expr e
    return some (← lift (Access.bound v b pos))
  | none => return none

/-- `object[start:stop]` -/
def slice (object : Expr) (start stop : Option Expr) (pos : Position) : Eval Value := do
  let v ← ev.expr object
  let low ← bound ev v start pos
  let high ← bound ev v stop pos
  lift (Access.slice v (low.getD 0) high pos)

/-- Evaluates an expression by its form. -/
def expr (fuel : Nat) (e : Expr) : Eval Value := do
  let pos ← enter e.pos
  match e.form with
  | .ident name => lookup name pos
  | .int n => return .ofInt n
  | .float x => return .ofFloat x
  | .str s => return .ofString s
  | .bool b => return .ofBool b
  | .nil => return .nothing
  | .interpolated parts => interpolated ev parts
  | .array items => arrayLiteral ev items
  | .hash entries => hashLiteral ev entries
  | .tuple items => return .tuple (← ev.exprs items) false
  | .range start stop => rangeLiteral ev start stop pos
  | .function lit => functionLiteral lit
  | .struct body => Control.structOf ev body
  | .enum variants => Control.enumOf ev variants
  | .prefixed op operand => prefixed ev op operand pos
  | .infixed op left right => infixed ev op left right pos
  | .postfixed op target => Assign.step ev op target pos
  | .assign op target value => Assign.assign ev op target value pos
  | .ternary cond yes no => if ← ev.test cond then ev.expr yes else ev.expr no
  | .pipe left right => Control.pipe ev left right pos
  | .call callee args => call ev callee args pos
  | .method receiver name args => method ev receiver name args pos
  | .member object name => member ev object name pos
  | .index object key => index ev object key pos
  | .slice object start stop => slice ev object start stop pos
  | .conditional branches otherwise => Control.conditional ev otherwise branches
  | .unlessThen cond body otherwise => Control.unlessThen ev cond body otherwise
  | .whileLoop cond body => Loop.whileLoop ev fuel cond body
  | .forever body => Loop.forever ev fuel body
  | .forLoop init cond update body => Loop.forLoop ev fuel init cond update body
  | .forEach key value iterable filter body =>
    Loop.forEach ev fuel ⟨key, value⟩ iterable filter body pos
  | .arrayOf key value iterable filter output =>
    Loop.arrayOf ev fuel ⟨key, value⟩ iterable filter output pos
  | .hashOf key value iterable filter outputKey outputValue =>
    Loop.hashOf ev fuel ⟨key, value⟩ iterable filter outputKey outputValue pos
  | .grep name iterable cond => Loop.grep ev fuel name iterable cond pos
  | .map name iterable body => Loop.map ev fuel name iterable body pos
  | .caseOf subject mode arms otherwise => Control.caseOf ev subject mode arms otherwise pos
  | .tryCatch body catches cleanup => Control.tryCatch ev body catches cleanup
  | .include path => Control.includeUnit ev path pos

/-- `return values` -/
def returnValues (values : List Expr) : Eval Value := do
  match values with
  | [] => exit (.ret .nothing)
  | [single] => exit (.ret (← ev.expr single))
  | values => exit (.ret (.tuple (← ev.exprs values) true))

/-- Evaluates a statement by its form. -/
def stmt (s : Stmt) : Eval Value := do
  let pos ← enter s.pos
  match s.form with
  | .bind names values => Assign.define ev names values pos
  | .ret values => returnValues ev values
  | .expr e => ev.expr e
  | .function name lit =>
    bindName name (← functionLiteral lit)
    return .nothing
  | .defer call => Control.deferCall call pos
  | .spawn call => Control.spawnCall call pos
  | .throw value => Control.throwValue ev value pos
  | .break => exit .brk
  | .continue => exit .next
  | .block body => ev.innerBlock body

end Node

/-- The evaluator for nodes and calls nested no deeper than `fuel`. -/
def evaluator : Nat → Evaluator
  | 0 => ⟨fun _ => Eval.exit .exhausted, fun _ => Eval.exit .exhausted,
      fun _ _ _ => Eval.exit .exhausted⟩
  | fuel + 1 =>
    { expr := fun e => MachineStack.within fuel fun f σ => Node.expr (evaluator fuel) fuel e f σ
      stmt := fun s => MachineStack.within fuel fun f σ => Node.stmt (evaluator fuel) s f σ
      call := fun v args pos =>
        MachineStack.within fuel fun f σ => Call.value (evaluator fuel) fuel v args pos f σ }

end TreeWalk
