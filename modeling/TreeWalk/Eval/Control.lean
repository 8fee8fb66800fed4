/-
Conditionals, errors, calls put off and tasks, pipes, modules, structs and enums.
-/
import TreeWalk.Eval.Evaluator
import TreeWalk.Store.Literal
import TreeWalk.Store.Operator

namespace TreeWalk
namespace Control

open Eval

variable (ev : Evaluator)

/-- The first branch whose condition holds, or else the last one. -/
def conditional (otherwise : Option Block) : List (Expr × Block) → Eval Value
  | [] => ev.innerBlockOr otherwise .nothing
  | (cond, body) :: rest => do
    if ← ev.test cond then ev.innerBlock body else conditional otherwise rest

/-- The body, unless the condition holds. -/
def unlessThen (cond : Expr) (body : Block) (otherwise : Option Block) : Eval Value := do
  if ← ev.test cond then ev.innerBlockOr otherwise .nothing else ev.innerBlock body

/-! ## Case -/

/-- Whether the subject of a `case` agrees with a pattern. -/
def agrees (mode : CaseMode) (subject candidate : Value) (pos : Position) : Atomic Bool := do
  match mode with
  | .equal => Atomic.read (·.equal subject candidate)
  | .matching =>
    let regex ← Operator.pattern (← Atomic.read (·.display candidate)) pos
    return regex.isMatch (← Atomic.read (·.display subject))

/-- Whether one of the patterns agrees with the subject; the ones after it are
not evaluated. -/
def anyAgrees (mode : CaseMode) (subject : Value) (pos : Position) : List Expr → Eval Bool
  | [] => pure false
  | pattern :: rest => do
    let candidate ← ev.expr pattern
    if ← lift (agrees mode subject candidate pos) then return true
    else anyAgrees mode subject pos rest

/-- The arm with the first pattern that agrees. -/
def caseArms (mode : CaseMode) (subject : Value) (otherwise : Option Block) (pos : Position) :
    List (List Expr × Block) → Eval Value
  | [] => ev.innerBlockOr otherwise subject
  | (patterns, body) :: rest => do
    if ← anyAgrees ev mode subject pos patterns then ev.innerBlock body
    else caseArms mode subject otherwise pos rest

/-- `case subject`; without an arm that agrees it is the subject. -/
def caseOf (subject : Expr) (mode : CaseMode) (arms : List (List Expr × Block))
    (otherwise : Option Block) (pos : Position) : Eval Value := do
  caseArms ev mode (← ev.expr subject) otherwise pos arms

/-! ## Errors -/

/-- The message that `catch` clauses see: that of an error, or of a value that
reports a failure. -/
def caughtMessage? : Except Exit Value → Option String
  | .error (.error e) => some e.message
  | .error _ => none
  | .ok v => v.failureMessage?

/-- Whether a clause accepts a message, and the name to bind to it if it names
one. -/
def accepts? (σ : Store) (scope : ScopeId) (message : String) :
    CatchPattern → Option (Option String)
  | .message text => if text = message then some none else none
  | .name name =>
    match σ.get? scope name with
    | some v => if v.string? = some message then some none else none
    | none => some (some name)
  | .any => some none

/-- The body of a `catch` clause, where `$_` is the message. -/
def handle (message : String) (name? : Option String) (body : Block) : Eval Value :=
  withChildScope do
    bindName "$_" (.ofString message)
    if let some name := name? then
      bindName name (.ofString message)
    ev.block body

/-- The first clause that accepts the message takes over. -/
def catchClauses (message : String) (result : Except Exit Value) :
    List (CatchPattern × Block) → Eval (Except Exit Value)
  | [] => pure result
  | (pattern, body) :: rest => do
    let scope := (← fiber).scope
    match ← read (accepts? · scope message pattern) with
    | some name? => attempt (handle ev message name? body)
    | none => catchClauses message result rest

/-- `try { body } catch … finally { cleanup }`.  An error of the cleanup takes the
place of the result; whatever else the cleanup ends with is dropped. -/
def tryCatch (body : Block) (catches : List (CatchPattern × Block)) (cleanup : Option Block) :
    Eval Value := do
  let tried ← attempt (ev.innerBlock body)
  let result ← match caughtMessage? tried with
    | some message => catchClauses ev message tried catches
    | none => pure tried
  if let some block := cleanup then
    match ← attempt (ev.innerBlock block) with
    | .error (.error e) => exit (.error e)
    | _ => ofResult result
  else ofResult result

/-- `throw value` -/
def throwValue (value : Expr) (pos : Position) : Eval Value := do
  let v ← ev.expr value
  match v.string? with
  | some message => fail (.thrown message) pos
  | none => fail (.throwType v.kind) pos

/-! ## Calls put off, tasks and pipes -/

/-- `defer call`: the call runs, with its arguments evaluated then, when the
function around it ends. -/
def deferCall (call : Expr) (pos : Position) : Eval Value := do
  if call.isCall then
    let scope := (← fiber).scope
    match ← read (·.frame? scope) with
    | some frame =>
      update (·.defer frame.id ⟨call, scope⟩)
      return .nothing
    | none => fail .deferOutsideFunction pos
  else fail .deferTarget pos

/-- The fiber of another thread of control or unit: its calls are its own, and it
starts from the position of the one it comes from. -/
def forkFiber (f : Fiber) (thread : Nat) (scope : ScopeId) (sink : Sink) : Fiber :=
  ⟨thread, scope, .empty f.stack.limit, f.pos, sink⟩

/-- Asks for a task that evaluates a call in a scope inside of that of `f`. -/
def requestTask (f : Fiber) (call : Expr) (σ : Store) : Store :=
  let (scope, σ) := σ.childScope f.scope
  let thread := σ.threads + 1
  { σ with
    threads := thread
    running := σ.running + 1
    spawned := σ.spawned ++ [⟨call, forkFiber f thread scope f.sink⟩] }

/-- `spawn call`: a task of its own evaluates the call; its result is dropped. -/
def spawnCall (call : Expr) (pos : Position) : Eval Value := do
  if call.isCall then
    let f ← fiber
    update (requestTask f call)
    return .nothing
  else fail .spawnTarget pos

/-- `left |> right`: the value of `left` becomes, as a literal, the first argument
of the call.  A value without a literal is not passed on. -/
def pipe (left right : Expr) (pos : Position) : Eval Value := do
  if right.isCall then
    let v ← ev.expr left
    match ← read (·.literal? left.pos v) with
    | some literal =>
      match right.withFirstArgument? literal with
      | some call => ev.expr call
      | none => fail .pipeTarget pos
    | none => return .nothing
  else fail .pipeTarget pos

/-! ## Modules -/

/-- A program up to its end: `return` ends it with a value, and a `break` or
`continue` outside of any loop with `nil`. -/
def topLevel (program : Program) : Eval Value := do
  match ← attempt (ev.block program) with
  | .error (.ret v) => return v
  | .error .brk => return .nothing
  | .error .next => return .nothing
  | result => ofResult result

instance : MonadStateOf ModuleCache Eval where
  get := read (·.modules)
  set cache := update fun σ => { σ with modules := cache }
  modifyGet g := change fun σ =>
    let (a, cache) := g σ.modules
    (a, { σ with modules := cache })

/-- Evaluates a unit silently, in a scope and with calls of its own.  What it
binds are the members of the module. -/
def evaluateUnit (path : String) (pos : Position) : Eval Module := do
  match ← read fun σ => σ.programs.bind (·.get? path) with
  | some program =>
    let scope ← change (·.rootScope)
    let f ← fiber
    let _ ← withFiber (forkFiber f f.thread scope .discard) (topLevel ev program)
    return ⟨Module.nameOf path, path, scope⟩
  | none => fail (.includeFailed path ("no such module: " ++ path)) pos

/-- `include path`: the module of a unit, which is evaluated the first time. -/
def includeUnit (path : String) (pos : Position) : Eval Value := do
  if (← read (·.programs)).isSome then
    await (.including (← fiber).thread)
    let cyclic : Exit := .error ⟨.includeFailed path "cyclic include", pos⟩
    let result ← ModuleCache.includeWith path cyclic (protect (evaluateUnit ev path pos))
    update (·.endInclude)
    return .module (← ofResult result)
  else fail (.noModuleLoader path) pos

/-! ## Structs and enums -/

/-- The names in a scope that hold functions written in the language. -/
def functionNames (σ : Store) (scope : ScopeId) : List String :=
  ((σ.members scope).filter fun
    | (_, .function _) => true
    | _ => false).map (·.1)

/-- `struct { body }`: what the body binds are the members. -/
def structOf (body : Block) : Eval Value := do
  let parent := (← fiber).scope
  let scope ← change (·.childScope parent)
  let _ ← withScope scope (ev.block body)
  return .struct scope (← read (functionNames · scope))

/-- The variants of an enum with their values.  One without a value of its own is an
integer greater by one than the last integer before. -/
def variantValues : Int64 → List (String × Option Expr) → Eval (List (String × Value))
  | _, [] => pure []
  | implicit, (name, explicit) :: rest => do
    let v ← match explicit with
      | some e => ev.expr e
      | none => pure (.ofInt implicit)
    let following := match v.int? with
      | some n => Word.saturate (n.toInt + 1)
      | none => implicit
    return (name, v) :: (← variantValues following rest)

/-- `enum { variants }`: nobody can see the scope of an enum before the last variant
is bound in it, so it is made with all of them. -/
def enumOf (variants : List (String × Option Expr)) : Eval Value := do
  let members ← variantValues ev 0 variants
  let parent := (← fiber).scope
  let scope ← change (·.newEnum parent members)
  return .enum scope (variants.map (·.1))

end Control
end TreeWalk
