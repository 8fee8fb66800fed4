/-
Sessions: an evaluator with its state.

A session keeps its store, its bindings and its position from one evaluation to
the next.  Programs are guarded against faults; expressions, statements, blocks
and calls that are evaluated on their own are not.
-/
import TreeWalk.Eval.Schedule

namespace TreeWalk

/-- How a session is set up. -/
structure Setup where
  /-- How many calls may be under way at once. -/
  depthLimit : Option Nat := some 500
  /-- Take a fault of a program for `nil`. -/
  swallowsFaults : Bool := false
  sink : Sink := .capture
  /-- The arguments of the script, which it sees as `$args`. -/
  args : List String := []
  /-- Publish the functions that make synchronization objects. -/
  standard : Bool := true
  /-- The units that can be included; `none` without a loader. -/
  programs : Option (Assoc Program) := none

structure Session where
  store : Store
  fiber : Fiber
  /-- The tasks under way. -/
  tasks : List Parked
  swallowsFaults : Bool

namespace Session

/-- What the host publishes from the start. -/
def standardRegistry : Assoc Value := Native.constructors.map fun f => (f.name, .native f)

/-- A bound that no evaluation reaches in practice. -/
def fuel : Nat := Nat.pow 10 18

def ofSetup (setup : Setup) : Session :=
  let σ : Store :=
    { registry := if setup.standard then standardRegistry else [], programs := setup.programs }
  let (scope, σ) := σ.rootScope
  let (args, σ) := σ.newArray (setup.args.map Value.ofString).toArray
  { store := σ.bind scope "$args" args
    fiber := ⟨0, scope, .empty setup.depthLimit, .unknown, setup.sink⟩
    tasks := []
    swallowsFaults := setup.swallowsFaults }

/-- Runs a computation to its end, within so many turns of the tasks. -/
def execWithin (s : Session) (fuel : Nat) (x : Eval Value) : Except Exit Value × Session :=
  let finish := Schedule.drive fuel s.swallowsFaults s.fiber fuel (x s.fiber s.store) s.tasks
  (finish.result, { s with store := finish.store, fiber := finish.fiber, tasks := finish.tasks })

/-- Runs a computation to its end. -/
def exec (s : Session) (x : Eval Value) : Except Exit Value × Session := s.execWithin fuel x

/-- A program in a scope, guarded. -/
def programWith (ev : Evaluator) (swallow : Bool) (scope : ScopeId) (program : Program) :
    Eval Value :=
  Eval.guarded swallow (Eval.withScope scope (Control.topLevel ev program))

def programIn (swallow : Bool) (scope : ScopeId) (program : Program) : Eval Value :=
  programWith (evaluator fuel) swallow scope program

/-- Runs a program in a scope with an evaluator. -/
def runWith (s : Session) (fuel : Nat) (ev : Evaluator) (scope : ScopeId) (program : Program) :
    Except Exit Value × Session :=
  s.execWithin fuel (programWith ev s.swallowsFaults scope program)

/-- Runs a program in a scope. -/
def runIn (s : Session) (scope : ScopeId) (program : Program) : Except Exit Value × Session :=
  s.runWith fuel (evaluator fuel) scope program

/-- Runs a program in the scope of the session; its bindings stay. -/
def run (s : Session) (program : Program) : Except Exit Value × Session :=
  s.runIn s.fiber.scope program

/-- Runs a program beside the session: inside of its scope, with calls of its
own. -/
def fork (s : Session) (program : Program) : Except Exit Value × Session :=
  let (scope, σ) := s.store.childScope s.fiber.scope
  let fiber := Control.forkFiber s.fiber s.fiber.thread scope s.fiber.sink
  { s with store := σ }.exec
    (Eval.withFiber fiber (programIn s.swallowsFaults scope program))

def evalExpr (s : Session) (e : Expr) : Except Exit Value × Session :=
  s.exec ((evaluator fuel).expr e)

def evalStmt (s : Session) (stmt : Stmt) : Except Exit Value × Session :=
  s.exec ((evaluator fuel).stmt stmt)

def evalBlock (s : Session) (body : Block) : Except Exit Value × Session :=
  s.exec ((evaluator fuel).block body)

/-- Evaluates a block in a scope of its own. -/
def evalInnerBlock (s : Session) (body : Block) : Except Exit Value × Session :=
  s.exec ((evaluator fuel).innerBlock body)

def lookup (s : Session) (name : String) (pos : Position) : Except Exit Value × Session :=
  s.exec (Node.lookup name pos)

/-- Calls what a name stands for. -/
def call (s : Session) (name : String) (args : List Value) (pos : Position) :
    Except Exit Value × Session :=
  s.exec do
    let f ← Node.lookup name pos
    (evaluator fuel).call f args pos

/-- Calls a method. -/
def callMethod (s : Session) (v : Value) (name : String) (args : List Value) :
    Except Exit Value × Session :=
  s.exec (Method.call (evaluator fuel) v name args)

/-- Binds a name in the scope of the session. -/
def bind (s : Session) (name : String) (v : Value) : Session :=
  { s with store := s.store.bind s.fiber.scope name v }

/-- What a name is bound to, seen from the scope of the session. -/
def get? (s : Session) (name : String) : Option Value := s.store.get? s.fiber.scope name

/-- Publishes a value under a name. -/
def register (s : Session) (name : String) (v : Value) : Session :=
  { s with store := { s.store with registry := s.store.registry.set name v } }

/-- Takes back what was published under a name. -/
def unregister (s : Session) (name : String) : Option Value × Session :=
  (s.store.registry.get? name,
    { s with store := { s.store with registry := s.store.registry.erase name } })

/-- Makes a unit known to the loader; a session without a loader stays without. -/
def load (s : Session) (path : String) (program : Program) : Session :=
  { s with store := { s.store with programs := s.store.programs.map (·.set path program) } }

/-- Forgets the modules included so far. -/
def clearModules (s : Session) : Session :=
  { s with store := { s.store with modules := s.store.modules.clear } }

/-- The text printed since the last time. -/
def takeOutput (s : Session) : String × Session :=
  (s.store.output, { s with store := { s.store with output := "" } })

/-- The number of calls under way. -/
def depth (s : Session) : Nat := s.fiber.stack.depth

end Session
end TreeWalk
