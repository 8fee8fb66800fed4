/-
Tasks beside the main computation.

The main computation runs until it ends or waits.  While it waits, the tasks get
their turns: those that wait for something that can come about go on until they
wait again, and those that were asked for begin.  Each turn of all tasks either
moves one of them or shows that none can move; if then the main computation
cannot go on either, it never will.
-/
import TreeWalk.Eval.Node

namespace TreeWalk

namespace Eval

/-- Runs a computation and takes a fault for an error of the program, or for
`nil` where faults are swallowed.  The calls that were under way are given up. -/
def guarded (swallow : Bool) (x : Eval Value) : Eval Value := fun f σ =>
  (x f σ).andThen fun
    | .error (.fault message), f, σ =>
      let result : Except Exit Value :=
        if swallow then .ok .nothing else .error (.error ⟨.internal message, f.pos⟩)
      .done result { f with stack := f.stack.clear } σ
    | r, f, σ => .done r f σ

end Eval

/-- A task that waits for an event. -/
structure Parked where
  event : Event
  resume : event.Answer → Store → Step Value

namespace Schedule

/-- The task, if it waits, and the store.  A task that has ended is no longer
running. -/
def park : Step Value → Option Parked × Store
  | .done _ _ σ => (none, { σ with running := σ.running - 1 })
  | .wait event σ resume => (some ⟨event, resume⟩, σ)

/-- The next step of a task, if what it waits for can come about. -/
def advance? (p : Parked) (σ : Store) : Option (Step Value) :=
  (p.event.happen? σ).map fun (answer, σ) => p.resume answer σ

/-- A turn for every task that can go on, and whether there was one. -/
def resumeAll : List Parked → Store → List Parked × Store × Bool
  | [], σ => ([], σ, false)
  | p :: rest, σ =>
    match advance? p σ with
    | some s =>
      let (waiting?, σ) := park s
      let (rest, σ, _) := resumeAll rest σ
      (waiting?.toList ++ rest, σ, true)
    | none =>
      let (rest, σ, moved) := resumeAll rest σ
      (p :: rest, σ, moved)

/-- Begins a task. -/
def begin (fuel : Nat) (swallow : Bool) (s : Spawned) (σ : Store) : Step Value :=
  Eval.guarded swallow ((evaluator fuel).expr s.call) s.fiber σ

/-- Begins tasks in turn. -/
def beginAll (fuel : Nat) (swallow : Bool) : List Spawned → Store → List Parked × Store
  | [], σ => ([], σ)
  | s :: rest, σ =>
    let (waiting?, σ) := park (begin fuel swallow s σ)
    let (rest, σ) := beginAll fuel swallow rest σ
    (waiting?.toList ++ rest, σ)

/-- A turn for all tasks: those under way, and those asked for. -/
def turn (fuel : Nat) (swallow : Bool) (tasks : List Parked) (σ : Store) :
    List Parked × Store × Bool :=
  let (tasks, σ, moved) := resumeAll tasks σ
  let spawned := σ.spawned
  let (begun, σ) := beginAll fuel swallow spawned { σ with spawned := [] }
  (tasks ++ begun, σ, moved || !spawned.isEmpty)

/-- How the main computation ended, and what is left. -/
structure Finish where
  result : Except Exit Value
  fiber : Fiber
  store : Store
  tasks : List Parked

/-- Runs the main computation to its end.  One that can never go on is given up
with the fiber it began with. -/
def drive (fuel : Nat) (swallow : Bool) (start : Fiber) :
    Nat → Step Value → List Parked → Finish
  | _, .done result fiber store, tasks => ⟨result, fiber, store, tasks⟩
  | 0, .wait _ store _, tasks => ⟨.error .exhausted, start, store, tasks⟩
  | rounds + 1, .wait event store resume, tasks =>
    let (tasks, store, moved) := turn fuel swallow tasks store
    match event.happen? store with
    | some (answer, store) => drive fuel swallow start rounds (resume answer store) tasks
    | none =>
      if moved then drive fuel swallow start rounds (.wait event store resume) tasks
      else ⟨.error .exhausted, start, store, tasks⟩

end Schedule
end TreeWalk
