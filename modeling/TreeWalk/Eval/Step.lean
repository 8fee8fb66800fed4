/-
Evaluations that can be interrupted.

An evaluation ends, or it waits for an event and says how to go on.  A task owns
its fiber and shares the store with all others; while it waits, others may
change the store, so it goes on with whatever store it is given then.
-/
import TreeWalk.Eval.Event
import TreeWalk.Store.Atomic

namespace TreeWalk

inductive Step (α : Type) where
  | done (result : Except Exit α) (fiber : Fiber) (store : Store)
  | wait (event : Event) (store : Store) (resume : event.Answer → Store → Step α)

namespace Step

variable {α β : Type}

/-- Goes on after the end, however it ended. -/
def andThen (s : Step α) (next : Except Exit α → Fiber → Store → Step β) : Step β :=
  match s with
  | done result fiber store => next result fiber store
  | wait event store resume => wait event store fun answer σ => (resume answer σ).andThen next

@[simp] theorem andThen_done (r : Except Exit α) (f : Fiber) (σ : Store)
    (next : Except Exit α → Fiber → Store → Step β) : (done r f σ).andThen next = next r f σ := rfl

/-- Going on twice is going on once. -/
theorem andThen_andThen {γ : Type} (s : Step α) (next : Except Exit α → Fiber → Store → Step β)
    (last : Except Exit β → Fiber → Store → Step γ) :
    (s.andThen next).andThen last = s.andThen fun r f σ => (next r f σ).andThen last := by
  induction s with
  | done r f σ => rfl
  | wait event σ resume ih =>
    simp only [andThen]
    congr 1
    funext answer σ'
    exact ih answer σ'

/-- Doing nothing after the end changes nothing. -/
@[simp] theorem andThen_done_right (s : Step α) : s.andThen done = s := by
  induction s with
  | done r f σ => rfl
  | wait event σ resume ih =>
    simp only [andThen]
    congr 1
    funext answer σ'
    exact ih answer σ'

end Step

/-- A computation of a task. -/
def Eval (α : Type) := Fiber → Store → Step α

namespace Eval

variable {α β : Type}

@[inline] protected def pure (a : α) : Eval α := fun f σ => .done (.ok a) f σ

/-- What follows a computation: its continuation, or the exit it ended with. -/
@[inline] def follow (next : α → Eval β) : Except Exit α → Fiber → Store → Step β
  | .ok a, f, σ => next a f σ
  | .error e, f, σ => .done (.error e) f σ

@[inline] protected def bind (x : Eval α) (next : α → Eval β) : Eval β := fun f σ =>
  match x f σ with
  | .done (.ok a) f σ => next a f σ
  | .done (.error e) f σ => .done (.error e) f σ
  | s => s.andThen (follow next)

instance : Monad Eval where
  pure := Eval.pure
  bind := Eval.bind

/-- Sequencing as one step after the other. -/
theorem bind_apply (x : Eval α) (next : α → Eval β) (f : Fiber) (σ : Store) :
    (x >>= next) f σ = (x f σ).andThen (follow next) := by
  change Eval.bind x next f σ = _
  unfold Eval.bind
  split <;> simp_all [follow]

@[simp] theorem pure_apply (a : α) (f : Fiber) (σ : Store) :
    (pure a : Eval α) f σ = .done (.ok a) f σ := rfl

theorem follow_pure : follow (pure : α → Eval α) = Step.done := by
  funext r f σ
  cases r <;> rfl

instance : LawfulMonad Eval := LawfulMonad.mk' Eval
  (fun x => by
    funext f σ
    change (x >>= pure) f σ = x f σ
    rw [bind_apply, follow_pure, Step.andThen_done_right])
  (fun _ _ => rfl)
  (fun x g h => by
    funext f σ
    rw [bind_apply, bind_apply, bind_apply, Step.andThen_andThen]
    congr 1
    funext r f' σ'
    cases r with
    | ok a => exact (bind_apply (g a) h f' σ').symm
    | error e => rfl)

/-- Ends with an exit. -/
@[inline] def exit (e : Exit) : Eval α := fun f σ => .done (.error e) f σ

/-- Fails with a cause at a position. -/
def fail (cause : Cause) (pos : Position) : Eval α := exit (.error ⟨cause, pos⟩)

/-- Ends as told. -/
@[inline] def ofResult (result : Except Exit α) : Eval α := fun f σ => .done result f σ

/-- Reads from the store. -/
@[inline] def read (g : Store → α) : Eval α := fun f σ => .done (.ok (g σ)) f σ

@[inline] def update (g : Store → Store) : Eval Unit := fun f σ => .done (.ok ()) f (g σ)

/-- Changes the store and answers what the change answers. -/
@[inline] def change (g : Store → α × Store) : Eval α := fun f σ =>
  let (a, σ) := g σ
  .done (.ok a) f σ

/-- The fiber of the task. -/
@[inline] def fiber : Eval Fiber := fun f σ => .done (.ok f) f σ

@[inline] def updateFiber (g : Fiber → Fiber) : Eval Unit := fun f σ => .done (.ok ()) (g f) σ

/-- Runs a computation on the store; one that fails leaves the store as it was. -/
@[inline] def lift (a : Atomic α) : Eval α := fun f σ =>
  match a σ with
  | .ok (v, σ') => .done (.ok v) f σ'
  | .error e => .done (.error e) f σ

/-- As part of a task, a computation on the store makes each change at once. -/
instance : Effects Eval where
  exit := exit
  change := change

/-- Waits for an event.  An event that can come about at once does. -/
def await (event : Event) : Eval event.Answer := fun f σ =>
  match event.happen? σ with
  | some (answer, σ') => .done (.ok answer) f σ'
  | none => .wait event σ fun answer σ' => .done (.ok answer) f σ'

/-- Gives other tasks a turn, if there are any. -/
def yieldTurn : Eval Unit := fun f σ =>
  if σ.running = 0 then .done (.ok ()) f σ
  else .wait .turn σ fun _ σ' => .done (.ok ()) f σ'

/-! ## Exits and scopes -/

/-- Runs a computation and answers how it ended, whatever that was. -/
def protect (x : Eval α) : Eval (Except Exit α) := fun f σ =>
  (x f σ).andThen fun r f σ => .done (.ok r) f σ

/-- Runs a computation and answers how it ended.  Faults pass through. -/
def attempt (x : Eval α) : Eval (Except Exit α) := fun f σ =>
  (x f σ).andThen fun
    | .error e, f, σ => if e.isAbort then .done (.error e) f σ else .done (.ok (.error e)) f σ
    | .ok a, f, σ => .done (.ok (.ok a)) f σ

/-- Runs a computation in another scope.  However it ends, the task is back in
its own scope afterwards. -/
def withScope (scope : ScopeId) (x : Eval α) : Eval α := fun f σ =>
  (x { f with scope := scope } σ).andThen fun r g σ => .done r { g with scope := f.scope } σ

/-- Runs a computation in a new scope inside of the current one. -/
def withChildScope (x : Eval α) : Eval α := fun f σ =>
  let (scope, σ) := σ.childScope f.scope
  withScope scope x f σ

/-- Runs a computation with another fiber, and takes up the own one again. -/
def withFiber (g : Fiber) (x : Eval α) : Eval α := fun f σ =>
  (x g σ).andThen fun r _ σ => .done r f σ

/-- Binds a name in the current scope. -/
def bindName (name : String) (v : Value) : Eval Unit := fun f σ =>
  .done (.ok ()) f (σ.bind f.scope name v)

/-- The position of the node being evaluated. -/
@[inline] def position : Eval Position := fun f σ => .done (.ok f.pos) f σ

/-- Enters a node: its position becomes the current one if it is known.  Answers
the current position. -/
@[inline] def enter (pos : Position) : Eval Position := fun f σ =>
  let pos := pos.orElse f.pos
  .done (.ok pos) { f with pos := pos } σ

/-! ## Loops

The loops are written so that a turn that does not wait is followed by the next
one directly; the equations below say that this is plain sequencing. -/

/-- `iterate` with the fiber and the store in hand. -/
def iterateFrom (step : β → Eval (β ⊕ α)) : Nat → β → Fiber → Store → Step α
  | 0, _, f, σ => .done (.error .exhausted) f σ
  | fuel + 1, b, f, σ =>
    match step b f σ with
    | .done (.ok (.inl b)) f σ => iterateFrom step fuel b f σ
    | s => s.andThen (follow fun
      | .inl b => fun f σ => iterateFrom step fuel b f σ
      | .inr a => Eval.pure a)

/-- Repeats a step on a state until it answers a result. -/
def iterate (step : β → Eval (β ⊕ α)) (fuel : Nat) (b : β) : Eval α :=
  fun f σ => iterateFrom step fuel b f σ

theorem iterate_succ (step : β → Eval (β ⊕ α)) (fuel : Nat) (b : β) :
    iterate step (fuel + 1) b = step b >>= fun
      | .inl b => iterate step fuel b
      | .inr a => pure a := by
  funext f σ
  rw [bind_apply]
  change iterateFrom step (fuel + 1) b f σ = _
  rw [iterateFrom]
  split
  · next h =>
    rw [h]
    rfl
  · congr 1

/-- `foldList` with the fiber and the store in hand. -/
def foldListFrom (step : β → α → Eval β) : List α → β → Fiber → Store → Step β
  | [], b, f, σ => .done (.ok b) f σ
  | a :: rest, b, f, σ =>
    match step b a f σ with
    | .done (.ok b) f σ => foldListFrom step rest b f σ
    | s => s.andThen (follow fun b f σ => foldListFrom step rest b f σ)

/-- Takes the elements of a list into a state, from left to right. -/
def foldList (step : β → α → Eval β) (items : List α) (b : β) : Eval β :=
  fun f σ => foldListFrom step items b f σ

@[simp] theorem foldList_nil (step : β → α → Eval β) (b : β) : foldList step [] b = pure b := rfl

theorem foldList_cons (step : β → α → Eval β) (a : α) (rest : List α) (b : β) :
    foldList step (a :: rest) b = step b a >>= foldList step rest := by
  funext f σ
  rw [bind_apply]
  change foldListFrom step (a :: rest) b f σ = _
  rw [foldListFrom]
  split
  · next h =>
    rw [h]
    rfl
  · rfl

/-- What a computation makes of the elements of a list, from left to right. -/
def mapList (g : α → Eval β) (items : List α) : Eval (List β) := do
  let results ← foldList (fun results a => do return (← g a) :: results) items []
  return results.reverse

end Eval
end TreeWalk
