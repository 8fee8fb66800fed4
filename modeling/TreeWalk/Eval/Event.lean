/-
What tasks wait for.

A task that cannot go on names the event it waits for.  An event comes about by
one step on the store, which `happen?` tries: it is `none` as long as the store
does not allow the step.  Only this one step is taken when a task goes on, so no
other task can come between the wait and its effect.
-/
import TreeWalk.Store.Basic

namespace TreeWalk

inductive Event where
  /-- Other tasks have had a turn. -/
  | turn
  /-- The offer with this ticket has been accepted or withdrawn. -/
  | settled (channel : ChannelId) (ticket : Nat)
  /-- A value has been received, or the channel has ended. -/
  | received (channel : ChannelId)
  | locked (mutex : MutexId)
  | writeLocked (mutex : RWMutexId)
  | readLocked (mutex : RWMutexId)
  /-- No task of the group is at work. -/
  | allDone (group : WaitGroupId)
  /-- The condition has been signalled since the task began to wait. -/
  | woken (cond : CondId) (waiter : Waiter)
  | entered (once : OnceId)
  /-- The thread may evaluate units. -/
  | including (thread : Nat)
  deriving DecidableEq, Repr, Inhabited

namespace Event

/-- What a task is told when the event has come about. -/
abbrev Answer : Event → Type
  | settled _ _ => Bool
  | received _ => Option Value
  | _ => Unit

/-- The step of a store that hands a mutex over. -/
def lock? (σ : Store) (id : MutexId) : Option Store := (σ.mutex id).lock?.map (σ.setMutex id)

/-- Evaluating units is left to one thread at a time, which may go on with it. -/
def include? (σ : Store) (thread : Nat) : Option Store :=
  match σ.including with
  | none => some { σ with including := some (thread, 1) }
  | some (holder, depth) =>
    if holder = thread then some { σ with including := some (holder, depth + 1) } else none

/-- The step by which an event comes about, if the store allows it. -/
def happen? : (e : Event) → Store → Option (e.Answer × Store)
  | turn, σ => some ((), σ)
  | settled id ticket, σ =>
    ((σ.channel id).settle? ticket).map fun (accepted, c) => (accepted, σ.setChannel id c)
  | received id, σ => (σ.channel id).receive?.map fun (v?, c) => (v?, σ.setChannel id c)
  | locked id, σ => (lock? σ id).map ((), ·)
  | writeLocked id, σ => (σ.rwMutex id).lock?.map fun m => ((), σ.setRWMutex id m)
  | readLocked id, σ => (σ.rwMutex id).readLock?.map fun m => ((), σ.setRWMutex id m)
  | allDone id, σ => (σ.waitGroup id).wait?.map fun w => ((), σ.setWaitGroup id w)
  | woken id waiter, σ => ((σ.cond id).leave? waiter).map fun c => ((), σ.setCond id c)
  | entered id, σ => (σ.once id).enter?.map fun o => ((), σ.setOnce id o)
  | including thread, σ => (include? σ thread).map ((), ·)

end Event

namespace Store

/-- The thread that evaluates units ends one of them. -/
def endInclude (σ : Store) : Store :=
  match σ.including with
  | some (thread, depth + 2) => { σ with including := some (thread, depth + 1) }
  | _ => { σ with including := none }

end Store
end TreeWalk
