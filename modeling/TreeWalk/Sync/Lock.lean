/-
Synchronization objects.

Each object is a small state with operations that are single steps: what a task
does to the object between two moments at which other tasks can run.  A step
that has to wait answers `none`, and is tried again when the object has changed.
-/
import TreeWalk.Value.Basic

namespace TreeWalk

/-- A counter of tasks that are still at work. -/
structure WaitGroup where
  count : Int64
  deriving DecidableEq, Repr, Inhabited

namespace WaitGroup

def new : WaitGroup := ⟨0⟩

/-- Changes the counter; `none` where it would become negative. -/
def add? (w : WaitGroup) (delta : Int64) : Option WaitGroup :=
  let count := Word.saturate (w.count.toInt + delta.toInt)
  if count < 0 then none else some ⟨count⟩

/-- Passes once no task is at work. -/
def wait? (w : WaitGroup) : Option WaitGroup := if 0 < w.count then none else some w

end WaitGroup

/-- A lock.  It does not know who holds it. -/
structure Mutex where
  locked : Bool
  deriving DecidableEq, Repr, Inhabited

namespace Mutex

def new : Mutex := ⟨false⟩

def lock? (m : Mutex) : Option Mutex := if m.locked then none else some ⟨true⟩

/-- Takes the lock if it is free, and answers whether it was. -/
def tryLock (m : Mutex) : Bool × Mutex := (!m.locked, ⟨true⟩)

/-- Releases the lock; `none` if it is not held. -/
def unlock? (m : Mutex) : Option Mutex := if m.locked then some ⟨false⟩ else none

end Mutex

/-- A lock for one writer or any number of readers. -/
structure RWMutex where
  readers : Nat
  writer : Bool
  deriving DecidableEq, Repr, Inhabited

namespace RWMutex

def new : RWMutex := ⟨0, false⟩

def lock? (m : RWMutex) : Option RWMutex :=
  if m.writer ∨ 0 < m.readers then none else some { m with writer := true }

def unlock? (m : RWMutex) : Option RWMutex :=
  if m.writer then some { m with writer := false } else none

def readLock? (m : RWMutex) : Option RWMutex :=
  if m.writer then none else some { m with readers := m.readers + 1 }

def readUnlock? (m : RWMutex) : Option RWMutex :=
  if m.readers = 0 then none else some { m with readers := m.readers - 1 }

end RWMutex

/-- A condition that tasks wait for.  A broadcast starts a new generation, which
releases all who entered before; a signal grants one permit, as long as there
are more tasks waiting than permits.  A signal that grants nothing wakes nobody. -/
structure Cond where
  /-- The lock that a waiting task gives up and takes again. -/
  mutex : Option MutexId
  generation : UInt64
  permits : Nat
  waiters : Nat
  /-- How often the waiting tasks have been woken. -/
  wakeUps : Nat
  deriving DecidableEq, Repr, Inhabited

/-- What a task that waits for a condition found when it began. -/
structure Waiter where
  generation : UInt64
  wakeUps : Nat
  deriving DecidableEq, Repr, Inhabited

namespace Cond

def new (mutex : Option MutexId) : Cond := ⟨mutex, 0, 0, 0, 0⟩

/-- A task begins to wait. -/
def enter (c : Cond) : Waiter × Cond :=
  (⟨c.generation, c.wakeUps⟩, { c with waiters := c.waiters + 1 })

/-- The task has been woken since it began to wait. -/
def hasWoken (c : Cond) (w : Waiter) : Bool := c.wakeUps ≠ w.wakeUps

/-- A waiting task goes on once it is woken: freely after a broadcast, otherwise
by using up a permit. -/
def leave? (c : Cond) (w : Waiter) : Option Cond :=
  if !c.hasWoken w then none
  else if c.generation ≠ w.generation then some { c with waiters := c.waiters - 1 }
  else if 0 < c.permits then
    some { c with permits := c.permits - 1, waiters := c.waiters - 1 }
  else none

def signal (c : Cond) : Cond :=
  if c.permits < c.waiters then
    { c with permits := c.permits + 1, wakeUps := c.wakeUps + 1 }
  else c

def broadcast (c : Cond) : Cond :=
  { c with generation := c.generation + 1, permits := 0, wakeUps := c.wakeUps + 1 }

end Cond

/-- A guard that lets one call through, ever. -/
structure Once where
  done : Bool
  /-- A task is inside; others wait for it to leave. -/
  held : Bool
  deriving DecidableEq, Repr, Inhabited

namespace Once

def new : Once := ⟨false, false⟩

def enter? (o : Once) : Option Once := if o.held then none else some { o with held := true }

def leave (o : Once) : Once := { o with held := false }

end Once

end TreeWalk
