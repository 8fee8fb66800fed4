/-
Locks, whatever tasks use them and in whatever order.

A lock does not know who holds it.  A holding remembers that: it is a store
together with the tasks that have taken the lock and not released it, each as
often as it has taken it.  Its turns are those of any tasks, told apart by
numbers: calls of the methods of the lock, a task that had to wait going on, and
whatever else leaves the lock alone.  A task releases the lock only if it holds
it, which the lock itself does not ask.
-/
import TreeWalk.Eval.Node
import TreeWalk.Proofs.Sync.Call

namespace TreeWalk

open Eval

section Count

variable {tasks : List Nat} {taken : Bool}

theorem length_le_one (h : tasks.length = if taken then 1 else 0) : tasks.length ≤ 1 := by
  rw [h]
  split
  · exact Nat.le_refl 1
  · exact Nat.zero_le 1

theorem taken_iff (h : tasks.length = if taken then 1 else 0) : taken = true ↔ tasks ≠ [] := by
  rw [Ne, ← List.length_eq_zero_iff, h]
  cases taken with
  | true => exact ⟨fun _ => Nat.one_ne_zero, fun _ => rfl⟩
  | false => exact ⟨fun h => Bool.noConfusion h, fun h => absurd rfl h⟩

end Count

namespace Mutex

variable {id : MutexId} {task : Nat}

/-! ## One call -/

section Call

variable {ev : Evaluator} {args : Args} {m : MutexMethod} {f f' : Fiber} {σ σ' : Store} {e : Exit}

theorem call_eq (h : args.method? = some m) :
    Object.call ev (.mutex id) args f σ = Object.onMutex id m args f σ := Object.dispatch_eq h

theorem call_none (ev : Evaluator) (id : MutexId) (f : Fiber) (σ : Store)
    (h : args.method? (μ := MutexMethod) = none) :
    ∃ e, Object.call ev (.mutex id) args f σ = .done (.error e) f σ := Object.dispatch_none h

theorem onMutex_lock : Object.onMutex id .lock args f σ = .after (.locked id) f σ :=
  await_apply (.locked id)

theorem onMutex_tryLock : Object.onMutex id .tryLock args f σ =
    .done (.ok (.ofBool !(σ.mutex id).locked)) f (σ.setMutex id ⟨true⟩) := rfl

theorem onMutex_unlock : Object.onMutex id .unlock args f σ =
    .ifCan ((σ.mutex id).unlock?.map (σ.setMutex id)) (.unlock "MUTEX") args.pos f σ :=
  Object.release_apply _ "MUTEX" args.pos

/-- A call that fails changes nothing. -/
theorem eq_of_call_error
    (h : Object.call ev (.mutex id) args f σ = .done (.error e) f' σ') : σ' = σ := by
  cases hm : args.method? (μ := MutexMethod) with
  | none =>
    obtain ⟨e', hcall⟩ := call_none ev id f σ hm
    exact (Step.done.inj (hcall.symm.trans h)).2.2.symm
  | some m =>
    rw [call_eq hm] at h
    cases m with
    | lock => exact absurd (onMutex_lock.symm.trans h) Step.after_ne_error
    | tryLock => cases (Step.done.inj (onMutex_tryLock.symm.trans h)).1
    | unlock => exact Step.of_ifCan_error (onMutex_unlock.symm.trans h)

end Call

/-- A task that begins to wait for a condition gives up its lock. -/
theorem mutexes_of_beginWait {cond : CondId} {waiter : Waiter} {σ σ' : Store} {m' : Mutex}
    (h : Object.beginWait cond σ = ((waiter, some id), σ'))
    (hunlock : (σ.mutex id).unlock? = some m') :
    σ'.mutexes = σ.mutexes.setIfInBounds id.index m' := by
  unfold Object.beginWait at h
  dsimp only at h
  split at h
  · next mutex _ =>
    split at h
    · next unlocked hunlocked =>
      obtain ⟨hfound, rfl⟩ := Prod.mk.inj h
      obtain rfl := Option.some.inj (Prod.mk.inj hfound).2
      obtain rfl := Option.some.inj (hunlock.symm.trans hunlocked)
      rfl
    · next hlocked =>
      obtain rfl := Option.some.inj (Prod.mk.inj (Prod.mk.inj h).1).2
      exact absurd (hunlock.symm.trans hlocked) (Option.some_ne_none m')
  · cases h

/-! ## Any number of tasks -/

/-- A store, and the tasks that have taken the lock and not released it. -/
structure Holding where
  store : Store
  holders : List Nat

namespace Holding

/-- One turn of a task. -/
inductive Turn (id : MutexId) (task : Nat) (s : Holding) : Holding → Prop
  | locks (ev : Evaluator) (args : Args) {f f' : Fiber} {v : Value} {σ : Store}
      (hm : args.method? = some MutexMethod.lock)
      (h : Object.call ev (.mutex id) args f s.store = .done (.ok v) f' σ) :
      Turn id task s ⟨σ, task :: s.holders⟩
  /-- The task waited for the lock, and is given it. -/
  | granted {a : Unit} {σ : Store} (h : (Event.locked id).happen? s.store = some (a, σ)) :
      Turn id task s ⟨σ, task :: s.holders⟩
  | tries (ev : Evaluator) (args : Args) {f f' : Fiber} {taken : Bool} {σ : Store}
      (hm : args.method? = some MutexMethod.tryLock)
      (h : Object.call ev (.mutex id) args f s.store = .done (.ok (.ofBool taken)) f' σ) :
      Turn id task s ⟨σ, if taken then task :: s.holders else s.holders⟩
  | unlocks (ev : Evaluator) (args : Args) {f f' : Fiber} {v : Value} {σ : Store}
      (hm : args.method? = some MutexMethod.unlock) (hown : task ∈ s.holders)
      (h : Object.call ev (.mutex id) args f s.store = .done (.ok v) f' σ) :
      Turn id task s ⟨σ, s.holders.erase task⟩
  /-- The task gives the lock up to wait for a condition. -/
  | sleeps {cond : CondId} {waiter : Waiter} {σ : Store} (hown : task ∈ s.holders)
      (h : Object.beginWait cond s.store = ((waiter, some id), σ)) :
      Turn id task s ⟨σ, s.holders.erase task⟩
  | fails (ev : Evaluator) (args : Args) {f f' : Fiber} {e : Exit} {σ : Store}
      (h : Object.call ev (.mutex id) args f s.store = .done (.error e) f' σ) :
      Turn id task s ⟨σ, s.holders⟩
  /-- Something else happens, which leaves the lock alone. -/
  | other {σ : Store} (h : σ.mutexes[id.index]? = s.store.mutexes[id.index]?) :
      Turn id task s ⟨σ, s.holders⟩

/-- Reached by turns of any tasks after the lock was made. -/
inductive Reached (id : MutexId) : Holding → Prop
  | made {σ : Store} (h : σ.mutexes.size = id.index) : Reached id ⟨σ.newMutex.2, []⟩
  | turn {task : Nat} {s s' : Holding} (h : Reached id s) (ht : Turn id task s s') : Reached id s'

/-- Only the task whose turn it is can lose the lock. -/
theorem Turn.mem_of_ne {s s' : Holding} {other : Nat} (ht : Turn id task s s') (hne : other ≠ task)
    (hown : other ∈ s.holders) : other ∈ s'.holders := by
  cases ht with
  | locks => exact List.mem_cons_of_mem task hown
  | granted => exact List.mem_cons_of_mem task hown
  | @tries _ _ _ _ taken =>
    cases taken with
    | true => exact List.mem_cons_of_mem task hown
    | false => exact hown
  | unlocks => exact (List.mem_erase_of_ne hne).mpr hown
  | sleeps => exact (List.mem_erase_of_ne hne).mpr hown
  | fails => exact hown
  | other => exact hown

/-- The lock is taken if there is a holder, and there is no second one. -/
structure Kept (id : MutexId) (s : Holding) (m : Mutex) : Prop where
  cell : s.store.mutexes[id.index]? = some m
  count : s.holders.length = if m.locked then 1 else 0

namespace Kept

variable {s s' : Holding} {m m' : Mutex} {σ : Store}

theorem lock (h : Kept id s m) (hlock : m.lock? = some m')
    (hcell : σ.mutexes[id.index]? = some m') : Kept id ⟨σ, task :: s.holders⟩ m' := by
  unfold lock? at hlock
  split at hlock
  · cases hlock
  · next hfree =>
    obtain rfl := Option.some.inj hlock
    have hcount := h.count
    rw [if_neg hfree] at hcount
    exact ⟨hcell, congrArg (· + 1) hcount⟩

theorem unlock (h : Kept id s m) (hown : task ∈ s.holders) (hunlock : m.unlock? = some m')
    (hcell : σ.mutexes[id.index]? = some m') : Kept id ⟨σ, s.holders.erase task⟩ m' := by
  unfold unlock? at hunlock
  split at hunlock
  · next hlocked =>
    obtain rfl := Option.some.inj hunlock
    have hcount := h.count
    rw [if_pos hlocked] at hcount
    refine ⟨hcell, ?_⟩
    show (s.holders.erase task).length = 0
    rw [List.length_erase_of_mem hown, hcount]
  · cases hunlock

theorem tryLock (h : Kept id s m) (hcell : σ.mutexes[id.index]? = some ⟨true⟩) :
    ∃ m', Kept id ⟨σ, if !m.locked then task :: s.holders else s.holders⟩ m' := by
  have hcount := h.count
  refine ⟨⟨true⟩, hcell, ?_⟩
  cases hlocked : m.locked with
  | true =>
    rw [hlocked] at hcount
    exact hcount
  | false =>
    rw [hlocked] at hcount
    exact congrArg (· + 1) hcount

theorem of_happen? {a : Unit} (h : Kept id s m)
    (hstep : (Event.locked id).happen? s.store = some (a, σ)) :
    ∃ m', Kept id ⟨σ, task :: s.holders⟩ m' := by
  obtain ⟨τ, hlock, heq⟩ := Option.map_eq_some_iff.mp hstep
  obtain ⟨m', hm', rfl⟩ := Option.map_eq_some_iff.mp hlock
  obtain rfl := (Prod.mk.inj heq).2
  have hm : s.store.mutex id = m := getD_of_cell h.cell _
  rw [hm] at hm'
  exact ⟨m', h.lock hm' (cell_of_set h.cell m')⟩

theorem eq_of_mem {other : Nat} (h : Kept id s m) (htask : task ∈ s.holders)
    (hother : other ∈ s.holders) : other = task := by
  have hcount := h.count
  split at hcount
  · obtain ⟨holder, hone⟩ := List.length_eq_one_iff.mp hcount
    rw [hone] at htask hother
    exact (List.mem_singleton.mp hother).trans (List.mem_singleton.mp htask).symm
  · rw [List.eq_nil_of_length_eq_zero hcount] at htask
    cases htask

/-- A holder can always release the lock. -/
theorem unlock?_eq (h : Kept id s m) (hown : task ∈ s.holders) : m.unlock? = some ⟨false⟩ := by
  have hpos := List.length_pos_of_mem hown
  have hcount := h.count
  unfold unlock?
  split
  · rfl
  · next hfree =>
    rw [if_neg hfree] at hcount
    omega

/-- What every turn preserves. -/
theorem turn (h : Kept id s m) (ht : Turn id task s s') : ∃ m', Kept id s' m' := by
  have hm : s.store.mutex id = m := getD_of_cell h.cell _
  cases ht with
  | @locks ev args f f' v σ hmethod hdone =>
    rw [call_eq hmethod] at hdone
    obtain ⟨a, hstep⟩ := Step.happens_of_after (onMutex_lock.symm.trans hdone)
    exact h.of_happen? hstep
  | granted hstep => exact h.of_happen? hstep
  | @tries ev args f f' taken σ hmethod hdone =>
    rw [call_eq hmethod] at hdone
    obtain ⟨htaken, -, rfl⟩ := Step.done.inj (onMutex_tryLock.symm.trans hdone)
    have htaken : (!m.locked) = taken := by
      rw [hm] at htaken
      injection htaken with hvalue
      injection hvalue with htruth
      injection htruth
    rw [← htaken]
    exact h.tryLock (cell_of_set h.cell ⟨true⟩)
  | @unlocks ev args f f' v σ hmethod hown hdone =>
    rw [call_eq hmethod] at hdone
    obtain ⟨m', hunlock, rfl⟩ :=
      Option.map_eq_some_iff.mp (Step.of_ifCan_ok (onMutex_unlock.symm.trans hdone))
    rw [hm] at hunlock
    exact ⟨m', h.unlock hown hunlock (cell_of_set h.cell m')⟩
  | sleeps hown hwait =>
    have hcell := mutexes_of_beginWait hwait (hm ▸ h.unlock?_eq hown)
    exact ⟨⟨false⟩, h.unlock hown (h.unlock?_eq hown) (hcell ▸ cell_of_set h.cell ⟨false⟩)⟩
  | fails ev args hdone =>
    obtain rfl := eq_of_call_error hdone
    exact ⟨m, h⟩
  | other hcell => exact ⟨m, hcell.trans h.cell, h.count⟩

end Kept

theorem kept_of_reached {s : Holding} (h : Reached id s) : ∃ m, Kept id s m := by
  induction h with
  | @made σ hsize =>
    refine ⟨.new, ?_, rfl⟩
    show (σ.mutexes.push .new)[id.index]? = some .new
    rw [← hsize, Array.getElem?_push_size]
  | turn _ ht ih =>
    obtain ⟨m, hm⟩ := ih
    exact hm.turn ht

end Holding
end Mutex

namespace RWMutex

variable {id : RWMutexId} {task : Nat}

/-! ## One call -/

section Call

variable {ev : Evaluator} {args : Args} {m : RWMutexMethod} {f f' : Fiber} {σ σ' : Store} {e : Exit}

theorem call_eq (h : args.method? = some m) :
    Object.call ev (.rwMutex id) args f σ = Object.onRWMutex id m args f σ := Object.dispatch_eq h

theorem call_none (ev : Evaluator) (id : RWMutexId) (f : Fiber) (σ : Store)
    (h : args.method? (μ := RWMutexMethod) = none) :
    ∃ e, Object.call ev (.rwMutex id) args f σ = .done (.error e) f σ := Object.dispatch_none h

theorem onRWMutex_lock : Object.onRWMutex id .lock args f σ = .after (.writeLocked id) f σ :=
  await_apply (.writeLocked id)

theorem onRWMutex_rlock : Object.onRWMutex id .rlock args f σ = .after (.readLocked id) f σ :=
  await_apply (.readLocked id)

theorem onRWMutex_unlock : Object.onRWMutex id .unlock args f σ =
    .ifCan ((σ.rwMutex id).unlock?.map (σ.setRWMutex id)) (.unlock "RWMUTEX") args.pos f σ :=
  Object.release_apply _ "RWMUTEX" args.pos

theorem onRWMutex_runlock : Object.onRWMutex id .runlock args f σ =
    .ifCan ((σ.rwMutex id).readUnlock?.map (σ.setRWMutex id)) (.unlock "RWMUTEX") args.pos f σ :=
  Object.release_apply _ "RWMUTEX" args.pos

/-- A call that fails changes nothing. -/
theorem eq_of_call_error
    (h : Object.call ev (.rwMutex id) args f σ = .done (.error e) f' σ') : σ' = σ := by
  cases hm : args.method? (μ := RWMutexMethod) with
  | none =>
    obtain ⟨e', hcall⟩ := call_none ev id f σ hm
    exact (Step.done.inj (hcall.symm.trans h)).2.2.symm
  | some m =>
    rw [call_eq hm] at h
    cases m with
    | lock => exact absurd (onRWMutex_lock.symm.trans h) Step.after_ne_error
    | rlock => exact absurd (onRWMutex_rlock.symm.trans h) Step.after_ne_error
    | unlock => exact Step.of_ifCan_error (onRWMutex_unlock.symm.trans h)
    | runlock => exact Step.of_ifCan_error (onRWMutex_runlock.symm.trans h)

end Call

/-! ## Any number of tasks -/

/-- A store, and the tasks that have taken the lock to write or to read and not
released it. -/
structure Holding where
  store : Store
  writers : List Nat
  readers : List Nat

namespace Holding

/-- One turn of a task. -/
inductive Turn (id : RWMutexId) (task : Nat) (s : Holding) : Holding → Prop
  | locks (ev : Evaluator) (args : Args) {f f' : Fiber} {v : Value} {σ : Store}
      (hm : args.method? = some RWMutexMethod.lock)
      (h : Object.call ev (.rwMutex id) args f s.store = .done (.ok v) f' σ) :
      Turn id task s ⟨σ, task :: s.writers, s.readers⟩
  /-- The task waited to write, and is given the lock. -/
  | granted {a : Unit} {σ : Store} (h : (Event.writeLocked id).happen? s.store = some (a, σ)) :
      Turn id task s ⟨σ, task :: s.writers, s.readers⟩
  | unlocks (ev : Evaluator) (args : Args) {f f' : Fiber} {v : Value} {σ : Store}
      (hm : args.method? = some RWMutexMethod.unlock) (hown : task ∈ s.writers)
      (h : Object.call ev (.rwMutex id) args f s.store = .done (.ok v) f' σ) :
      Turn id task s ⟨σ, s.writers.erase task, s.readers⟩
  | readLocks (ev : Evaluator) (args : Args) {f f' : Fiber} {v : Value} {σ : Store}
      (hm : args.method? = some RWMutexMethod.rlock)
      (h : Object.call ev (.rwMutex id) args f s.store = .done (.ok v) f' σ) :
      Turn id task s ⟨σ, s.writers, task :: s.readers⟩
  /-- The task waited to read, and is given the lock. -/
  | readGranted {a : Unit} {σ : Store}
      (h : (Event.readLocked id).happen? s.store = some (a, σ)) :
      Turn id task s ⟨σ, s.writers, task :: s.readers⟩
  | readUnlocks (ev : Evaluator) (args : Args) {f f' : Fiber} {v : Value} {σ : Store}
      (hm : args.method? = some RWMutexMethod.runlock) (hown : task ∈ s.readers)
      (h : Object.call ev (.rwMutex id) args f s.store = .done (.ok v) f' σ) :
      Turn id task s ⟨σ, s.writers, s.readers.erase task⟩
  | fails (ev : Evaluator) (args : Args) {f f' : Fiber} {e : Exit} {σ : Store}
      (h : Object.call ev (.rwMutex id) args f s.store = .done (.error e) f' σ) :
      Turn id task s ⟨σ, s.writers, s.readers⟩
  /-- Something else happens, which leaves the lock alone. -/
  | other {σ : Store} (h : σ.rwMutexes[id.index]? = s.store.rwMutexes[id.index]?) :
      Turn id task s ⟨σ, s.writers, s.readers⟩

/-- Reached by turns of any tasks after the lock was made. -/
inductive Reached (id : RWMutexId) : Holding → Prop
  | made {σ : Store} (h : σ.rwMutexes.size = id.index) : Reached id ⟨σ.newRWMutex.2, [], []⟩
  | turn {task : Nat} {s s' : Holding} (h : Reached id s) (ht : Turn id task s s') : Reached id s'

/-- The lock counts its readers, and a writer is alone. -/
structure Kept (id : RWMutexId) (s : Holding) (m : RWMutex) : Prop where
  cell : s.store.rwMutexes[id.index]? = some m
  writers : s.writers.length = if m.writer then 1 else 0
  readers : m.readers = s.readers.length
  alone : m.writer = true → s.readers = []

namespace Kept

variable {s s' : Holding} {m m' : RWMutex} {σ : Store}

theorem lock (h : Kept id s m) (hlock : m.lock? = some m')
    (hcell : σ.rwMutexes[id.index]? = some m') : Kept id ⟨σ, task :: s.writers, s.readers⟩ m' := by
  unfold lock? at hlock
  split at hlock
  · cases hlock
  · next hfree =>
    obtain rfl := Option.some.inj hlock
    obtain ⟨hwriter, hreaders⟩ := not_or.mp hfree
    have hcount := h.writers
    have hnone := h.readers
    have hempty : s.readers = [] := List.eq_nil_of_length_eq_zero (by omega)
    rw [if_neg hwriter] at hcount
    exact ⟨hcell, congrArg (· + 1) hcount, hnone, fun _ => hempty⟩

theorem unlock (h : Kept id s m) (hown : task ∈ s.writers) (hunlock : m.unlock? = some m')
    (hcell : σ.rwMutexes[id.index]? = some m') :
    Kept id ⟨σ, s.writers.erase task, s.readers⟩ m' := by
  unfold unlock? at hunlock
  split at hunlock
  · next hwriter =>
    obtain rfl := Option.some.inj hunlock
    have hcount := h.writers
    rw [if_pos hwriter] at hcount
    refine ⟨hcell, ?_, h.readers, fun h => Bool.noConfusion h⟩
    show (s.writers.erase task).length = 0
    rw [List.length_erase_of_mem hown, hcount]
  · cases hunlock

theorem readLock (h : Kept id s m) (hlock : m.readLock? = some m')
    (hcell : σ.rwMutexes[id.index]? = some m') : Kept id ⟨σ, s.writers, task :: s.readers⟩ m' := by
  unfold readLock? at hlock
  split at hlock
  · cases hlock
  · next hfree =>
    obtain rfl := Option.some.inj hlock
    exact ⟨hcell, h.writers, congrArg (· + 1) h.readers, fun hwriter => absurd hwriter hfree⟩

theorem readUnlock (h : Kept id s m) (hown : task ∈ s.readers) (hunlock : m.readUnlock? = some m')
    (hcell : σ.rwMutexes[id.index]? = some m') :
    Kept id ⟨σ, s.writers, s.readers.erase task⟩ m' := by
  unfold readUnlock? at hunlock
  split at hunlock
  · cases hunlock
  · obtain rfl := Option.some.inj hunlock
    refine ⟨hcell, h.writers, ?_, fun hwriter => ?_⟩
    · show m.readers - 1 = (s.readers.erase task).length
      rw [List.length_erase_of_mem hown, h.readers]
    · show s.readers.erase task = []
      rw [h.alone hwriter, List.erase_nil]

theorem of_writeLocked {a : Unit} (h : Kept id s m)
    (hstep : (Event.writeLocked id).happen? s.store = some (a, σ)) :
    ∃ m', Kept id ⟨σ, task :: s.writers, s.readers⟩ m' := by
  obtain ⟨m', hm', heq⟩ := Option.map_eq_some_iff.mp hstep
  obtain rfl := (Prod.mk.inj heq).2
  have hm : s.store.rwMutex id = m := getD_of_cell h.cell _
  rw [hm] at hm'
  exact ⟨m', h.lock hm' (cell_of_set h.cell m')⟩

theorem of_readLocked {a : Unit} (h : Kept id s m)
    (hstep : (Event.readLocked id).happen? s.store = some (a, σ)) :
    ∃ m', Kept id ⟨σ, s.writers, task :: s.readers⟩ m' := by
  obtain ⟨m', hm', heq⟩ := Option.map_eq_some_iff.mp hstep
  obtain rfl := (Prod.mk.inj heq).2
  have hm : s.store.rwMutex id = m := getD_of_cell h.cell _
  rw [hm] at hm'
  exact ⟨m', h.readLock hm' (cell_of_set h.cell m')⟩

/-- What every turn preserves. -/
theorem turn (h : Kept id s m) (ht : Turn id task s s') : ∃ m', Kept id s' m' := by
  have hm : s.store.rwMutex id = m := getD_of_cell h.cell _
  cases ht with
  | @locks ev args f f' v σ hmethod hdone =>
    rw [call_eq hmethod] at hdone
    obtain ⟨a, hstep⟩ := Step.happens_of_after (onRWMutex_lock.symm.trans hdone)
    exact h.of_writeLocked hstep
  | granted hstep => exact h.of_writeLocked hstep
  | @unlocks ev args f f' v σ hmethod hown hdone =>
    rw [call_eq hmethod] at hdone
    obtain ⟨m', hunlock, rfl⟩ :=
      Option.map_eq_some_iff.mp (Step.of_ifCan_ok (onRWMutex_unlock.symm.trans hdone))
    rw [hm] at hunlock
    exact ⟨m', h.unlock hown hunlock (cell_of_set h.cell m')⟩
  | @readLocks ev args f f' v σ hmethod hdone =>
    rw [call_eq hmethod] at hdone
    obtain ⟨a, hstep⟩ := Step.happens_of_after (onRWMutex_rlock.symm.trans hdone)
    exact h.of_readLocked hstep
  | readGranted hstep => exact h.of_readLocked hstep
  | @readUnlocks ev args f f' v σ hmethod hown hdone =>
    rw [call_eq hmethod] at hdone
    obtain ⟨m', hunlock, rfl⟩ :=
      Option.map_eq_some_iff.mp (Step.of_ifCan_ok (onRWMutex_runlock.symm.trans hdone))
    rw [hm] at hunlock
    exact ⟨m', h.readUnlock hown hunlock (cell_of_set h.cell m')⟩
  | fails ev args hdone =>
    obtain rfl := eq_of_call_error hdone
    exact ⟨m, h⟩
  | other hcell => exact ⟨m, hcell.trans h.cell, h.writers, h.readers, h.alone⟩

end Kept

theorem kept_of_reached {s : Holding} (h : Reached id s) : ∃ m, Kept id s m := by
  induction h with
  | @made σ hsize =>
    refine ⟨.new, ?_, rfl, rfl, fun _ => rfl⟩
    show (σ.rwMutexes.push .new)[id.index]? = some .new
    rw [← hsize, Array.getElem?_push_size]
  | turn _ ht ih =>
    obtain ⟨m, hm⟩ := ih
    exact hm.turn ht

end Holding
end RWMutex
end TreeWalk
