/-
Increments of a shared variable under a lock.

`x += 1` reads the variable and writes it later, and other tasks can run in
between.  Two tasks that do so at a time can write the same sum, and one of the
two increments is lost.  Here every task increments only while it holds one and
the same lock; then a task that writes finds the variable as it has read it.
-/
import TreeWalk.Proofs.Store.Growth
import TreeWalk.Proofs.Sync.Lock
import Mathlib.Data.Finset.Card
import Mathlib.Logic.Function.Basic

namespace TreeWalk

open Eval

namespace Assign

/-- The rest of `x += 1` after the variable has been read: one is added, and the
sum is written. -/
def addOne (name : String) (v : Value) (pos : Position) : Eval Value := do
  let sum ← lift (Operator.binary .add v (.ofInt 1) pos)
  writePlace (.name name) sum false pos
  return sum

variable {f f' : Fiber} {σ σ' : Store} {home : ScopeId} {name : String} {pos : Position}
  {v old : Value}

theorem readPlace_name (hsees : σ.binder? f.scope name = some home)
    (hvar : σ.getLocal? home name = some v) :
    readPlace (.name name) pos f σ = .done (.ok v) f σ := by
  have hget : σ.get? f.scope name = some v := by
    unfold Store.get?
    rw [hsees, Option.bind_some, hvar]
  change lift (Place.get f.scope (.name name) pos) f σ = _
  unfold lift Place.get
  dsimp only
  rw [Atomic.read_bind_apply, hget]
  rfl

/-- `x += 1`, evaluated without a pause: first the variable is read, and in the end
it is written. -/
theorem assign_one (fuel : Nat) {target : Expr} {p : Position} (htarget : target.form = .ident name)
    (hread : readPlace (.name name) pos f σ = .done (.ok v) f σ) :
    assign (evaluator (fuel + 1)) .add target ⟨p, .int 1⟩ pos f σ =
      addOne name v pos { f with pos := p.orElse f.pos } σ := by
  unfold assign resolve
  rw [htarget]
  change (readPlace (.name name) pos >>= fun current =>
    (evaluator (fuel + 1)).expr ⟨p, .int 1⟩ >>= fun operand =>
      lift (Operator.binary .add current operand pos) >>= fun sum => _) f σ = _
  rw [bind_apply, hread]
  have hone : (evaluator (fuel + 1)).expr ⟨p, .int 1⟩ = Node.expr (evaluator fuel) fuel ⟨p, .int 1⟩ :=
    MachineStack.within_eq fuel _
  rw [hone]
  rfl

theorem writePlace_name (hsees : σ.binder? f.scope name = some home) :
    writePlace (.name name) v false pos f σ = .done (.ok ()) f (σ.bind home name v) := by
  change (lift (Place.writeName f.scope name v false pos) >>= update) f σ = _
  rw [bind_apply]
  unfold lift Place.writeName
  rw [Atomic.read_bind_apply, hsees]
  rfl

theorem writePlace_error {e : Exit}
    (h : writePlace (.name name) v false pos f σ = .done (.error e) f' σ') : σ' = σ := by
  change (lift (Place.writeName f.scope name v false pos) >>= update) f σ = _ at h
  rw [bind_apply] at h
  unfold lift Place.writeName at h
  rw [Atomic.read_bind_apply] at h
  cases hsees : σ.binder? f.scope name with
  | some home =>
    rw [hsees] at h
    cases (Step.done.inj h).1
  | none =>
    rw [hsees] at h
    exact (Step.done.inj h).2.2.symm

theorem addOne_int {n : Int64} :
    addOne name (.ofInt n) pos f σ =
      match Word.add? n 1 with
      | some k => (do writePlace (.name name) (.ofInt k) false pos; return .ofInt k : Eval Value) f σ
      | none => .done (.error (.error ⟨.integerOverflow "addition", pos⟩)) f σ := by
  change (lift (Operator.exact (Word.add? n 1) "addition" pos) >>= _) f σ = _
  cases Word.add? n 1 with
  | some k => rfl
  | none => rfl

/-- An increment of an integer that fails changes nothing. -/
theorem addOne_error {n : Int64} {e : Exit}
    (h : addOne name (.ofInt n) pos f σ = .done (.error e) f' σ') : σ' = σ := by
  rw [addOne_int] at h
  split at h
  · next k _ =>
    rw [bind_apply] at h
    cases hwrite : writePlace (.name name) (.ofInt k) false pos f σ with
    | done r g τ =>
      rw [hwrite] at h
      cases r with
      | ok u => cases (Step.done.inj h).1
      | error e' =>
        obtain rfl := (Step.done.inj h).2.2
        exact writePlace_error hwrite
    | wait event τ resume =>
      rw [hwrite] at h
      cases h
  · exact (Step.done.inj h).2.2.symm

/-- Nothing but an overflow keeps a task from finishing an increment. -/
theorem exists_addOne {n : Int64} (hsees : σ.binder? f.scope name = some home)
    (hlt : n.toInt < Word.greatest) :
    ∃ sum σ', addOne name (.ofInt n) pos f σ = .done (.ok sum) f σ' := by
  have hone : (1 : Int64).toInt = 1 := rfl
  have hleast := n.le_toInt
  have hsum : Word.add? n 1 = some (Int64.ofInt (n.toInt + (1 : Int64).toInt)) := by
    refine if_pos ⟨?_, ?_⟩
    · rw [Word.least_eq, hone]
      omega
    · rw [hone]
      omega
  rw [addOne_int, hsum]
  dsimp only
  rw [bind_apply, writePlace_name hsees]
  exact ⟨_, _, rfl⟩

/-- One that succeeds writes the sum. -/
theorem addOne_ok {n : Int64} (hsees : σ.binder? f.scope name = some home)
    (h : addOne name (.ofInt n) pos f σ = .done (.ok v) f' σ') :
    ∃ k : Int64, k.toInt = n.toInt + 1 ∧ σ' = σ.bind home name (.ofInt k) := by
  rw [addOne_int] at h
  split at h
  · next k hk =>
    rw [bind_apply, writePlace_name hsees] at h
    exact ⟨k, Word.toInt_of_ofInt? hk, (Step.done.inj h).2.2.symm⟩
  · cases (Step.done.inj h).1

end Assign

/-- A lock, and the increments of a variable under it. -/
structure Guarded where
  lock : Mutex.Holding
  /-- What a task in the middle of an increment has read. -/
  midway : Nat → Option Value
  /-- How many increments have been made. -/
  made : Nat

namespace Guarded

variable {id : MutexId} {home : ScopeId} {name : String} {n : Int64} {task : Nat}

/-- One turn of a task: it uses the lock, it does something else, or it takes one of
the two steps of an increment of the variable that its scope sees. -/
inductive Turn (id : MutexId) (home : ScopeId) (name : String) (task : Nat) (s : Guarded) :
    Guarded → Prop
  | locking {h : Mutex.Holding} (hidle : s.midway task = none)
      (ht : Mutex.Holding.Turn id task s.lock h)
      (hvar : h.store.getLocal? home name = s.lock.store.getLocal? home name) :
      Turn id home name task s ⟨h, s.midway, s.made⟩
  | other {σ : Store} (hlock : σ.mutexes[id.index]? = s.lock.store.mutexes[id.index]?)
      (hvar : σ.getLocal? home name = s.lock.store.getLocal? home name) :
      Turn id home name task s ⟨⟨σ, s.lock.holders⟩, s.midway, s.made⟩
  | reads {f f' : Fiber} {pos : Position} {v : Value} {σ : Store}
      (hidle : s.midway task = none) (hown : task ∈ s.lock.holders)
      (hsees : s.lock.store.binder? f.scope name = some home)
      (h : Assign.readPlace (.name name) pos f s.lock.store = .done (.ok v) f' σ) :
      Turn id home name task s
        ⟨⟨σ, s.lock.holders⟩, Function.update s.midway task (some v), s.made⟩
  | writes {f f' : Fiber} {pos : Position} {v sum : Value} {σ : Store}
      (hmid : s.midway task = some v) (hsees : s.lock.store.binder? f.scope name = some home)
      (h : Assign.addOne name v pos f s.lock.store = .done (.ok sum) f' σ) :
      Turn id home name task s
        ⟨⟨σ, s.lock.holders⟩, Function.update s.midway task none, s.made + 1⟩
  | fails {f f' : Fiber} {pos : Position} {v : Value} {e : Exit} {σ : Store}
      (hmid : s.midway task = some v)
      (h : Assign.addOne name v pos f s.lock.store = .done (.error e) f' σ) :
      Turn id home name task s
        ⟨⟨σ, s.lock.holders⟩, Function.update s.midway task none, s.made⟩

/-- Reached by turns of any tasks from when the variable held an integer and nobody
was incrementing it. -/
inductive Reached (id : MutexId) (home : ScopeId) (name : String) (n : Int64) : Guarded → Prop
  | start {h : Mutex.Holding} (hr : Mutex.Holding.Reached id h)
      (hvar : h.store.getLocal? home name = some (.ofInt n)) :
      Reached id home name n ⟨h, fun _ => none, 0⟩
  | turn {task : Nat} {s s' : Guarded} (h : Reached id home name n s)
      (ht : Turn id home name task s s') : Reached id home name n s'

theorem of_update {midway : Nat → Option Value} {v? : Option Value} {other : Nat} {w : Value}
    (h : Function.update midway task v? other = some w) :
    other = task ∧ v? = some w ∨ other ≠ task ∧ midway other = some w := by
  by_cases heq : other = task
  · subst heq
    rw [Function.update_self] at h
    exact .inl ⟨rfl, h⟩
  · rw [Function.update_of_ne heq] at h
    exact .inr ⟨heq, h⟩

/-- The variable holds what it held at first and the increments made, and a task in
the middle of one has the lock and has read what the variable still holds. -/
structure Kept (id : MutexId) (home : ScopeId) (name : String) (n : Int64) (s : Guarded) : Prop where
  lock : ∃ m, Mutex.Holding.Kept id s.lock m
  value : ∃ k : Int64, s.lock.store.getLocal? home name = some (.ofInt k) ∧
    k.toInt = n.toInt + s.made
  midway : ∀ task v, s.midway task = some v →
    task ∈ s.lock.holders ∧ s.lock.store.getLocal? home name = some v

namespace Kept

variable {s s' : Guarded}

/-- Whatever leaves the lock and the variable alone is allowed at any time. -/
theorem other {σ : Store} (h : Kept id home name n s)
    (hlock : σ.mutexes[id.index]? = s.lock.store.mutexes[id.index]?)
    (hvar : σ.getLocal? home name = s.lock.store.getLocal? home name) :
    Kept id home name n ⟨⟨σ, s.lock.holders⟩, s.midway, s.made⟩ where
  lock := h.lock.imp fun _ hm => ⟨hlock.trans hm.cell, hm.count⟩
  value := h.value.imp fun _ hk => ⟨hvar.trans hk.1, hk.2⟩
  midway task v hv := ⟨(h.midway task v hv).1, hvar.trans (h.midway task v hv).2⟩

/-- No task but the one whose turn it is loses the lock. -/
theorem locking {lock : Mutex.Holding} (h : Kept id home name n s)
    (hidle : s.midway task = none) (ht : Mutex.Holding.Turn id task s.lock lock)
    (hvar : lock.store.getLocal? home name = s.lock.store.getLocal? home name) :
    Kept id home name n ⟨lock, s.midway, s.made⟩ where
  lock := by
    obtain ⟨m, hm⟩ := h.lock
    exact hm.turn ht
  value := h.value.imp fun _ hk => ⟨hvar.trans hk.1, hk.2⟩
  midway other v hv := by
    obtain ⟨hown, hread⟩ := h.midway other v hv
    have hne : other ≠ task := by
      rintro rfl
      rw [hidle] at hv
      cases hv
    exact ⟨ht.mem_of_ne hne hown, hvar.trans hread⟩

theorem reads {v : Value} (h : Kept id home name n s) (hown : task ∈ s.lock.holders)
    (hread : s.lock.store.getLocal? home name = some v) :
    Kept id home name n ⟨s.lock, Function.update s.midway task (some v), s.made⟩ where
  lock := h.lock
  value := h.value
  midway other w hw := by
    rcases of_update hw with ⟨rfl, heq⟩ | ⟨-, hother⟩
    · obtain rfl := Option.some.inj heq
      exact ⟨hown, hread⟩
    · exact h.midway other w hother

theorem stops (h : Kept id home name n s) :
    Kept id home name n ⟨s.lock, Function.update s.midway task none, s.made⟩ where
  lock := h.lock
  value := h.value
  midway other w hw := by
    rcases of_update hw with ⟨-, heq⟩ | ⟨-, hother⟩
    · cases heq
    · exact h.midway other w hother

theorem writes {v : Value} {k k' : Int64} (h : Kept id home name n s)
    (hv : s.midway task = some v) (hk : s.lock.store.getLocal? home name = some (.ofInt k))
    (hvalue : k.toInt = n.toInt + s.made) (hsum : k'.toInt = k.toInt + 1) :
    Kept id home name n ⟨⟨s.lock.store.bind home name (.ofInt k'), s.lock.holders⟩,
      Function.update s.midway task none, s.made + 1⟩ where
  lock := h.lock.imp fun _ hm => ⟨hm.cell, hm.count⟩
  value := by
    refine ⟨k', Store.getLocal?_bind_self (Store.lt_of_getLocal? hk), ?_⟩
    rw [hsum, hvalue]
    push_cast
    omega
  midway other w hw := by
    -- Another task in the middle of an increment would hold the lock, too.
    rcases of_update hw with ⟨-, heq⟩ | ⟨hne, hother⟩
    · cases heq
    · obtain ⟨m, hm⟩ := h.lock
      exact absurd (hm.eq_of_mem (h.midway _ v hv).1 (h.midway other w hother).1) hne

/-- What every turn preserves. -/
theorem turn (h : Kept id home name n s) (ht : Turn id home name task s s') :
    Kept id home name n s' := by
  obtain ⟨k, hk, hvalue⟩ := h.value
  cases ht with
  | locking hidle ht hvar => exact h.locking hidle ht hvar
  | other hlock hvar => exact h.other hlock hvar
  | reads hidle hown hsees hread =>
    obtain ⟨hv, -, rfl⟩ := Step.done.inj ((Assign.readPlace_name hsees hk).symm.trans hread)
    obtain rfl := Except.ok.inj hv
    exact h.reads hown hk
  | writes hmid hsees hwrite =>
    have hread := (h.midway _ _ hmid).2
    obtain rfl := Option.some.inj (hk.symm.trans hread)
    obtain ⟨k', hsum, rfl⟩ := Assign.addOne_ok hsees hwrite
    exact h.writes hmid hk hvalue hsum
  | fails hmid hfail =>
    have hread := (h.midway _ _ hmid).2
    obtain rfl := Option.some.inj (hk.symm.trans hread)
    obtain rfl := Assign.addOne_error hfail
    exact h.stops

end Kept

theorem kept_of_reached {s : Guarded} (h : Reached id home name n s) : Kept id home name n s := by
  induction h with
  | start hr hvar =>
    exact ⟨Mutex.Holding.kept_of_reached hr, ⟨n, hvar, (Int.add_zero _).symm⟩,
      fun _ _ h => nomatch h⟩
  | turn _ ht ih => exact ih.turn ht

end Guarded

/-- Whatever tasks do, as long as they release only locks that they hold: a mutex has
one holder at most; a lock for writers and readers has one writer at most and then
no reader, and it counts how often it is held for reading, which is by how many
tasks if none of them holds it twice; a call that fails, as one that releases a
lock which nobody holds, changes nothing.  `x += 1` is a reading of the variable and
then the rest of an increment.  A variable that is only incremented under a mutex holds
what it held at first and the number of increments made, and a task that has read it
can write the sum unless that overflows. -/
theorem locks_are_safe :
    (∀ id s, Mutex.Holding.Reached id s → ∃ m, s.store.mutexes[id.index]? = some m ∧
      s.holders.length ≤ 1 ∧ (m.locked = true ↔ s.holders ≠ [])) ∧
    (∀ id s, RWMutex.Holding.Reached id s → ∃ m, s.store.rwMutexes[id.index]? = some m ∧
      s.writers.length ≤ 1 ∧ (m.writer = true ↔ s.writers ≠ []) ∧
      (s.writers ≠ [] → s.readers = []) ∧ m.readers = s.readers.length ∧
      (s.readers.Nodup → m.readers = s.readers.toFinset.card)) ∧
    (∀ ev id args f e f' σ σ',
      Object.call ev (.mutex id) args f σ = .done (.error e) f' σ' → σ' = σ) ∧
    (∀ ev id args f e f' σ σ',
      Object.call ev (.rwMutex id) args f σ = .done (.error e) f' σ' → σ' = σ) ∧
    (∀ (fuel : Nat) (target : Expr) (p pos : Position) name v f σ, target.form = .ident name →
      Assign.readPlace (.name name) pos f σ = .done (.ok v) f σ →
      Assign.assign (evaluator (fuel + 1)) .add target ⟨p, .int 1⟩ pos f σ =
        Assign.addOne name v pos { f with pos := p.orElse f.pos } σ) ∧
    ∀ id home name n s, Guarded.Reached id home name n s →
      (∃ k : Int64, s.lock.store.getLocal? home name = some (.ofInt k) ∧
        k.toInt = n.toInt + s.made) ∧
      ∀ task v f pos, s.midway task = some v → s.lock.store.binder? f.scope name = some home →
        n.toInt + s.made < Word.greatest →
        ∃ sum σ, Assign.addOne name v pos f s.lock.store = .done (.ok sum) f σ := by
  refine ⟨fun id s h => ?_, fun id s h => ?_, fun _ _ _ _ _ _ _ _ => Mutex.eq_of_call_error,
    fun _ _ _ _ _ _ _ _ => RWMutex.eq_of_call_error, fun fuel _ _ _ _ _ _ _ => Assign.assign_one fuel,
    fun id home name n s h => ?_⟩
  · obtain ⟨m, hm⟩ := Mutex.Holding.kept_of_reached h
    exact ⟨m, hm.cell, length_le_one hm.count, taken_iff hm.count⟩
  · obtain ⟨m, hm⟩ := RWMutex.Holding.kept_of_reached h
    have hwriter := taken_iff hm.writers
    exact ⟨m, hm.cell, length_le_one hm.writers, hwriter, fun h => hm.alone (hwriter.mpr h),
      hm.readers, fun hnodup => hm.readers.trans (List.toFinset_card_of_nodup hnodup).symm⟩
  · have hkept := Guarded.kept_of_reached h
    obtain ⟨k, hk, hvalue⟩ := hkept.value
    refine ⟨⟨k, hk, hvalue⟩, fun task v f pos hmid hsees hlt => ?_⟩
    obtain rfl := Option.some.inj (hk.symm.trans (hkept.midway task v hmid).2)
    exact Assign.exists_addOne hsees (hvalue ▸ hlt)

/-- Two tasks increment a variable, one after the other, and two tasks read under
another lock at a time. -/
theorem locks_are_safe_two :
    let store (n : Int64) (locked : Bool) : Store :=
      { scopes := #[⟨[("count", .ofInt n)], none, none, false⟩], mutexes := #[⟨locked⟩] }
    (∃ s : Mutex.Holding, s = ⟨store 0 true, [1]⟩ ∧ s.holders.length ≤ 1) ∧
    (∃ s : RWMutex.Holding, s = ⟨{ rwMutexes := #[⟨2, false⟩] }, [], [2, 1]⟩ ∧
      ∃ m, s.store.rwMutexes[0]? = some m ∧ m.readers = s.readers.toFinset.card) ∧
    ∃ s : Guarded, s = ⟨⟨store 2 false, []⟩, fun _ => none, 2⟩ ∧
      ∃ k : Int64, s.lock.store.getLocal? ⟨0⟩ "count" = some (.ofInt k) ∧ k.toInt = 0 + 2 := by
  intro store
  have lock (task : Nat) (n : Int64) :
      Mutex.Holding.Turn ⟨0⟩ task ⟨store n false, []⟩ ⟨store n true, [task]⟩ :=
    .locks (evaluator 0) ⟨"lock", [], .unknown⟩ (f := default) rfl rfl
  have unlock (task : Nat) (n : Int64) :
      Mutex.Holding.Turn ⟨0⟩ task ⟨store n true, [task]⟩ ⟨store n false, []⟩ := by
    have herase : [task].erase task = [] := List.erase_cons_head task []
    have hturn : Mutex.Holding.Turn ⟨0⟩ task ⟨store n true, [task]⟩
        ⟨store n false, [task].erase task⟩ :=
      .unlocks (evaluator 0) ⟨"unlock", [], .unknown⟩ (f := default) rfl List.mem_cons_self rfl
    rwa [herase] at hturn
  have round (task made : Nat) (n k : Int64)
      (h : Guarded.Reached ⟨0⟩ ⟨0⟩ "count" 0 ⟨⟨store n false, []⟩, fun _ => none, made⟩)
      (hadd : Assign.addOne "count" (.ofInt n) .unknown default (store n true) =
        .done (.ok (.ofInt k)) default (store k true)) :
      Guarded.Reached ⟨0⟩ ⟨0⟩ "count" 0 ⟨⟨store k false, []⟩, fun _ => none, made + 1⟩ := by
    have hvalue : Assign.readPlace (.name "count") .unknown default (store n true) =
        .done (.ok (.ofInt n)) default (store n true) := Assign.readPlace_name rfl rfl
    have hlocked := h.turn (.locking rfl (lock task n) rfl)
    have hread := hlocked.turn (.reads rfl (List.mem_cons_self (a := task)) rfl hvalue)
    have hwritten := hread.turn (.writes (f := default) (Function.update_self task _ _) rfl hadd)
    rw [Function.update_idem, Function.update_eq_self] at hwritten
    exact hwritten.turn (.locking rfl (unlock task k) rfl)
  have h₀ : Mutex.Holding.Reached ⟨0⟩ ⟨store 0 false, []⟩ :=
    .made (σ := { scopes := #[⟨[("count", .ofInt 0)], none, none, false⟩] }) rfl
  have h₁ := round 1 0 0 1 (.start h₀ rfl) rfl
  have h₂ := round 2 1 1 2 h₁ rfl
  have hr₀ : RWMutex.Holding.Reached ⟨0⟩ ⟨{ rwMutexes := #[⟨0, false⟩] }, [], []⟩ :=
    .made (σ := {}) rfl
  have hr₁ : RWMutex.Holding.Reached ⟨0⟩ ⟨{ rwMutexes := #[⟨1, false⟩] }, [], [1]⟩ :=
    hr₀.turn (.readLocks (evaluator 0) ⟨"rlock", [], .unknown⟩ (f := default) rfl rfl)
  have hr₂ : RWMutex.Holding.Reached ⟨0⟩ ⟨{ rwMutexes := #[⟨2, false⟩] }, [], [2, 1]⟩ :=
    hr₁.turn (.readLocks (evaluator 0) ⟨"rlock", [], .unknown⟩ (f := default) rfl rfl)
  obtain ⟨_, -, hone, -⟩ := locks_are_safe.1 _ _ (h₀.turn (lock 1 0))
  obtain ⟨m, hcell, -, -, -, -, hcount⟩ := locks_are_safe.2.1 _ _ hr₂
  have hsum := (locks_are_safe.2.2.2.2.2 _ _ _ _ _ h₂).1
  exact ⟨⟨_, rfl, hone⟩, ⟨_, rfl, m, hcell, hcount (by decide)⟩, _, rfl, hsum⟩

end TreeWalk
