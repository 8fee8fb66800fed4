/-
Signals of a condition, whatever tasks wait for it and in whatever order they act.

A crowd is a condition together with the tasks inside of `wait`.  Its steps are
those of the condition, each taken by any of the tasks.  For each task the crowd
remembers how many broadcasts there had been when the task entered, which the
generation tells only up to overflow.

A broadcast releases the tasks inside, but they are counted among the waiters
until they have left.  A signal that comes meanwhile can therefore grant a permit
for which there is no task (`signal_lost`), and that permit takes the place of a
later signal.  As long as signals come only when no released task is left inside,
every permit has a task that has been woken to use it.
-/
import TreeWalk.Sync.Lock
import Mathlib.Data.List.Perm.Basic

namespace TreeWalk
namespace Cond

/-- A task inside of `wait`. -/
structure Sleeper where
  /-- The number of broadcasts before the task entered. -/
  epoch : Nat
  waiter : Waiter
  deriving DecidableEq, Repr

structure Crowd where
  cond : Cond
  inside : List Sleeper
  broadcasts : Nat
  deriving DecidableEq, Repr

/-- What a task does to the condition. -/
inductive Act where
  | enter
  /-- The task at this place goes on. -/
  | leave (place : Nat)
  | signal
  | broadcast
  deriving DecidableEq, Repr

namespace Crowd

def start (mutex : Option MutexId) : Crowd := ⟨.new mutex, [], 0⟩

/-- One step of a task; `none` if the task has to wait. -/
def step? (s : Crowd) : Act → Option Crowd
  | .enter =>
    let (w, c) := s.cond.enter
    some { s with cond := c, inside := s.inside ++ [⟨s.broadcasts, w⟩] }
  | .leave place => do
    let t ← s.inside[place]?
    let c ← s.cond.leave? t.waiter
    return { s with cond := c, inside := s.inside.eraseIdx place }
  | .signal => some { s with cond := s.cond.signal }
  | .broadcast => some { s with cond := s.cond.broadcast, broadcasts := s.broadcasts + 1 }

/-- Steps of any tasks, one after the other. -/
def run? (s : Crowd) : List Act → Option Crowd
  | [] => some s
  | a :: rest => (s.step? a).bind (·.run? rest)

/-- The task entered after the last broadcast. -/
def isCurrent (s : Crowd) (t : Sleeper) : Bool := t.epoch = s.broadcasts

/-- The tasks blocked in `wait` that entered since the last broadcast. -/
def current (s : Crowd) : List Sleeper := s.inside.filter s.isCurrent

/-- Those whom the last broadcast released have left. -/
def Settled (s : Crowd) : Prop := ∀ t ∈ s.inside, s.isCurrent t = true

instance (s : Crowd) : Decidable s.Settled :=
  inferInstanceAs (Decidable (∀ t ∈ s.inside, s.isCurrent t = true))

/-- A permit without a task to use it.  It is granted while a released task is
still inside; afterwards a task that enters sleeps on through every signal. -/
theorem signal_lost :
    (∃ s, (start none).run? [.enter, .broadcast, .signal] = some s ∧
      s.current.length < s.cond.permits) ∧
    ∃ s, (start none).run? [.enter, .broadcast, .signal, .leave 0, .enter] = some s ∧
      s.current.length = 1 ∧ s.step? .signal = some s ∧ s.step? (.leave 0) = none := by
  refine ⟨⟨⟨⟨none, 1, 1, 1, 2⟩, [⟨0, 0, 0⟩], 1⟩, by decide, by decide⟩, ?_⟩
  exact ⟨⟨⟨none, 1, 1, 1, 2⟩, [⟨1, 1, 2⟩], 1⟩, by decide, by decide, by decide, by decide⟩

/-- Reached by steps among which signals come only when no released task is left
inside. -/
inductive Reached (mutex : Option MutexId) : Crowd → Prop
  | start : Reached mutex (start mutex)
  | step {s s' : Crowd} {a : Act} (h : Reached mutex s) (ha : a = .signal → s.Settled)
      (hstep : s.step? a = some s') : Reached mutex s'

/-- The task has been woken by a signal or a broadcast, and can use a permit. -/
def canUse (s : Crowd) (t : Sleeper) : Bool := s.isCurrent t && s.cond.hasWoken t.waiter

/-- Every permit has a task that can use it. -/
structure Kept (s : Crowd) : Prop where
  waiters_eq : s.cond.waiters = s.inside.length
  epoch_le : ∀ t ∈ s.inside, t.epoch ≤ s.broadcasts
  /-- Nobody has seen a wake-up that is still to come. -/
  wakeUps_le : ∀ t ∈ s.inside, t.waiter.wakeUps ≤ s.cond.wakeUps
  generation_eq : ∀ t ∈ s.inside, s.isCurrent t = true → t.waiter.generation = s.cond.generation
  permits_le : s.cond.permits ≤ s.inside.countP s.canUse

theorem kept_start (mutex : Option MutexId) : (start mutex).Kept :=
  ⟨rfl, fun _ h => (nomatch h), fun _ h => (nomatch h), fun _ h => (nomatch h), Nat.le_refl 0⟩

theorem countP_eraseIdx {α : Type} (p : α → Bool) {l : List α} {i : Nat} {a : α}
    (h : l[i]? = some a) : l.countP p = (l.eraseIdx i).countP p + if p a then 1 else 0 := by
  obtain ⟨hi, rfl⟩ := List.getElem?_eq_some_iff.mp h
  have hperm := List.getElem_cons_eraseIdx_perm hi
  rw [← hperm.countP_eq p, List.countP_cons]

namespace Kept

variable {s : Crowd}

theorem enter (h : s.Kept) :
    Kept { s with cond := s.cond.enter.2, inside := s.inside ++ [⟨s.broadcasts, s.cond.enter.1⟩] } where
  waiters_eq := by
    have := h.waiters_eq
    simp only [Cond.enter, List.length_append, List.length_singleton]
    omega
  epoch_le t ht := by
    rcases List.mem_append.mp ht with ht | ht
    · exact h.epoch_le t ht
    · obtain rfl := List.mem_singleton.mp ht
      exact Nat.le_refl _
  wakeUps_le t ht := by
    rcases List.mem_append.mp ht with ht | ht
    · exact h.wakeUps_le t ht
    · obtain rfl := List.mem_singleton.mp ht
      exact Nat.le_refl _
  generation_eq t ht hcurrent := by
    rcases List.mem_append.mp ht with ht | ht
    · exact h.generation_eq t ht hcurrent
    · obtain rfl := List.mem_singleton.mp ht
      rfl
  permits_le := by
    rw [List.countP_append]
    exact Nat.le_trans h.permits_le (Nat.le_add_right _ _)

/-- The steps by which a task goes on: released by a broadcast, or with a permit. -/
theorem leave {place : Nat} {t : Sleeper} {c : Cond} (h : s.Kept) (ht : s.inside[place]? = some t)
    (hc : s.cond.leave? t.waiter = some c) :
    Kept { s with cond := c, inside := s.inside.eraseIdx place } := by
  have hlt : place < s.inside.length := (List.getElem?_eq_some_iff.mp ht).1
  have hlength := List.length_eraseIdx_of_lt hlt
  have hmem : ∀ u ∈ s.inside.eraseIdx place, u ∈ s.inside := fun u hu => List.mem_of_mem_eraseIdx hu
  have hcount := countP_eraseIdx s.canUse ht
  have hwaiters := h.waiters_eq
  have hpermits := h.permits_le
  unfold Cond.leave? at hc
  split at hc
  · cases hc
  · split at hc
    · next hgeneration =>
      -- A released task is no task that could use a permit.
      have hold : s.canUse t = false := by
        by_contra hcan
        have hcurrent : s.isCurrent t = true := by
          simp only [canUse, Bool.not_eq_false, Bool.and_eq_true] at hcan
          exact hcan.1
        exact hgeneration (h.generation_eq t (List.mem_of_getElem? ht) hcurrent).symm
      obtain rfl := Option.some.inj hc
      refine ⟨?_, fun u hu => h.epoch_le u (hmem u hu), fun u hu => h.wakeUps_le u (hmem u hu),
        fun u hu => h.generation_eq u (hmem u hu), ?_⟩
      · show s.cond.waiters - 1 = (s.inside.eraseIdx place).length
        omega
      · show s.cond.permits ≤ (s.inside.eraseIdx place).countP s.canUse
        simp only [hold, Bool.false_eq_true, if_false] at hcount
        omega
    · split at hc
      · obtain rfl := Option.some.inj hc
        refine ⟨?_, fun u hu => h.epoch_le u (hmem u hu), fun u hu => h.wakeUps_le u (hmem u hu),
          fun u hu => h.generation_eq u (hmem u hu), ?_⟩
        · show s.cond.waiters - 1 = (s.inside.eraseIdx place).length
          omega
        · show s.cond.permits - 1 ≤ (s.inside.eraseIdx place).countP s.canUse
          split at hcount
          · omega
          · omega
      · cases hc

/-- A signal that grants a permit wakes everybody inside. -/
theorem signal (h : s.Kept) (hsettled : s.Settled) : Kept { s with cond := s.cond.signal } := by
  have hwaiters := h.waiters_eq
  unfold Cond.signal
  split
  · next hfewer =>
    refine ⟨hwaiters, h.epoch_le, fun t ht => Nat.le_succ_of_le (h.wakeUps_le t ht),
      h.generation_eq, ?_⟩
    have hall : s.inside.countP _ = s.inside.length :=
      List.countP_eq_length.mpr fun t ht =>
        show canUse { s with cond := { s.cond with
          permits := s.cond.permits + 1, wakeUps := s.cond.wakeUps + 1 } } t = true by
        have hle := h.wakeUps_le t ht
        have hcurrent := hsettled t ht
        simp only [canUse, hasWoken, isCurrent] at hcurrent ⊢
        simp only [hcurrent, Bool.true_and, ne_eq, decide_not, Bool.not_eq_true', decide_eq_false_iff_not]
        omega
    show s.cond.permits + 1 ≤ _
    rw [hall]
    omega
  · exact h

theorem broadcast (h : s.Kept) :
    Kept { s with cond := s.cond.broadcast, broadcasts := s.broadcasts + 1 } where
  waiters_eq := h.waiters_eq
  epoch_le t ht := Nat.le_succ_of_le (h.epoch_le t ht)
  wakeUps_le t ht := Nat.le_succ_of_le (h.wakeUps_le t ht)
  generation_eq t ht hcurrent := by
    have hle := h.epoch_le t ht
    have heq : t.epoch = s.broadcasts + 1 := by simpa [isCurrent] using hcurrent
    omega
  permits_le := Nat.zero_le _

/-- What every step preserves, a signal if it comes in time. -/
theorem step {s' : Crowd} {a : Act} (h : s.Kept) (ha : a = .signal → s.Settled)
    (hstep : s.step? a = some s') : s'.Kept := by
  cases a with
  | enter =>
    obtain rfl := Option.some.inj hstep
    exact h.enter
  | leave place =>
    obtain ⟨t, ht, hrest⟩ := Option.bind_eq_some_iff.mp hstep
    obtain ⟨c, hc, heq⟩ := Option.bind_eq_some_iff.mp hrest
    obtain rfl := Option.some.inj heq
    exact h.leave ht hc
  | signal =>
    obtain rfl := Option.some.inj hstep
    exact h.signal (ha rfl)
  | broadcast =>
    obtain rfl := Option.some.inj hstep
    exact h.broadcast

theorem countP_canUse_le : s.inside.countP s.canUse ≤ s.current.length := by
  unfold current
  rw [← List.countP_eq_length_filter]
  exact List.countP_mono_left fun t _ h => (Bool.and_eq_true_iff.mp h).1

/-- A signal that grants nothing finds everybody inside about to go on. -/
theorem of_signal_eq (h : s.Kept) (hsame : s.cond.signal = s.cond) :
    s.cond.permits = s.current.length ∧ ∀ t ∈ s.inside, s.canUse t = true := by
  have hfull : s.cond.waiters ≤ s.cond.permits := by
    by_contra hfewer
    have hgrant := congrArg Cond.permits hsame
    simp only [Cond.signal, if_pos (Nat.lt_of_not_le hfewer)] at hgrant
    omega
  have hwaiters := h.waiters_eq
  have hpermits := h.permits_le
  have hcurrent := countP_canUse_le (s := s)
  have hinside : s.current.length ≤ s.inside.length := List.length_filter_le _ _
  refine ⟨by omega, List.countP_eq_length.mp ?_⟩
  omega

end Kept

theorem kept_of_reached {mutex : Option MutexId} {s : Crowd} (h : Reached mutex s) : s.Kept := by
  induction h with
  | start => exact kept_start mutex
  | step _ ha hstep ih => exact ih.step ha hstep

/-- There are never more permits than tasks that entered since the last broadcast,
and a signal is dropped only when every task inside has a permit and has been woken
to use it. -/
theorem permits_have_waiters {mutex : Option MutexId} {s : Crowd} (h : Reached mutex s) :
    s.cond.permits ≤ s.current.length ∧
    (s.cond.signal = s.cond → s.cond.permits = s.current.length ∧
      ∀ t ∈ s.inside, (s.cond.leave? t.waiter).isSome) := by
  have hkept := kept_of_reached h
  refine ⟨Nat.le_trans hkept.permits_le Kept.countP_canUse_le, fun hsame => ?_⟩
  obtain ⟨hpermits, hall⟩ := hkept.of_signal_eq hsame
  refine ⟨hpermits, fun t ht => ?_⟩
  have huse := Bool.and_eq_true_iff.mp (hall t ht)
  have hsome : 0 < s.cond.permits := by
    rw [hpermits]
    exact List.length_pos_of_mem (List.mem_filter.mpr ⟨ht, huse.1⟩)
  unfold Cond.leave?
  simp only [huse.2, Bool.not_true, Bool.false_eq_true, if_false, if_pos hsome]
  split
  · rfl
  · rfl

/-- Two tasks and two signals: a third one is dropped, and both tasks can go on. -/
theorem permits_have_waiters_pair :
    let s : Crowd := ⟨⟨none, 0, 2, 2, 2⟩, [⟨0, 0, 0⟩, ⟨0, 0, 0⟩], 0⟩
    s.cond.permits ≤ s.current.length ∧ ∀ t ∈ s.inside, (s.cond.leave? t.waiter).isSome :=
  have h₁ : Reached none ⟨⟨none, 0, 0, 1, 0⟩, [⟨0, 0, 0⟩], 0⟩ :=
    .step .start (a := .enter) (fun h => (nomatch h)) (by decide)
  have h₂ : Reached none ⟨⟨none, 0, 0, 2, 0⟩, [⟨0, 0, 0⟩, ⟨0, 0, 0⟩], 0⟩ :=
    .step h₁ (a := .enter) (fun h => (nomatch h)) (by decide)
  have h₃ : Reached none ⟨⟨none, 0, 1, 2, 1⟩, [⟨0, 0, 0⟩, ⟨0, 0, 0⟩], 0⟩ :=
    .step h₂ (a := .signal) (fun _ => by decide) (by decide)
  have h₄ : Reached none ⟨⟨none, 0, 2, 2, 2⟩, [⟨0, 0, 0⟩, ⟨0, 0, 0⟩], 0⟩ :=
    .step h₃ (a := .signal) (fun _ => by decide) (by decide)
  ⟨(permits_have_waiters h₄).1, ((permits_have_waiters h₄).2 (by decide)).2⟩

end Crowd
end Cond
end TreeWalk
