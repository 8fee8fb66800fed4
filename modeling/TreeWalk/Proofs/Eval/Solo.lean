/-
Tasks by themselves.

A computation that asks for no task is alone if no task was under way before.  The
schedule then does nothing but to let it go on, so whatever is known of steps that
run alone is known of sessions.
-/
import TreeWalk.Proofs.Eval.Alike
import TreeWalk.Session

namespace TreeWalk

namespace Outcome

variable {α β : Type}

/-- Goes on after the end, unless a task waits forever. -/
def andThen (o : Outcome α) (next : Except Exit α → Fiber → Store → Outcome β) : Outcome β :=
  match o with
  | ended r f σ => next r f σ
  | blocked e σ => .blocked e σ

/-- Whether a value came of it. -/
def isOk : Outcome α → Bool
  | ended (.ok _) _ _ => true
  | _ => false

theorem exists_of_isOk {o : Outcome α} (h : o.isOk = true) : ∃ a f σ, o = .ended (.ok a) f σ := by
  cases o with
  | ended r f σ =>
    cases r with
    | ok a => exact ⟨a, f, σ, rfl⟩
    | error e => cases h
  | blocked e σ => cases h

end Outcome

namespace Step

variable {α β : Type}

theorem alone_andThen (s : Step α) (next : Except Exit α → Fiber → Store → Step β) :
    (s.andThen next).alone = s.alone.andThen fun r f σ => (next r f σ).alone := by
  induction s with
  | done r f σ => rfl
  | wait e σ resume ih =>
    simp only [andThen, alone]
    split
    · next a σ' _ => exact ih a σ'
    · rfl

/-- The end of what goes on after a step is the end of what follows its end. -/
theorem alone_andThen_ended {s : Step α} {next : Except Exit α → Fiber → Store → Step β}
    {r : Except Exit β} {g : Fiber} {τ : Store} (h : (s.andThen next).alone = .ended r g τ) :
    ∃ r' f σ, s.alone = .ended r' f σ ∧ (next r' f σ).alone = .ended r g τ := by
  rw [alone_andThen] at h
  cases hs : s.alone with
  | ended r' f σ =>
    rw [hs] at h
    exact ⟨r', f, σ, rfl, h⟩
  | blocked e σ =>
    rw [hs] at h
    cases h

/-- No task has been asked for wherever the step waits. -/
inductive Solo : Step α → Prop
  | done {r f σ} : Solo (.done r f σ)
  | wait {e σ k} (h : σ.spawned = [])
      (hk : ∀ a σ', e.happen? σ = some (a, σ') → Solo (k a σ')) : Solo (.wait e σ k)

/-- Whether the step does not wait at all. -/
def isDone : Step α → Bool
  | done _ _ _ => true
  | wait _ _ _ => false

theorem Solo.of_isDone {s : Step α} (h : s.isDone = true) : s.Solo := by
  cases s with
  | done r f σ => exact .done
  | wait e σ k => cases h

end Step

namespace Eval

variable {α β : Type} {x : Eval α} {f g : Fiber} {σ τ : Store}

/-- Computations in a row that come to a result do so one after the other. -/
theorem alone_bind_ok {next : α → Eval β} {b : β}
    (h : ((x >>= next) f σ).alone = .ended (.ok b) g τ) :
    ∃ a f' σ', (x f σ).alone = .ended (.ok a) f' σ' ∧ (next a f' σ').alone = .ended (.ok b) g τ := by
  rw [bind_apply] at h
  obtain ⟨r, f', σ', hx, hnext⟩ := Step.alone_andThen_ended h
  cases r with
  | ok a => exact ⟨a, f', σ', hx, hnext⟩
  | error e => cases hnext

theorem kept_of_not_isAbort {e : Exit} (h : ¬ e.isAbort = true) :
    ∀ e', (Except.error e : Except Exit α) = .error e' → e'.isAbort = false := by
  intro e' he
  obtain rfl := Except.error.inj he
  exact Bool.eq_false_iff.mpr h

theorem alone_attempt_ok {r : Except Exit α} (h : (attempt x f σ).alone = .ended (.ok r) g τ) :
    (x f σ).alone = .ended r g τ ∧ ∀ e, r = .error e → e.isAbort = false := by
  unfold attempt at h
  obtain ⟨r', f', σ', hx, hend⟩ := Step.alone_andThen_ended h
  cases r' with
  | ok a =>
    cases hend
    exact ⟨hx, fun e he => nomatch he⟩
  | error e =>
    dsimp only at hend
    split at hend
    · cases hend
    · next habort =>
      cases hend
      exact ⟨hx, kept_of_not_isAbort habort⟩

end Eval

namespace Schedule

variable {fuel : Nat} {swallow : Bool} {start : Fiber}

/-- A turn of no tasks changes nothing. -/
theorem turn_nil {σ : Store} (h : σ.spawned = []) : turn fuel swallow [] σ = ([], σ, false) := by
  have hsame : { σ with spawned := [] } = σ := by rw [← h]
  simp only [turn, resumeAll, h, beginAll, hsame, List.append_nil, List.isEmpty_nil, Bool.not_true,
    Bool.or_self]

/-- A computation that runs solo ends as it does alone, or is given up where it
waits alone. -/
theorem drive_solo {mid : Store → Prop} {post : Except Exit Value → Fiber → Store → Prop}
    {σ : Store} {s t : Step Value} (rounds : Nat) (h : s.Alike .alone mid post σ t)
    (hsolo : s.Solo) :
    (drive fuel swallow start rounds s []).tasks = [] ∧
      (post (drive fuel swallow start rounds s []).result
          (drive fuel swallow start rounds s []).fiber
          (drive fuel swallow start rounds s []).store ∨
        (drive fuel swallow start rounds s []).result = .error .exhausted ∧
          (drive fuel swallow start rounds s []).fiber = start ∧
          mid (drive fuel swallow start rounds s []).store) := by
  induction rounds generalizing σ s t with
  | zero =>
    cases h with
    | done _ hpost => exact ⟨rfl, .inl hpost⟩
    | wait _ hmid _ => exact ⟨rfl, .inr ⟨rfl, rfl, hmid⟩⟩
    | pause hp => exact hp.elim
  | succ rounds ih =>
    cases h with
    | done _ hpost => exact ⟨rfl, .inl hpost⟩
    | pause hp => exact hp.elim
    | @wait _ e σ k k' _ hmid hk =>
      cases hsolo with
      | wait hspawned hks =>
        simp only [drive, turn_nil hspawned]
        cases hstep : e.happen? σ with
        | some step => exact ih (hk step.1 step.2 hstep) (hks step.1 step.2 hstep)
        | none => exact ⟨rfl, .inr ⟨rfl, rfl, hmid⟩⟩

end Schedule

namespace Session

/-- A session without other tasks ends a computation as it ends alone. -/
theorem exec_solo {s : Session} {x : Eval Value} {mid : Store → Prop}
    {post : Except Exit Value → Fiber → Store → Prop} {t : Step Value} (htasks : s.tasks = [])
    (h : (x s.fiber s.store).Alike .alone mid post s.store t) (hsolo : (x s.fiber s.store).Solo) :
    (s.exec x).2.tasks = [] ∧
      (post (s.exec x).1 (s.exec x).2.fiber (s.exec x).2.store ∨
        (s.exec x).1 = .error .exhausted ∧ (s.exec x).2.fiber = s.fiber ∧
          mid (s.exec x).2.store) := by
  unfold exec execWithin
  rw [htasks]
  exact Schedule.drive_solo fuel h hsolo

end Session
end TreeWalk
