/-
Two evaluations side by side, and what comes of one that runs by itself.

A step is a tree: it branches where the task waits, by what the task is told and
by the store it goes on with.  `Alike` walks through two such trees at once.  It
says that both take the same turns wherever the branches are possible, what becomes
of the store in between, and what holds where they end.  With the same step on both
sides it says what holds at every end.
-/
import TreeWalk.Eval.Step

namespace TreeWalk

/-- What may become of a task that waits: the answer it is given, and the store
it goes on with, for the store it left. -/
abbrev Resumption := (e : Event) → Store → e.Answer → Store → Prop

namespace Resumption

/-- Other tasks may do anything meanwhile. -/
def any : Resumption := fun _ _ _ _ => True

/-- No other task does anything: the event comes about in the store that was
left. -/
def alone : Resumption := fun e σ answer σ' => e.happen? σ = some (answer, σ')

end Resumption

/-- What may become of the store in one stretch: from where a task goes on to where it
waits again or ends. -/
structure Stretch where
  rel : Store → Store → Prop
  refl : ∀ σ, rel σ σ
  trans : ∀ {ρ σ τ}, rel ρ σ → rel σ τ → rel ρ τ

namespace Stretch

instance : CoeFun Stretch fun _ => Store → Store → Prop := ⟨Stretch.rel⟩

/-- Anything may become of the store. -/
def free : Stretch := ⟨fun _ _ => True, fun _ => trivial, fun _ _ => trivial⟩

end Stretch

/-- The terms on which two evaluations are compared. -/
structure Terms where
  resumes : Resumption
  stretch : Stretch
  /-- The first may wait a turn where the second does not. -/
  pauses : Prop

namespace Terms

/-- Both do the same, whatever other tasks do. -/
def any : Terms := ⟨.any, .free, False⟩

/-- Both do the same as long as no other task does anything. -/
def alone : Terms := ⟨.alone, .free, False⟩

end Terms

/-- What comes of a step when no other task runs. -/
inductive Outcome (α : Type) where
  | ended (result : Except Exit α) (fiber : Fiber) (store : Store)
  /-- The event can never come about. -/
  | blocked (event : Event) (store : Store)

namespace Outcome

def store {α : Type} : Outcome α → Store
  | ended _ _ σ => σ
  | blocked _ σ => σ

end Outcome

namespace Step

variable {α β : Type}

/-- Runs a step by itself, up to its end or to where it waits forever. -/
def alone : Step α → Outcome α
  | done result fiber store => .ended result fiber store
  | wait event store resume =>
    match event.happen? store with
    | some (answer, store) => (resume answer store).alone
    | none => .blocked event store

/-- A step may end so, whatever other tasks do while it waits. -/
inductive Ends : Step α → Except Exit α → Fiber → Store → Prop
  | done {r f σ} : Ends (.done r f σ) r f σ
  | wait {e σ k a σ' r f τ} (h : Ends (k a σ') r f τ) : Ends (.wait e σ k) r f τ

/-- Two steps, in a stretch that began with a store, that take the same turns under
every resumption allowed: `mid` holds of the stores they leave when they wait, and
`post` where they end. -/
inductive Alike (terms : Terms) (mid : Store → Prop)
    (post : Except Exit α → Fiber → Store → Prop) : Store → Step α → Step α → Prop
  | done {τ r f σ} (hs : terms.stretch τ σ) (h : post r f σ) :
      Alike terms mid post τ (.done r f σ) (.done r f σ)
  | wait {τ e σ k k'} (hs : terms.stretch τ σ) (h : mid σ)
      (hk : ∀ a υ, terms.resumes e σ a υ → Alike terms mid post υ (k a υ) (k' a υ)) :
      Alike terms mid post τ (.wait e σ k) (.wait e σ k')
  | pause {τ σ k t} (hp : terms.pauses) (hs : terms.stretch τ σ) (h : mid σ)
      (hk : Alike terms mid post σ (k () σ) t) : Alike terms mid post τ (.wait .turn σ k) t

/-- What ends after a step went on from an end of the step. -/
theorem Ends.of_andThen {s : Step α} {next : Except Exit α → Fiber → Store → Step β}
    {r : Except Exit β} {f : Fiber} {σ : Store} (h : (s.andThen next).Ends r f σ) :
    ∃ r' g τ, s.Ends r' g τ ∧ (next r' g τ).Ends r f σ := by
  induction s with
  | done r' g τ => exact ⟨r', g, τ, .done, h⟩
  | wait e τ k ih =>
    cases h with
    | @wait _ _ _ a σ' _ _ _ h =>
      obtain ⟨r', g, υ, hs, hnext⟩ := ih a σ' h
      exact ⟨r', g, υ, .wait hs, hnext⟩

namespace Alike

variable {terms terms' : Terms} {mid mid' : Store → Prop}
  {post post' : Except Exit α → Fiber → Store → Prop} {s t : Step α} {ρ τ : Store}

/-- A stretch that ends as it begins. -/
theorem ended {r : Except Exit α} {f : Fiber} (h : post r f τ) :
    Alike terms mid post τ (.done r f τ) (.done r f τ) := .done (terms.stretch.refl τ) h

/-- A stretch can be taken to begin earlier. -/
theorem after (hs : terms.stretch ρ τ) (h : Alike terms mid post τ s t) :
    Alike terms mid post ρ s t := by
  cases h with
  | done hs' h => exact .done (terms.stretch.trans hs hs') h
  | wait hs' h hk => exact .wait (terms.stretch.trans hs hs') h hk
  | pause hp hs' h hk => exact .pause hp (terms.stretch.trans hs hs') h hk

theorem mono (h : Alike terms mid post τ s t) (hmid : ∀ σ, mid σ → mid' σ)
    (hpost : ∀ r f σ, post r f σ → post' r f σ) : Alike terms mid' post' τ s t := by
  induction h with
  | done hs h => exact .done hs (hpost _ _ _ h)
  | wait hs h _ ih => exact .wait hs (hmid _ h) ih
  | pause hp hs h _ ih => exact .pause hp hs (hmid _ h) ih

/-- What is alike on some terms is so on weaker ones. -/
theorem weaken (h : Alike terms mid post τ s t)
    (hresumes : ∀ e σ a υ, terms'.resumes e σ a υ → terms.resumes e σ a υ)
    (hstretch : ∀ ρ σ, terms.stretch ρ σ → terms'.stretch ρ σ)
    (hpauses : terms.pauses → terms'.pauses) : Alike terms' mid post τ s t := by
  induction h with
  | done hs h => exact .done (hstretch _ _ hs) h
  | wait hs h _ ih =>
    exact .wait (hstretch _ _ hs) h fun a υ hresume => ih a υ (hresumes _ _ a υ hresume)
  | pause hp hs h _ ih => exact .pause (hpauses hp) (hstretch _ _ hs) h ih

/-- Going on alike after steps that are alike. -/
theorem andThen {post' : Except Exit β → Fiber → Store → Prop}
    {next next' : Except Exit α → Fiber → Store → Step β} (h : Alike terms mid post τ s t)
    (hmid : ∀ σ, mid σ → mid' σ)
    (hnext : ∀ r f σ, post r f σ → Alike terms mid' post' σ (next r f σ) (next' r f σ)) :
    Alike terms mid' post' τ (s.andThen next) (t.andThen next') := by
  induction h with
  | done hs h => exact (hnext _ _ _ h).after hs
  | wait hs h _ ih => exact .wait hs (hmid _ h) ih
  | pause hp hs h _ ih => exact .pause hp hs (hmid _ h) ih

/-- What holds of the second of two steps: between two of its turns lie as many stretches
as there are pauses. -/
theorem second (h : Alike terms mid post τ s t) :
    Alike { terms with pauses := False } mid post τ t t := by
  induction h with
  | done hs h => exact .done hs h
  | wait hs h _ ih => exact .wait hs h ih
  | pause _ hs _ _ ih => exact ih.after hs

/-- Steps that are alike whatever other tasks do are the same step. -/
theorem eq (h : Alike .any mid post τ s t) : s = t := by
  induction h with
  | done _ h => rfl
  | wait _ h _ ih =>
    congr 1
    funext a σ'
    exact ih a σ' trivial
  | pause hp => exact hp.elim

/-- What holds at every end of steps that are alike whatever other tasks do. -/
theorem of_ends {r : Except Exit α} {f : Fiber} {σ : Store} (h : Alike .any mid post τ s t)
    (hend : s.Ends r f σ) : post r f σ := by
  induction hend generalizing τ t with
  | done =>
    cases h with
    | done _ h => exact h
  | wait _ ih =>
    cases h with
    | wait _ _ hk => exact ih (hk _ _ trivial)
    | pause hp => exact hp.elim

/-- Steps that are alike come to the same when no other task runs. -/
theorem alone_eq (h : Alike .alone mid post τ s t) : s.alone = t.alone := by
  induction h with
  | done _ h => rfl
  | @wait _ e σ k k' _ _ _ ih =>
    unfold alone
    split
    · next a σ' heq => exact ih a σ' heq
    · rfl
  | pause hp => exact hp.elim

/-- What holds of what a step comes to when no other task runs. -/
theorem of_alone (h : Alike .alone mid post τ s t) :
    match s.alone with
    | .ended r f σ => post r f σ
    | .blocked _ σ => mid σ := by
  induction h with
  | done _ h => exact h
  | @wait _ e σ k k' _ h _ ih =>
    cases heq : e.happen? σ with
    | some step =>
      have hs := ih step.1 step.2 heq
      rw [show (Step.wait e σ k).alone = (k step.1 step.2).alone by simp only [alone, heq]]
      exact hs
    | none =>
      rw [show (Step.wait e σ k).alone = .blocked e σ by simp only [alone, heq]]
      exact h
  | pause hp => exact hp.elim

theorem of_alone_ended {r : Except Exit α} {f : Fiber} {σ : Store}
    (h : Alike .alone mid post τ s t) (hend : s.alone = .ended r f σ) : post r f σ := by
  have hpost := h.of_alone
  rw [hend] at hpost
  exact hpost

/-- What holds of the stores that a step leaves holds of the one it comes to. -/
theorem store_of_alone {P : Store → Prop} (h : Alike .alone mid post τ s t)
    (hmid : ∀ σ, mid σ → P σ) (hpost : ∀ r f σ, post r f σ → P σ) : P s.alone.store := by
  have halone := h.of_alone
  cases hout : s.alone with
  | ended r f σ =>
    rw [hout] at halone
    exact hpost r f σ halone
  | blocked e σ =>
    rw [hout] at halone
    exact hmid σ halone

end Alike
end Step

/-- A sequence ends with an exit of its first part, or goes on from an answer. -/
theorem Eval.ends_bind {α β : Type} {x : Eval α} {next : α → Eval β} {f g : Fiber} {σ τ : Store}
    {r : Except Exit β} (h : ((x >>= next) f σ).Ends r g τ) :
    (∃ e, r = .error e ∧ (x f σ).Ends (.error e) g τ) ∨
      ∃ a f' σ', (x f σ).Ends (.ok a) f' σ' ∧ (next a f' σ').Ends r g τ := by
  rw [Eval.bind_apply] at h
  obtain ⟨r', f', σ', hx, hnext⟩ := h.of_andThen
  cases r' with
  | ok a => exact .inr ⟨a, f', σ', hx, hnext⟩
  | error e =>
    cases hnext with
    | done => exact .inl ⟨e, rfl, hx⟩

end TreeWalk
