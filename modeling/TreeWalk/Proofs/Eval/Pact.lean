/-
Pacts between tasks.

Tasks take turns on one store.  A pact says what each of them makes of the store in
one stretch, and each relies on the others for what it guarantees itself.  If
whatever can be evaluated keeps to a pact, then so does a session, with all of its
tasks and however they take turns: from the beginning to the end of a program the
store has gone through nothing but such stretches.
-/
import TreeWalk.Proofs.Eval.Balance
import TreeWalk.Session

namespace TreeWalk

open Eval

/-- What tasks rely on and guarantee. -/
structure Pact where
  /-- What holds of the store whenever a task waits or ends. -/
  inv : Store → Prop
  stretch : Stretch
  /-- What holds of a task that is about to evaluate something. -/
  fits : Fiber → Store → Prop

namespace Pact

/-- Other tasks keep to the pact while a task waits for an event. -/
def resumes (P : Pact) : Resumption := fun e σ a τ =>
  ∃ υ, P.stretch σ υ ∧ P.inv υ ∧ e.happen? υ = some (a, τ)

def terms (P : Pact) : Terms := ⟨P.resumes, P.stretch, False⟩

/-- The step keeps to the pact, in a stretch that began with a store. -/
def Kept {α : Type} (P : Pact) (τ : Store) (s : Step α) : Prop :=
  s.Alike P.terms P.inv (fun _ _ σ => P.inv σ) τ s

/-- A task that waits will keep to the pact when it goes on, in a store that others have
changed from this one. -/
def Ready (P : Pact) (t : Parked) (σ : Store) : Prop :=
  ∀ a τ, P.resumes t.event σ a τ → P.Kept τ (t.resume a τ)

/-- Whatever tasks evaluate keeps to the pact, and so do the events that they wait for
and the schedule. -/
structure Binding (P : Pact) : Prop where
  expr : ∀ fuel e f σ, P.inv σ → P.fits f σ → P.Kept σ ((evaluator fuel).expr e f σ)
  later : ∀ {f σ τ}, P.stretch σ τ → P.fits f σ → P.fits f τ
  requested : ∀ {σ}, P.inv σ → ∀ s ∈ σ.spawned, P.fits s.fiber σ
  event : ∀ (e : Event) {a σ τ}, e.happen? σ = some (a, τ) → P.inv σ → P.inv τ ∧ P.stretch σ τ
  running : ∀ {σ} n, P.inv σ → P.inv { σ with running := n } ∧ P.stretch σ { σ with running := n }
  begun : ∀ {σ}, P.inv σ → P.inv { σ with spawned := [] } ∧ P.stretch σ { σ with spawned := [] }

/-- Programs and forks keep to the pact as well, and whether a task fits depends on
nothing but its scope. -/
structure Hosting (P : Pact) : Prop extends P.Binding where
  topLevel : ∀ fuel program f σ, P.inv σ → P.fits f σ →
    P.Kept σ (Control.topLevel (evaluator fuel) program f σ)
  scope : ∀ {f g : Fiber} {σ}, f.scope = g.scope → P.fits f σ → P.fits g σ
  child : ∀ {f σ}, P.inv σ → P.fits f σ →
    P.inv (σ.childScope f.scope).2 ∧ P.stretch σ (σ.childScope f.scope).2 ∧
      ∀ g : Fiber, g.scope = ⟨σ.scopes.size⟩ → P.fits g (σ.childScope f.scope).2

variable {P : Pact} {σ τ : Store}

theorem Ready.later {t : Parked} (h : P.Ready t σ) (hs : P.stretch σ τ) : P.Ready t τ := by
  intro a ρ hresume
  obtain ⟨υ, hrest, hυ, hstep⟩ := hresume
  exact h a ρ ⟨υ, P.stretch.trans hs hrest, hυ, hstep⟩

theorem Kept.mono {α : Type} {post : Except Exit α → Fiber → Store → Prop} {s : Step α}
    (h : s.Alike P.terms P.inv post τ s) (hpost : ∀ r f σ, post r f σ → P.inv σ) : P.Kept τ s :=
  Step.Alike.mono h (fun _ h => h) hpost

/-- Terms on which less is asked of other tasks, and no more allowed in a stretch, than
by the pact. -/
theorem alike_of_terms {α : Type} {terms : Terms} {mid : Store → Prop}
    {post : Except Exit α → Fiber → Store → Prop} {s t : Step α} (h : s.Alike terms mid post τ t)
    (hτ : P.inv τ) (hpauses : ¬ terms.pauses)
    (hresumes : ∀ e σ a υ, P.inv σ → P.resumes e σ a υ → terms.resumes e σ a υ ∧ P.inv υ)
    (hstretch : ∀ ρ σ, P.inv ρ → terms.stretch ρ σ → P.inv σ ∧ P.stretch ρ σ) :
    s.Alike P.terms P.inv (fun _ _ σ => P.inv σ) τ t := by
  induction h with
  | done hs _ => exact .done (hstretch _ _ hτ hs).2 (hstretch _ _ hτ hs).1
  | wait hs _ _ ih =>
    have hnow := hstretch _ _ hτ hs
    refine .wait hnow.2 hnow.1 fun a υ hresume => ?_
    have hthen := hresumes _ _ a υ hnow.1 hresume
    exact ih a υ hthen.1 hthen.2
  | pause hp => exact absurd hp hpauses

/-- Guarding against faults changes neither the store nor the scope. -/
theorem alike_guarded {post : Except Exit Value → Fiber → Store → Prop} {swallow : Bool}
    {x : Eval Value} {f : Fiber} (h : (x f σ).Alike P.terms P.inv post τ (x f σ)) :
    (guarded swallow x f σ).Alike P.terms P.inv
      (fun _ g υ => ∃ r g', post r g' υ ∧ g.scope = g'.scope) τ (guarded swallow x f σ) := by
  unfold guarded
  refine h.andThen (fun _ h => h) fun r g υ hυ => ?_
  split
  · exact .ended ⟨_, g, hυ, rfl⟩
  · exact .ended ⟨r, g, hυ, rfl⟩

theorem kept_guarded {swallow : Bool} {x : Eval Value} {f : Fiber} (h : P.Kept τ (x f σ)) :
    P.Kept τ (guarded swallow x f σ) := by
  refine (alike_guarded h).mono (fun _ h => h) ?_
  rintro r g υ ⟨_, _, hυ, _⟩
  exact hυ

/-- After a computation with another fiber the task is back where it was. -/
theorem alike_withFiber {α : Type} {x : Eval α} {f g : Fiber} (h : P.Kept τ (x g τ)) :
    (withFiber g x f τ).Alike P.terms P.inv (fun _ g' υ => P.inv υ ∧ g'.scope = f.scope) τ
      (withFiber g x f τ) :=
  Step.Alike.andThen h (fun _ h => h) fun _ _ _ hυ => .ended ⟨hυ, rfl⟩

/-- The store after some turns, and the tasks that wait then. -/
structure Turned (P : Pact) (σ : Store) (tasks : List Parked) (τ : Store) : Prop where
  inv : P.inv τ
  stretch : P.stretch σ τ
  ready : ∀ t ∈ tasks, P.Ready t τ

namespace Turned

variable {tasks : List Parked} {ρ : Store}

theorem of_ready (hσ : P.inv σ) (h : ∀ t ∈ tasks, P.Ready t σ) : P.Turned σ tasks σ :=
  ⟨hσ, P.stretch.refl σ, h⟩

theorem after (h : P.Turned σ tasks τ) (hs : P.stretch ρ σ) : P.Turned ρ tasks τ :=
  ⟨h.inv, P.stretch.trans hs h.stretch, h.ready⟩

/-- Tasks that waited before the last turns wait with those that do now. -/
theorem append {waiting : List Parked} (h : P.Turned σ tasks τ)
    (hwaiting : ∀ t ∈ waiting, P.Ready t σ) : P.Turned σ (waiting ++ tasks) τ where
  inv := h.inv
  stretch := h.stretch
  ready t ht := (List.mem_append.mp ht).elim (fun ht => (hwaiting t ht).later h.stretch) (h.ready t)

end Turned

/-- A session whose tasks keep to the pact. -/
structure Governs (P : Pact) (s : Session) : Prop where
  inv : P.inv s.store
  fits : P.fits s.fiber s.store
  ready : ∀ t ∈ s.tasks, P.Ready t s.store

namespace Binding

variable (hP : P.Binding)
include hP

/-! ## Schedules -/

theorem park {s : Step Value} (h : P.Kept τ s) :
    P.Turned τ (Schedule.park s).1.toList (Schedule.park s).2 := by
  cases h with
  | @done _ _ _ υ hs h =>
    have hended := hP.running (υ.running - 1) h
    exact ⟨hended.1, P.stretch.trans hs hended.2, fun t ht => nomatch ht⟩
  | wait hs h hk =>
    refine ⟨h, hs, fun t ht => ?_⟩
    obtain rfl := List.mem_singleton.mp ht
    exact hk
  | pause hp => exact hp.elim

theorem resumeAll {tasks : List Parked} (hσ : P.inv σ) (h : ∀ t ∈ tasks, P.Ready t σ) :
    P.Turned σ (Schedule.resumeAll tasks σ).1 (Schedule.resumeAll tasks σ).2.1 := by
  induction tasks generalizing σ with
  | nil => exact .of_ready hσ h
  | cons task rest ih =>
    have htask := h task List.mem_cons_self
    have hrest : ∀ t ∈ rest, P.Ready t σ := fun t ht => h t (List.mem_cons_of_mem task ht)
    unfold Schedule.resumeAll
    split
    · next s hs =>
      obtain ⟨⟨a, τ⟩, hstep, rfl⟩ := Option.map_eq_some_iff.mp hs
      have hevent := hP.event _ hstep hσ
      have hparked := hP.park (htask a τ ⟨σ, P.stretch.refl σ, hσ, hstep⟩)
      have hturned := P.stretch.trans hevent.2 hparked.stretch
      have hlater := ih hparked.inv fun t ht => (hrest t ht).later hturned
      exact (hlater.append hparked.ready).after hturned
    · exact (ih hσ hrest).append fun t ht => List.mem_singleton.mp ht ▸ htask

theorem beginAll (fuel : Nat) (swallow : Bool) {list : List Spawned} (hσ : P.inv σ)
    (h : ∀ s ∈ list, P.fits s.fiber σ) :
    P.Turned σ (Schedule.beginAll fuel swallow list σ).1
      (Schedule.beginAll fuel swallow list σ).2 := by
  induction list generalizing σ with
  | nil => exact .of_ready hσ fun t ht => nomatch ht
  | cons task rest ih =>
    have htask := h task List.mem_cons_self
    have hbegun : P.Kept σ (Schedule.begin fuel swallow task σ) :=
      kept_guarded (hP.expr fuel task.call task.fiber σ hσ htask)
    have hparked := hP.park hbegun
    have hlater := ih hparked.inv fun s hs =>
      hP.later hparked.stretch (h s (List.mem_cons_of_mem task hs))
    exact (hlater.append hparked.ready).after hparked.stretch

theorem turn (fuel : Nat) (swallow : Bool) {tasks : List Parked} (hσ : P.inv σ)
    (h : ∀ t ∈ tasks, P.Ready t σ) :
    P.Turned σ (Schedule.turn fuel swallow tasks σ).1 (Schedule.turn fuel swallow tasks σ).2.1 := by
  have hresumed := hP.resumeAll hσ h
  have hrequested := hP.requested hresumed.inv
  have hbegun := hP.begun hresumed.inv
  have hlater := hP.beginAll fuel swallow hbegun.1 fun s hs =>
    hP.later hbegun.2 (hrequested s hs)
  exact (hlater.append fun t ht => (hresumed.ready t ht).later hbegun.2).after
    (P.stretch.trans hresumed.stretch hbegun.2)

/-- The main computation, with the tasks beside it, up to its end or to where it is given
up. -/
theorem drive {fuel : Nat} {swallow : Bool} {start : Fiber}
    {post : Except Exit Value → Fiber → Store → Prop} (rounds : Nat) {s : Step Value}
    {tasks : List Parked} (hs : s.Alike P.terms P.inv post τ s)
    (hpost : ∀ r f σ, post r f σ → P.inv σ) (h : ∀ t ∈ tasks, P.Ready t τ) :
    let finish := Schedule.drive fuel swallow start rounds s tasks
    P.Turned τ finish.tasks finish.store ∧
      (finish.fiber = start ∨ post finish.result finish.fiber finish.store) := by
  induction rounds generalizing τ s tasks with
  | zero =>
    cases hs with
    | done hs hσ => exact ⟨⟨hpost _ _ _ hσ, hs, fun t ht => (h t ht).later hs⟩, .inr hσ⟩
    | wait hs hσ _ => exact ⟨⟨hσ, hs, fun t ht => (h t ht).later hs⟩, .inl rfl⟩
    | pause hp => exact hp.elim
  | succ rounds ih =>
    cases hs with
    | done hs hσ => exact ⟨⟨hpost _ _ _ hσ, hs, fun t ht => (h t ht).later hs⟩, .inr hσ⟩
    | pause hp => exact hp.elim
    | @wait _ e σ k k' hs hσ hk =>
      have hturn := hP.turn fuel swallow hσ fun t ht => (h t ht).later hs
      have hnow := P.stretch.trans hs hturn.stretch
      simp only [Schedule.drive]
      split
      · next a υ hstep =>
        have hevent := hP.event e hstep hturn.inv
        have hnext := ih (hk a υ ⟨_, hturn.stretch, hturn.inv, hstep⟩) fun t ht =>
          (hturn.ready t ht).later hevent.2
        exact ⟨hnext.1.after (P.stretch.trans hnow hevent.2), hnext.2⟩
      · split
        · have hagain : ∀ a υ, P.resumes e (Schedule.turn fuel swallow tasks σ).2.1 a υ →
              Step.Alike P.terms P.inv post υ (k a υ) (k a υ) := by
            intro a υ hresume
            obtain ⟨ρ, hrest, hρ, hstep⟩ := hresume
            exact hk a υ ⟨ρ, P.stretch.trans hturn.stretch hrest, hρ, hstep⟩
          have hnext := ih (.wait (P.stretch.refl _) hturn.inv hagain) hturn.ready
          exact ⟨hnext.1.after hnow, hnext.2⟩
        · exact ⟨hturn.after hs, .inl rfl⟩

/-! ## Sessions -/

/-- A computation of a session keeps to the pact, and so do the tasks beside it. -/
theorem exec {s : Session} {x : Eval Value} (hready : ∀ t ∈ s.tasks, P.Ready t s.store)
    (hx : P.Kept s.store (x s.fiber s.store)) :
    P.Turned s.store (s.exec x).2.tasks (s.exec x).2.store :=
  (hP.drive Session.fuel hx (fun _ _ _ h => h) hready).1

end Binding

namespace Hosting

variable (hP : P.Hosting)
include hP

/-- Programs end in the scope that they were started from. -/
theorem alike_programIn (swallow : Bool) {scope : ScopeId} (program : Program) (f : Fiber)
    (hσ : P.inv σ) (hscope : P.fits { f with scope := scope } σ) :
    (Session.programIn swallow scope program f σ).Alike P.terms P.inv
      (fun _ g τ => P.inv τ ∧ g.scope = f.scope) σ
      (Session.programIn swallow scope program f σ) := by
  have run := hP.topLevel Session.fuel program { f with scope := scope } σ hσ hscope
  have back : (withScope scope (Control.topLevel (evaluator Session.fuel) program) f σ).Alike
      P.terms P.inv (fun _ g τ => P.inv τ ∧ g.scope = f.scope) σ
      (withScope scope (Control.topLevel (evaluator Session.fuel) program) f σ) :=
    Step.Alike.andThen run (fun _ h => h) fun _ _ _ hτ => .ended ⟨hτ, rfl⟩
  refine (alike_guarded back).mono (fun _ h => h) ?_
  rintro r g τ ⟨_, g', ⟨hτ, hg'⟩, hg⟩
  exact ⟨hτ, hg.trans hg'⟩

/-- A computation that ends in the scope it began in leaves the session in order. -/
theorem governs_exec {s : Session} {x : Eval Value} (hs : P.Governs s)
    (hx : (x s.fiber s.store).Alike P.terms P.inv
      (fun _ g τ => P.inv τ ∧ g.scope = s.fiber.scope) s.store (x s.fiber s.store)) :
    P.Governs (s.exec x).2 ∧ P.stretch s.store (s.exec x).2.store := by
  obtain ⟨hturned, hfiber⟩ := hP.drive Session.fuel hx (fun _ _ _ h => h.1) hs.ready
  have hscope : (s.exec x).2.fiber.scope = s.fiber.scope :=
    hfiber.elim (congrArg Fiber.scope) fun h => h.2
  exact ⟨⟨hturned.inv, hP.scope hscope.symm (hP.later hturned.stretch hs.fits), hturned.ready⟩,
    hturned.stretch⟩

/-- Programs leave the session in order, whatever they do and however they end. -/
theorem runIn {s : Session} (hs : P.Governs s) {scope : ScopeId}
    (hscope : P.fits { s.fiber with scope := scope } s.store) (program : Program) :
    P.Governs (s.runIn scope program).2 ∧ P.stretch s.store (s.runIn scope program).2.store :=
  hP.governs_exec hs (hP.alike_programIn s.swallowsFaults program s.fiber hs.inv hscope)

theorem fork {s : Session} (hs : P.Governs s) (program : Program) :
    P.Governs (s.fork program).2 ∧ P.stretch s.store (s.fork program).2.store := by
  obtain ⟨hinv, hstretch, hfits⟩ := hP.child hs.inv hs.fits
  have hchild : P.Governs { s with store := (s.store.childScope s.fiber.scope).2 } :=
    ⟨hinv, hP.later hstretch hs.fits, fun t ht => (hs.ready t ht).later hstretch⟩
  let fiber := Control.forkFiber s.fiber s.fiber.thread ⟨s.store.scopes.size⟩ s.fiber.sink
  have run := hP.alike_programIn s.swallowsFaults program fiber hinv (hfits fiber rfl)
  obtain ⟨hgoverns, hrest⟩ :=
    hP.governs_exec hchild (alike_withFiber (Kept.mono run fun _ _ _ h => h.1))
  exact ⟨hgoverns, P.stretch.trans hstretch hrest⟩

end Hosting
end Pact
end TreeWalk
