/-
Evaluations end where they began.

Whatever is evaluated, and however it ends short of an abort, the task is in its
scope again and the calls under way are the same as before.  The stack has no more
frames than its limit allows all the while.
-/
import TreeWalk.Proofs.Eval.Watch
import TreeWalk.Session

namespace TreeWalk

namespace CallStack

/-- No more calls are under way than the limit allows. -/
def WithinLimit (s : CallStack) : Prop := ∀ limit, s.limit = some limit → s.depth ≤ limit

theorem withinLimit_empty (limit : Option Nat) : (empty limit).WithinLimit := fun _ _ => Nat.zero_le _

theorem withinLimit_of_push? {s t : CallStack} {frame : Frame} (h : s.push? frame = some t) :
    t.WithinLimit := by
  unfold push? at h
  split at h
  · cases h
  · next hroom =>
    obtain rfl := Option.some.inj h
    intro limit hlimit
    have hlimit : s.limit = some limit := hlimit
    have hdepth : ¬ limit ≤ s.depth := by simpa [isFull, hlimit] using hroom
    show s.frames.length + 1 ≤ limit
    unfold depth at hdepth
    omega

end CallStack

namespace Discipline

/-- The discipline of what is known of the call stack alone.  Other tasks may do
anything to the store. -/
def ofStack (P : CallStack → Prop) : Discipline where
  resumes := .any
  home _ _ := True
  fit _ here _ _ := P here.stack
  pending _ _ _ _ := True

theorem lawful_ofStack {P : CallStack → Prop} (hempty : ∀ limit, P (.empty limit))
    (hpush : ∀ s t frame, P s → s.push? frame = some t → P t) : (ofStack P).Lawful where
  tells := tells_free
  later _ _ _ := trivial
  home_new := trivial
  weaken h := h
  restart h := h
  trans h _ := h
  closed _ := .of_forall (fun _ => trivial) _
  inside _ := trivial
  quiet h _ := h
  resume h _ :=
    ⟨h, fun _ _ => trivial, Event.answerWithin_of_forall (fun _ => trivial) _ _⟩
  bind h _ := h
  rebind h _ _ _ := h
  print h := h
  enum h _ := h
  enter_child h := h
  leave_child h _ := h
  enter_unit _ := hempty _
  leave_unit h _ := h
  frame h := h
  enter_call h _ hfits := hpush _ _ _ h hfits
  leave_call h _ _ := h
  take h _ := h
  pending_take _ _ _ _ := trivial
  pending_later _ _ := trivial
  enter_turn h _ := h
  leave_turn h _ _ := h
  defer h _ _ := h
  spawn h := h

/-- The discipline that asks for nothing. -/
def free : Discipline := ofStack fun _ => True

instance {stack : CallStack} {w : Ways} : free.Admits stack w := ⟨fun _ _ => trivial⟩

theorem lawful_free : free.Lawful := lawful_ofStack (fun _ => trivial) fun _ _ _ _ _ => trivial

/-- The discipline that keeps the call stack within its limit. -/
def limited : Discipline := ofStack CallStack.WithinLimit

instance {stack : CallStack} {w : Ways} : limited.Admits stack w := ⟨fun _ _ => trivial⟩

theorem lawful_limited : limited.Lawful :=
  lawful_ofStack CallStack.withinLimit_empty fun _ _ _ _ h => CallStack.withinLimit_of_push? h

theorem within_ofStack {P : CallStack → Prop} {σ : Store} (q : Request) :
    q.Within ((ofStack P).At σ) := q.within_of_forall fun _ => trivial

end Discipline

open Discipline Eval

/-! ## Requests -/

/-- However a request ends, whatever other tasks do meanwhile: it leaves in one of
its ways, and is back where it began unless it ended with an abort. -/
theorem ends_serve {fuel : Nat} {q : Request} {f g : Fiber} {σ τ : Store} {r : Except Exit Value}
    (h : ((evaluator fuel).serve q f σ).Ends r g τ) :
    (∀ e, r = .error e → q.ways.allows e) ∧
      ((∀ e, r = .error e → e.isAbort = false) → g.site = f.site) := by
  have runs : free.Runs q.binds q.ways free.Holds f.site σ σ ((evaluator fuel).serve q)
      ((evaluator fuel).serve q) := (sound_evaluator lawful_free fuel).runs_serve (within_ofStack q)
  have hpost : free.Post q.binds q.ways free.Holds f.site σ σ r g τ := (runs trivial f rfl).of_ends h
  refine ⟨fun e he => ?_, hpost.site_eq⟩
  obtain rfl := he
  exact hpost.2.2.2.1

/-- The stack is within its limit wherever a node is evaluated or a value is called
on the way. -/
theorem serve_watched {fuel : Nat} {q : Request} {f : Fiber} {σ : Store}
    (h : f.stack.WithinLimit) :
    (watched (fun _ _ f _ => f.stack.WithinLimit) fuel).serve q f σ =
      (evaluator fuel).serve q f σ := by
  have hsound : limited.Sound (evaluator fuel)
      (watched (fun _ _ f _ => f.stack.WithinLimit) fuel) :=
    sound_watched lawful_limited (fun _ _ _ _ hfit _ => hfit) fuel
  have runs : limited.Runs q.binds q.ways limited.Holds f.site σ σ ((evaluator fuel).serve q)
      ((watched (fun _ _ f _ => f.stack.WithinLimit) fuel).serve q) :=
    hsound.runs_serve (within_ofStack q)
  exact (runs h f rfl).eq.symm

/-! ## Programs -/

namespace Schedule

/-- The main computation comes to one of its ends, unless it never goes on. -/
theorem ends_drive {fuel : Nat} {swallow : Bool} {start : Fiber} (rounds : Nat) (s : Step Value)
    (tasks : List Parked) :
    (drive fuel swallow start rounds s tasks).result = .error .exhausted ∨
      s.Ends (drive fuel swallow start rounds s tasks).result
        (drive fuel swallow start rounds s tasks).fiber
        (drive fuel swallow start rounds s tasks).store := by
  induction rounds generalizing s tasks with
  | zero =>
    cases s with
    | done r f σ => exact .inr .done
    | wait e σ resume => exact .inl rfl
  | succ rounds ih =>
    cases s with
    | done r f σ => exact .inr .done
    | wait e σ resume =>
      simp only [drive]
      split
      · next answer σ' _ =>
        exact (ih (resume answer σ') _).imp_right .wait
      · split
        · refine (ih (.wait e _ resume) _).imp_right fun h => ?_
          cases h with
          | wait h => exact .wait h
        · exact .inl rfl

end Schedule

namespace Session

/-- A program that ends is back in the scope it was started from, and no call is
under way if none was before.  It ends with a value or an error. -/
theorem alike_programIn {swallow : Bool} {scope : ScopeId} {program : Program} {f : Fiber}
    {σ : Store} :
    (programIn swallow scope program f σ).Alike .any (fun _ => True)
      (fun r g _ => (∀ e, r = .error e → Ways.failing.allows e) ∧
        (r ≠ .error .exhausted → g.scope = f.scope ∧ (f.stack.frames = [] → g.stack.frames = [])))
      σ (programIn swallow scope program f σ) := by
  have runs : free.Runs true .failing free.Holds { f.site with scope := scope } σ σ
      (Control.topLevel (evaluator fuel) program) (Control.topLevel (evaluator fuel) program) :=
    (sound_evaluator lawful_free fuel).runs_topLevel (Ways.le_refl _)
  unfold programIn programWith guarded withScope
  rw [Step.andThen_andThen]
  refine (runs trivial { f with scope := scope } rfl).andThen (fun _ _ => trivial) ?_
  rintro r g τ ⟨_, _, hpost⟩
  have back : g.site = { f.site with scope := scope } → (f.stack.frames = [] → g.stack.frames = []) := by
    intro hsite hframes
    rw [show g.stack = f.stack from congrArg Site.stack hsite]
    exact hframes
  cases r with
  | ok v => exact .ended ⟨fun e he => (nomatch he), fun _ => ⟨rfl, back hpost.1⟩⟩
  | error e =>
    have hallows := hpost.2.1
    cases e with
    | fault message =>
      cases swallow with
      | true => exact .ended ⟨fun e he => (nomatch he), fun _ => ⟨rfl, fun _ => rfl⟩⟩
      | false =>
        refine .ended ⟨fun e he => ?_, fun _ => ⟨rfl, fun _ => rfl⟩⟩
        obtain rfl := Except.error.inj he
        trivial
    | exhausted =>
      refine .ended ⟨fun e he => ?_, fun hne => absurd rfl hne⟩
      obtain rfl := Except.error.inj he
      trivial
    | error e =>
      have hsite := hpost.1.resolve_left fun h => nomatch h.2
      refine .ended ⟨fun e he => ?_, fun _ => ⟨rfl, back hsite⟩⟩
      obtain rfl := Except.error.inj he
      exact hallows
    | ret v => exact hallows.elim
    | brk => exact hallows.elim
    | next => exact hallows.elim

theorem ends_runIn (s : Session) (scope : ScopeId) (program : Program) :
    (∀ e, (s.runIn scope program).1 = .error e → Ways.failing.allows e) ∧
      ((s.runIn scope program).1 ≠ .error .exhausted →
        (s.runIn scope program).2.fiber.scope = s.fiber.scope ∧
          (s.fiber.stack.frames = [] → (s.runIn scope program).2.fiber.stack.frames = [])) := by
  rcases Schedule.ends_drive fuel (programIn s.swallowsFaults scope program s.fiber s.store) s.tasks
    with hexhausted | hends
  · have hresult : (s.runIn scope program).1 = .error .exhausted := hexhausted
    refine ⟨fun e he => ?_, fun hne => absurd hresult hne⟩
    rw [hresult] at he
    obtain rfl := Except.error.inj he
    trivial
  · exact alike_programIn.of_ends hends

end Session

/-- Scopes and calls balance.  A request that ends without an abort ends in the
scope and with the calls under way that it began with, whatever other tasks do
meanwhile.  The stack never has more frames than its limit: no push exceeds it, it
holds from the start, and it holds wherever a node is evaluated or a value is
called on the way.  A program that was started with no call under way ends in the
scope it was started from with no call under way, also when it ended with a
fault. -/
theorem scope_and_stack_balanced :
    (∀ (fuel : Nat) (q : Request) (f g : Fiber) (σ τ : Store) (r : Except Exit Value),
      ((evaluator fuel).serve q f σ).Ends r g τ → (∀ e, r = .error e → e.isAbort = false) →
      g.scope = f.scope ∧ g.stack = f.stack) ∧
    (∀ (s t : CallStack) (frame : Frame), s.push? frame = some t → t.WithinLimit) ∧
    (∀ setup : Setup, (Session.ofSetup setup).fiber.stack.WithinLimit) ∧
    (∀ (fuel : Nat) (q : Request) (f : Fiber) (σ : Store), f.stack.WithinLimit →
      (watched (fun _ _ f _ => f.stack.WithinLimit) fuel).serve q f σ =
        (evaluator fuel).serve q f σ) ∧
    (∀ (s : Session) (scope : ScopeId) (program : Program), s.fiber.stack.frames = [] →
      (s.runIn scope program).1 ≠ .error .exhausted →
      (s.runIn scope program).2.fiber.scope = s.fiber.scope ∧
        (s.runIn scope program).2.fiber.stack.frames = []) := by
  refine ⟨?_, fun _ _ _ => CallStack.withinLimit_of_push?, fun _ => ?_, fun _ _ _ _ => serve_watched,
    ?_⟩
  · intro fuel q f g σ τ r hends hkept
    have hsite := (ends_serve hends).2 hkept
    exact ⟨congrArg Site.scope hsite, congrArg Site.stack hsite⟩
  · exact CallStack.withinLimit_empty _
  · intro s scope program hframes hne
    obtain ⟨hscope, hstack⟩ := (Session.ends_runIn s scope program).2 hne
    exact ⟨hscope, hstack hframes⟩

/-- `fn() { return 1 }()` -/
def returningCall : Expr :=
  .bare (.call (.bare (.function ⟨none, [], false, [⟨.unknown, .ret [.bare (.int 1)]⟩]⟩)) [])

theorem scope_and_stack_balanced_call :
    (∃ g τ, ((evaluator 4).serve (.expr returningCall) default default).Ends
        (.ok (.ofInt 1)) g τ ∧ g.scope = (default : Fiber).scope ∧
        g.stack = (default : Fiber).stack) ∧
      CallStack.WithinLimit ⟨[default], some 1⟩ ∧
      (watched (fun _ _ f _ => f.stack.WithinLimit) 4).serve (.expr returningCall)
          (Session.ofSetup {}).fiber default =
        (evaluator 4).serve (.expr returningCall) (Session.ofSetup {}).fiber default ∧
      ((Session.ofSetup {}).run [⟨.unknown, .expr returningCall⟩]).2.fiber.scope =
        (Session.ofSetup {}).fiber.scope ∧
      ((Session.ofSetup {}).run [⟨.unknown, .expr returningCall⟩]).2.fiber.stack.frames = [] := by
  obtain ⟨hends, hpush, hfresh, hwatched, hprogram⟩ := scope_and_stack_balanced
  have hcall : ((evaluator 4).serve (.expr returningCall) default default).Ends
      (.ok (.ofInt 1)) default _ := .done
  refine ⟨⟨_, _, hcall, hends 4 _ _ _ _ _ _ hcall fun e he => (nomatch he)⟩,
    hpush ⟨[], some 1⟩ _ default rfl, hwatched 4 _ _ _ (hfresh {}), ?_⟩
  refine hprogram (Session.ofSetup {}) _ _ rfl ?_
  rw [show ((Session.ofSetup {}).runIn (Session.ofSetup {}).fiber.scope
    [⟨.unknown, .expr returningCall⟩]).1 = .ok (.ofInt 1) from rfl]
  exact fun h => nomatch h

end TreeWalk
