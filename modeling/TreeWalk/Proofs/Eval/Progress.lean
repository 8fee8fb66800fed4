/-
Running the calls put off makes progress.

The calls put off on a frame are taken and evaluated in rounds, and what they put off
meanwhile is the next round.  What a call puts off lies properly in it, so from round to
round `defer` statements stand around each other one time less.  There are no more
rounds than that allows, and the loop ends if each call that it comes to ends.

How far the loop has come is told without fuel: `Draining` goes from call to call, each
evaluated with as much fuel as it takes.
-/
import TreeWalk.Proofs.Eval.Deferral
import TreeWalk.Proofs.Eval.Registration
import TreeWalk.Proofs.Fuel.Evaluator
import TreeWalk.Proofs.Syntax.Deferral

namespace TreeWalk

open Discipline Eval

/-! ## Enough fuel -/

/-- A step that does not end by an exit that does not count is gone along with. -/
theorem Step.Concur.alone_ended {α : Type} {left : Except Exit α → Prop} {s t : Step α}
    {r : Except Exit α} {g : Fiber} {τ : Store} (h : s.Concur left (EndsBy fun _ => False) t)
    (hs : s.alone = .ended r g τ) (hr : ¬ left r) : t.alone = .ended r g τ := by
  induction h with
  | same => exact hs
  | left hleft =>
    cases hs
    exact absurd hleft hr
  | right hright => exact absurd hright not_endsBy_false
  | wait _ ih =>
    unfold alone at hs ⊢
    split at hs
    · exact ih _ _ hs
    · cases hs

/-- An expression that is evaluated by itself, with enough fuel, ends so. -/
structure Expr.ComesTo (e : Expr) (f : Fiber) (σ : Store) (r : Except Exit Value) (g : Fiber)
    (τ : Store) : Prop where
  finished : r ≠ .error .exhausted
  ended : ∃ fuel, ((evaluator fuel).expr e f σ).alone = .ended r g τ

/-- Still more fuel makes no difference. -/
theorem Expr.ComesTo.eventually {e : Expr} {f g : Fiber} {σ τ : Store} {r : Except Exit Value}
    (h : e.ComesTo f σ r g τ) :
    ∃ least, ∀ fuel, least ≤ fuel → ((evaluator fuel).expr e f σ).alone = .ended r g τ := by
  obtain ⟨least, hended⟩ := h.ended
  refine ⟨least, fun fuel hle => ((cut_evaluator hle).expr e f σ).alone_ended hended ?_⟩
  intro hexhausted
  cases r with
  | ok v => exact hexhausted
  | error e => exact h.finished (congrArg Except.error hexhausted)

/-- An abort ends everything, and after anything else a task goes on. -/
theorem abort_or_kept (r : Except Exit Value) :
    (∃ e, r = .error e ∧ e.isAbort = true) ∨ ∀ e, r = .error e → e.isAbort = false := by
  cases r with
  | ok v => exact .inr nofun
  | error e =>
    cases habort : e.isAbort with
    | true => exact .inl ⟨e, rfl, habort⟩
    | false => exact .inr fun e' he => Except.error.inj he ▸ habort

/-- What a task goes on after has not run out of fuel. -/
theorem finished_of_kept {r : Except Exit Value} (hkept : ∀ e, r = .error e → e.isAbort = false) :
    r ≠ .error .exhausted := fun he => Bool.noConfusion (hkept _ he)

/-! ## Rounds -/

/-- How many `defer` statements stand around each other in calls that were put off. -/
def deferNesting (calls : List Deferred) : Nat :=
  (calls.map fun d => (Tree.expr d.call).deferDepth).foldr max 0

theorem deferDepth_le_nesting {calls : List Deferred} {d : Deferred} (hd : d ∈ calls) :
    (Tree.expr d.call).deferDepth ≤ deferNesting calls :=
  List.le_max_of_le' 0 (List.mem_map_of_mem hd) (Nat.le_refl _)

/-- Where running the calls put off on a frame comes to, by itself, from a fiber and a
store: how many rounds have begun, and which calls of the last one are left. -/
inductive Draining (frame : FrameId) (f : Fiber) (σ : Store) :
    Nat → List Deferred → Fiber → Store → Prop
  | start : Draining frame f σ 0 [] f σ
  | round {n g τ} (h : Draining frame f σ n [] g τ) (hcalls : τ.deferredOf frame ≠ []) :
      Draining frame f σ (n + 1) (τ.deferredOf frame) g (τ.takeDeferred frame).2
  | turn {n d calls g τ r g' τ'} (h : Draining frame f σ n (d :: calls) g τ)
      (heval : d.call.ComesTo { g with scope := d.scope } τ r g' τ')
      (hkept : ∀ e, r = .error e → e.isAbort = false) :
      Draining frame f σ n calls { g' with scope := g.scope } τ'

/-- The calls put off on a frame run to an end, from a fiber and a store. -/
structure MakesProgress (frame : FrameId) (f : Fiber) (σ : Store) : Prop where
  /-- Whatever a call gives the frame while it is evaluated lies properly in the call. -/
  gives : ∀ n d calls g τ fuel, Draining frame f σ n (d :: calls) g τ →
    τ.GivesOnly frame (fun call => (Tree.expr call).Under (.expr d.call))
      ((evaluator fuel).expr d.call { g with scope := d.scope } τ).alone.store
  /-- At most one round follows for each `defer` around others in the first round. -/
  rounds : ∀ n calls g τ, Draining frame f σ n calls g τ →
    n ≤ deferNesting (σ.deferredOf frame) + 1
  /-- If the loop ends well, this is how it went. -/
  goes : ∀ fuel limit g τ', (Call.runDeferred (evaluator fuel) limit frame f σ).alone =
      .ended (.ok ()) g τ' →
    ∃ n τ, Draining frame f σ n [] g τ ∧ τ.deferredOf frame = [] ∧ τ' = (τ.takeDeferred frame).2
  /-- However it goes, a loop that may look for calls more often does the same. -/
  settles : ∀ fuel limit, deferNesting (σ.deferredOf frame) + 2 ≤ limit →
    (Call.runDeferred (evaluator fuel) limit frame f σ).alone =
      (Call.runDeferred (evaluator fuel) (deferNesting (σ.deferredOf frame) + 2) frame f σ).alone
  /-- If each call that the loop comes to ends, the loop does, and looks for calls no more
  often than there may be rounds, and once more. -/
  ends : (∀ n d calls g τ, Draining frame f σ n (d :: calls) g τ →
      ∃ r g' τ', d.call.ComesTo { g with scope := d.scope } τ r g' τ') →
    ∃ r g τ, r ≠ .error .exhausted ∧ ∃ least, ∀ fuel, least ≤ fuel →
      ∀ limit, deferNesting (σ.deferredOf frame) + 2 ≤ limit →
        (Call.runDeferred (evaluator fuel) limit frame f σ).alone = .ended r g τ

namespace Call

variable {ev : Evaluator} {d : Deferred} {calls : List Deferred} {f g : Fiber} {σ τ : Store}
  {r : Except Exit Value}

/-- One call that was put off ends for the others, unless by an abort. -/
theorem alone_runOne (h : (ev.expr d.call { f with scope := d.scope } σ).alone = .ended r g τ)
    (hkept : ∀ e, r = .error e → e.isAbort = false) :
    (runOne ev d f σ).alone = .ended (.ok ()) { g with scope := f.scope } τ := by
  rw [runOne_apply, Step.alone_andThen, h]
  cases r with
  | ok v => rfl
  | error e =>
    show (if e.isAbort = true then _ else _ : Step Unit).alone = _
    rw [if_neg (by rw [hkept e rfl]; exact Bool.false_ne_true)]
    rfl

theorem alone_runOne_abort {e : Exit}
    (h : (ev.expr d.call { f with scope := d.scope } σ).alone = .ended (.error e) g τ)
    (habort : e.isAbort = true) :
    (runOne ev d f σ).alone = .ended (.error e) { g with scope := f.scope } τ := by
  rw [runOne_apply, Step.alone_andThen, h]
  show (if e.isAbort = true then _ else _ : Step Unit).alone = _
  rw [if_pos habort]
  rfl

/-- The calls of a round that are left, and the rounds after it. -/
def runRest (ev : Evaluator) (limit : Nat) (frame : FrameId) (calls : List Deferred) : Eval Unit := do
  foldList (fun _ d => runOne ev d) calls ()
  runDeferred ev limit frame

variable {frame : FrameId} {limit : Nat}

theorem runRest_cons : runRest ev limit frame (d :: calls) f σ =
    (runOne ev d >>= fun _ => runRest ev limit frame calls) f σ := by
  unfold runRest
  rw [foldList_cons, bind_assoc]

end Call

/-! ## What every turn preserves -/

/-- What holds wherever running the calls put off on a frame comes to, by a call at `here`
that began with `σ₀`, if `defer` statements stood around each other `m` times at first. -/
structure Underway (frame : FrameId) (here : Site) (σ₀ : Store) (m n : Nat)
    (calls : List Deferred) (g : Fiber) (τ : Store) : Prop where
  site : g.site = here
  aligned : Aligned true here σ₀ τ
  pending : ∀ d ∈ calls, Discipline.aligned.pending here σ₀ τ d
  begun : n ≤ m + 1
  taken : ∀ d ∈ calls, (Tree.expr d.call).deferDepth + n ≤ m + 1
  waiting : ∀ d ∈ τ.deferredOf frame, (Tree.expr d.call).deferDepth + n ≤ m

section Running

variable {frame : FrameId} {f g : Fiber} {σ₀ σ τ : Store} {m n : Nat} {d : Deferred}
  {calls : List Deferred} {here : Site}

namespace Underway

/-- What the next call puts off on the frame, if that is the one on top. -/
theorem gives (h : Underway frame here σ₀ m n (d :: calls) g τ)
    (htop : here.stack.topId? = some frame) (fuel : Nat) :
    τ.GivesOnly frame (Tree.expr d.call).PutsOff
      ((evaluator fuel).expr d.call { g with scope := d.scope } τ).alone.store := by
  obtain rfl := h.site
  have hin := lawful_aligned.enter_turn h.aligned (h.pending d List.mem_cons_self)
  have hturn : Aligned false ({ g with scope := d.scope } : Fiber).site τ τ :=
    lawful_aligned.restart hin
  exact gives_of_aligned (q := .expr d.call) hturn trivial htop

/-- What was put off in a round is taken for the next one, and stands in one `defer` less. -/
theorem round (h : Underway frame here σ₀ m n [] g τ) (hnew : σ₀.deferred.size ≤ frame.index)
    (htop : here.stack.topId? = some frame) (hcalls : τ.deferredOf frame ≠ []) :
    Underway frame here σ₀ m (n + 1) (τ.deferredOf frame) g (τ.takeDeferred frame).2 where
  site := h.site
  aligned := lawful_aligned.take h.aligned hnew
  pending _ hd := lawful_aligned.pending_take h.aligned hnew htop hd
  begun := by
    obtain ⟨d, _, hd⟩ := List.exists_cons_of_ne_nil hcalls
    have hdepth := h.waiting d (hd ▸ List.mem_cons_self)
    omega
  taken d hd := Nat.succ_le_succ (h.waiting d hd)
  waiting d hd := by
    rw [Drain.deferredOf_takeDeferred] at hd
    cases hd

/-- What a call puts off waits for the next round: its depth is less than that of the call. -/
theorem turn {r : Except Exit Value} {g' : Fiber} {τ' : Store}
    (h : Underway frame here σ₀ m n (d :: calls) g τ) (htop : here.stack.topId? = some frame)
    (heval : d.call.ComesTo { g with scope := d.scope } τ r g' τ')
    (hkept : ∀ e, r = .error e → e.isAbort = false) :
    Underway frame here σ₀ m n calls { g' with scope := g.scope } τ' := by
  obtain ⟨fuel, hended⟩ := heval.ended
  obtain ⟨new, hnew, hlie⟩ := h.gives htop fuel
  rw [hended] at hnew
  obtain rfl := h.site
  have hd := h.pending d List.mem_cons_self
  obtain ⟨_, hsite, haligned, hlater⟩ := turn_of_alone (sound_evaluator lawful_aligned fuel)
    h.aligned hd htop (Call.alone_runOne hended hkept)
  have hdepth := h.taken d List.mem_cons_self
  refine ⟨hsite, haligned, fun d' hd' => hlater d' (h.pending d' (List.mem_cons_of_mem d hd')),
    h.begun, fun d' hd' => h.taken d' (List.mem_cons_of_mem d hd'), fun d' hd' => ?_⟩
  replace hnew : τ'.deferredOf frame = τ.deferredOf frame ++ new := hnew
  rw [hnew] at hd'
  rcases List.mem_append.mp hd' with hold | hd'
  · exact h.waiting d' hold
  · have hless := (hlie d' hd').deferDepth_lt
    omega

end Underway

variable (hfit : Aligned true f.site σ₀ σ) (hnew : σ₀.deferred.size ≤ frame.index)
  (htop : f.stack.topId? = some frame)
include hfit hnew htop

theorem underway_of_draining (h : Draining frame f σ n calls g τ) :
    Underway frame f.site σ₀ (deferNesting (σ.deferredOf frame)) n calls g τ := by
  induction h with
  | start =>
    exact ⟨rfl, hfit, nofun, Nat.zero_le _, nofun, fun d hd => deferDepth_le_nesting hd⟩
  | round _ hcalls ih => exact ih.round hnew htop hcalls
  | turn _ heval hkept ih => exact ih.turn htop heval hkept

/-- How often the rest of the loop may look for calls makes no difference, if it may do so
for each round that can follow, and once more. -/
theorem settles_of_draining (fuel : Nat) (h : Draining frame f σ n calls g τ) {limit limit' : Nat}
    (hlimit : deferNesting (σ.deferredOf frame) + 2 ≤ limit + n)
    (hlimit' : deferNesting (σ.deferredOf frame) + 2 ≤ limit' + n) :
    (Call.runRest (evaluator fuel) limit frame calls g τ).alone =
      (Call.runRest (evaluator fuel) limit' frame calls g τ).alone := by
  induction limit generalizing limit' n calls g τ with
  | zero =>
    have hbegun := (underway_of_draining hfit hnew htop h).begun
    omega
  | succ limit ih =>
  induction calls generalizing g τ with
  | nil =>
    have hbegun := (underway_of_draining hfit hnew htop h).begun
    obtain ⟨limit', rfl⟩ : ∃ k, limit' = k + 1 := ⟨limit' - 1, by omega⟩
    show (Call.runDeferred (evaluator fuel) (limit + 1) frame g τ).alone =
      (Call.runDeferred (evaluator fuel) (limit' + 1) frame g τ).alone
    by_cases hnone : τ.deferredOf frame = []
    · rw [Call.runDeferred_nil hnone, Call.runDeferred_nil hnone]
    · rw [Call.runDeferred_cons hnone, Call.runDeferred_cons hnone]
      exact ih (h.round hnone) (by omega) (by omega)
  | cons d calls ihcalls =>
    rw [Call.runRest_cons, Call.runRest_cons, bind_apply, bind_apply, Step.alone_andThen,
      Step.alone_andThen]
    cases heval : ((evaluator fuel).expr d.call { g with scope := d.scope } τ).alone with
    | blocked e τ' =>
      rw [Call.runOne_apply, Step.alone_andThen, heval]
      rfl
    | ended r g' τ' =>
      rcases abort_or_kept r with ⟨e, rfl, habort⟩ | hkept
      · rw [Call.alone_runOne_abort heval habort]
        rfl
      · rw [Call.alone_runOne heval hkept]
        exact ihcalls (h.turn ⟨finished_of_kept hkept, fuel, heval⟩ hkept)

/-- The rest of the loop ends if each call that it comes to does. -/
theorem ends_of_draining
    (hcalls : ∀ n d calls g τ, Draining frame f σ n (d :: calls) g τ →
      ∃ r g' τ', d.call.ComesTo { g with scope := d.scope } τ r g' τ')
    (h : Draining frame f σ n calls g τ) :
    ∃ r g' τ', r ≠ .error .exhausted ∧ ∃ least, ∀ fuel, least ≤ fuel →
      ∀ limit, deferNesting (σ.deferredOf frame) + 2 ≤ limit + n →
        (Call.runRest (evaluator fuel) limit frame calls g τ).alone = .ended r g' τ' := by
  -- By how many rounds may follow, and in a round by the calls that are left.
  induction hleft : deferNesting (σ.deferredOf frame) + 1 - n using Nat.strong_induction_on
    generalizing n calls g τ with
  | _ left ih =>
  induction calls generalizing g τ with
  | nil =>
    have hbegun := (underway_of_draining hfit hnew htop h).begun
    by_cases hnone : τ.deferredOf frame = []
    · refine ⟨.ok (), g, (τ.takeDeferred frame).2, nofun, 0, fun fuel _ limit hlimit => ?_⟩
      obtain ⟨limit, rfl⟩ : ∃ k, limit = k + 1 := ⟨limit - 1, by omega⟩
      show (Call.runDeferred (evaluator fuel) (limit + 1) frame g τ).alone = _
      rw [Call.runDeferred_nil hnone]
      rfl
    · have hround := h.round hnone
      have hmore := (underway_of_draining hfit hnew htop hround).begun
      obtain ⟨r, g', τ', hr, least, hends⟩ := ih _ (by omega) hround rfl
      refine ⟨r, g', τ', hr, least, fun fuel hfuel limit hlimit => ?_⟩
      obtain ⟨limit, rfl⟩ : ∃ k, limit = k + 1 := ⟨limit - 1, by omega⟩
      show (Call.runDeferred (evaluator fuel) (limit + 1) frame g τ).alone = _
      rw [Call.runDeferred_cons hnone]
      exact hends fuel hfuel limit (by omega)
  | cons d calls ihcalls =>
    obtain ⟨r, g', τ', heval⟩ := hcalls n d calls g τ h
    obtain ⟨least, hended⟩ := heval.eventually
    rcases abort_or_kept r with ⟨e, rfl, habort⟩ | hkept
    · refine ⟨.error e, { g' with scope := g.scope }, τ', ?_, least, fun fuel hfuel _ _ => ?_⟩
      · intro heq
        exact heval.finished (congrArg Except.error (Except.error.inj heq))
      · rw [Call.runRest_cons, bind_apply, Step.alone_andThen,
          Call.alone_runOne_abort (hended fuel hfuel) habort]
        rfl
    · obtain ⟨r', g'', τ'', hr, least', hends⟩ := ihcalls (h.turn heval hkept)
      refine ⟨r', g'', τ'', hr, max least least', fun fuel hfuel limit hlimit => ?_⟩
      rw [Call.runRest_cons, bind_apply, Step.alone_andThen,
        Call.alone_runOne (hended fuel (by omega)) hkept]
      exact hends fuel (by omega) limit hlimit

end Running

/-- A run of the loop that ends well goes through all its rounds. -/
theorem Drain.draining {fuel : Nat} {frame : FrameId} {f g g' : Fiber} {σ τ τ' : Store}
    {calls registered served : List Deferred} {n : Nat}
    (hrun : Drain (evaluator fuel) frame calls g τ registered served g' τ')
    (h : Draining frame f σ n calls g τ) :
    ∃ n' τ₁, Draining frame f σ n' [] g' τ₁ ∧ τ₁.deferredOf frame = [] ∧
      τ' = (τ₁.takeDeferred frame).2 := by
  induction hrun generalizing n with
  | finish hnone => exact ⟨n, _, h, hnone, rfl⟩
  | take hcalls _ ih => exact ih (h.round hcalls)
  | turn _ heval hkept _ _ ih => exact ih (h.turn ⟨finished_of_kept hkept, fuel, heval⟩ hkept)

/-- Running the calls put off on the frame on top makes progress, if the frame is new to
the call that does so. -/
theorem makesProgress_of_aligned {frame : FrameId} {f : Fiber} {σ₀ σ : Store}
    (hfit : Aligned true f.site σ₀ σ) (hnew : σ₀.deferred.size ≤ frame.index)
    (htop : f.stack.topId? = some frame) : MakesProgress frame f σ where
  gives n d calls g τ fuel h :=
    ((underway_of_draining hfit hnew htop h).gives htop fuel).mono fun _ => Tree.PutsOff.under
  rounds n calls g τ h := (underway_of_draining hfit hnew htop h).begun
  goes fuel limit g τ' h := by
    obtain ⟨registered, served, hdrain⟩ :=
      drain_of_alone (sound_evaluator lawful_aligned fuel) hfit hnew htop h
    exact hdrain.draining .start
  settles fuel limit hlimit := settles_of_draining hfit hnew htop fuel .start hlimit (Nat.le_refl _)
  ends hcalls := by
    obtain ⟨r, g, τ, hr, least, hends⟩ := ends_of_draining hfit hnew htop hcalls .start
    exact ⟨r, g, τ, hr, least, fun fuel hfuel limit hlimit => hends fuel hfuel limit hlimit⟩

/-! ## Everywhere on the way -/

/-- What is evaluated puts off only what lies in it, and the calls that a function has put
off make progress. -/
structure Progressive (fuel : Nat) (q : Request) (f : Fiber) (σ : Store) : Prop where
  /-- The frame on top is only given calls that stand behind a `defer` of the request,
  outside of its function literals. -/
  gives : ∀ frame, f.stack.topId? = some frame →
    σ.GivesOnly frame q.PutsOff ((evaluator (fuel + 1)).serve q f σ).alone.store
  /-- What a function has put off when its body has ended makes progress. -/
  call : ∀ c args pos stack result g τ, q = .call (.function c) args pos →
    f.stack.push? (Call.frameOf c pos σ) = some stack →
    (Call.perform (evaluator fuel) c.lit args { f with scope := ⟨σ.scopes.size⟩, stack := stack }
      (Call.entryStore c pos σ)).alone = .ended result g τ →
    (∀ e, result = .error e → e.isAbort = false) → MakesProgress (Call.frameOf c pos σ).id g τ

theorem progressive_of_aligned {fuel : Nat} {q : Request} {f : Fiber} {σ : Store}
    (hfit : Aligned false f.site σ σ) (hq : q.Within (·.index < σ.scopes.size)) :
    Progressive fuel q f σ where
  gives _ htop := gives_of_aligned hfit hq htop
  call c args pos stack result g τ hcall hpush hperform hkept := by
    subst hcall
    obtain ⟨hperformed, htop⟩ := Call.performed_of_alone (sound_evaluator lawful_aligned fuel) hfit
      hq.1.1 hq.2 hpush hperform hkept
    exact makesProgress_of_aligned hperformed (Nat.le_refl _) htop

/-- Watching for it changes nothing. -/
theorem sound_progressive (fuel : Nat) : aligned.Sound (evaluator fuel) (watched Progressive fuel) :=
  sound_watched lawful_aligned (fun _ _ _ _ hfit hq => progressive_of_aligned hfit hq) fuel

/-- Running the calls put off makes progress, in every run of a session without other
tasks.  A new session is idle, and so it is after each program.  In states as an idle
session has them, whatever is evaluated is progressive, and so is everything that is
evaluated on the way: the frame on top is only given calls that lie in what is evaluated.
So a call that was put off and is evaluated for its frame gives the frame only calls that
lie properly in it, the loop that runs the calls of a frame makes at most one round more
than `defer` statements stand around each other in the first round, and it ends if each
call that it comes to does. -/
theorem draining_makes_progress :
    (∀ setup : Setup, (Session.ofSetup setup).Idle) ∧
    (∀ (s : Session) (program : Program), s.Idle →
      (Session.programIn s.swallowsFaults s.fiber.scope program s.fiber s.store).Solo →
      (s.run program).1 ≠ .error .exhausted → (s.run program).2.Idle) ∧
    (∀ (program : Program) (f : Fiber) (σ : Store), Tidy f σ →
      (Control.topLevel (watched Progressive Session.fuel) program f σ).alone =
        (Control.topLevel (evaluator Session.fuel) program f σ).alone) ∧
    (∀ (fuel : Nat) (q : Request) (f : Fiber) (σ : Store), Tidy f σ →
      q.Within (·.index < σ.scopes.size) → Progressive fuel q f σ ∧
        ((watched Progressive fuel).serve q f σ).alone = ((evaluator fuel).serve q f σ).alone) := by
  refine ⟨Session.idle_ofSetup, fun s program hidle => hidle.run, ?_, ?_⟩
  · intro program f σ h
    have runs : aligned.Runs true .failing aligned.Holds f.site σ σ
        (Control.topLevel (evaluator Session.fuel) program)
        (Control.topLevel (watched Progressive Session.fuel) program) :=
      (sound_progressive Session.fuel).runs_topLevel (Ways.le_refl _)
    exact (runs h.aligned f rfl).alone_eq.symm
  · intro fuel q f σ h hq
    have runs : aligned.Runs q.binds q.ways aligned.Holds f.site σ σ ((evaluator fuel).serve q)
        ((watched Progressive fuel).serve q) := (sound_progressive fuel).runs_serve hq
    exact ⟨progressive_of_aligned h.aligned hq, (runs h.aligned f rfl).alone_eq.symm⟩

/-- `fn() { defer fn(x) { return x }(if true { defer fn() { return 1 }(); 2 }); return 3 }` -/
def nestingFunction : FunctionLit :=
  ⟨none, [], false,
    [⟨.unknown, .defer (.bare (.call
        (.bare (.function ⟨none, [⟨"x", none⟩], false, [⟨.unknown, .ret [.bare (.ident "x")]⟩]⟩))
        [.bare (.conditional [(.bare (.bool true),
          [⟨.unknown, .defer (.bare (.call (.bare (.function
            ⟨none, [], false, [⟨.unknown, .ret [.bare (.int 1)]⟩]⟩)) []))⟩,
           ⟨.unknown, .expr (.bare (.int 2))⟩])] none)]))⟩,
     ⟨.unknown, .ret [.bare (.int 3)]⟩]⟩

/-- The program that calls it. -/
def nestingProgram : Program :=
  [⟨.unknown, .expr (.bare (.call (.bare (.function nestingFunction)) []))⟩]

theorem draining_makes_progress_nested :
    ((Session.ofSetup {}).run nestingProgram).2.Idle ∧
    (Control.topLevel (watched Progressive Session.fuel) nestingProgram
        (Session.ofSetup {}).fiber (Session.ofSetup {}).store).alone =
      (Control.topLevel (evaluator Session.fuel) nestingProgram
        (Session.ofSetup {}).fiber (Session.ofSetup {}).store).alone ∧
    ∃ g σ n g' τ, deferNesting (σ.deferredOf ⟨0⟩) = 1 ∧ MakesProgress ⟨0⟩ g σ ∧
      Draining ⟨0⟩ g σ n [] g' τ ∧ τ.deferredOf ⟨0⟩ = [] ∧ n ≤ 2 := by
  obtain ⟨hfresh, hrun, hwatched, hserve⟩ := draining_makes_progress
  refine ⟨hrun _ _ (hfresh {}) (.of_isDone (by decide +kernel)) ?_,
    hwatched _ _ _ (hfresh {}).tidy, ?_⟩
  · intro hexhausted
    have hok : ((Session.ofSetup {}).run nestingProgram).1.isOk = true := by decide +kernel
    rw [hexhausted] at hok
    cases hok
  · have hprogressive := (hserve 8 (.call (.function ⟨⟨0⟩, nestingFunction, ⟨0⟩⟩) [] .unknown)
      (Session.ofSetup {}).fiber (Session.ofSetup {}).store (hfresh {}).tidy
      ⟨⟨Nat.one_pos, trivial⟩, nofun⟩).1
    have hok : (Call.activate (evaluator 8) 8 nestingFunction [] ⟨0⟩
        ⟨0, ⟨1⟩, ⟨[⟨⟨0⟩, "fn", .unknown⟩], some 500⟩, .unknown, .capture⟩
        (Call.entryStore ⟨⟨0⟩, nestingFunction, ⟨0⟩⟩ .unknown
          (Session.ofSetup {}).store)).alone.isOk = true := by decide +kernel
    obtain ⟨settled, g', τ', hactivate⟩ := Outcome.exists_of_isOk hok
    obtain ⟨result, g, σ, hperform, hkept, hdeferred, -⟩ := Call.activate_ok hactivate
    have hprogress : MakesProgress ⟨0⟩ g σ :=
      hprogressive.call _ _ _ _ _ _ _ rfl rfl hperform hkept
    have hnesting : deferNesting ((Call.perform (evaluator 8) nestingFunction []
        ⟨0, ⟨1⟩, ⟨[⟨⟨0⟩, "fn", .unknown⟩], some 500⟩, .unknown, .capture⟩
        (Call.entryStore ⟨⟨0⟩, nestingFunction, ⟨0⟩⟩ .unknown
          (Session.ofSetup {}).store)).alone.store.deferredOf ⟨0⟩) = 1 := by decide +kernel
    rw [hperform] at hnesting
    obtain ⟨n, τ, hdrains, hnone, -⟩ := hprogress.goes 8 8 g' τ' hdeferred
    have hrounds := hprogress.rounds n [] g' τ hdrains
    rw [show deferNesting (σ.deferredOf ⟨0⟩) = 1 from hnesting] at hrounds
    exact ⟨g, σ, n, g', τ, hnesting, hprogress, hdrains, hnone, hrounds⟩

end TreeWalk
