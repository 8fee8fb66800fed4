/-
What is heard of evaluations.

A task makes itself heard by the text that it prints and by the tasks that it asks
for.  Text is only ever appended, and of a silent task nothing is heard but silent
tasks.  A unit is evaluated in silence, and with all that it calls it stays so; but
the functions that it leaves behind know nothing of that: a call prints where its
caller does.
-/
import TreeWalk.Proofs.Eval.Pact

namespace TreeWalk

open Discipline Eval

namespace Store

/-- Text is only appended to what has been printed, and in silence none is. -/
def Appends (sink : Sink) (σ τ : Store) : Prop :=
  ∃ text, τ.output = σ.output ++ text ∧ (sink = .discard → text = "")

/-- What a task that prints to a sink may make known: it appends a text, and asks for some
more tasks; in silence, for silent tasks only. -/
structure Told (sink : Sink) (σ τ : Store) : Prop where
  text : σ.Appends sink τ
  tasks : ∃ more, τ.spawned = σ.spawned ++ more ∧
    (sink = .discard → ∀ s ∈ more, s.fiber.sink = .discard)

variable {sink sink' : Sink} {ρ σ τ : Store}

namespace Appends

theorem of_output_eq (h : τ.output = σ.output) : σ.Appends sink τ :=
  ⟨"", by rw [h, String.append_empty], fun _ => rfl⟩

theorem refl (σ : Store) : σ.Appends sink σ := of_output_eq rfl

theorem trans (h : ρ.Appends sink σ) (h' : σ.Appends sink τ) : ρ.Appends sink τ := by
  obtain ⟨text, htext, hsilent⟩ := h
  obtain ⟨text', htext', hsilent'⟩ := h'
  refine ⟨text ++ text', ?_, fun hsink => ?_⟩
  · rw [htext', htext, String.append_assoc]
  · rw [hsilent hsink, hsilent' hsink, String.append_empty]

theorem output_eq (h : σ.Appends .discard τ) : τ.output = σ.output := by
  obtain ⟨text, htext, hsilent⟩ := h
  rw [htext, hsilent rfl, String.append_empty]

end Appends

namespace Told

theorem of_outward_eq (h : τ.outward = σ.outward) : σ.Told sink τ where
  text := .of_output_eq (congrArg Outward.output h)
  tasks := ⟨[], by rw [List.append_nil]; exact congrArg Outward.spawned h, fun _ => nofun⟩

theorem refl (σ : Store) : σ.Told sink σ := of_outward_eq rfl

theorem trans (h : ρ.Told sink σ) (h' : σ.Told sink τ) : ρ.Told sink τ where
  text := h.text.trans h'.text
  tasks := by
    obtain ⟨more, hmore, hsilent⟩ := h.tasks
    obtain ⟨more', hmore', hsilent'⟩ := h'.tasks
    refine ⟨more ++ more', ?_, fun hsink s hs => ?_⟩
    · rw [hmore', hmore, List.append_assoc]
    · exact (List.mem_append.mp hs).elim (hsilent hsink s) (hsilent' hsink s)

theorem print {text : String} : σ.Told sink (σ.print sink text) := by
  cases sink with
  | capture => exact ⟨⟨text, rfl, nofun⟩, ⟨[], (List.append_nil _).symm, fun _ => nofun⟩⟩
  | discard => exact refl σ

/-- The task asked for prints where the one does that asks for it. -/
theorem requestTask {f : Fiber} {call : Expr} : σ.Told f.sink (Control.requestTask f call σ) where
  text := .of_output_eq rfl
  tasks := ⟨[_], rfl, fun hsink s hs => by rw [List.mem_singleton.mp hs]; exact hsink⟩

/-- Whatever may be told in silence may be told aloud. -/
theorem mono (hsink : sink' = .discard → sink = .discard) (h : σ.Told sink τ) : σ.Told sink' τ where
  text := h.text.imp fun _ h => ⟨h.1, fun hs => h.2 (hsink hs)⟩
  tasks := h.tasks.imp fun _ h => ⟨h.1, fun hs => h.2 (hsink hs)⟩

end Told
end Store

/-- What is told in one stretch of a task that prints to a sink. -/
def Stretch.told (sink : Sink) : Stretch := ⟨Store.Told sink, .refl, .trans⟩

/-- While a task waits, no frame is forgotten of the first so many that were made. -/
def Resumption.keepsFrames (n : Nat) : Resumption := fun _ _ _ τ => n ≤ τ.deferred.size

/-- A call is under way whose frame was among the first so many. -/
def CallStack.Holds (s : CallStack) (n : Nat) : Prop := ∃ frame ∈ s.frames, frame.id.index < n

theorem CallStack.not_holds_empty {limit : Option Nat} {n : Nat} : ¬ (empty limit).Holds n :=
  fun ⟨_, hframe, _⟩ => nomatch hframe

/-- A new frame is none of those that were made before. -/
theorem CallStack.holds_of_push? {s t : CallStack} {frame : Frame} {n : Nat}
    (h : s.push? frame = some t) (hnew : n ≤ frame.id.index) (ht : t.Holds n) : s.Holds n := by
  unfold push? at h
  split at h
  · cases h
  · obtain rfl := Option.some.inj h
    obtain ⟨old, hold, hlt⟩ := ht
    rcases List.mem_cons.mp hold with rfl | hold
    · exact absurd hlt (Nat.not_lt.mpr hnew)
    · exact ⟨old, hold, hlt⟩

namespace Discipline

/-- The discipline of what is told.  As long as one of the first `n` calls is under way,
the text goes to `sink`. -/
def telling (n : Nat) (sink : Sink) : Discipline where
  resumes := .keepsFrames n
  stretch := .told
  home _ _ := True
  fit _ here _ σ := n ≤ σ.deferred.size ∧ (here.stack.Holds n → here.sink = sink)
  pending _ _ _ _ := True

variable {n : Nat} {sink : Sink}

instance {stack : CallStack} {w : Ways} : (telling n sink).Admits stack w := ⟨fun _ _ => trivial⟩

theorem tells_telling : Tells (telling n sink).At (telling n sink).stretch where
  same _ := .of_outward_eq
  bind _ := .of_outward_eq rfl
  scope := .of_outward_eq rfl
  print := .print
  spawn := .requestTask
  silent := .mono fun _ => rfl

theorem lawful_telling : (telling n sink).Lawful where
  tells := tells_telling
  later _ _ _ := trivial
  home_new := trivial
  weaken h := h
  restart h := h
  trans _ h' := h'
  closed _ := .of_forall (fun _ => trivial) _
  inside _ := trivial
  quiet h hq := ⟨hq.deferred ▸ h.1, h.2⟩
  resume h hresume :=
    ⟨⟨hresume, h.2⟩, fun _ _ => trivial, Event.answerWithin_of_forall (fun _ => trivial) _ _⟩
  bind h _ := h
  rebind h _ _ _ := h
  print {_ here _ σ text} h := by
    refine ⟨?_, h.2⟩
    cases here.sink with
    | capture => exact h.1
    | discard => exact h.1
  enum h _ := h
  enter_child h := h
  leave_child h h' := ⟨h'.1, h.2⟩
  enter_unit h := ⟨h.1, fun hold => (CallStack.not_holds_empty hold).elim⟩
  leave_unit h h' := ⟨h'.1, h.2⟩
  frame {_ _ _ σ _ _} h := by
    refine ⟨?_, h.2⟩
    show n ≤ (σ.deferred.push []).size
    rw [Array.size_push]
    exact Nat.le_succ_of_le h.1
  enter_call {_ _ _ σ _ _ _ _} h _ hpush := by
    refine ⟨?_, fun hold => h.2 (CallStack.holds_of_push? hpush h.1 hold)⟩
    show n ≤ (σ.deferred.push []).size
    rw [Array.size_push]
    exact Nat.le_succ_of_le h.1
  leave_call h _ h' := ⟨h'.1, h.2⟩
  take {_ _ σ frame} h _ := by
    refine ⟨?_, h.2⟩
    show n ≤ (σ.deferred.setIfInBounds frame.index []).size
    rw [Array.size_setIfInBounds]
    exact h.1
  pending_take _ _ _ _ := trivial
  pending_later _ _ := trivial
  enter_turn h _ := h
  leave_turn h _ h' := ⟨h'.1, h.2⟩
  defer {_ here _ σ frame call} h _ _ := by
    refine ⟨?_, h.2⟩
    show n ≤ (σ.deferred.modify frame.id.index (· ++ [⟨call, here.scope⟩])).size
    rw [Array.size_modify]
    exact h.1
  spawn h := h

/-- Frames that were made before nothing was are under way nowhere. -/
theorem fit_telling {b : Bool} {here : Site} {σ₀ σ : Store} : (telling 0 sink).fit b here σ₀ σ :=
  ⟨Nat.zero_le _, fun ⟨_, _, hlt⟩ => absurd hlt (Nat.not_lt_zero _)⟩

theorem within_telling {σ : Store} (q : Request) : q.Within ((telling n sink).At σ) :=
  q.within_of_forall fun _ => trivial

end Discipline

/-! ## Evaluations -/

/-- In each of its stretches, whatever other tasks do in between, a step tells what one may
that prints to the sink. -/
def Step.Tells {α : Type} (sink : Sink) (σ : Store) (s : Step α) : Prop :=
  s.Alike ⟨.any, .told sink, False⟩ (fun _ => True) (fun _ _ _ => True) σ s

theorem Step.Alike.tells {α : Type} {sink : Sink} {σ : Store} {s : Step α} {mid : Store → Prop}
    {post : Except Exit α → Fiber → Store → Prop}
    (h : s.Alike ⟨.keepsFrames 0, .told sink, False⟩ mid post σ s) : s.Tells sink σ :=
  (h.mono (fun _ _ => trivial) fun _ _ _ _ => trivial).weaken (fun _ _ _ _ _ => Nat.zero_le _)
    (fun _ _ h => h) fun h => h

/-- Nothing has to be known of where text goes for a computation to tell no more than it
may. -/
theorem Discipline.Runs.tells {α : Type} {b : Bool} {w : Ways} {Φ : Store → α → Prop} {f : Fiber}
    {σ₀ σ : Store} {x : Eval α} (h : (telling 0 .discard).Runs b w Φ f.site σ₀ σ x x) :
    (x f σ).Tells f.sink σ := Step.Alike.tells (h fit_telling f rfl)

theorem tells_serve (fuel : Nat) (q : Request) (f : Fiber) (σ : Store) :
    ((evaluator fuel).serve q f σ).Tells f.sink σ := by
  have runs : (telling 0 .discard).Runs q.binds q.ways (telling 0 .discard).Holds f.site σ σ
      ((evaluator fuel).serve q) ((evaluator fuel).serve q) :=
    (sound_evaluator lawful_telling fuel).runs_serve (within_telling q)
  exact runs.tells

theorem tells_topLevel (fuel : Nat) (program : Program) (f : Fiber) (σ : Store) :
    (Control.topLevel (evaluator fuel) program f σ).Tells f.sink σ := by
  have runs : (telling 0 .discard).Runs true .failing (telling 0 .discard).Holds f.site σ σ
      (Control.topLevel (evaluator fuel) program) (Control.topLevel (evaluator fuel) program) :=
    (sound_evaluator lawful_telling fuel).runs_topLevel (Ways.le_refl _)
  exact runs.tells

/-- Nothing is heard of an include, whoever includes. -/
theorem silent_include (fuel : Nat) {e : Expr} {path : String} (he : e.form = .include path)
    (f : Fiber) (σ : Store) : ((evaluator fuel).expr e f σ).Tells .discard σ := by
  cases fuel with
  | zero => exact .ended trivial
  | succ fuel =>
    have hev : (telling 0 .discard).Sound (evaluator fuel) (evaluator fuel) :=
      sound_evaluator lawful_telling fuel
    have runs : (telling 0 .discard).hushed.Runs true .failing (telling 0 .discard).Holds f.site σ σ
        (Node.expr (evaluator fuel) fuel e) (Node.expr (evaluator fuel) fuel e) := by
      unfold Node.expr
      rw [he]
      exact .enter fun _ => hev.hushed_includeUnit (Ways.le_refl _)
    have hfit : (telling 0 .discard).fit true f.site σ σ := fit_telling
    rw [evaluator_expr]
    exact Step.Alike.tells (runs hfit f rfl)

/-! ## Calls -/

/-- As long as one of the first `n` calls is under way, the text goes to the sink. -/
def Aloud (n : Nat) (sink : Sink) : Watch := fun _ _ f _ => f.stack.Holds n → f.sink = sink

/-- The terms on which the first `n` calls are watched. -/
def Terms.aloud (n : Nat) (sink : Sink) : Terms := ⟨.keepsFrames n, .told sink, False⟩

theorem sound_aloud (n : Nat) (sink : Sink) (fuel : Nat) :
    (telling n sink).Sound (evaluator fuel) (watched (Aloud n sink) fuel) :=
  sound_watched lawful_telling (fun _ _ _ _ hfit _ => hfit.2) fuel

/-- Where the text of a task goes stays the same as long as the calls last that are under
way. -/
theorem alike_aloud (fuel : Nat) (q : Request) (f : Fiber) (σ : Store) :
    ((evaluator fuel).serve q f σ).Alike (.aloud σ.deferred.size f.sink) (fun _ => True)
      (fun _ _ _ => True) σ
      ((watched (Aloud σ.deferred.size f.sink) fuel).serve q f σ) := by
  have runs : (telling σ.deferred.size f.sink).Runs q.binds q.ways
      (telling σ.deferred.size f.sink).Holds f.site σ σ ((evaluator fuel).serve q)
      ((watched (Aloud σ.deferred.size f.sink) fuel).serve q) :=
    (sound_aloud _ _ fuel).runs_serve (within_telling q)
  exact (runs ⟨Nat.le_refl _, fun _ => rfl⟩ f rfl).mono (fun _ _ => trivial) fun _ _ _ _ => trivial

/-- A function prints where its caller does, wherever it was made: its call is the one
after all that were made before. -/
theorem aloud_invoke (fuel : Nat) (c : Closure) (args : List Value) (pos : Position) (f : Fiber)
    (σ : Store) :
    (Call.invoke (evaluator fuel) fuel c args pos f σ).Alike
      (.aloud (σ.deferred.size + 1) f.sink) (fun _ => True) (fun _ _ _ => True) σ
      (Call.invoke (watched (Aloud (σ.deferred.size + 1) f.sink) fuel) fuel c args pos f σ) := by
  by_cases haccepts : c.lit.accepts args.length = true
  · cases hpush : f.stack.push? (Call.frameOf c pos σ) with
    | none =>
      rw [Call.invoke_full haccepts hpush, Call.invoke_full haccepts hpush]
      exact .done (.of_outward_eq rfl) trivial
    | some stack =>
      rw [Call.invoke_apply haccepts hpush, Call.invoke_apply haccepts hpush]
      have hargs : (telling (σ.deferred.size + 1) f.sink).HoldsAll σ args :=
        fun v _ => Value.within_of_forall (fun _ => trivial) v
      have hsize : σ.deferred.size + 1 ≤ (Call.entryStore c pos σ).deferred.size := by
        show _ ≤ (σ.deferred.push []).size
        exact Nat.le_of_eq (Array.size_push _).symm
      have runs : (telling (σ.deferred.size + 1) f.sink).Runs true .none _
          { f.site with scope := ⟨σ.scopes.size⟩, stack := stack } σ (Call.entryStore c pos σ)
          (Call.activate (evaluator fuel) fuel c.lit args (Call.frameOf c pos σ).id)
          (Call.activate (watched (Aloud (σ.deferred.size + 1) f.sink) fuel) fuel c.lit args
            (Call.frameOf c pos σ).id) :=
        (sound_aloud _ _ fuel).runs_entered hargs hpush
      have entered : Step.Alike (.aloud (σ.deferred.size + 1) f.sink) _ _ _ _ _ :=
        runs ⟨hsize, fun _ => rfl⟩ { f with scope := ⟨σ.scopes.size⟩, stack := stack } rfl
      have hentry : σ.Told f.sink (Call.entryStore c pos σ) := .of_outward_eq rfl
      refine .after hentry (entered.andThen (fun _ _ => trivial) fun r g τ _ => ?_)
      cases r with
      | ok result => exact .ended trivial
      | error e => exact .ended trivial
  · unfold Call.invoke
    rw [if_neg haccepts, if_neg haccepts]
    exact .ended trivial

/-! ## Printing -/

namespace Atomic

variable {α β : Type}

/-- A computation that does the same whatever it is told to print to, and prints a text
there at the end. -/
def Directs (x : Sink → Atomic α) : Prop :=
  ∀ σ : Store, (∃ e, ∀ sink, x sink σ = .error e) ∨
    ∃ (v : α) (ρ : Store) (text : String), ρ.outward = σ.outward ∧
      ∀ sink, x sink σ = .ok (v, ρ.print sink text)

namespace Directs

/-- What is the same for every sink prints nothing. -/
theorem of_speaks {x : Sink → Atomic α} {Φ : α → Prop} (hx : ∀ sink, x sink = x .discard)
    (h : Speaks .everything .discard Φ (x .discard)) : Directs x := by
  intro σ
  have hspoken := h σ (.of_forall (fun _ => trivial) σ)
  cases heq : x .discard σ with
  | error e =>
    refine .inl ⟨e, fun sink => ?_⟩
    rw [hx sink, heq]
  | ok r =>
    rw [heq] at hspoken
    obtain ⟨⟨ρ, text, hcalm, hprint⟩, _⟩ := hspoken
    refine .inr ⟨r.1, r.2, "", ?_, fun sink => ?_⟩
    · rw [hprint]
      exact hcalm.outward
    · rw [hx sink, heq, Store.print_empty]

theorem print {text : String} {v : α} :
    Directs fun sink => do Atomic.update (·.print sink text); return v :=
  fun σ => .inr ⟨v, σ, text, rfl, fun _ => rfl⟩

/-- Nothing is printed before the end. -/
theorem seq {a : Atomic α} {x : α → Sink → Atomic β} {Φ : α → Prop} (ha : Sound .everything Φ a)
    (hx : ∀ v, Directs (x v)) : Directs fun sink => a >>= fun v => x v sink := by
  intro σ
  have h := ha σ (.of_forall (fun _ => trivial) σ)
  cases heq : a σ with
  | error e =>
    have run : ∀ sink, (a >>= fun v => x v sink) σ = .error e := fun _ => by rw [bind_apply, heq]
    exact .inl ⟨e, run⟩
  | ok r =>
    rw [heq] at h
    have run : ∀ sink, (a >>= fun v => x v sink) σ = x r.1 sink r.2 := fun _ => by
      rw [bind_apply, heq]
    rcases hx r.1 r.2 with ⟨e, he⟩ | ⟨v, ρ, text, hρ, hv⟩
    · exact .inl ⟨e, fun sink => (run sink).trans (he sink)⟩
    · exact .inr ⟨v, ρ, text, hρ.trans h.1.outward, fun sink => (run sink).trans (hv sink)⟩

end Directs
end Atomic

namespace Native

theorem directs_printFormatted (args : Args) :
    Atomic.Directs fun sink => printFormatted sink args := by
  unfold printFormatted
  cases args.values with
  | nil =>
    have failed : Atomic.Sound .everything (fun _ => True)
        (args.failCount "at least 1" : Atomic Value) := Args.sound_failCount
    exact .of_speaks (fun _ => rfl) failed.speaks
  | cons format rest =>
    exact .seq Args.sound_string fun _ => .seq Format.sound_render fun _ => .print

/-- Every function of the language does the same wherever its caller prints, and prints
there. -/
theorem directs_run (n : Native) (values : List Value) (pos : Position) :
    Atomic.Directs (n.run values pos) := by
  have hvalues : Value.ListWithin .everything values :=
    fun v _ => Value.within_of_forall (fun _ => trivial) v
  cases n with
  | print => exact .seq sound_displayAll fun _ => .print
  | println => exact .seq sound_displayAll fun _ => .print
  | printf => exact directs_printFormatted _
  | _ => exact .of_speaks (fun _ => rfl) (speaks_run hvalues)

end Native

/-- What a function of the language prints appears where its caller prints, and nowhere
else; whatever else the call does is the same for every caller. -/
theorem prints_to_caller (n : Native) (values : List Value) (pos : Position) (f : Fiber)
    (σ : Store) :
    ∃ r text, ∀ sink, ∃ τ : Store,
      Call.callNative n values pos { f with sink := sink } σ =
        .done r { f with sink := sink, pos := pos.orElse f.pos } τ ∧
      τ.output = σ.output ++ if sink = .capture then text else "" := by
  have run : ∀ sink, Call.callNative n values pos { f with sink := sink } σ =
      lift (n.run values (pos.orElse f.pos) sink)
        { f with sink := sink, pos := pos.orElse f.pos } σ := fun _ => rfl
  rcases Native.directs_run n values (pos.orElse f.pos) σ with ⟨e, he⟩ | ⟨v, ρ, text, hρ, hv⟩
  · refine ⟨.error e, "", fun sink => ⟨σ, ?_, ?_⟩⟩
    · rw [run sink]
      unfold lift
      rw [he sink]
    · rw [ite_self, String.append_empty]
  · refine ⟨.ok v, text, fun sink => ⟨ρ.print sink text, ?_, ?_⟩⟩
    · rw [run sink]
      unfold lift
      rw [hv sink]
    · have houtput : ρ.output = σ.output := congrArg Store.Outward.output hρ
      cases sink with
      | capture =>
        show ρ.output ++ text = _
        rw [houtput, if_pos rfl]
      | discard =>
        show ρ.output = _
        rw [houtput, if_neg nofun, String.append_empty]

/-- `print` prints what its arguments display. -/
theorem print_appends (values : List Value) (pos : Position) (f : Fiber) (σ : Store)
    (hf : f.sink = .capture) :
    ∃ τ : Store, Call.callNative .print values pos f σ =
        .done (.ok .nothing) { f with pos := pos.orElse f.pos } τ ∧
      τ.output = σ.output ++ " ".intercalate (values.map σ.display) := by
  refine ⟨σ.print f.sink (" ".intercalate (values.map σ.display)), rfl, ?_⟩
  rw [hf]
  rfl

/-! ## Sessions -/

/-- What tasks agree on: text is only appended, and in silence they all are silent. -/
def outputPact (sink : Sink) : Pact where
  inv σ := sink = .discard → ∀ s ∈ σ.spawned, s.fiber.sink = .discard
  stretch := ⟨Store.Appends sink, .refl, .trans⟩
  fits f _ := sink = .discard → f.sink = .discard

/-- Nothing is heard of an event. -/
theorem outputPact_event {sink : Sink} (e : Event) {a : e.Answer} {σ τ : Store}
    (hstep : e.happen? σ = some (a, τ)) (hσ : (outputPact sink).inv σ) :
    (outputPact sink).inv τ ∧ (outputPact sink).stretch σ τ := by
  have hquiet : σ.Quiet .everything τ := (Event.quiet_of_happen? e hstep).1
  have hspawned : τ.spawned = σ.spawned := congrArg Store.Outward.spawned hquiet.outward
  refine ⟨fun hsink s hs => hσ hsink s (hspawned ▸ hs), .of_output_eq ?_⟩
  exact congrArg Store.Outward.output hquiet.outward

/-- A task that tells no more than it may keeps to the pact. -/
theorem Step.Tells.kept {α : Type} {sink : Sink} {f : Fiber} {σ : Store} {s : Step α}
    (h : s.Tells f.sink σ) (hσ : (outputPact sink).inv σ) (hf : (outputPact sink).fits f σ) :
    (outputPact sink).Kept σ s := by
  refine Pact.alike_of_terms h hσ id (fun e σ a υ _ hresume => ⟨trivial, ?_⟩) fun ρ σ hρ htold => ?_
  · obtain ⟨τ, _, hτ, hstep⟩ := hresume
    exact (outputPact_event e hstep hτ).1
  · have htold : ρ.Told sink σ := htold.mono hf
    obtain ⟨more, hmore, hsilent⟩ := htold.tasks
    refine ⟨fun hsink s hs => ?_, htold.text⟩
    rw [hmore] at hs
    exact (List.mem_append.mp hs).elim (hρ hsink s) (hsilent hsink s)

theorem binding_outputPact (sink : Sink) : (outputPact sink).Binding where
  expr fuel e f σ hσ hf := (tells_serve fuel (.expr e) f σ).kept hσ hf
  later _ hf := hf
  requested hσ s hs hsink := hσ hsink s hs
  event e _ _ _ hstep hσ := outputPact_event e hstep hσ
  running _ hσ := ⟨hσ, .of_output_eq rfl⟩
  begun _ := ⟨fun _ => nofun, .of_output_eq rfl⟩

/-- Where text is captured there is nothing that a task has to keep to. -/
theorem hosting_outputPact : (outputPact .capture).Hosting where
  toBinding := binding_outputPact .capture
  topLevel fuel program f σ hσ hf := (tells_topLevel fuel program f σ).kept hσ hf
  scope _ _ := nofun
  child _ _ := ⟨nofun, .of_output_eq rfl, fun _ _ => nofun⟩

/-- A session without other tasks keeps to the pact. -/
theorem governs_of_no_tasks {s : Session} (h : s.tasks = []) : (outputPact .capture).Governs s where
  inv := nofun
  fits := nofun
  ready t ht := by
    rw [h] at ht
    cases ht

/-- What has been printed stays.  In each of its stretches an evaluation only appends text,
and in silence none; the tasks that a silent one asks for are silent as well.  Nothing is
heard of an include, whoever includes.  The output of a session only grows, whatever it
runs and however that ends, and an include in a session whose other tasks are silent
leaves it as it is.  Where text goes stays the same as long as the calls last that are
under way.  A function prints where its caller does: as long as its call lasts, all that
is evaluated with the call on the stack prints there, and what a function of the language
prints appears there. -/
theorem output_append_only :
    (∀ (fuel : Nat) (q : Request) (f : Fiber) (σ : Store),
      ((evaluator fuel).serve q f σ).Tells f.sink σ) ∧
    (∀ (fuel : Nat) (e : Expr) (path : String) (f : Fiber) (σ : Store), e.form = .include path →
      ((evaluator fuel).expr e f σ).Tells .discard σ) ∧
    (∀ setup : Setup, (outputPact .capture).Governs (Session.ofSetup setup)) ∧
    (∀ s : Session, (outputPact .capture).Governs s →
      (∀ (scope : ScopeId) (program : Program),
        (outputPact .capture).Governs (s.runIn scope program).2 ∧
          s.store.Appends .capture (s.runIn scope program).2.store) ∧
      (∀ program : Program, (outputPact .capture).Governs (s.fork program).2 ∧
        s.store.Appends .capture (s.fork program).2.store) ∧
      ∀ q : Request, (outputPact .capture).Governs (s.exec ((evaluator Session.fuel).serve q)).2 ∧
        s.store.Appends .capture (s.exec ((evaluator Session.fuel).serve q)).2.store) ∧
    (∀ (s : Session) (e : Expr) (path : String), e.form = .include path →
      (∀ t ∈ s.tasks, (outputPact .discard).Ready t s.store) →
      (∀ t ∈ s.store.spawned, t.fiber.sink = .discard) →
      (s.evalExpr e).2.store.output = s.store.output) ∧
    (∀ (fuel : Nat) (q : Request) (f : Fiber) (σ : Store),
      ((evaluator fuel).serve q f σ).Alike (.aloud σ.deferred.size f.sink) (fun _ => True)
        (fun _ _ _ => True) σ
        ((watched (Aloud σ.deferred.size f.sink) fuel).serve q f σ)) ∧
    (∀ (fuel : Nat) (c : Closure) (args : List Value) (pos : Position) (f : Fiber) (σ : Store),
      (Call.invoke (evaluator fuel) fuel c args pos f σ).Alike
        (.aloud (σ.deferred.size + 1) f.sink) (fun _ => True) (fun _ _ _ => True) σ
        (Call.invoke (watched (Aloud (σ.deferred.size + 1) f.sink) fuel) fuel c args pos f σ)) ∧
    (∀ (n : Native) (values : List Value) (pos : Position) (f : Fiber) (σ : Store),
      ∃ r text, ∀ sink, ∃ τ : Store,
        Call.callNative n values pos { f with sink := sink } σ =
          .done r { f with sink := sink, pos := pos.orElse f.pos } τ ∧
        τ.output = σ.output ++ if sink = .capture then text else "") ∧
    ∀ (values : List Value) (pos : Position) (f : Fiber) (σ : Store), f.sink = .capture →
      ∃ τ : Store, Call.callNative .print values pos f σ =
          .done (.ok .nothing) { f with pos := pos.orElse f.pos } τ ∧
        τ.output = σ.output ++ " ".intercalate (values.map σ.display) := by
  refine ⟨tells_serve, fun fuel e path f σ he => silent_include fuel he f σ,
    fun _ => governs_of_no_tasks rfl, fun s hs => ⟨?_, ?_, ?_⟩, ?_, alike_aloud, aloud_invoke,
    prints_to_caller, print_appends⟩
  · intro scope program
    exact hosting_outputPact.runIn hs nofun program
  · intro program
    exact hosting_outputPact.fork hs program
  · intro q
    have hturned := hosting_outputPact.exec hs.ready
      ((tells_serve Session.fuel q s.fiber s.store).kept hs.inv hs.fits)
    exact ⟨⟨nofun, nofun, hturned.ready⟩, hturned.stretch⟩
  · intro s e path he hready hspawned
    have hsilent : (outputPact .discard).Kept s.store
        ((evaluator Session.fuel).expr e s.fiber s.store) :=
      (silent_include Session.fuel he s.fiber s.store).kept (f := { s.fiber with sink := .discard })
        (fun _ => hspawned) fun _ => rfl
    exact ((binding_outputPact .discard).exec hready hsilent).stretch.output_eq

/-- `let say = print; say("hidden"); let shout = fn() { say("loud") }` -/
def noisyUnit : Program :=
  [⟨.unknown, .bind ["say"] [.bare (.ident "print")]⟩,
    ⟨.unknown, .expr (.bare (.call (.bare (.ident "say")) [.bare (.str "hidden")]))⟩,
    ⟨.unknown, .bind ["shout"] [.bare (.function ⟨none, [], false,
      [⟨.unknown, .expr (.bare (.call (.bare (.ident "say")) [.bare (.str "loud")]))⟩]⟩)]⟩]

/-- `include "noisy"` -/
def noisyInclude : Expr := .bare (.include "noisy")

def noisySession : Session :=
  .ofSetup { standard := false, programs := some [("noisy", noisyUnit)] }

/-- The store that the unit leaves behind. -/
def noisyStore : Store :=
  (Control.evaluateUnit (evaluator 9) "noisy" .unknown noisySession.fiber
    noisySession.store).alone.store

/-- What the unit binds to `shout`. -/
def noisyShout : Value := (noisyStore.getLocal? ⟨1⟩ "shout").getD .nothing

theorem output_append_only_include :
    (noisySession.evalExpr noisyInclude).2.store.output = "" ∧
    noisyStore.output = "" ∧
    ((evaluator 9).call noisyShout [] .unknown noisySession.fiber noisyStore).alone.store.output =
      "loud" ∧
    noisySession.store.Appends .capture (noisySession.run noisyUnit).2.store ∧
    (noisySession.run noisyUnit).2.store.output = "hidden" := by
  obtain ⟨_, _, hsetup, hgoverned, hinclude, _⟩ := output_append_only
  have hsilent := hinclude noisySession noisyInclude "noisy" rfl nofun nofun
  have hrun := (hgoverned noisySession (hsetup _)).1 noisySession.fiber.scope noisyUnit
  exact ⟨hsilent, by decide +kernel, by decide +kernel, hrun.2, by decide +kernel⟩

end TreeWalk
