/-
The names that values list, and the methods that can be called.

A value lists the names of its methods for whoever asks, and so that a similar name can be
suggested.  A call looks for its method apart from that, and some calls are refused for
their arguments or their receiver.  A call misses its method if the name is not listed, and
only then, but for one name that functions of the language list and do not have.
-/
import TreeWalk.Proofs.Atomic.Finding
import TreeWalk.Proofs.Eval.Binding
import TreeWalk.Proofs.Eval.Diagnosis
import TreeWalk.Proofs.Eval.Failure

namespace TreeWalk

variable {α β : Type} {R : Resumption} {f : Fiber} {σ : Store}

/-! ## Evaluations that miss no method -/

namespace Eval

/-- The evaluation may fail so, with other tasks doing meanwhile what `R` lets them do. -/
def Fails (R : Resumption) (x : Eval α) (f : Fiber) (σ : Store) (e : Exit) : Prop :=
  ∃ g τ, (x f σ).Leads R (.done (.error e) g τ)

/-- An evaluation that misses no method. -/
def Finds (R : Resumption) (x : Eval α) : Prop :=
  ∀ f σ e, x.Fails R f σ e → e.isNoMethod = false

variable {x : Eval α} {e e' : Exit}

theorem fails_of_done {g : Fiber} {τ : Store} {r : Except Exit α} (hx : x f σ = .done r g τ) :
    x.Fails R f σ e ↔ r = .error e := by
  unfold Fails
  simp only [hx, Step.leads_done_iff]
  constructor
  · rintro ⟨g', τ', he, -, -⟩
    exact he.symm
  · intro he
    exact ⟨g, τ, he.symm, rfl, rfl⟩

theorem fails_bind_iff {k : α → Eval β} : (x >>= k).Fails R f σ e ↔
    x.Fails R f σ e ∨
      ∃ a g τ, (x f σ).Leads R (.done (.ok a) g τ) ∧ (k a).Fails R g τ e := by
  unfold Fails
  simp only [bind_apply, Step.leads_andThen_iff]
  constructor
  · rintro ⟨g, τ, r, g', τ', hx, hk⟩
    cases r with
    | ok a => exact .inr ⟨a, g', τ', hx, g, τ, hk⟩
    | error e' =>
      obtain ⟨he, rfl, rfl⟩ := Step.leads_done_iff.mp hk
      cases he
      exact .inl ⟨g, τ, hx⟩
  · rintro (⟨g, τ, hx⟩ | ⟨a, g', τ', hx, g, τ, hk⟩)
    · exact ⟨g, τ, .error e, g, τ, hx, .refl⟩
    · exact ⟨g, τ, .ok a, g', τ', hx, hk⟩

namespace Finds

/-- An evaluation that always comes to an answer at once. -/
theorem of_ok (h : ∀ f σ, ∃ a g τ, x f σ = .done (.ok a) g τ) : Finds R x := by
  intro f σ e he
  obtain ⟨a, g, τ, hx⟩ := h f σ
  cases (fails_of_done hx).mp he

theorem pure {a : α} : Finds R (Pure.pure a) := of_ok fun f σ => ⟨a, f, σ, rfl⟩

theorem read {g : Store → α} : Finds R (Eval.read g) := of_ok fun f σ => ⟨g σ, f, σ, rfl⟩

theorem change {g : Store → α × Store} : Finds R (Eval.change g) :=
  of_ok fun f σ => ⟨(g σ).1, f, (g σ).2, rfl⟩

theorem fiber : Finds R Eval.fiber := of_ok fun f σ => ⟨f, f, σ, rfl⟩

theorem enter {pos : Position} : Finds R (Eval.enter pos) := of_ok fun _ σ => ⟨_, _, σ, rfl⟩

theorem position : Finds R Eval.position := of_ok fun f σ => ⟨f.pos, f, σ, rfl⟩

theorem fail {cause : Cause} {pos : Position} (h : cause.isNoMethod = false) :
    Finds R (Eval.fail cause pos : Eval α) := by
  intro f σ e he
  cases (fails_of_done rfl).mp he
  exact h

theorem await {event : Event} : Finds R (Eval.await event) := by
  rintro f σ e ⟨g, τ, h⟩
  unfold Eval.await at h
  split at h
  · cases (Step.leads_done_iff.mp h).1
  · cases h with
    | resume _ rest => cases (Step.leads_done_iff.mp rest).1

theorem lift {a : Atomic α} (h : a.Finds) : Finds R (Eval.lift a) := by
  intro f σ e he
  cases ha : a σ with
  | ok r =>
    have hx : Eval.lift a f σ = .done (.ok r.1) f r.2 := by rw [Eval.lift, ha]
    cases (fails_of_done hx).mp he
  | error e' =>
    have hx : Eval.lift a f σ = .done (.error e') f σ := by rw [Eval.lift, ha]
    cases (fails_of_done hx).mp he
    exact h σ e ha

theorem bind {k : α → Eval β} (hx : Finds R x) (hk : ∀ a, Finds R (k a)) : Finds R (x >>= k) := by
  intro f σ e he
  rcases fails_bind_iff.mp he with he | ⟨a, g, τ, -, he⟩
  · exact hx f σ e he
  · exact hk a g τ e he

/-- Going on with what a computation on the store has answered. -/
theorem lift_bind {a : Atomic α} {k : α → Eval β} (h : a.Finds)
    (hk : ∀ σ v τ, a σ = .ok (v, τ) → Finds R (k v)) : Finds R (Eval.lift a >>= k) := by
  intro f σ e he
  rcases fails_bind_iff.mp he with he | ⟨v, g, τ, hv, he⟩
  · exact lift h f σ e he
  · unfold Eval.lift at hv
    split at hv
    · next v' τ' ha =>
      cases (Step.leads_done_iff.mp hv).1
      exact hk σ v τ' ha g τ e he
    · cases (Step.leads_done_iff.mp hv).1

theorem foldList {step : β → α → Eval β} {items : List α} {b : β} (h : ∀ b a, Finds R (step b a)) :
    Finds R (Eval.foldList step items b) := by
  induction items generalizing b with
  | nil => exact pure
  | cons a rest ih =>
    rw [foldList_cons]
    exact (h b a).bind fun b => ih

theorem mapList {g : α → Eval β} {items : List α} (h : ∀ a, Finds R (g a)) :
    Finds R (Eval.mapList g items) :=
  (foldList fun _ a => (h a).bind fun _ => pure).bind fun _ => pure

end Finds
end Eval

open Eval

variable {ev : Evaluator} {v : Value} {name : String} {values : List Value} {args : Args}

/-! ## Methods that call functions back -/

namespace Args

theorem callable_eq_ok {i : Nat} {τ : Store} {u : Value}
    (h : (args.callable i v : Atomic Value) σ = .ok (u, τ)) : u = v := by
  unfold callable at h
  split at h
  · cases h
    rfl
  · cases h

/-- The function to be called back is the argument. -/
theorem mem_of_callable_one {τ : Store}
    (h : (do args.callable 0 (← args.one) : Atomic Value) σ = .ok (v, τ)) : v ∈ args.values := by
  unfold Args.one at h
  split at h
  · next a ha =>
    rw [ha, callable_eq_ok h]
    exact List.mem_singleton_self a
  · cases h

/-- The function to be called back is the first of the arguments. -/
theorem mem_of_callable_oneOrTwo {τ : Store} {start? : Option Value}
    (h : (do let (f, start?) ← args.oneOrTwo; return (← args.callable 0 f, start?) :
      Atomic (Value × Option Value)) σ = .ok ((v, start?), τ)) : v ∈ args.values := by
  have hfirst : ∀ a w, (do return (← args.callable 0 a, w) : Atomic (Value × Option Value)) σ =
      .ok ((v, start?), τ) → v = a := by
    intro a w h
    rw [Atomic.bind_apply] at h
    split at h
    · next hcallable =>
      cases h
      exact callable_eq_ok hcallable
    · cases h
  unfold Args.oneOrTwo at h
  split at h
  · next a ha =>
    rw [pure_bind] at h
    rw [ha, hfirst a none h]
    exact List.mem_singleton_self a
  · next a b ha =>
    rw [pure_bind] at h
    rw [ha, hfirst a (some b) h]
    exact List.mem_cons_self
  · cases h

end Args

namespace Visit

theorem finds_callEach {items : List Value} (h : ∀ args, Finds R (ev.callBack v args)) :
    Finds R (callEach ev v items) := .mapList fun _ => h _

theorem finds_keep {items : List Value} (h : ∀ args, Finds R (ev.callBack v args)) :
    Finds R (keep ev v items) := by
  refine Finds.bind (.foldList fun kept item => (h _).bind fun a => Finds.read.bind fun b => ?_)
    fun _ => .pure
  split
  · exact .pure
  · exact .pure

theorem finds_combine {items : List Value} {start : Value}
    (h : ∀ args, Finds R (ev.callBack v args)) : Finds R (combine ev v items start) :=
  .foldList fun _ _ => h _

theorem finds_keepEntries {entries : List Entry} {pos : Position}
    (h : ∀ args, Finds R (ev.callBack v args)) : Finds R (keepEntries ev v entries pos) := by
  refine .foldList fun d e => (h _).bind fun a => Finds.read.bind fun b => ?_
  split
  · exact (Finds.lift Atomic.finds_keyOf).bind fun _ => .pure
  · exact .pure

theorem finds_callableOne : Atomic.Finds (do args.callable 0 (← args.one)) :=
  Args.finds_one.bind fun _ => Args.finds_callable

variable (h : ∀ g ∈ args.values, ∀ values, Finds R (ev.callBack g values))
include h

theorem finds_onArray {id : ArrayId} {m : ArrayVisit} : Finds R (onArray ev id m args) := by
  refine Finds.read.bind fun items => ?_
  cases m with
  | map =>
    exact .lift_bind finds_callableOne fun _ g _ hg =>
      (finds_callEach (h g (Args.mem_of_callable_one hg))).bind fun _ => .change
  | filter =>
    exact .lift_bind finds_callableOne fun _ g _ hg =>
      (finds_keep (h g (Args.mem_of_callable_one hg))).bind fun _ => .change
  | each =>
    exact .lift_bind finds_callableOne fun _ g _ hg =>
      (finds_callEach (h g (Args.mem_of_callable_one hg))).bind fun _ => .pure
  | reduce =>
    refine .lift_bind (Args.finds_oneOrTwo.bind fun _ => Args.finds_callable.bind fun _ => .pure)
      fun _ r _ hr => ?_
    have hcall := h r.1 (Args.mem_of_callable_oneOrTwo hr)
    dsimp only
    split
    · exact finds_combine hcall
    · exact finds_combine hcall
    · exact .pure

theorem finds_onHash {id : HashId} {m : HashVisit} : Finds R (onHash ev id m args) := by
  refine Finds.read.bind fun d => .lift_bind finds_callableOne fun _ g _ hg => ?_
  have hcall := h g (Args.mem_of_callable_one hg)
  cases m with
  | filter => exact (finds_keepEntries hcall).bind fun _ => .change
  | map => exact (Finds.mapList fun _ => hcall _).bind fun _ => .change

end Visit

/-! ## Tables and calls -/

namespace Object

theorem finds_send {id : ChannelId} : Finds R (send id v) := by
  refine Finds.change.bind fun ticket? => ?_
  cases ticket? with
  | some ticket => exact .await
  | none => exact .pure

theorem finds_onChannel {id : ChannelId} {m : ChannelMethod} : Finds R (onChannel id m args) := by
  cases m with
  | send =>
    refine (Finds.lift Args.finds_one).bind fun v => finds_send.bind fun accepted => ?_
    cases accepted with
    | true => exact .pure
    | false => exact .fail rfl
  | recv => exact (Finds.lift Args.finds_empty).bind fun _ => Finds.await.bind fun _ => .pure
  | close => exact (Finds.lift Args.finds_empty).bind fun _ => Finds.change.bind fun _ => .pure

theorem finds_dispatch {μ : Type} [MethodTable μ] [LawfulTable μ] {kind : String}
    {run : μ → Eval Value} (hname : args.name ∈ MethodTable.names μ)
    (hrun : ∀ m, Finds R (run m)) : Finds R (dispatch kind args run) := by
  obtain ⟨m, hm⟩ := MethodTable.exists_of_mem_names hname
  unfold dispatch
  rw [hm]
  exact hrun m

end Object

/-- Values whose methods are those of a table of the language.  Others have members, or
methods of the host. -/
def Value.hasTable : Value → Bool
  | struct _ _ => false
  | enum _ _ => false
  | module _ => false
  | object _ => false
  | _ => true

namespace Method

variable {n : Native}

/-- Functions answer to the names that they list, and those of the language to all but one. -/
theorem finds_onFunction {g : Value} (hg : g.isCallable = true) (hname : args.name ∈ functionNames)
    (harity : ∀ n, g = .native n → args.name ≠ "arity")
    (hcall : Finds R (ev.callBack g args.values)) : Finds R (onFunction ev g args) := by
  have told : ∀ v, Finds R (do lift args.empty; return v : Eval Value) := fun v =>
    (Finds.lift Args.finds_empty).bind fun _ => .pure
  unfold onFunction
  split
  · exact hcall
  · exact told _
  · exact told _
  · exact told _
  · next u _ _ hcalled hfunction hnative hcount =>
    simp only [functionNames, List.mem_cons, List.not_mem_nil, or_false] at hname
    cases u with
    | function c => rcases hname with h | h | h <;> simp_all
    | native n => rcases hname with h | h | h <;> simp_all
    | _ => cases hg

/-- A method whose name is listed is found. -/
theorem finds_call (hv : v.hasTable = true) (hname : name ∈ v.methodNames)
    (harity : ∀ n, v = .native n → name ≠ "arity")
    (hcall : ∀ g ∈ v :: values, ∀ args, Finds R (ev.callBack g args)) :
    Finds R (call ev v name values) := by
  have hself : ∀ args, Finds R (ev.callBack v args) := hcall v List.mem_cons_self
  have hvalues : ∀ g ∈ values, ∀ args, Finds R (ev.callBack g args) := fun g hg =>
    hcall g (List.mem_cons_of_mem v hg)
  refine Finds.position.bind fun pos => ?_
  cases v with
  | int => exact Object.finds_dispatch hname fun _ => .lift IntMethod.finds_run
  | float => exact Object.finds_dispatch hname fun _ => .lift FloatMethod.finds_run
  | str => exact Object.finds_dispatch hname fun _ => .lift StringMethod.finds_run
  | bool => exact Object.finds_dispatch hname fun _ => .lift BoolMethod.finds_run
  | nil => exact Object.finds_dispatch hname fun _ => .lift NilMethod.finds_run
  | array id =>
    refine Object.finds_dispatch hname fun m => ?_
    cases m with
    | act m => exact .lift ArrayAction.finds_run
    | visit m => exact Visit.finds_onArray hvalues
  | tuple => exact Object.finds_dispatch hname fun _ => .lift TupleMethod.finds_run
  | range => exact Object.finds_dispatch hname fun _ => .lift RangeMethod.finds_run
  | hash id =>
    refine Object.finds_dispatch hname fun m => ?_
    cases m with
    | act m => exact .lift HashAction.finds_run
    | visit m => exact Visit.finds_onHash hvalues
  | channel => exact Object.finds_dispatch hname fun _ => Object.finds_onChannel
  | function | native => exact finds_onFunction rfl hname harity (hself values)
  | _ => cases hv

/-- A method whose name is not listed is missed before anything else is looked at. -/
theorem call_of_not_listed (hv : v.hasTable = true) (h : name ∉ v.methodNames) :
    call ev v name values f σ = .done (.error (.error
      ⟨.noMethod name v.kind (Suggest.similar name v.methodNames), f.pos⟩)) f σ := by
  cases v with
  | function | native =>
    show onFunction ev _ ⟨name, values, f.pos⟩ f σ = _
    rw [onFunction_eq_fail h]
    rfl
  | struct | enum | module | object => cases hv
  | _ => exact congrFun (congrFun (dispatch_none (MethodTable.find?_eq_none h)) f) σ

theorem call_arity : call ev (.native n) "arity" values f σ =
    .done (.error (.error ⟨.noMethod "arity" "BUILTIN" none, f.pos⟩)) f σ := by
  have hsimilar : Suggest.similar "arity" functionNames = none := by decide
  rw [← hsimilar]
  rfl

/-- A call of a method on a value of the language misses the method if the value does not
list its name, and only then, as long as the functions that it is given miss none when they
are called back.  It does so at once and changes nothing, whatever it is given, and suggests
the most similar of the names that are listed.  The exception is the arity of a function of
the language: such functions list the name, and a call always misses the method. -/
theorem missing_iff_not_listed (ev : Evaluator) (R : Resumption) :
    (∀ v name values f σ, v.hasTable = true → (∀ n, v = .native n → name ≠ "arity") →
      (∀ g ∈ v :: values, ∀ args, Finds R (ev.callBack g args)) →
      ((∃ e, (call ev v name values).Fails R f σ e ∧ e.isNoMethod = true) ↔
        name ∉ v.methodNames)) ∧
    (∀ v name values f σ, v.hasTable = true → name ∉ v.methodNames →
      call ev v name values f σ = .done (.error (.error
        ⟨.noMethod name v.kind (Suggest.similar name v.methodNames), f.pos⟩)) f σ) ∧
    ∀ n values f σ, call ev (.native n) "arity" values f σ =
      .done (.error (.error ⟨.noMethod "arity" "BUILTIN" none, f.pos⟩)) f σ := by
  refine ⟨fun v name values f σ hv harity hcall => ?_, fun v name values f σ hv h =>
    call_of_not_listed hv h, fun n values f σ => call_arity⟩
  constructor
  · rintro ⟨e, hfails, he⟩ hname
    rw [finds_call hv hname harity hcall f σ e hfails] at he
    cases he
  · intro h
    exact ⟨_, (fails_of_done (call_of_not_listed hv h)).mpr rfl, rfl⟩

theorem finds_callBack_str {args : List Value} :
    Finds R ((evaluator 1).callBack (.native .str) args) := by
  refine Finds.position.bind fun pos => ?_
  show Finds R (MachineStack.within 0 (Call.callNative .str args pos))
  rw [MachineStack.within_eq]
  refine Finds.enter.bind fun pos => Finds.fiber.bind fun f => .lift ?_
  exact Args.finds_one.bind fun _ => Atomic.Finds.read.bind fun _ => .pure

/-- `str` lists a method that it does not have, and when called back it misses none. -/
theorem listed_arity_missed :
    "arity" ∈ (Value.native .str).methodNames ∧
    (∀ args, Finds .any ((evaluator 1).callBack (.native .str) args)) ∧
    call (evaluator 1) (.native .str) "arity" [] default default =
      .done (.error (.error ⟨.noMethod "arity" "BUILTIN" none, .unknown⟩)) default default :=
  ⟨by decide, fun _ => finds_callBack_str, call_arity⟩

/-- The elements of an array are shown one by one, and a name that the array does not list
is missed. -/
theorem missing_iff_not_listed_map :
    (¬ ∃ e, (call (evaluator 1) (.array ⟨0⟩) "map" [.native .str]).Fails .any default default e ∧
      e.isNoMethod = true) ∧
    call (evaluator 1) (.array ⟨0⟩) "mop" [.native .str] default default =
      .done (.error (.error ⟨.noMethod "mop" "ARRAY" (some "map"), .unknown⟩)) default default := by
  obtain ⟨hiff, hmissed, -⟩ := missing_iff_not_listed (evaluator 1) .any
  have hcall : ∀ g ∈ [Value.array ⟨0⟩, .native .str], ∀ args,
      Finds .any ((evaluator 1).callBack g args) := by
    intro g hg args
    rcases List.mem_cons.mp hg with rfl | hg
    · refine Finds.position.bind fun pos => ?_
      show Finds .any (MachineStack.within 0 (Eval.fail (.notCallable "ARRAY") pos))
      rw [MachineStack.within_eq]
      exact .fail rfl
    · rw [List.mem_singleton.mp hg]
      exact finds_callBack_str
  have hsimilar : Suggest.similar "mop" (Value.array ⟨0⟩).methodNames = some "map" := by decide
  refine ⟨fun hfails => ?_, ?_⟩
  · exact (hiff (.array ⟨0⟩) "map" _ default default rfl nofun hcall).mp hfails (by decide)
  · rw [hmissed _ "mop" _ default default rfl (by decide), hsimilar]
    rfl

end Method
end TreeWalk
