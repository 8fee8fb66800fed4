/-
Methods halt if calls do.

Methods that call a function back go through the items that there were at the
beginning.  Methods of channels and of the objects that tasks wait for do not come
up, since no expression has one of these as its value.
-/
import TreeWalk.Proofs.Eval.Method
import TreeWalk.Proofs.Halting.Expression

namespace TreeWalk

open Eval Value Args

namespace Setting

variable {c : Setting} {ev : Nat → Evaluator} {m : Nat} {pos : Position} {args : Args}

theorem halts_dispatch {μ : Type} [MethodTable μ] {kind : String} {run : Nat → μ → Eval Value}
    (h : ∀ method, c.Halts m Value.Tame fun n => run n method) :
    c.Halts m Value.Tame fun n => Object.dispatch kind args (run n) := by
  unfold Object.dispatch
  split
  · exact h _
  · exact .fail

/-- The function that an argument is, if it is one. -/
theorem halts_callable (hargs : AllTame args.values) :
    c.Halts m Value.Tame fun _ => lift (do args.callable 0 (← args.one)) :=
  .lift (.bind (sound_one hargs) fun _ hv => sound_callable hv)

/-- Code of the host comes to an end between one call back and the next. -/
theorem halts_onHost {id : HostId} {code : HostCode} {known : List Value} (hc : c.Answers ev)
    (hknown : AllTame known) : c.Halts m Value.Tame fun n => Object.onHost (ev n) id code known := by
  induction code generalizing known with
  | answer v => exact .pure (HostValue.within_value hknown)
  | raise e => exact .exit nofun trivial
  | panic message => exact .exit nofun trivial
  | array items next ih =>
    refine (Halts.newArray (HostValue.within_values hknown)).bind fun v hv => ih ?_
    exact allTame_append hknown (allTame_cons hv allTame_nil)
  | call f args next ih =>
    simp only [Object.onHost]
    refine (Halts.attempt (hc.halts_callBack (HostValue.within_value hknown)
      (HostValue.within_values hknown))).bind fun r hr => ?_
    split
    · exact ih _ (allTame_append hknown (allTame_cons hr allTame_nil))
    · exact ih _ hknown
    · exact .exit hr.ne_exhausted hr.2
  | print text next ih => exact Halts.fiber.any.seq fun f => Halts.print.seq fun _ => ih hknown
  | fetch next ih => exact Halts.look.seq fun text => ih text hknown
  | note text next ih =>
    have write : c.Halts m Any fun _ => Eval.update (·.setHostText id text) :=
      .update fun _ => ⟨Store.quiet_setHostText, rfl⟩
    exact write.seq fun _ => ih hknown

/-- The only objects whose methods are called belong to the host. -/
theorem halts_objectCall {o : ObjectRef} (hc : c.Answers ev) (ho : (Value.object o).Unshared)
    (hargs : AllTame args.values) :
    c.Halts m Value.Tame fun n => Object.call (ev n) o args := by
  cases o with
  | host id kind key methods => exact Halts.look.seq fun o => halts_onHost hc hargs
  | _ => cases ho.isShared_eq

/-! ## Methods that call a function for each item -/

theorem halts_callEach {f : Value} {items : List Value} (hc : c.Answers ev) (hf : f.Tame)
    (hitems : AllTame items) :
    c.Halts m AllTame fun n => Visit.callEach (ev n) f items := by
  refine .mapList fun item hitem => hc.halts_callBack hf (Visit.within_itemArgs ?_)
  exact hitems item.1 (List.fst_mem_of_mem_zipIdx hitem)

theorem halts_keep {f : Value} {items : List Value} (hc : c.Answers ev) (hf : f.Tame)
    (hitems : AllTame items) : c.Halts m AllTame fun n => Visit.keep (ev n) f items := by
  refine (Halts.foldList AllTame (fun kept hkept item hitem => ?_) allTame_nil).bind
    fun kept hkept => .pure fun v hv => hkept v (List.mem_reverse.mp hv)
  have hmem := hitems item.1 (List.fst_mem_of_mem_zipIdx hitem)
  refine (hc.halts_callBack hf (Visit.within_itemArgs hmem)).bind fun v _ => ?_
  refine Halts.look.seq fun truth => ?_
  split
  · exact .pure (allTame_cons hmem hkept)
  · exact .pure hkept

theorem halts_combine {f start : Value} {items : List Value} (hc : c.Answers ev) (hf : f.Tame)
    (hitems : AllTame items) (hstart : start.Tame) :
    c.Halts m Value.Tame fun n => Visit.combine (ev n) f items start := by
  refine .foldList Value.Tame (fun acc hacc item hitem => ?_) hstart
  exact hc.halts_callBack hf (allTame_cons hacc (allTame_cons (hitems item hitem) allTame_nil))

theorem halts_onArray {id : ArrayId} {method : ArrayVisit} (hc : c.Answers ev)
    (hargs : AllTame args.values) :
    c.Halts m Value.Tame fun n => Visit.onArray (ev n) id method args := by
  have items : c.Halts m (fun items => AllTame items.toList) fun _ => Eval.read (·.array id) :=
    .read fun _ hclosed => hclosed.arrays id
  refine items.bind fun items hitems => ?_
  cases method with
  | map =>
    refine (halts_callable hargs).bind fun f hf => ?_
    exact (halts_callEach hc hf hitems).bind fun results hresults => .newArray hresults
  | filter =>
    refine (halts_callable hargs).bind fun f hf => ?_
    exact (halts_keep hc hf hitems).bind fun kept hkept => .newArray hkept
  | each =>
    refine (halts_callable hargs).bind fun f hf => ?_
    exact (halts_callEach hc hf hitems).bind fun _ _ => .pure trivial
  | reduce =>
    have read : Atomic.Sound tame (fun r => r.1.Tame ∧ ∀ v, r.2 = some v → v.Tame)
        (do let r ← args.oneOrTwo
            return (← args.callable 0 r.1, r.2)) :=
      .bind (sound_oneOrTwo hargs) fun r hr => .bind (sound_callable hr.1) fun f hf =>
        .pure ⟨hf, hr.2⟩
    refine (Halts.lift read).bind fun r hr => ?_
    obtain ⟨f, start?⟩ := r
    cases start? with
    | some start => exact halts_combine hc hr.1 hitems (hr.2 start rfl)
    | none =>
      cases heq : items.toList with
      | nil => exact .pure trivial
      | cons first rest =>
        rw [heq] at hitems
        exact halts_combine hc hr.1 (fun v hv => hitems v (List.mem_cons_of_mem first hv))
          (hitems first List.mem_cons_self)

theorem halts_onHash {id : HashId} {method : HashVisit} (hc : c.Answers ev)
    (hargs : AllTame args.values) :
    c.Halts m Value.Tame fun n => Visit.onHash (ev n) id method args := by
  have dict : c.Halts m (Dict.Within tame) fun _ => Eval.read (·.dict id) :=
    .read fun _ hclosed => hclosed.hashes id
  refine dict.bind fun d hd => (halts_callable hargs).bind fun f hf => ?_
  -- What the function answers for an entry.
  have answer : ∀ e ∈ d.toList, c.Halts m Value.Tame fun n => (ev n).callBack f [e.key, e.value] := by
    intro e he
    have h := hd.of_mem_toList he
    exact hc.halts_callBack hf (allTame_cons h.1 (allTame_cons h.2 allTame_nil))
  cases method with
  | filter =>
    refine (Halts.foldList Dict.Tame (fun kept hkept e he => ?_) Dict.tame_empty).bind
      fun kept hkept => .newDict hkept
    refine (answer e he).bind fun v _ => Halts.look.seq fun truth => ?_
    split
    · refine (Halts.lift Atomic.sound_keyOf).bind fun hash hhash => .pure ?_
      have h := hd.of_mem_toList he
      exact hkept.insert hhash h.1 h.2
    · exact .pure hkept
  | map =>
    exact (Halts.mapList answer).bind fun results hresults => .newArray hresults

/-! ## Calls of methods -/

theorem halts_onFunction {f : Value} (hc : c.Answers ev) (hf : f.Tame) (hargs : AllTame args.values) :
    c.Halts m Value.Tame fun n => Method.onFunction (ev n) f args := by
  have empty : c.Halts m Any fun _ => lift args.empty := (Halts.lift sound_empty).any
  unfold Method.onFunction
  split
  · exact hc.halts_callBack hf hargs
  · exact empty.seq fun _ => .pure trivial
  · exact empty.seq fun _ => .pure trivial
  · exact empty.seq fun _ => .pure trivial
  · exact .fail

theorem halts_onMembers {v : Value} {scope : ScopeId} (hc : c.Answers ev)
    (hargs : AllTame args.values) :
    c.Halts m Value.Tame fun n => Method.onMembers (ev n) v scope args := by
  have missing : c.Halts m Value.Tame
      fun _ => lift (Access.failMember v scope args.name args.pos) := .lift Access.sound_failMember
  have find : c.Halts m (fun member? => ∀ member, member? = some member → member.Tame)
      fun _ => Eval.read (·.getLocal? scope args.name) :=
    .read fun _ hclosed member h => hclosed.bindings scope args.name member h
  refine find.bind fun member? hmember => ?_
  split
  · next member =>
    split
    · exact hc.halts_callBack (hmember member rfl) hargs
    · split
      · exact .pure (hmember member rfl)
      · exact missing
  · split
    · exact Halts.look.seq fun _ => .pure trivial
    · exact missing

theorem halts_methodCall {v : Value} {name : String} {values : List Value} (hc : c.Answers ev)
    (hv : v.Unshared) (hvalues : AllTame values) :
    c.Halts m Value.Tame fun n => Method.call (ev n) v name values := by
  refine Halts.position.seq fun pos => ?_
  cases v with
  | int n => exact halts_dispatch fun method => .lift IntMethod.sound_run
  | float x => exact halts_dispatch fun method => .lift FloatMethod.sound_run
  | str s => exact halts_dispatch fun method => .lift (StringMethod.sound_run hvalues)
  | bool t => exact halts_dispatch fun method => .lift BoolMethod.sound_run
  | nil reason => exact halts_dispatch fun method => .lift NilMethod.sound_run
  | array id =>
    refine halts_dispatch fun method => ?_
    cases method with
    | act method => exact .lift (ArrayAction.sound_run hvalues)
    | visit method => exact halts_onArray hc hvalues
  | tuple items multi =>
    exact halts_dispatch fun method => .lift (TupleMethod.sound_run ((within_tuple _ _).mp hv.tame))
  | range r => exact halts_dispatch fun method => .lift RangeMethod.sound_run
  | hash id =>
    refine halts_dispatch fun method => ?_
    cases method with
    | act method => exact .lift (HashAction.sound_run hvalues)
    | visit method => exact halts_onHash hc hvalues
  | channel id => cases hv.isShared_eq
  | function f => exact halts_onFunction hc hv.tame hvalues
  | native f => exact halts_onFunction hc hv.tame hvalues
  | struct scope methods => exact halts_onMembers hc hvalues
  | enum scope variants => exact halts_onMembers hc hvalues
  | module unit => exact halts_onMembers hc hvalues
  | object o => exact halts_objectCall hc hv hvalues

/-- A method call in a tree. -/
theorem halts_method {receiver : Expr} {name : String} {args : List Expr} (hc : c.Answers ev)
    (hreceiver : c.Handles ev m (.expr receiver)) (hargs : ∀ e ∈ args, c.Handles ev m (.expr e)) :
    c.Halts m Value.Tame fun n => Node.method (ev n) receiver name args pos := by
  refine halts_published.bind fun v? hv => ?_
  cases v? with
  | some v => exact (halts_exprs hargs).bind fun vs hvs => halts_callPublished hc (hv v rfl) hvs
  | none =>
    refine Halts.bind hreceiver fun v hv => (halts_exprs hargs).bind fun vs hvs => ?_
    exact Halts.enter.seq fun _ => halts_methodCall hc hv hvs

end Setting
end TreeWalk
