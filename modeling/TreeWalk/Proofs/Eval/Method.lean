/-
Methods keep to a discipline, those of channels and host objects included.

A method that calls a function back does so by a call, so nothing but an error
comes out of it.
-/
import TreeWalk.Eval.Method
import TreeWalk.Proofs.Atomic.Access
import TreeWalk.Proofs.Eval.Evaluator

namespace TreeWalk

open Eval Value Args

variable {p : Reach}

namespace Object

theorem sound_addTo {id : WaitGroupId} {delta : Int64} {pos : Position} :
    Atomic.Sound p (Value.Within p) (addTo id delta pos) := by
  refine .seq .look fun group => ?_
  split
  · exact .seq (.update fun _ _ => ⟨Store.quiet_of_content rfl, rfl⟩) fun _ => .pure trivial
  · exact .fail

/-- Releasing a lock is calm if the change that does it is. -/
theorem sound_release {released? : Store → Option Store} {kind : String} {pos : Position}
    (h : ∀ σ σ' : Store, released? σ = some σ' → σ.Calm p σ') :
    Atomic.Sound p (Value.Within p) (release released? kind pos) := by
  intro σ hc
  unfold release
  rw [Atomic.read_bind_apply]
  cases hreleased : released? σ with
  | some σ' => exact ⟨h σ σ' hreleased, trivial⟩
  | none => exact trivial

end Object

theorem Object.quiet_beginWait {σ : Store} {id : CondId} : σ.Quiet p (Object.beginWait id σ).2 := by
  unfold Object.beginWait
  dsimp only
  split
  · split
    · exact Store.quiet_of_content rfl
    · exact Store.quiet_of_content rfl
  · exact Store.quiet_of_content rfl

/-- The arguments of a call back for an item. -/
theorem Visit.within_itemArgs {f item : Value} {index : Nat} (h : item.Within p) :
    ListWithin p (Visit.itemArgs f item index) := by
  intro v hv
  unfold Visit.itemArgs at hv
  split at hv
  · split at hv
    · rcases List.mem_cons.mp hv with rfl | hv
      · exact h
      · obtain rfl := List.mem_singleton.mp hv
        exact within_ofLength index
    · exact List.mem_singleton.mp hv ▸ h
  · exact List.mem_singleton.mp hv ▸ h

/-- Code of the host names no value but a scalar or one that it was handed. -/
theorem HostValue.within_value {v : HostValue} {known : List Value} (h : ListWithin p known) :
    (v.value known).Within p := by
  cases v with
  | given i =>
    change (known[i]?.getD .nothing).Within p
    cases hi : known[i]? with
    | none => exact trivial
    | some v => exact h v (List.mem_of_getElem? hi)
  | _ => exact trivial

theorem HostValue.within_values {vs : List HostValue} {known : List Value}
    (h : ListWithin p known) : ListWithin p (vs.map (·.value known)) := by
  intro v hv
  obtain ⟨w, _, rfl⟩ := List.mem_map.mp hv
  exact within_value h

namespace Discipline

variable {D : Discipline} {ev ev' : Evaluator} {b : Bool} {w : Ways} {here : Site} {σ₀ σ : Store}
  {args : Args}

theorem runs_dispatch {μ : Type} [MethodTable μ] {kind : String} {run run' : μ → Eval Value}
    (hw : w.fail) (h : ∀ m, D.Runs b w D.Holds here σ₀ σ (run m) (run' m)) :
    D.Runs b w D.Holds here σ₀ σ (Object.dispatch kind args run)
      (Object.dispatch kind args run') := by
  unfold Object.dispatch
  split
  · exact h _
  · exact .fail hw

/-! ## Objects -/

namespace Lawful

variable (hD : D.Lawful)
include hD

theorem runs_onChannel {id : ChannelId} {m : ChannelMethod} (hw : w.fail)
    (hargs : D.HoldsAll σ args.values) :
    D.Runs b w D.Holds here σ₀ σ (Object.onChannel id m args) (Object.onChannel id m args) := by
  cases m with
  | send =>
    refine (hD.runs_lift (sound_one hargs) hw).bind fun v σ₁ hlater₁ hv => ?_
    have offer : D.Runs b w Any here σ₀ σ₁ (Object.offer id v) (Object.offer id v) := by
      refine hD.runs_change fun hclosed => ?_
      split
      · next ticket c hoffer =>
        refine ⟨Store.quiet_setChannel (fun hc => ?_) fun ht => ht.offer? hoffer, trivial⟩
        exact (hc.channels id).offer? (hlater₁.value hv) hoffer
      · exact ⟨.refl σ₁, trivial⟩
    have send : D.Runs b w Any here σ₀ σ₁ (Object.send id v) (Object.send id v) := by
      refine offer.seq fun ticket? σ₂ _ => ?_
      split
      · next ticket => exact hD.runs_wait (e := .settled id ticket)
      · exact .pure trivial
    refine send.seq fun accepted σ₂ _ => ?_
    split
    · exact .pure trivial
    · exact .fail hw
  | recv =>
    refine (hD.runs_lift sound_empty hw).bind fun _ σ₁ _ _ => ?_
    refine hD.runs_await.bind fun v? σ₂ _ hv => .pure ?_
    cases v? with
    | none => exact trivial
    | some v => exact hv v rfl
  | close =>
    refine (hD.runs_lift sound_empty hw).bind fun _ σ₁ _ _ => ?_
    have close : D.Runs b w Any here σ₀ σ₁ (Object.close id) (Object.close id) := by
      refine hD.runs_change fun _ => ⟨Store.quiet_setChannel (fun hc => ?_) .close, trivial⟩
      exact hc.channels id
    exact close.seq fun _ _ _ => .pure trivial

theorem runs_onWaitGroup {id : WaitGroupId} {m : WaitGroupMethod} (hw : w.fail) :
    D.Runs b w D.Holds here σ₀ σ (Object.onWaitGroup id m args)
      (Object.onWaitGroup id m args) := by
  cases m with
  | add =>
    refine hD.runs_liftValue (.seq sound_upToAny fun v? => ?_) hw
    cases v? with
    | some v => exact .seq sound_int fun _ => Object.sound_addTo
    | none => exact Object.sound_addTo
  | done => exact hD.runs_liftValue (.seq sound_empty fun _ => Object.sound_addTo) hw
  | wait =>
    refine (hD.runs_lift sound_empty hw).bind fun _ _ _ _ => ?_
    exact hD.runs_wait.seq fun _ _ _ => .pure trivial

theorem runs_onMutex {id : MutexId} {m : MutexMethod} (hw : w.fail) :
    D.Runs b w D.Holds here σ₀ σ (Object.onMutex id m args) (Object.onMutex id m args) := by
  cases m with
  | lock => exact hD.runs_wait.seq fun _ _ _ => .pure trivial
  | tryLock =>
    have taken : D.Runs b w Any here σ₀ σ
        (change fun σ => ((σ.mutex id).tryLock.1, σ.setMutex id (σ.mutex id).tryLock.2))
        (change fun σ => ((σ.mutex id).tryLock.1, σ.setMutex id (σ.mutex id).tryLock.2)) :=
      hD.runs_change fun _ => ⟨Store.quiet_of_content rfl, trivial⟩
    exact taken.seq fun _ _ _ => .pure trivial
  | unlock =>
    refine hD.runs_liftValue (Object.sound_release fun τ τ' h => ?_) hw
    obtain ⟨m, _, rfl⟩ := Option.map_eq_some_iff.mp h
    exact ⟨Store.quiet_of_content rfl, rfl⟩

theorem runs_onRWMutex {id : RWMutexId} {m : RWMutexMethod} (hw : w.fail) :
    D.Runs b w D.Holds here σ₀ σ (Object.onRWMutex id m args) (Object.onRWMutex id m args) := by
  cases m with
  | lock => exact hD.runs_wait.seq fun _ _ _ => .pure trivial
  | rlock => exact hD.runs_wait.seq fun _ _ _ => .pure trivial
  | unlock =>
    refine hD.runs_liftValue (Object.sound_release fun τ τ' h => ?_) hw
    obtain ⟨m, _, rfl⟩ := Option.map_eq_some_iff.mp h
    exact ⟨Store.quiet_of_content rfl, rfl⟩
  | runlock =>
    refine hD.runs_liftValue (Object.sound_release fun τ τ' h => ?_) hw
    obtain ⟨m, _, rfl⟩ := Option.map_eq_some_iff.mp h
    exact ⟨Store.quiet_of_content rfl, rfl⟩

theorem runs_onCond {id : CondId} {m : CondMethod} :
    D.Runs b w D.Holds here σ₀ σ (Object.onCond id m) (Object.onCond id m) := by
  cases m with
  | wait =>
    have begin : D.Runs b w Any here σ₀ σ (change (Object.beginWait id))
        (change (Object.beginWait id)) := hD.runs_change fun _ => ⟨Object.quiet_beginWait, trivial⟩
    refine begin.seq fun (waiter, mutex?) _ _ => hD.runs_wait.seq fun _ _ _ => ?_
    cases mutex? with
    | some mutex => exact hD.runs_wait.seq fun _ _ _ => .pure trivial
    | none => exact .pure trivial
  | signal => exact (hD.runs_update (Store.quiet_of_content (by rfl))).seq fun _ _ _ => .pure trivial
  | broadcast => exact (hD.runs_update (Store.quiet_of_content (by rfl))).seq fun _ _ _ => .pure trivial

end Lawful

namespace Sound

variable (hev : D.Sound ev ev')
include hev

/-- The function that an argument is, if it is one. -/
theorem runs_callable (hw : w.fail) (hargs : D.HoldsAll σ args.values) :
    D.Runs b w D.Holds here σ₀ σ (lift (do args.callable 0 (← args.one)))
      (lift (do args.callable 0 (← args.one))) :=
  hev.lawful.runs_liftValue (.bind (sound_one hargs) fun _ hv => sound_callable hv) hw

theorem runs_onOnce {id : OnceId} (hw : .failing ≤ w) (hargs : D.HoldsAll σ args.values) :
    D.Runs b w D.Holds here σ₀ σ (Object.onOnce ev id args) (Object.onOnce ev' id args) := by
  refine (hev.runs_callable (hw.fail trivial) hargs).bind fun f σ₁ _ hf => ?_
  refine hev.lawful.runs_wait.seq fun _ σ₂ hlater₂ => .read ?_
  split
  · exact (hev.lawful.runs_update (Store.quiet_of_content (by rfl))).seq fun _ _ _ => .pure trivial
  · refine (hev.lawful.runs_update (Store.quiet_of_content (by rfl))).seq fun _ σ₃ hlater₃ => ?_
    have hf₃ := (hlater₂.trans hlater₃).value hf
    exact hev.lawful.runs_ensure_then (hev.runs_callBack hf₃ holdsAll_nil hw)
      (fun _ => Store.quiet_of_content rfl) (fun _ _ _ h hv => h.value hv) fun _ _ _ _ => .pure trivial

/-- Code of the host names only what it was handed, and every error that it lets out it has
raised or been told of. -/
theorem runs_onHost {id : HostId} {code : HostCode} {known : List Value} (hw : .failing ≤ w)
    (hknown : D.HoldsAll σ known) :
    D.Runs b w D.Holds here σ₀ σ (Object.onHost ev id code known)
      (Object.onHost ev' id code known) := by
  induction code generalizing known σ with
  | answer v => exact .pure (HostValue.within_value hknown)
  | raise e => exact .exit (hw.fail trivial) trivial
  | panic message => exact .abort rfl
  | array items next ih =>
    refine (hev.lawful.runs_newArray (HostValue.within_values hknown)).bind fun v τ hlater hv => ?_
    exact ih (holdsAll_concat (hlater.values hknown) hv)
  | call f args next ih =>
    rw [Object.onHost, Object.onHost]
    refine (Runs.attempt (hev.runs_callBack (HostValue.within_value hknown)
      (HostValue.within_values hknown) (Ways.le_refl _)) hw.lost fun _ => ⟨nofun⟩).bind
        fun r τ hlater hr => ?_
    have hknown' := hlater.values hknown
    cases r with
    | ok v => exact ih _ (holdsAll_concat hknown' hr)
    | error e =>
      cases e with
      | error e => exact ih _ hknown'
      | fault | exhausted => cases hr.1
      | ret | brk | next => exact hr.2.1.elim
  | print text next ih =>
    refine .fiber fun f hf => ?_
    obtain rfl := hf
    exact hev.lawful.runs_print.seq fun _ τ hlater => ih (hlater.values hknown)
  | fetch next ih => exact .read (ih _ hknown)
  | note text next ih =>
    refine (hev.lawful.runs_update Store.quiet_setHostText).seq fun _ τ hlater => ?_
    exact ih (hlater.values hknown)

theorem runs_objectCall {o : ObjectRef} (hw : .failing ≤ w) (hargs : D.HoldsAll σ args.values) :
    D.Runs b w D.Holds here σ₀ σ (Object.call ev o args) (Object.call ev' o args) := by
  have hfail := hw.fail trivial
  have empty : D.Runs b w Any here σ₀ σ (lift args.empty) (lift args.empty) :=
    hev.lawful.runs_lift sound_empty hfail
  cases o with
  | waitGroup id => exact runs_dispatch hfail fun m => hev.lawful.runs_onWaitGroup hfail
  | mutex id =>
    exact empty.seq fun _ _ _ => runs_dispatch hfail fun m => hev.lawful.runs_onMutex hfail
  | rwMutex id =>
    exact empty.seq fun _ _ _ => runs_dispatch hfail fun m => hev.lawful.runs_onRWMutex hfail
  | cond id => exact empty.seq fun _ _ _ => runs_dispatch hfail fun m => hev.lawful.runs_onCond
  | once id => exact runs_dispatch hfail fun _ => hev.runs_onOnce hw hargs
  | host id kind key methods => exact .read (hev.runs_onHost hw hargs)

/-! ## Methods that call a function for each item -/

theorem runs_callEach {f : Value} {items : List Value} (hw : .failing ≤ w) (hf : D.Holds σ f)
    (hitems : D.HoldsAll σ items) :
    D.Runs b w D.HoldsAll here σ₀ σ (Visit.callEach ev f items) (Visit.callEach ev' f items) := by
  refine .mapList (fun _ _ _ hlater hv => hlater.value hv) fun τ hlater item hitem => ?_
  have hmem := hitems item.1 (List.fst_mem_of_mem_zipIdx hitem)
  exact hev.runs_callBack (hlater.value hf) (Visit.within_itemArgs (hlater.value hmem)) hw

theorem runs_keep {f : Value} {items : List Value} (hw : .failing ≤ w) (hf : D.Holds σ f)
    (hitems : D.HoldsAll σ items) :
    D.Runs b w D.HoldsAll here σ₀ σ (Visit.keep ev f items) (Visit.keep ev' f items) := by
  refine (Runs.foldList D.HoldsAll (fun τ kept hlater item hitem hkept => ?_) holdsAll_nil).bind
    fun kept τ _ hkept => .pure fun v hv => hkept v (List.mem_reverse.mp hv)
  have hmem := hlater.value (hitems item.1 (List.fst_mem_of_mem_zipIdx hitem))
  refine (hev.runs_callBack (hlater.value hf) (Visit.within_itemArgs hmem) hw).bind
    fun v τ' hlater' _ => .read ?_
  split
  · exact .pure (holdsAll_cons (hlater'.value hmem) (hlater'.values hkept))
  · exact .pure (hlater'.values hkept)

theorem runs_combine {f start : Value} {items : List Value} (hw : .failing ≤ w) (hf : D.Holds σ f)
    (hitems : D.HoldsAll σ items) (hstart : D.Holds σ start) :
    D.Runs b w D.Holds here σ₀ σ (Visit.combine ev f items start)
      (Visit.combine ev' f items start) := by
  refine .foldList D.Holds (fun τ acc hlater item hitem hacc => ?_) hstart
  have hargs := holdsAll_cons hacc (holdsAll_cons (hlater.value (hitems item hitem)) holdsAll_nil)
  exact hev.runs_callBack (hlater.value hf) hargs hw

theorem runs_onArray {id : ArrayId} {m : ArrayVisit} (hw : .failing ≤ w)
    (hargs : D.HoldsAll σ args.values) :
    D.Runs b w D.Holds here σ₀ σ (Visit.onArray ev id m args) (Visit.onArray ev' id m args) := by
  have hfail := hw.fail trivial
  refine .intro fun hfit => .read ?_
  have hitems : D.HoldsAll σ (σ.array id).toList := (hev.lawful.closed hfit).arrays id
  cases m with
  | map =>
    refine (hev.runs_callable hfail hargs).bind fun f τ hlater hf => ?_
    exact (hev.runs_callEach hw hf (hlater.values hitems)).bind fun results _ _ hresults =>
      hev.lawful.runs_newArray hresults
  | filter =>
    refine (hev.runs_callable hfail hargs).bind fun f τ hlater hf => ?_
    exact (hev.runs_keep hw hf (hlater.values hitems)).bind fun kept _ _ hkept =>
      hev.lawful.runs_newArray hkept
  | each =>
    refine (hev.runs_callable hfail hargs).bind fun f τ hlater hf => ?_
    exact (hev.runs_callEach hw hf (hlater.values hitems)).bind fun _ _ _ _ => .pure trivial
  | reduce =>
    have read : Atomic.Sound (D.At σ)
        (fun r => r.1.Within (D.At σ) ∧ ∀ v, r.2 = some v → v.Within (D.At σ))
        (do let r ← args.oneOrTwo
            return (← args.callable 0 r.1, r.2)) :=
      .bind (sound_oneOrTwo hargs) fun r hr => .bind (sound_callable hr.1) fun f hf =>
        .pure ⟨hf, hr.2⟩
    refine (hev.lawful.runs_lift read hfail).bind fun r τ hlater hr => ?_
    obtain ⟨f, start?⟩ := r
    have hf := hlater.value hr.1
    cases start? with
    | some start => exact hev.runs_combine hw hf (hlater.values hitems) (hlater.value (hr.2 start rfl))
    | none =>
      cases heq : (σ.array id).toList with
      | nil => exact .pure trivial
      | cons first rest =>
        rw [heq] at hitems
        have hall := hlater.values hitems
        exact hev.runs_combine hw hf (fun v hv => hall v (List.mem_cons_of_mem first hv))
          (hall first List.mem_cons_self)

theorem runs_onHash {id : HashId} {m : HashVisit} (hw : .failing ≤ w)
    (hargs : D.HoldsAll σ args.values) :
    D.Runs b w D.Holds here σ₀ σ (Visit.onHash ev id m args) (Visit.onHash ev' id m args) := by
  have hfail := hw.fail trivial
  refine .intro fun hfit => .read ?_
  have hdict : (σ.dict id).Within (D.At σ) := (hev.lawful.closed hfit).hashes id
  refine (hev.runs_callable hfail hargs).bind fun f τ hlater hf => ?_
  have hentries := hdict.mono hlater
  -- What the function is given for an entry.
  have hentry : ∀ e ∈ (σ.dict id).toList, ∀ τ', D.Later τ τ' → D.HoldsAll τ' [e.key, e.value] := by
    intro e he τ' hlater'
    have h := hentries.of_mem_toList he
    exact hlater'.values (holdsAll_cons h.1 (holdsAll_cons h.2 holdsAll_nil))
  cases m with
  | filter =>
    refine (Runs.foldList D.HoldsDict (fun τ' d hlater' e he hd => ?_)
      holdsDict_empty).bind fun d _ _ hd => hev.lawful.runs_newDict hd
    refine (hev.runs_callBack (hlater'.value hf) (hentry e he τ' hlater') hw).bind
      fun v τ₁ hlater₁ _ => .read ?_
    split
    · refine (hev.lawful.runs_lift Atomic.sound_keyOf hfail).bind fun hash τ₂ hlater₂ hhash =>
        .pure ?_
      have h := hentries.of_mem_toList he
      have hlater₃ := hlater'.trans (hlater₁.trans hlater₂)
      exact (hd.later (hlater₁.trans hlater₂)).insert hhash (hlater₃.value h.1) (hlater₃.value h.2)
    · exact .pure (hd.later hlater₁)
  | map =>
    have results : D.Runs b w D.HoldsAll here σ₀ τ
        (mapList (fun e => ev.callBack f [e.key, e.value]) (σ.dict id).toList)
        (mapList (fun e => ev'.callBack f [e.key, e.value]) (σ.dict id).toList) :=
      .mapList (fun _ _ _ h hv => h.value hv) fun τ' hlater' e he =>
        hev.runs_callBack (hlater'.value hf) (hentry e he τ' hlater') hw
    exact results.bind fun results _ _ hresults => hev.lawful.runs_newArray hresults

/-! ## Calls of methods -/

theorem runs_onFunction {f : Value} (hw : .failing ≤ w) (hf : D.Holds σ f)
    (hargs : D.HoldsAll σ args.values) :
    D.Runs b w D.Holds here σ₀ σ (Method.onFunction ev f args) (Method.onFunction ev' f args) := by
  have hfail := hw.fail trivial
  have empty : D.Runs b w Any here σ₀ σ (lift args.empty) (lift args.empty) :=
    hev.lawful.runs_lift sound_empty hfail
  unfold Method.onFunction
  split
  · exact hev.runs_callBack hf hargs hw
  · exact empty.seq fun _ _ _ => .pure trivial
  · exact empty.seq fun _ _ _ => .pure trivial
  · exact empty.seq fun _ _ _ => .pure trivial
  · exact .fail hfail

theorem runs_onMembers {v : Value} {scope : ScopeId} (hw : .failing ≤ w)
    (hargs : D.HoldsAll σ args.values) :
    D.Runs b w D.Holds here σ₀ σ (Method.onMembers ev v scope args)
      (Method.onMembers ev' v scope args) := by
  have hfail := hw.fail trivial
  have missing : D.Runs b w D.Holds here σ₀ σ
      (lift (Access.failMember v scope args.name args.pos))
      (lift (Access.failMember v scope args.name args.pos)) :=
    hev.lawful.runs_liftValue Access.sound_failMember hfail
  refine .intro fun hfit => .read ?_
  split
  · next member hmember =>
    have hheld : D.Holds σ member := (hev.lawful.closed hfit).bindings scope args.name member hmember
    split
    · exact hev.runs_callBack hheld hargs hw
    · split
      · exact .pure hheld
      · exact missing
  · split
    · exact .read (.pure trivial)
    · exact missing

/-- A method ends with a value, an error or an abort. -/
theorem runs_method {v : Value} {name : String} {values : List Value} (hw : .failing ≤ w)
    (hv : D.Holds σ v) (hvalues : D.HoldsAll σ values) :
    D.Runs b w D.Holds here σ₀ σ (Method.call ev v name values)
      (Method.call ev' v name values) := by
  have hfail := hw.fail trivial
  have atomic : ∀ {a : Atomic Value}, Atomic.Sound (D.At σ) (Value.Within (D.At σ)) a →
      D.Runs b w D.Holds here σ₀ σ (lift a) (lift a) := fun h => hev.lawful.runs_liftValue h hfail
  refine .position fun pos => ?_
  cases v with
  | int n => exact runs_dispatch hfail fun m => atomic IntMethod.sound_run
  | float x => exact runs_dispatch hfail fun m => atomic FloatMethod.sound_run
  | str s => exact runs_dispatch hfail fun m => atomic (StringMethod.sound_run hvalues)
  | bool t => exact runs_dispatch hfail fun m => atomic BoolMethod.sound_run
  | nil reason => exact runs_dispatch hfail fun m => atomic NilMethod.sound_run
  | array id =>
    refine runs_dispatch hfail fun m => ?_
    cases m with
    | act m => exact atomic (ArrayAction.sound_run hvalues)
    | visit m => exact hev.runs_onArray hw hvalues
  | tuple items multi =>
    exact runs_dispatch hfail fun m => atomic (TupleMethod.sound_run ((within_tuple _ _).mp hv))
  | range r => exact runs_dispatch hfail fun m => atomic RangeMethod.sound_run
  | hash id =>
    refine runs_dispatch hfail fun m => ?_
    cases m with
    | act m => exact atomic (HashAction.sound_run hvalues)
    | visit m => exact hev.runs_onHash hw hvalues
  | channel id => exact runs_dispatch hfail fun m => hev.lawful.runs_onChannel hfail hvalues
  | function c => exact hev.runs_onFunction hw hv hvalues
  | native n => exact hev.runs_onFunction hw hv hvalues
  | struct scope methods => exact hev.runs_onMembers hw hvalues
  | enum scope variants => exact hev.runs_onMembers hw hvalues
  | module m => exact hev.runs_onMembers hw hvalues
  | object o => exact hev.runs_objectCall hw hvalues

end Sound
end Discipline
end TreeWalk
