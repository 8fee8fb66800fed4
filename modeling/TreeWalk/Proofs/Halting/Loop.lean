/-
Loops over elements halt if what they do for each element does.

A loop goes through the elements that its container had at the beginning, so with
each turn fewer are left, whatever the body does to the container.  Only a channel
could deliver more and more, and none is gone through.
-/
import TreeWalk.Proofs.Eval.Loop
import TreeWalk.Proofs.Halting.Expression

namespace TreeWalk

open Eval Value Filter

namespace Elements

/-- How many elements are still to come.  What a channel delivers is not counted. -/
def count : Elements → Nat
  | listed items => items.length
  | counted i stop => (stop + 1 - i).toNat
  | received _ => 0

/-- Tame elements that no channel delivers. -/
structure Tame (elements : Elements) : Prop where
  within : elements.Within tame
  not_received : ∀ id, elements ≠ .received id

end Elements

namespace Setting

variable {c : Setting} {ev : Nat → Evaluator} {fuel : Nat → Nat} {m : Nat} {pos : Position}

/-- The next element is tame, and fewer are left after it. -/
theorem halts_next {index : Nat} {elements : Elements} (h : elements.Tame) :
    c.Halts m (fun next => ∀ e rest, next = some (e, rest) →
      (e.key.Tame ∧ e.value.Tame) ∧ rest.Tame ∧ rest.count < elements.count)
      fun _ => elements.next index := by
  cases elements with
  | listed items =>
    cases items with
    | nil => exact .pure fun e rest heq => nomatch heq
    | cons first rest =>
      refine .pure fun e rest heq => ?_
      obtain ⟨rfl, rfl⟩ := Prod.mk.inj (Option.some.inj heq)
      have hrest : (Elements.listed rest).Tame :=
        ⟨fun e he => h.within e (List.mem_cons_of_mem _ he), nofun⟩
      exact ⟨h.within _ List.mem_cons_self, hrest, Nat.lt_succ_self _⟩
  | counted i stop =>
    show c.Halts m _ fun _ => if stop < i then _ else _
    split
    · exact .pure fun e rest heq => nomatch heq
    · refine .pure fun e rest heq => ?_
      obtain ⟨rfl, rfl⟩ := Prod.mk.inj (Option.some.inj heq)
      refine ⟨⟨trivial, trivial⟩, ⟨trivial, nofun⟩, ?_⟩
      simp only [Elements.count]
      omega
  | received id => exact absurd rfl (h.not_received id)

theorem halts_bindElement {names : LoopNames} {bindsKey : Bool} {index : Nat} {e : Element}
    (hkey : e.key.Tame) (hvalue : e.value.Tame) :
    c.Halts m Any fun _ => names.bind bindsKey index e := by
  unfold LoopNames.bind
  split
  · refine (Halts.bindName hkey).seq fun _ => (Halts.bindName hvalue).seq fun _ => ?_
    exact .bindName trivial
  · have hbound : Value.Tame (if bindsKey then e.key else e.value) := by
      split
      · exact hkey
      · exact hvalue
    exact (Halts.bindName hbound).seq fun _ => .bindName trivial

theorem halts_passes {cond : Option Expr} (h : ∀ e ∈ cond, c.Handles ev m (.expr e)) :
    c.Halts m Any fun n => Loop.passes (ev n) cond := by
  cases cond with
  | some e => exact halts_test (h e rfl)
  | none => exact .pure trivial

/-- A loop over elements keeps what each of its steps keeps, and comes to its end. -/
theorem halts_overElements {β : Type} {names : LoopNames} {iterable : Expr} {start : β}
    {step : Nat → Bool → β → Element → Eval (β ⊕ β)} (I : β → Prop)
    (hfuel : Tendsto fuel atTop atTop) (hiterable : c.Handles ev m (.expr iterable))
    (hstart : I start)
    (hstep : ∀ bindsKey b (e : Element), I b → e.key.Tame → e.value.Tame →
      c.Halts m (Sum.elim I I) fun n => step n bindsKey b e) :
    c.Halts m I
      fun n => Loop.overElements (ev n) (fuel n) names iterable pos start (step n) := by
  refine Halts.bind hiterable fun v hv => ?_
  refine (Halts.lift (Source.sound_ofValue hv.tame)).bind fun source hsource => ?_
  have helements : source.elements.Tame := by
    refine ⟨hsource.within, fun id heq => ?_⟩
    have hshared := hv.isShared_eq
    rw [hsource.of_received id heq] at hshared
    cases hshared
  refine Halts.iterate (fun s => s.2.1.Tame ∧ I s.2.2) (fun s => s.2.1.count) ?_ hfuel
    ⟨helements, hstart⟩
  rintro ⟨index, elements, b⟩ ⟨helements, hb⟩
  refine (halts_next helements).bind fun next hnext => ?_
  cases next with
  | none => exact .pure hb
  | some found =>
    obtain ⟨e, rest⟩ := found
    obtain ⟨⟨hkey, hvalue⟩, hrest, hless⟩ := hnext e rest rfl
    have turn : c.Halts m (Sum.elim I I) fun n => withChildScope (do
        names.bind source.bindsKey index e
        step n source.bindsKey b e) :=
      ((halts_bindElement hkey hvalue).seq fun _ => hstep _ b e hb hkey hvalue).withChildScope
    refine turn.bind fun result hresult => ?_
    cases result with
    | inl b' => exact Halts.yieldTurn.seq fun _ => .pure ⟨⟨hrest, hresult⟩, hless⟩
    | inr b' => exact .pure hresult

theorem halts_collected {results : List Value} (h : AllTame results) :
    c.Halts m Value.Tame fun _ => Loop.collected results :=
  .newArray fun v hv => h v (List.mem_reverse.mp hv)

theorem halts_forEach {names : LoopNames} {iterable : Expr} {filter : Option Expr} {body : Block}
    (hfuel : Tendsto fuel atTop atTop) (hiterable : c.Handles ev m (.expr iterable))
    (hfilter : ∀ e ∈ filter, c.Handles ev m (.expr e))
    (hbody : ∀ s ∈ body, c.Handles ev m (.stmt s)) :
    c.Halts m Value.Tame fun n => Loop.forEach (ev n) (fuel n) names iterable filter body pos := by
  refine (halts_overElements AllTame hfuel hiterable allTame_nil ?_).bind
    fun results hresults => halts_collected hresults
  intro _ results e hresults _ _
  have turn : c.Halts m (fun v? => ∀ v, v? = some v → v.Tame) fun n => (do
      if ← Loop.passes (ev n) filter then return some (← (ev n).block body) else return none) := by
    refine (halts_passes hfilter).seq fun truth => ?_
    split
    · exact (halts_block hbody).bind fun v hv => .pure fun _ h => Option.some.inj h ▸ hv
    · exact .pure fun _ h => nomatch h
  refine turn.attempt.bind fun r hr => ?_
  split
  · next v => exact .pure (allTame_cons (hr v rfl) hresults)
  · exact .pure hresults
  · exact .pure hresults
  · exact .pure hresults
  · exact .exit hr.ne_exhausted hr.2

theorem halts_arrayOf {names : LoopNames} {iterable : Expr} {filter : Option Expr} {output : Expr}
    (hfuel : Tendsto fuel atTop atTop) (hiterable : c.Handles ev m (.expr iterable))
    (hfilter : ∀ e ∈ filter, c.Handles ev m (.expr e)) (houtput : c.Handles ev m (.expr output)) :
    c.Halts m Value.Tame
      fun n => Loop.arrayOf (ev n) (fuel n) names iterable filter output pos := by
  refine (halts_overElements AllTame hfuel hiterable allTame_nil ?_).bind
    fun results hresults => halts_collected hresults
  intro _ results e hresults _ _
  refine (halts_passes hfilter).seq fun truth => ?_
  split
  · exact houtput.tame.bind fun v hv => .pure (allTame_cons hv hresults)
  · exact .pure hresults

theorem halts_hashOf {names : LoopNames} {iterable : Expr} {filter : Option Expr}
    {outputKey outputValue : Expr} (hfuel : Tendsto fuel atTop atTop)
    (hiterable : c.Handles ev m (.expr iterable)) (hfilter : ∀ e ∈ filter, c.Handles ev m (.expr e))
    (hkey : c.Handles ev m (.expr outputKey)) (hvalue : c.Handles ev m (.expr outputValue)) :
    c.Halts m Value.Tame
      fun n => Loop.hashOf (ev n) (fuel n) names iterable filter outputKey outputValue pos := by
  refine (halts_overElements Dict.Tame hfuel hiterable Dict.tame_empty ?_).bind
    fun d hd => .newDict hd
  intro _ d e hd _ _
  refine (halts_passes hfilter).seq fun truth => ?_
  split
  · refine hkey.tame.bind fun k hk => (Halts.lift Atomic.sound_keyOf).bind fun hash hhash => ?_
    exact hvalue.tame.bind fun v hv => .pure (hd.insert hhash hk hv)
  · exact .pure hd

theorem halts_grep {name : String} {iterable cond : Expr} (hfuel : Tendsto fuel atTop atTop)
    (hiterable : c.Handles ev m (.expr iterable)) (hcond : c.Handles ev m (.expr cond)) :
    c.Halts m Value.Tame fun n => Loop.grep (ev n) (fuel n) name iterable cond pos := by
  refine (halts_overElements AllTame hfuel hiterable allTame_nil ?_).bind
    fun kept hkept => halts_collected hkept
  intro bindsKey kept e hkept hkey hvalue
  refine (halts_test hcond).seq fun truth => ?_
  split
  · refine .pure (allTame_cons ?_ hkept)
    split
    · exact hkey
    · exact hvalue
  · exact .pure hkept

end Setting
end TreeWalk
