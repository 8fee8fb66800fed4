/-
Loops keep to a discipline.

The body of a loop may end with `break` or `continue` where the loop itself may
not; its condition may not.
-/
import TreeWalk.Eval.Loop
import TreeWalk.Proofs.Atomic.Access
import TreeWalk.Proofs.Eval.Evaluator

namespace TreeWalk

open Eval Value

variable {p : Reach}

namespace Elements

/-- The elements still to come are within.  Those that a channel delivers are in
the store. -/
def Within (p : Reach) : Elements → Prop
  | listed items => ∀ e ∈ items, e.key.Within p ∧ e.value.Within p
  | counted _ _ => True
  | received _ => True

theorem Within.mono {p q : ScopeId → Prop} (h : ∀ s, p s → q s) {elements : Elements}
    (he : elements.Within p) : elements.Within q := by
  cases elements with
  | listed items => exact fun e hm => ⟨(he e hm).1.mono h, (he e hm).2.mono h⟩
  | counted i stop => trivial
  | received id => trivial

end Elements

namespace Source

theorem within_ofList {items : List Value} (h : ListWithin p items) :
    (ofList items).elements.Within p := by
  intro e he
  obtain ⟨⟨v, i⟩, hv, rfl⟩ := List.mem_map.mp he
  exact ⟨within_ofLength i, h v (List.fst_mem_of_mem_zipIdx hv)⟩

/-- The source goes through what `v` holds. -/
structure Serves (p : Reach) (v : Value) (source : Source) : Prop where
  within : source.elements.Within p
  of_received : ∀ id, source.elements = .received id → v = .channel id

theorem serves_listed {v : Value} {items : List Element} {bindsKey : Bool}
    (h : (Elements.listed items).Within p) : Serves p v ⟨.listed items, bindsKey⟩ :=
  ⟨h, fun _ heq => by cases heq⟩

theorem sound_ofValue {v : Value} {pos : Position} (hv : v.Within p) :
    Atomic.Sound p (Serves p v) (ofValue v pos) := by
  unfold ofValue
  split
  · next id =>
    have array : Atomic.Sound p (fun items => ListWithin p items.toList)
        (Atomic.read (·.array id)) := .read fun _ hc => hc.arrays id
    exact .bind array fun items hitems => .pure (serves_listed (within_ofList hitems))
  · exact .pure (serves_listed (within_ofList ((within_tuple _ _).mp hv)))
  · split
    · refine .pure (serves_listed (within_ofList fun w hw => ?_))
      obtain ⟨c, _, rfl⟩ := List.mem_map.mp hw
      exact within_ofString _
    · exact .fail
  · next id =>
    have dict : Atomic.Sound p (Dict.Within p) (Atomic.read (·.dict id)) :=
      .read fun _ hc => hc.hashes id
    refine .bind dict fun d hd => .pure (serves_listed fun e he => ?_)
    obtain ⟨entry, hentry, rfl⟩ := List.mem_map.mp he
    exact hd.of_mem_toList hentry
  · exact .pure ⟨trivial, fun _ heq => by cases heq⟩
  · exact .pure ⟨trivial, fun _ heq => congrArg _ (Elements.received.inj heq)⟩
  · next id _ _ _ =>
    have host : Atomic.Sound p (fun o => ∀ items, o.items = some items → ListWithin p items)
        (Atomic.read (·.host id)) := .read fun _ hc => hc.hosts id
    refine .bind host fun o ho => ?_
    split
    · next items hitems => exact .pure (serves_listed (within_ofList (ho items hitems)))
    · exact .fail
  · exact .fail

end Source

namespace Discipline

variable {D : Discipline} {ev ev' : Evaluator} {b : Bool} {w : Ways} {here : Site} {σ₀ σ : Store}
  {fuel : Nat}

/-- The next element is within, and so are those after it. -/
theorem Lawful.runs_next (hD : D.Lawful) {index : Nat} {elements : Elements}
    (h : elements.Within (D.At σ)) :
    D.Runs b w (fun τ next => ∀ e rest, next = some (e, rest) →
      (D.Holds τ e.key ∧ D.Holds τ e.value) ∧ rest.Within (D.At τ)) here σ₀ σ
      (elements.next index) (elements.next index) := by
  cases elements with
  | listed items =>
    cases items with
    | nil => exact .pure fun e rest heq => nomatch heq
    | cons first rest =>
      refine .pure fun e rest heq => ?_
      obtain ⟨rfl, rfl⟩ := Prod.mk.inj (Option.some.inj heq)
      exact ⟨h _ List.mem_cons_self, fun e he => h e (List.mem_cons_of_mem _ he)⟩
  | counted i stop =>
    show D.Runs b w _ here σ₀ σ (if stop < i then _ else _) (if stop < i then _ else _)
    split
    · exact .pure fun e rest heq => nomatch heq
    · refine .pure fun e rest heq => ?_
      obtain ⟨rfl, rfl⟩ := Prod.mk.inj (Option.some.inj heq)
      exact ⟨⟨trivial, trivial⟩, trivial⟩
  | received id =>
    refine hD.runs_await.bind fun v? τ _ hv => ?_
    cases v? with
    | none => exact .pure fun e rest heq => nomatch heq
    | some v =>
      refine .pure fun e rest heq => ?_
      obtain ⟨rfl, rfl⟩ := Prod.mk.inj (Option.some.inj heq)
      exact ⟨⟨trivial, hv v rfl⟩, trivial⟩

theorem Lawful.runs_bindElement (hD : D.Lawful) {names : LoopNames} {bindsKey : Bool} {index : Nat}
    {e : Element} (hkey : D.Holds σ e.key) (hvalue : D.Holds σ e.value) :
    D.Runs true w Any here σ₀ σ (names.bind bindsKey index e) (names.bind bindsKey index e) := by
  unfold LoopNames.bind
  split
  · refine (hD.runs_bindName hkey).seq fun _ _ hlater => ?_
    refine (hD.runs_bindName (hlater.value hvalue)).seq fun _ _ _ => ?_
    exact hD.runs_bindName trivial
  · have hbound : D.Holds σ (if bindsKey then e.key else e.value) := by
      split
      · exact hkey
      · exact hvalue
    exact (hD.runs_bindName hbound).seq fun _ _ _ => hD.runs_bindName trivial

namespace Sound

variable (hev : D.Sound ev ev')

/-- `break` and `continue` end here. -/
theorem runs_goesOn {r : Except Exit Value} (h : D.Settled w.inLoop D.Holds σ r) :
    D.Runs b w Any here σ₀ σ (Loop.goesOn r) (Loop.goesOn r) := by
  unfold Loop.goesOn
  split
  · exact .pure trivial
  · exact .pure trivial
  · exact .pure trivial
  · next e hnext hbrk =>
    refine .exit ?_ h.2.2
    have hallows := h.2.1
    cases e with
    | brk => exact absurd rfl hbrk
    | next => exact absurd rfl hnext
    | _ => exact hallows

include hev

/-- One turn of a body, and whether the loop goes on. -/
theorem runs_turn {body : Block} (hlost : w.lost)
    (hbody : ∀ s ∈ body, (Tree.stmt s).ways ≤ w.inLoop) {β : Type} {Ψ : Store → β → Prop}
    {k l : Bool → Eval β}
    (hk : ∀ goesOn σ', D.Later σ σ' → D.Runs b w Ψ here σ₀ σ' (k goesOn) (l goesOn)) :
    D.Runs b w Ψ here σ₀ σ (do k (← Loop.goesOn (← attempt (ev.innerBlock body))))
      (do l (← Loop.goesOn (← attempt (ev'.innerBlock body)))) := by
  refine ((hev.runs_innerBlock hbody).attempt (fun _ => hlost) fun h => ⟨h.puts⟩).bind
    fun r σ' hlater hr => ?_
  exact (runs_goesOn hr).seq fun goesOn σ'' hlater' => hk goesOn σ'' (hlater.trans hlater')

theorem runs_whileLoop {cond : Expr} {body : Block} (hw : .failing ≤ w)
    (hcond : (Tree.expr cond).ways ≤ w) (hbody : ∀ s ∈ body, (Tree.stmt s).ways ≤ w.inLoop) :
    D.Runs true w D.Holds here σ₀ σ (Loop.whileLoop ev fuel cond body)
      (Loop.whileLoop ev' fuel cond body) := by
  refine .iterate Any (fun σ' _ _ _ => (hev.runs_test hcond).seq fun truth σ'' _ => ?_) fuel trivial
  split
  · refine hev.runs_turn (hw.lost trivial) hbody fun goesOn τ _ => ?_
    split
    · exact hev.lawful.runs_yieldTurn.seq fun _ _ _ => .pure trivial
    · exact .pure trivial
  · exact .pure trivial

theorem runs_forever {body : Block} (hw : .failing ≤ w)
    (hbody : ∀ s ∈ body, (Tree.stmt s).ways ≤ w.inLoop) :
    D.Runs true w D.Holds here σ₀ σ (Loop.forever ev fuel body) (Loop.forever ev' fuel body) := by
  refine .iterate Any (fun σ' _ _ _ => ?_) fuel trivial
  refine hev.runs_turn (hw.lost trivial) hbody fun goesOn τ _ => ?_
  split
  · exact hev.lawful.runs_yieldTurn.seq fun _ _ _ => .pure trivial
  · exact .pure trivial

theorem runs_passes {cond : Option Expr} (hcond : ∀ e ∈ cond, (Tree.expr e).ways ≤ w) :
    D.Runs true w Any here σ₀ σ (Loop.passes ev cond) (Loop.passes ev' cond) := by
  cases cond with
  | some e => exact hev.runs_test (hcond e rfl)
  | none => exact .pure trivial

theorem runs_forLoop {init : Option Stmt} {cond update : Option Expr} {body : Block}
    (hw : .failing ≤ w) (hinit : ∀ s ∈ init, (Tree.stmt s).ways ≤ w)
    (hcond : ∀ e ∈ cond, (Tree.expr e).ways ≤ w) (hupdate : ∀ e ∈ update, (Tree.expr e).ways ≤ w)
    (hbody : ∀ s ∈ body, (Tree.stmt s).ways ≤ w.inLoop) :
    D.Runs true w D.Holds here σ₀ σ (Loop.forLoop ev fuel init cond update body)
      (Loop.forLoop ev' fuel init cond update body) := by
  refine hev.lawful.runs_withChildScope ?_
  cases init
  case' some s => refine (hev.runs_stmt (hinit s rfl)).bind fun _ _ _ _ => ?_
  all_goals
    refine .iterate Any (fun σ' _ _ _ => (hev.runs_passes hcond).seq fun truth σ'' _ => ?_) fuel
      trivial
    split
    · refine hev.runs_turn (hw.lost trivial) hbody fun goesOn τ _ => ?_
      split
      · cases update with
        | none => exact hev.lawful.runs_yieldTurn.seq fun _ _ _ => .pure trivial
        | some e =>
          refine (hev.runs_expr (hupdate e rfl)).bind fun _ _ _ _ => ?_
          exact hev.lawful.runs_yieldTurn.seq fun _ _ _ => .pure trivial
      · exact .pure trivial
    · exact .pure trivial

/-- A loop over elements keeps what each of its steps keeps. -/
theorem runs_overElements {β : Type} {names : LoopNames} {iterable : Expr} {pos : Position}
    {start : β} {step step' : Bool → β → Element → Eval (β ⊕ β)} (Φ : Store → β → Prop)
    (hw : .failing ≤ w) (hiterable : (Tree.expr iterable).ways ≤ w)
    (hmono : ∀ τ τ' s, D.Later τ τ' → Φ τ s → Φ τ' s) (hstart : ∀ τ, Φ τ start)
    (hstep : ∀ bindsKey s e there τ₀ τ, Φ τ s → D.Holds τ e.key → D.Holds τ e.value →
      D.Runs true w (fun τ' r => match r with
        | .inl s => Φ τ' s
        | .inr s => Φ τ' s) there τ₀ τ (step bindsKey s e) (step' bindsKey s e)) :
    D.Runs true w Φ here σ₀ σ (Loop.overElements ev fuel names iterable pos start step)
      (Loop.overElements ev' fuel names iterable pos start step') := by
  refine (hev.runs_expr hiterable).bind fun v σ₁ _ hv => ?_
  refine (hev.lawful.runs_lift (Source.sound_ofValue hv) (hw.fail trivial)).bind
    fun source σ₂ hlater₂ hsource => ?_
  have holds := hsource.within.mono hlater₂
  refine .iterate (fun τ s => s.2.1.Within (D.At τ) ∧ Φ τ s.2.2) ?_ fuel ⟨holds, hstart σ₂⟩
  rintro σ' ⟨index, elements, s⟩ _ ⟨helements, hs⟩
  refine (hev.lawful.runs_next helements).bind fun next σ₃ hlater₃ hnext => ?_
  cases next with
  | none => exact .pure (hmono _ _ s hlater₃ hs)
  | some found =>
    obtain ⟨e, rest⟩ := found
    obtain ⟨⟨hkey, hvalue⟩, hrest⟩ := hnext e rest rfl
    have hchild : D.Later σ₃ (σ₃.childScope here.scope).2 := hev.lawful.later_newScope
    have hs₃ := hmono _ _ s (hlater₃.trans hchild) hs
    refine (hev.lawful.runs_withChildScope ((hev.lawful.runs_bindElement (hchild.value hkey)
      (hchild.value hvalue)).seq fun _ τ hτ => hstep _ s e _ _ τ (hmono _ _ s hτ hs₃)
        ((hchild.trans hτ).value hkey) ((hchild.trans hτ).value hvalue))).bind
      fun result σ₄ hlater₄ hresult => ?_
    cases result with
    | inl s' =>
      refine hev.lawful.runs_yieldTurn.seq fun _ σ₅ hlater₅ => .pure ⟨?_, ?_⟩
      · exact (hrest.mono hlater₄).mono hlater₅
      · exact hmono _ _ s' hlater₅ hresult
    | inr s' => exact .pure hresult

theorem runs_collected {results : List Value} (h : D.HoldsAll σ results) :
    D.Runs b w D.Holds here σ₀ σ (Loop.collected results) (Loop.collected results) :=
  hev.lawful.runs_newArray fun v hv => h v (List.mem_reverse.mp hv)

theorem runs_forEach {names : LoopNames} {iterable : Expr} {filter : Option Expr} {body : Block}
    {pos : Position} (hw : .failing ≤ w) (hiterable : (Tree.expr iterable).ways ≤ w)
    (hfilter : ∀ e ∈ filter, (Tree.expr e).ways ≤ w.inLoop)
    (hbody : ∀ s ∈ body, (Tree.stmt s).ways ≤ w.inLoop) :
    D.Runs true w D.Holds here σ₀ σ (Loop.forEach ev fuel names iterable filter body pos)
      (Loop.forEach ev' fuel names iterable filter body pos) := by
  refine (hev.runs_overElements D.HoldsAll hw hiterable (fun _ _ _ h hs => h.values hs)
    (fun _ => holdsAll_nil) ?_).bind fun results _ _ hresults => hev.runs_collected hresults
  intro _ results e there τ₀ τ hresults _ _
  have turn : D.Runs true w.inLoop (fun τ v? => ∀ v, v? = some v → D.Holds τ v) there τ₀ τ
      (do if ← Loop.passes ev filter then return some (← ev.block body) else return none)
      (do if ← Loop.passes ev' filter then return some (← ev'.block body) else return none) := by
    refine (hev.runs_passes hfilter).seq fun truth _ _ => ?_
    split
    · exact (hev.runs_block hbody).bind fun v _ _ hv => .pure fun _ h => Option.some.inj h ▸ hv
    · exact .pure fun _ h => nomatch h
  have hputs : D.Admits there.stack w → D.Admits there.stack w.inLoop := fun h => ⟨h.puts⟩
  refine (turn.attempt (fun _ => hw.lost trivial) hputs).bind fun r τ' hlater hr => ?_
  have hresults' := hlater.values hresults
  split
  · next v => exact .pure (holdsAll_cons (hr v rfl) hresults')
  · exact .pure hresults'
  · exact .pure hresults'
  · exact .pure hresults'
  · next e hnext hbrk =>
    refine .exit ?_ hr.2.2
    have hallows := hr.2.1
    cases e with
    | brk => exact absurd rfl hbrk
    | next => exact absurd rfl hnext
    | _ => exact hallows

theorem runs_arrayOf {names : LoopNames} {iterable : Expr} {filter : Option Expr} {output : Expr}
    {pos : Position} (hw : .failing ≤ w) (hiterable : (Tree.expr iterable).ways ≤ w)
    (hfilter : ∀ e ∈ filter, (Tree.expr e).ways ≤ w) (houtput : (Tree.expr output).ways ≤ w) :
    D.Runs true w D.Holds here σ₀ σ (Loop.arrayOf ev fuel names iterable filter output pos)
      (Loop.arrayOf ev' fuel names iterable filter output pos) := by
  refine (hev.runs_overElements D.HoldsAll hw hiterable (fun _ _ _ h hs => h.values hs)
    (fun _ => holdsAll_nil) ?_).bind fun results _ _ hresults => hev.runs_collected hresults
  intro _ results e there τ₀ τ hresults _ _
  refine (hev.runs_passes hfilter).seq fun truth τ₁ hlater₁ => ?_
  split
  · refine (hev.runs_expr houtput).bind fun v τ₂ hlater₂ hv => .pure ?_
    exact holdsAll_cons hv ((hlater₁.trans hlater₂).values hresults)
  · exact .pure (hlater₁.values hresults)

theorem runs_hashOf {names : LoopNames} {iterable : Expr} {filter : Option Expr}
    {outputKey outputValue : Expr} {pos : Position} (hw : .failing ≤ w)
    (hiterable : (Tree.expr iterable).ways ≤ w) (hfilter : ∀ e ∈ filter, (Tree.expr e).ways ≤ w)
    (hkey : (Tree.expr outputKey).ways ≤ w) (hvalue : (Tree.expr outputValue).ways ≤ w) :
    D.Runs true w D.Holds here σ₀ σ
      (Loop.hashOf ev fuel names iterable filter outputKey outputValue pos)
      (Loop.hashOf ev' fuel names iterable filter outputKey outputValue pos) := by
  refine (hev.runs_overElements D.HoldsDict hw hiterable (fun _ _ _ h hd => hd.later h)
    (fun _ => holdsDict_empty) ?_).bind fun d _ _ hd => hev.lawful.runs_newDict hd
  intro _ d e there τ₀ τ hd _ _
  refine (hev.runs_passes hfilter).seq fun truth τ₁ hlater₁ => ?_
  split
  · refine (hev.runs_expr hkey).bind fun k τ₂ hlater₂ hk => ?_
    refine (hev.lawful.runs_lift Atomic.sound_keyOf (hw.fail trivial)).bind
      fun hash τ₃ hlater₃ hhash => ?_
    refine (hev.runs_expr hvalue).bind fun v τ₄ hlater₄ hv => .pure ?_
    have hd₄ := hd.later ((hlater₁.trans hlater₂).trans (hlater₃.trans hlater₄))
    exact hd₄.insert hhash ((hlater₃.trans hlater₄).value hk) hv
  · exact .pure (hd.later hlater₁)

theorem runs_grep {name : String} {iterable cond : Expr} {pos : Position} (hw : .failing ≤ w)
    (hiterable : (Tree.expr iterable).ways ≤ w) (hcond : (Tree.expr cond).ways ≤ w) :
    D.Runs true w D.Holds here σ₀ σ (Loop.grep ev fuel name iterable cond pos)
      (Loop.grep ev' fuel name iterable cond pos) := by
  refine (hev.runs_overElements D.HoldsAll hw hiterable (fun _ _ _ h hs => h.values hs)
    (fun _ => holdsAll_nil) ?_).bind fun kept _ _ hkept => hev.runs_collected hkept
  intro bindsKey kept e there τ₀ τ hkept hkey hvalue
  refine (hev.runs_test hcond).seq fun truth τ₁ hlater₁ => ?_
  split
  · refine .pure (holdsAll_cons ?_ (hlater₁.values hkept))
    split
    · exact hlater₁.value hkey
    · exact hlater₁.value hvalue
  · exact .pure (hlater₁.values hkept)

end Sound
end Discipline
end TreeWalk
