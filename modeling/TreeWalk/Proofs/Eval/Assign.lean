/-
Bindings and assignments keep to a discipline.

A binding names the scope it is made in.  An assignment gives a new value to a
name that some scope binds already, or else binds the name in its own scope.
-/
import TreeWalk.Eval.Assign
import TreeWalk.Proofs.Atomic.Access
import TreeWalk.Proofs.Atomic.Operator
import TreeWalk.Proofs.Eval.Evaluator

namespace TreeWalk

open Eval Value

namespace Assign

theorem sound_stepped {p : Reach} {op : PostfixOp} {v : Value} {pos : Position} :
    Atomic.Sound p (Value.Within p) (stepped op v pos) := by
  unfold stepped
  split
  · split
    · exact Operator.sound_exact
    · exact Operator.sound_exact
    · exact .fail
  · split
    · exact .pure trivial
    · exact .pure trivial
    · exact .fail
  · exact .fail

theorem writePlace_apply (place : Place) (v : Value) (declare : Bool) (pos : Position) (f : Fiber)
    (σ : Store) : writePlace place v declare pos f σ =
      match place.write f.scope v declare pos σ with
      | .ok (g, τ) => .done (.ok ()) f (g τ)
      | .error e => .done (.error e) f σ := by
  show (lift (place.write f.scope v declare pos) >>= update) f σ = _
  rw [bind_apply]
  unfold lift
  cases place.write f.scope v declare pos σ with
  | ok r => rfl
  | error e => rfl

end Assign

namespace Discipline

variable {D : Discipline} {ev ev' : Evaluator} {b : Bool} {w : Ways} {here : Site} {σ₀ σ : Store}
  {pos : Position}

namespace Lawful

variable (hD : D.Lawful)
include hD

theorem runs_bindAll {names : List String} {values : List Value} (h : D.HoldsAll σ values) :
    D.Runs true w Any here σ₀ σ (Assign.bindAll names values) (Assign.bindAll names values) := by
  induction names generalizing σ values with
  | nil => exact .pure trivial
  | cons name names ih =>
    cases values with
    | nil => exact .pure trivial
    | cons v values =>
      refine (hD.runs_bindName (h v List.mem_cons_self)).seq fun _ _ hlater => ih ?_
      exact hlater.values fun v' hv' => h v' (List.mem_cons_of_mem v hv')

theorem holdsAll_parts {v : Value} {items : List Value} (hfit : D.fit b here σ₀ σ)
    (hv : D.Holds σ v) (h : Assign.parts? σ v = some items) : D.HoldsAll σ items := by
  unfold Assign.parts? at h
  split at h
  · exact Option.some.inj h ▸ (within_tuple _ _).mp hv
  · next id => exact Option.some.inj h ▸ (hD.closed hfit).arrays id
  · cases h

theorem runs_readPlace {place : Place} (hw : w.fail) (h : place.Within (D.At σ)) :
    D.Runs b w D.Holds here σ₀ σ (Assign.readPlace place pos) (Assign.readPlace place pos) :=
  .fiber fun _ _ => hD.runs_liftValue (Place.sound_get h) hw

/-- A write is a calm change, gives a new value to a name, or binds a name in the
scope of the site. -/
theorem fitting_change {v : Value} {τ : Store} (hfit : D.fit true here σ₀ σ) (hv : D.Holds σ v)
    (h : Place.Change (D.At σ) here.scope v σ τ) : D.Fitting true here σ₀ σ τ := by
  cases h with
  | calm h => exact hD.fitting_quiet hfit h.toQuiet
  | rebind hs h => exact ⟨hD.rebind hfit hs h hv, hD.later .bind, hD.tells.bind hs⟩
  | declare => exact hD.fitting_bind hfit hv

theorem runs_writePlace {place : Place} {v : Value} {declare : Bool} (hw : w.fail)
    (h : place.Within (D.At σ)) (hv : D.Holds σ v) :
    D.Runs true w Any here σ₀ σ (Assign.writePlace place v declare pos)
      (Assign.writePlace place v declare pos) := by
  intro hfit f hf _
  rw [Assign.writePlace_apply, show f.scope = here.scope from congrArg Site.scope hf]
  have written : Place.Written (D.At σ) here.scope v σ (place.write here.scope v declare pos σ) :=
    Place.written_write h hv (hD.inside hfit) (hD.closed hfit)
  rcases written with ⟨g, hwrite, hchange⟩ | ⟨e, hwrite, hfailure⟩
  · rw [hwrite]
    obtain ⟨hfit', hlater, hstretch⟩ := hD.fitting_change hfit hv hchange
    exact .done hstretch ⟨hfit', hlater, hf, trivial⟩
  · rw [hwrite]
    exact .ended ⟨hfit, .refl σ, .inr hf, hfailure.allowed hw, hfailure.within⟩

end Lawful

namespace Sound

variable (hev : D.Sound ev ev')
include hev

theorem runs_define {names : List String} {values : List Expr} (hw : .failing ≤ w)
    (hvalues : ∀ e ∈ values, (Tree.expr e).ways ≤ w) :
    D.Runs true w D.Holds here σ₀ σ (Assign.define ev names values pos)
      (Assign.define ev' names values pos) := by
  unfold Assign.define
  split
  · refine (hev.runs_exprs hvalues).bind fun vs _ _ hvs => ?_
    exact (hev.lawful.runs_bindAll hvs).seq fun _ _ _ => .pure trivial
  · split
    · next single _ =>
      refine (hev.runs_expr (hvalues single List.mem_cons_self)).bind fun v σ' _ hv => ?_
      refine .intro fun hfit => .read ?_
      split
      · next items hitems =>
        split
        · have hall := hev.lawful.holdsAll_parts hfit hv hitems
          exact (hev.lawful.runs_bindAll hall).seq fun _ _ _ => .pure trivial
        · exact .fail (hw.fail trivial)
      · exact .fail (hw.fail trivial)
    · exact .fail (hw.fail trivial)

/-- The parts of a target are evaluated, and make up the place. -/
theorem runs_resolve {target : Expr} (hw : .failing ≤ w) (htarget : (Tree.expr target).ways ≤ w) :
    D.Runs true w (fun τ place => place.Within (D.At τ)) here σ₀ σ
      (Assign.resolve ev target pos) (Assign.resolve ev' target pos) := by
  have part : ∀ e, .ofExpr e ∈ target.form.parts → (Tree.expr e).ways ≤ w := by
    intro e he
    have hpart : Part.ofExpr e ∈ (Tree.expr target).parts := he
    exact Ways.le_trans (Tree.ways_part_le hpart rfl) htarget
  unfold Assign.resolve
  split
  · exact .pure trivial
  · next object key heq =>
    rw [heq] at part
    refine (hev.runs_expr (part object (by simp [Form.parts, Part.ofExprs]))).bind
      fun c _ _ hc => ?_
    refine (hev.runs_expr (part key (by simp [Form.parts, Part.ofExprs]))).bind
      fun k _ hlater hk => .pure ⟨hlater.value hc, hk⟩
  · next object name heq =>
    rw [heq] at part
    exact (hev.runs_expr (part object (by simp [Form.parts, Part.ofExprs]))).bind
      fun c _ _ hc => .pure hc
  · exact .fail (hw.fail trivial)
  · exact .fail (hw.fail trivial)
  · exact .fail (hw.fail trivial)

theorem runs_assign {op : AssignOp} {target value : Expr} (hw : .failing ≤ w)
    (htarget : (Tree.expr target).ways ≤ w) (hvalue : (Tree.expr value).ways ≤ w) :
    D.Runs true w D.Holds here σ₀ σ (Assign.assign ev op target value pos)
      (Assign.assign ev' op target value pos) := by
  have hfail := hw.fail trivial
  have write : ∀ place v declare τ, place.Within (D.At τ) → D.Holds τ v →
      D.Runs true w D.Holds here σ₀ τ (do Assign.writePlace place v declare pos; return v)
        (do Assign.writePlace place v declare pos; return v) := fun place v declare τ hplace hv =>
    (hev.lawful.runs_writePlace hfail hplace hv).seq fun _ _ hlater => .pure (hlater.value hv)
  refine (hev.runs_resolve hw htarget).bind fun place σ₁ _ hplace => ?_
  cases op.operator? with
  | none =>
    exact (hev.runs_expr hvalue).bind fun v σ₂ hlater hv =>
      write place v _ σ₂ (hplace.mono hlater) hv
  | some operator =>
    refine (hev.lawful.runs_readPlace hfail hplace).bind fun current σ₂ hlater₂ hcurrent => ?_
    refine (hev.runs_expr hvalue).bind fun operand σ₃ hlater₃ hoperand => ?_
    refine (hev.lawful.runs_liftValue (Operator.sound_binary (hlater₃.value hcurrent) hoperand)
      hfail).bind fun v σ₄ hlater₄ hv => ?_
    exact write place v _ σ₄ (hplace.mono (hlater₂.trans (hlater₃.trans hlater₄))) hv

theorem runs_step {op : PostfixOp} {target : Expr} (hw : .failing ≤ w)
    (htarget : (Tree.expr target).ways ≤ w) :
    D.Runs true w D.Holds here σ₀ σ (Assign.step ev op target pos)
      (Assign.step ev' op target pos) := by
  have hfail := hw.fail trivial
  refine (hev.runs_resolve hw htarget).bind fun place σ₁ _ hplace => ?_
  refine (hev.lawful.runs_readPlace hfail hplace).bind fun old σ₂ hlater₂ hold => ?_
  refine (hev.lawful.runs_liftValue Assign.sound_stepped hfail).bind fun new σ₃ hlater₃ hnew => ?_
  have hplace₃ := hplace.mono (hlater₂.trans hlater₃)
  refine (hev.lawful.runs_writePlace hfail hplace₃ hnew).seq fun _ σ₄ hlater₄ => .pure ?_
  exact (hlater₃.trans hlater₄).value hold

end Sound
end Discipline
end TreeWalk
