/-
Expressions, bindings and assignments halt if their parts do.

The parts are evaluated in the setting of the whole, each of them once or not at
all, so nothing has to be counted here.
-/
import TreeWalk.Eval.Node
import TreeWalk.Proofs.Eval.Assign
import TreeWalk.Proofs.Halting.Rules

namespace TreeWalk

open Eval Value

namespace Setting

/-- The evaluation of a tree halts, and no expression has a value that tasks share. -/
def Handles (c : Setting) (ev : Nat → Evaluator) (m : Nat) : Tree → Prop
  | .expr e => c.Halts m Value.Unshared fun n => (ev n).expr e
  | .stmt s => c.Halts m Value.Tame fun n => (ev n).stmt s

/-- Calls halt, and put nothing off. -/
def Answers (c : Setting) (ev : Nat → Evaluator) : Prop :=
  ∀ v args pos, v.Tame → AllTame args → c.Halts 0 Value.Tame fun n => (ev n).call v args pos

variable {c : Setting} {ev : Nat → Evaluator} {m : Nat} {pos : Position}

/-- Where it does not matter what tasks share. -/
theorem Handles.tame {e : Expr} (h : c.Handles ev m (.expr e)) :
    c.Halts m Value.Tame fun n => (ev n).expr e := Halts.mono h fun _ hv => hv.tame

/-! ## What is built from an evaluator -/

theorem halts_exprs {items : List Expr} (h : ∀ e ∈ items, c.Handles ev m (.expr e)) :
    c.Halts m AllTame fun n => (ev n).exprs items := .mapList fun e he => (h e he).tame

theorem halts_block {body : Block} (h : ∀ s ∈ body, c.Handles ev m (.stmt s)) :
    c.Halts m Value.Tame fun n => (ev n).block body :=
  .foldList Value.Tame (fun _ _ s hs => h s hs) trivial

theorem halts_innerBlock {body : Block} (h : ∀ s ∈ body, c.Handles ev m (.stmt s)) :
    c.Halts m Value.Tame fun n => (ev n).innerBlock body := (halts_block h).withChildScope

theorem halts_innerBlockOr {otherwise : Option Block} {v : Value}
    (h : ∀ s ∈ otherwise.getD [], c.Handles ev m (.stmt s)) (hv : v.Tame) :
    c.Halts m Value.Tame fun n => (ev n).innerBlockOr otherwise v := by
  cases otherwise with
  | some body => exact halts_innerBlock h
  | none => exact .pure hv

theorem halts_test {cond : Expr} (h : c.Handles ev m (.expr cond)) :
    c.Halts m Any fun n => (ev n).test cond := Halts.bind h fun _ _ => .look

theorem Answers.halts {v : Value} {args : List Value} (hc : c.Answers ev) (hv : v.Tame)
    (hargs : AllTame args) : c.Halts m Value.Tame fun n => (ev n).call v args pos :=
  (hc v args pos hv hargs).weaken (Nat.zero_le m)

theorem Answers.halts_callBack {v : Value} {args : List Value} (hc : c.Answers ev) (hv : v.Tame)
    (hargs : AllTame args) : c.Halts m Value.Tame fun n => (ev n).callBack v args :=
  Halts.position.seq fun _ => hc.halts hv hargs

/-! ## Expressions -/

theorem halts_lookup {name : String} : c.Halts m Value.Tame fun _ => Node.lookup name pos :=
  Halts.fiber.bind fun _ _ => .lift Access.sound_lookup

theorem halts_functionLiteral {lit : FunctionLit} (h : lit.LoopFree) :
    c.Halts m Value.Tame fun _ => Node.functionLiteral lit :=
  Halts.fiber.bind fun _ _ => .change fun _ _ => ⟨⟨Store.quiet_of_content rfl, rfl⟩, trivial, h⟩

theorem halts_published {object : Expr} {name : String} :
    c.Halts m (fun v? => ∀ v, v? = some v → v.Tame) fun _ => Node.published object name := by
  unfold Node.published
  split
  · exact .read fun σ hc v hv => hc.registry _ v hv
  · exact .pure fun v hv => nomatch hv

theorem halts_interpolated {parts : List TextPart}
    (h : ∀ e, .hole e ∈ parts → c.Handles ev m (.expr e)) :
    c.Halts m Value.Tame fun n => Node.interpolated (ev n) parts := by
  have texts : c.Halts m (fun texts => ∀ t ∈ texts, Any t)
      fun n => mapList (Node.partText (ev n)) parts := by
    refine .mapList fun part hpart => ?_
    cases part with
    | text s => exact .pure trivial
    | hole e => exact Halts.bind (h e hpart) fun _ _ => .look
  exact texts.bind fun _ _ => .pure trivial

theorem halts_hashLiteral {entries : List (Expr × Expr)}
    (hkeys : ∀ entry ∈ entries, c.Handles ev m (.expr entry.1))
    (hvalues : ∀ entry ∈ entries, c.Handles ev m (.expr entry.2)) :
    c.Halts m Value.Tame fun n => Node.hashLiteral (ev n) entries := by
  have filed : c.Halts m Dict.Tame fun n => foldList (Node.hashEntry (ev n)) entries .empty := by
    refine .foldList Dict.Tame (fun d hd entry hentry => ?_) Dict.tame_empty
    refine Halts.bind (hkeys entry hentry) fun key hkey => Halts.position.seq fun _ => ?_
    refine (Halts.lift Atomic.sound_keyOf).bind fun hash hhash => ?_
    exact (hvalues entry hentry).tame.bind fun v hv => .pure (hd.insert hhash hkey.tame hv)
  exact filed.bind fun d hd => .newDict hd

theorem halts_arrayLiteral {items : List Expr} (h : ∀ e ∈ items, c.Handles ev m (.expr e)) :
    c.Halts m Value.Tame fun n => Node.arrayLiteral (ev n) items :=
  (halts_exprs h).bind fun _ hvs => .newArray hvs

theorem halts_tupleLiteral {items : List Expr} {multi : Bool}
    (h : ∀ e ∈ items, c.Handles ev m (.expr e)) :
    c.Halts m Value.Tame fun n => (ev n).exprs items >>= fun vs => pure (.tuple vs multi) :=
  (halts_exprs h).bind fun _ hvs => .pure ((within_tuple _ _).mpr hvs)

theorem halts_rangeLiteral {start stop : Expr} (hstart : c.Handles ev m (.expr start))
    (hstop : c.Handles ev m (.expr stop)) :
    c.Halts m Value.Tame fun n => Node.rangeLiteral (ev n) start stop pos := by
  refine Halts.bind hstart fun a _ => Halts.bind hstop fun b _ => ?_
  split
  · exact .pure trivial
  · exact .fail

theorem halts_infixed {op : InfixOp} {left right : Expr} (hleft : c.Handles ev m (.expr left))
    (hright : c.Handles ev m (.expr right)) :
    c.Halts m Value.Tame fun n => Node.infixed (ev n) op left right pos := by
  refine hleft.tame.bind fun a ha => Halts.look.seq fun truth => ?_
  split
  · exact .pure trivial
  · split
    · exact .pure trivial
    · exact hright.tame.bind fun b hb => .lift (Operator.sound_binary ha hb)

theorem halts_prefixed {op : PrefixOp} {operand : Expr} (h : c.Handles ev m (.expr operand)) :
    c.Halts m Value.Tame fun n => Node.prefixed (ev n) op operand pos :=
  h.tame.bind fun _ hv => .lift (Operator.sound_unary hv)

theorem halts_member {object : Expr} {name : String} (h : c.Handles ev m (.expr object)) :
    c.Halts m Value.Tame fun n => Node.member (ev n) object name pos := by
  refine halts_published.bind fun v? hv => ?_
  cases v? with
  | some v => exact .pure (hv v rfl)
  | none => exact Halts.bind h fun _ _ => .lift Access.sound_member

theorem halts_index {object key : Expr} (hobject : c.Handles ev m (.expr object))
    (hkey : c.Handles ev m (.expr key)) :
    c.Halts m Value.Tame fun n => Node.index (ev n) object key pos :=
  hobject.tame.bind fun _ hv => Halts.bind hkey fun _ _ => .lift (Access.sound_index hv)

theorem halts_bound {v : Value} {given : Option Expr} (h : ∀ e ∈ given, c.Handles ev m (.expr e)) :
    c.Halts m Any fun n => Node.bound (ev n) v given pos := by
  cases given with
  | none => exact .pure trivial
  | some e =>
    refine Halts.bind (h e rfl) fun b _ => ?_
    exact (Halts.lift Access.sound_bound).bind fun _ _ => .pure trivial

theorem halts_slice {object : Expr} {start stop : Option Expr} (hobject : c.Handles ev m (.expr object))
    (hstart : ∀ e ∈ start, c.Handles ev m (.expr e)) (hstop : ∀ e ∈ stop, c.Handles ev m (.expr e)) :
    c.Halts m Value.Tame fun n => Node.slice (ev n) object start stop pos := by
  refine hobject.tame.bind fun v hv => (halts_bound hstart).seq fun low => ?_
  exact (halts_bound hstop).seq fun high => .lift (Access.sound_slice hv)

theorem halts_returnValues {values : List Expr} (h : ∀ e ∈ values, c.Handles ev m (.expr e)) :
    c.Halts m Value.Tame fun n => Node.returnValues (ev n) values := by
  unfold Node.returnValues
  split
  · exact .exit (fun he => nomatch he) trivial
  · next single =>
    exact (h single List.mem_cons_self).tame.bind fun v hv => .exit (fun he => nomatch he) hv
  · refine (halts_exprs h).bind fun vs hvs => .exit (fun he => nomatch he) ?_
    exact (within_tuple vs true).mpr hvs

/-! ## Calls in a tree -/

theorem halts_call {callee : Expr} {args : List Expr} (hc : c.Answers ev)
    (hcallee : c.Handles ev m (.expr callee)) (hargs : ∀ e ∈ args, c.Handles ev m (.expr e)) :
    c.Halts m Value.Tame fun n => Node.call (ev n) callee args pos := by
  have go : ∀ v : Value, v.Tame → c.Halts m Value.Tame
      fun n => (ev n).exprs args >>= fun vs => (ev n).call v vs pos := fun v hv =>
    (halts_exprs hargs).bind fun vs hvs => hc.halts hv hvs
  unfold Node.call
  split
  · exact halts_lookup.bind go
  · exact hcallee.tame.bind go

theorem halts_callPublished {v : Value} {args : List Value} (hc : c.Answers ev) (hv : v.Tame)
    (hargs : AllTame args) : c.Halts m Value.Tame fun n => Node.callPublished (ev n) v args pos := by
  unfold Node.callPublished
  split
  · exact hc.halts hv hargs
  · split
    · exact .pure hv
    · exact .fail

/-! ## Bindings and assignments -/

theorem halts_bindAll {names : List String} {values : List Value} (h : AllTame values) :
    c.Halts m Any fun _ => Assign.bindAll names values := by
  induction names generalizing values with
  | nil => exact .pure trivial
  | cons name names ih =>
    cases values with
    | nil => exact .pure trivial
    | cons v values =>
      refine (Halts.bindName (h v List.mem_cons_self)).seq fun _ => ih fun v' hv' => ?_
      exact h v' (List.mem_cons_of_mem v hv')

theorem halts_parts {v : Value} (hv : v.Tame) :
    c.Halts m (fun items? => ∀ items, items? = some items → AllTame items)
      fun _ => Eval.read (Assign.parts? · v) := by
  refine .read fun σ hc items h => ?_
  unfold Assign.parts? at h
  split at h
  · exact Option.some.inj h ▸ (within_tuple _ _).mp hv
  · next id => exact Option.some.inj h ▸ hc.arrays id
  · cases h

theorem halts_define {names : List String} {values : List Expr}
    (h : ∀ e ∈ values, c.Handles ev m (.expr e)) :
    c.Halts m Value.Tame fun n => Assign.define (ev n) names values pos := by
  unfold Assign.define
  split
  · exact (halts_exprs h).bind fun vs hvs => (halts_bindAll hvs).seq fun _ => .pure trivial
  · split
    · next single _ =>
      refine (h single List.mem_cons_self).tame.bind fun v hv => ?_
      refine (halts_parts hv).bind fun items? hitems => ?_
      split
      · next items =>
        split
        · exact (halts_bindAll (hitems items rfl)).seq fun _ => .pure trivial
        · exact .fail
      · exact .fail
    · exact .fail

theorem halts_resolve {target : Expr}
    (h : ∀ e, .ofExpr e ∈ target.form.parts → c.Handles ev m (.expr e)) :
    c.Halts m (Place.Within tame) fun n => Assign.resolve (ev n) target pos := by
  unfold Assign.resolve
  split
  · exact .pure trivial
  · next object key heq =>
    rw [heq] at h
    refine (h object (by simp [Form.parts, Part.ofExprs])).tame.bind fun container hcontainer => ?_
    refine (h key (by simp [Form.parts, Part.ofExprs])).tame.bind fun k hk => ?_
    exact .pure ⟨hcontainer, hk⟩
  · next object name heq =>
    rw [heq] at h
    exact (h object (by simp [Form.parts, Part.ofExprs])).tame.bind fun o ho => .pure ho
  · exact .fail
  · exact .fail
  · exact .fail

theorem halts_readPlace {place : Place} (h : place.Within tame) :
    c.Halts m Value.Tame fun _ => Assign.readPlace place pos :=
  Halts.fiber.bind fun _ _ => .lift (Place.sound_get h)

theorem Fits.change {f : Fiber} {σ τ : Store} {scope : ScopeId} {v : Value} (hf : c.Fits f σ)
    (hv : v.Tame) (h : Place.Change tame scope v σ τ) : c.Fits f τ ∧ σ.Leads c.own m τ := by
  cases h with
  | calm h => exact ⟨hf.calm h, .of_quiet h.toQuiet⟩
  | rebind _ _ => exact ⟨hf.bind hv, .bind⟩
  | declare => exact ⟨hf.bind hv, .bind⟩

theorem halts_writePlace {place : Place} {v : Value} {declare : Bool} (h : place.Within tame)
    (hv : v.Tame) : c.Halts m Any fun _ => Assign.writePlace place v declare pos := by
  refine Halts.fiber.bind fun g _ f σ hf => ?_
  have written : Place.Written tame g.scope v σ (place.write g.scope v declare pos σ) :=
    Place.written_write h hv trivial hf.closed
  rcases written with ⟨write, hwrite, hchange⟩ | ⟨e, hwrite, hfailure⟩
  · obtain ⟨hf', hleads⟩ := hf.change hv hchange
    refine .of_done (fun _ => ?_) (show c.Post _ _ Any (.ok ()) f (write σ) from
      ⟨hf', hleads, trivial⟩)
    rw [bind_apply]
    unfold Eval.lift
    rw [hwrite]
    rfl
  · refine .of_done (fun _ => ?_) (.of_failure hf hfailure)
    rw [bind_apply]
    unfold Eval.lift
    rw [hwrite]
    rfl

theorem halts_assign {op : AssignOp} {target value : Expr}
    (htarget : ∀ e, .ofExpr e ∈ target.form.parts → c.Handles ev m (.expr e))
    (hvalue : c.Handles ev m (.expr value)) :
    c.Halts m Value.Tame fun n => Assign.assign (ev n) op target value pos := by
  have write : ∀ place v declare, Place.Within tame place → v.Tame → c.Halts m Value.Tame
      fun _ => Assign.writePlace place v declare pos >>= fun _ => pure v :=
    fun place v declare hplace hv => (halts_writePlace hplace hv).seq fun _ => .pure hv
  refine (halts_resolve htarget).bind fun place hplace => ?_
  cases op.operator? with
  | none => exact hvalue.tame.bind fun v hv => write place v _ hplace hv
  | some operator =>
    refine (halts_readPlace hplace).bind fun current hcurrent => ?_
    refine hvalue.tame.bind fun operand hoperand => ?_
    refine (Halts.lift (Operator.sound_binary hcurrent hoperand)).bind fun v hv => ?_
    exact write place v _ hplace hv

theorem halts_step {op : PostfixOp} {target : Expr}
    (htarget : ∀ e, .ofExpr e ∈ target.form.parts → c.Handles ev m (.expr e)) :
    c.Halts m Value.Tame fun n => Assign.step (ev n) op target pos := by
  refine (halts_resolve htarget).bind fun place hplace => ?_
  refine (halts_readPlace hplace).bind fun old hold => ?_
  refine (Halts.lift Assign.sound_stepped).bind fun new hnew => ?_
  exact (halts_writePlace hplace hnew).seq fun _ => .pure hold

end Setting
end TreeWalk
