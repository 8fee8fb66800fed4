/-
Expressions follow their courses.

Each form is evaluated in the order that its course gives, with the positions around it
written down or left out.  What a form does by itself, besides evaluating its parts and
calling functions, leaves the current position alone.
-/
import TreeWalk.Eval.Node
import TreeWalk.Proofs.Placement.Course

namespace TreeWalk

open Eval

/-- Nodes do the same with the positions around them written down. -/
structure Evaluator.Faithful (ev : Evaluator) : Prop where
  expr : ∀ (e : Expr) (p : Position), (Course.expr e).Guides p (ev.expr (e.located p)) (ev.expr e)
  stmt : ∀ (s : Stmt) (p : Position), (Course.stmt s).Guides p (ev.stmt (s.located p)) (ev.stmt s)

namespace Evaluator.Faithful

variable {ev : Evaluator} {p pos : Position} {fuel : Nat} (hev : ev.Faithful)
include hev

/-! ## Parts -/

theorem guides_exprs (items : List Expr) :
    (Course.exprs items).Guides p (ev.exprs (Expr.locatedAll p items)) (ev.exprs items) := by
  rw [Expr.locatedAll_eq]
  exact .mapList (fun e => hev.expr e p) items

theorem guides_block (body : Block) :
    (Course.block body).Guides p (ev.block (Stmt.locatedAll p body)) (ev.block body) := by
  rw [Stmt.locatedAll_eq]
  exact .foldList (fun _ s => hev.stmt s p) body .nothing

theorem guides_innerBlock (body : Block) :
    (Course.block body).Guides p (ev.innerBlock (Stmt.locatedAll p body)) (ev.innerBlock body) :=
  (hev.guides_block body).withChildScope

theorem guides_innerBlockOr (body : Option Block) (v : Value) :
    (Course.block? body).Guides p (ev.innerBlockOr (Stmt.locatedAll? p body) v)
      (ev.innerBlockOr body v) := by
  cases body with
  | none => exact .quiet .pure
  | some body => exact hev.guides_innerBlock body

theorem guides_test (cond : Expr) :
    (Course.expr cond).Guides p (ev.test (cond.located p)) (ev.test cond) :=
  (hev.expr cond p).before fun _ => .read

theorem guides_passes (cond : Option Expr) :
    (Course.expr? cond).Guides p (Loop.passes ev (Expr.located? p cond)) (Loop.passes ev cond) := by
  cases cond with
  | none => exact .quiet .pure
  | some e => exact hev.guides_test e

/-! ## Literals -/

theorem guides_interpolated (parts : List TextPart) :
    (Form.interpolated parts).course.Guides p (Node.interpolated ev (TextPart.locatedAll p parts))
      (Node.interpolated ev parts) := by
  rw [TextPart.locatedAll_eq]
  refine (Course.Guides.mapList (fun part => ?_) parts).before fun _ => .pure
  cases part with
  | text s => exact .quiet .pure
  | hole e => exact (hev.expr e p).before fun _ => .read

theorem guides_arrayLiteral (items : List Expr) :
    (Form.array items).course.Guides p (Node.arrayLiteral ev (Expr.locatedAll p items))
      (Node.arrayLiteral ev items) :=
  (hev.guides_exprs items).before fun _ => .change

theorem guides_hashLiteral (entries : List (Expr × Expr)) :
    (Form.hash entries).course.Guides p (Node.hashLiteral ev (Expr.locatedPairs p entries))
      (Node.hashLiteral ev entries) := by
  rw [Expr.locatedPairs_eq]
  refine (Course.Guides.foldList (fun d entry => ?_) entries Dict.empty).before fun _ => .change
  refine (hev.expr entry.1 p).seq fun key => .after .position fun _ => .after .lift fun hash => ?_
  exact (hev.expr entry.2 p).before fun _ => .pure

theorem guides_rangeLiteral (start stop : Expr) :
    (Form.range start stop).course.Guides p
      (Node.rangeLiteral ev (start.located p) (stop.located p) pos)
      (Node.rangeLiteral ev start stop pos) := by
  refine (hev.expr start p).seq fun a => (hev.expr stop p).before fun b => ?_
  split
  · exact .pure
  · exact .fail

theorem guides_structOf (body : Block) :
    (Form.struct body).course.Guides p (Control.structOf ev (Stmt.locatedAll p body))
      (Control.structOf ev body) :=
  .after .fiber fun _ => .after .change fun _ =>
    (hev.guides_block body).withScope.before fun _ => .bind .read fun _ => .pure

theorem guides_variantValues (variants : List (String × Option Expr)) (n : Int64) :
    (Course.each (fun variant => Course.expr? variant.2) variants).Guides p
      (Control.variantValues ev n (Form.locatedVariants p variants))
      (Control.variantValues ev n variants) := by
  induction variants generalizing n with
  | nil => exact .quiet .pure
  | cons variant rest ih =>
    obtain ⟨name, explicit⟩ := variant
    cases explicit with
    | none => exact .seq (.quiet .pure) fun v => (ih _).before fun _ => .pure
    | some e => exact (hev.expr e p).seq fun v => (ih _).before fun _ => .pure

theorem guides_enumOf (variants : List (String × Option Expr)) :
    (Form.enum variants).course.Guides p (Control.enumOf ev (Form.locatedVariants p variants))
      (Control.enumOf ev variants) := by
  have names : (Form.locatedVariants p variants).map (·.1) = variants.map (·.1) := by
    induction variants with
    | nil => rfl
    | cons variant rest ih => exact congrArg (variant.1 :: ·) ih
  unfold Control.enumOf
  rw [names]
  exact (hev.guides_variantValues variants 0).before fun _ =>
    .bind .fiber fun _ => .bind .change fun _ => .pure

/-! ## Operators and calls -/

theorem guides_infixed (op : InfixOp) (left right : Expr) :
    (Form.infixed op left right).course.Guides p
      (Node.infixed ev op (left.located p) (right.located p) pos)
      (Node.infixed ev op left right pos) := by
  refine (hev.expr left p).seq fun a => .after .read fun truth => ?_
  split
  · exact .quiet .pure
  · split
    · exact .quiet .pure
    · exact (hev.expr right p).before fun _ => .lift

theorem guides_ternary (cond yes no : Expr) :
    (Form.ternary cond yes no).course.Guides p
      (do if ← ev.test (cond.located p) then ev.expr (yes.located p) else ev.expr (no.located p))
      (do if ← ev.test cond then ev.expr yes else ev.expr no) := by
  refine (hev.guides_test cond).seq fun holds => ?_
  split
  · exact .one (hev.expr yes p)
  · exact .other (hev.expr no p)

theorem guides_arguments (args : List Expr) (next : List Value → Eval Value) :
    (Course.seq (.exprs args) .run).Guides p (ev.exprs (Expr.locatedAll p args) >>= next)
      (ev.exprs args >>= next) :=
  (hev.guides_exprs args).seq fun _ => .run

theorem guides_call (callee : Expr) (args : List Expr) :
    (Form.call callee args).course.Guides p
      (Node.call ev (callee.located p) (Expr.locatedAll p args) pos)
      (Node.call ev callee args pos) := by
  obtain ⟨place, form⟩ := callee
  cases form with
  | ident name =>
    have hlookup : Quiet (Node.lookup name pos) := .bind .fiber fun _ => .lift
    exact .after hlookup fun f => hev.guides_arguments args (ev.call f · pos)
  | _ => exact (hev.expr _ p).seq fun f => hev.guides_arguments args (ev.call f · pos)

omit hev in
theorem published_located (object : Expr) (name : String) :
    Node.published (object.located p) name = Node.published object name := by
  obtain ⟨place, form⟩ := object
  cases form <;> rfl

omit hev in
theorem quiet_published (object : Expr) (name : String) : Quiet (Node.published object name) := by
  unfold Node.published
  split
  · exact .read
  · exact .pure

theorem guides_method (receiver : Expr) (name : String) (args : List Expr) :
    (Form.method receiver name args).course.Guides p
      (Node.method ev (receiver.located p) name (Expr.locatedAll p args) pos)
      (Node.method ev receiver name args pos) := by
  unfold Node.method
  rw [published_located]
  refine .after (quiet_published receiver name) fun v? => ?_
  cases v? with
  | some v => exact .skip (hev.guides_arguments args _)
  | none => exact (hev.expr receiver p).seq fun v => hev.guides_arguments args _

theorem guides_member (object : Expr) (name : String) :
    (Form.member object name).course.Guides p (Node.member ev (object.located p) name pos)
      (Node.member ev object name pos) := by
  unfold Node.member
  rw [published_located]
  refine .after (quiet_published object name) fun v? => ?_
  cases v? with
  | some v => exact .quiet .pure
  | none => exact (hev.expr object p).before fun _ => .lift

theorem guides_index (object key : Expr) :
    (Form.index object key).course.Guides p
      (Node.index ev (object.located p) (key.located p) pos) (Node.index ev object key pos) :=
  (hev.expr object p).seq fun _ => (hev.expr key p).before fun _ => .lift

theorem guides_bound (v : Value) (given : Option Expr) :
    (Course.expr? given).Guides p (Node.bound ev v (Expr.located? p given) pos)
      (Node.bound ev v given pos) := by
  cases given with
  | none => exact .quiet .pure
  | some e => exact (hev.expr e p).before fun _ => .bind .lift fun _ => .pure

theorem guides_slice (object : Expr) (start stop : Option Expr) :
    (Form.slice object start stop).course.Guides p
      (Node.slice ev (object.located p) (Expr.located? p start) (Expr.located? p stop) pos)
      (Node.slice ev object start stop pos) :=
  (hev.expr object p).seq fun v => (hev.guides_bound v start).seq fun _ =>
    (hev.guides_bound v stop).before fun _ => .lift

/-! ## Assignments -/

omit hev in
theorem located_of_isKnown {e : Expr} (h : e.pos.isKnown = true) (q : Position) :
    e.located q = e.located p := by
  obtain ⟨place, form⟩ := e
  show Expr.mk (place.orElse q) (form.located (place.orElse q)) =
    ⟨place.orElse p, form.located (place.orElse p)⟩
  rw [Position.orElse_of_isKnown h, Position.orElse_of_isKnown h]

/-- The parts of a target stand at the position of the assignment. -/
theorem guides_resolve (target : Expr)
    (h : target.pos.orElse p = p ∨ ¬ target.form.ofTarget.Awaits) :
    target.form.ofTarget.Guides p (Assign.resolve ev (target.located p) pos)
      (Assign.resolve ev target pos) := by
  obtain ⟨place, form⟩ := target
  have inner : ∀ e : Expr, Tree.expr e ∈ form.ofTarget.parts →
      e.located (place.orElse p) = e.located p := by
    intro e he
    rcases h with hplace | hknown
    · rw [show place.orElse p = p from hplace]
    · refine located_of_isKnown (eq_true_of_ne_false fun hun => hknown ⟨.expr e, he, hun⟩) _
  cases form with
  | index object key =>
    show Course.Guides _ p (do
      let container ← ev.expr (object.located (place.orElse p))
      let k ← ev.expr (key.located (place.orElse p))
      return Place.element container k) _
    rw [inner object List.mem_cons_self,
      inner key (List.mem_cons_of_mem _ List.mem_cons_self)]
    exact (hev.expr object p).seq fun _ => (hev.expr key p).before fun _ => .pure
  | member object name =>
    show Course.Guides _ p (do
      return Place.member (← ev.expr (object.located (place.orElse p))) name) _
    rw [inner object List.mem_cons_self]
    exact (hev.expr object p).before fun _ => .pure
  | ident name => exact .quiet .pure
  | _ => exact .quiet .fail

omit hev in
theorem quiet_readPlace (place : Place) : Quiet (Assign.readPlace place pos) :=
  .bind .fiber fun _ => .lift

omit hev in
theorem quiet_writePlace (place : Place) (v : Value) (declare : Bool) :
    Quiet (Assign.writePlace place v declare pos) :=
  .bind .fiber fun _ => .bind .lift fun _ => .update

theorem guides_assign (op : AssignOp) (target value : Expr)
    (h : target.pos.orElse p = p ∨ ¬ target.form.ofTarget.Awaits) :
    (Form.assign op target value).course.Guides p
      (Assign.assign ev op (target.located p) (value.located p) pos)
      (Assign.assign ev op target value pos) := by
  refine (hev.guides_resolve target h).seq fun place => ?_
  have write : ∀ v, Quiet (do
      Assign.writePlace place v op.operator?.isNone pos
      return v) := fun v => .bind (quiet_writePlace place v _) fun _ => .pure
  cases hop : op.operator? with
  | none =>
    rw [hop] at write
    exact (hev.expr value p).before write
  | some operator =>
    rw [hop] at write
    refine .after (quiet_readPlace place) fun current => (hev.expr value p).before fun operand => ?_
    exact .bind .lift write

theorem guides_step (op : PostfixOp) (target : Expr)
    (h : target.pos.orElse p = p ∨ ¬ target.form.ofTarget.Awaits) :
    (Form.postfixed op target).course.Guides p (Assign.step ev op (target.located p) pos)
      (Assign.step ev op target pos) :=
  (hev.guides_resolve target h).before fun place => .bind (quiet_readPlace place) fun _ =>
    .bind .lift fun v => .bind (quiet_writePlace place v false) fun _ => .pure

omit hev in
theorem quiet_bindAll (names : List String) (values : List Value) :
    Quiet (Assign.bindAll names values) := by
  induction names generalizing values with
  | nil => exact .pure
  | cons name names ih =>
    cases values with
    | nil => exact .pure
    | cons v values => exact .bind .bindName fun _ => ih values

theorem guides_define (names : List String) (values : List Expr) :
    (Course.exprs values).Guides p (Assign.define ev names (Expr.locatedAll p values) pos)
      (Assign.define ev names values pos) := by
  have hlength : (Expr.locatedAll p values).length = values.length := by
    rw [Expr.locatedAll_eq, List.length_map]
  unfold Assign.define
  rw [hlength]
  split
  · exact (hev.guides_exprs values).before fun vs => .bind (quiet_bindAll names vs) fun _ => .pure
  · match values with
    | [] => exact .quiet .fail
    | [single] =>
      refine .seq (hev.expr single p) fun v => .quiet (.bind .read fun items => ?_)
      cases items with
      | none => exact .fail
      | some items =>
        dsimp only
        split
        · exact .bind (quiet_bindAll names items) fun _ => .pure
        · exact .fail
    | _ :: _ :: _ => exact .quiet .fail

end Evaluator.Faithful
end TreeWalk
