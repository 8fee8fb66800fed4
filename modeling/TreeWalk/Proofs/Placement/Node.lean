/-
Positions that are left out.

A node without a position reports the position of the node around it, as long as the
tree is settled: then it makes no difference whether the positions that are left out are
written down.  It does make a difference where something evaluated before has moved the
current position away, since nothing moves it back.
-/
import TreeWalk.Proofs.Eval.Node
import TreeWalk.Proofs.Placement.Control
import TreeWalk.Session

namespace TreeWalk

open Eval

namespace Evaluator.Faithful

variable {ev : Evaluator} {p pos : Position} {fuel : Nat} (hev : ev.Faithful)
include hev

/-- The call a pipe makes is decided by a value, whose literal settles as `nil` does at
the same position. -/
theorem guides_pipe (left right : Expr)
    (h : left.pos.isKnown = true ∨ right.pos.orElse p = p) :
    (Form.pipe left right).course.Guides p
      (Control.pipe ev (left.located p) (right.located p) pos)
      (Control.pipe ev left right pos) := by
  unfold Control.pipe
  rw [Expr.isCall_located]
  split
  · next hright =>
    obtain ⟨nilCall, hnil⟩ : ∃ call, right.withFirstArgument? ⟨left.pos, .nil⟩ = some call :=
      Option.isSome_iff_exists.mp ((Expr.isSome_withFirstArgument? _ _).trans hright)
    have place : (left.located p).pos = left.pos.orElse (right.pos.orElse p) := by
      rw [Expr.pos_located]
      rcases h with hknown | hplace
      · rw [Position.orElse_of_isKnown hknown, Position.orElse_of_isKnown hknown]
      · rw [hplace]
    refine (hev.expr left p).seq fun v => .reads fun σ => ?_
    rw [place, Store.literal?_located, hnil]
    cases hliteral : σ.literal? left.pos v with
    | none => exact .quiet .pure
    | some literal =>
      obtain ⟨hpos, hstill, hsettled⟩ := Store.settled_literal? hliteral
      dsimp only [Option.map_some]
      rw [Expr.withFirstArgument?_located]
      cases hcall : right.withFirstArgument? literal with
      | none => exact .quiet .fail
      | some call =>
        refine (hev.expr call p).replace (.call (fun q => ?_) hnil hcall)
        exact .expr hpos (fun ⟨here, _, _⟩ => hstill q here) fun _ => hsettled q
  · exact .quiet .fail

/-! ## Nodes -/

theorem guides_exprNode (e : Expr) :
    (Course.expr e).Guides p (Node.expr ev fuel (e.located p)) (Node.expr ev fuel e) := by
  obtain ⟨place, form⟩ := e
  refine Course.Guides.node fun fits => ?_
  cases form with
  | ident name => exact .quiet (.bind .fiber fun _ => .lift)
  | int | float | str | bool | nil => exact .quiet .pure
  | interpolated parts => exact hev.guides_interpolated parts
  | array items => exact hev.guides_arrayLiteral items
  | hash pairs => exact hev.guides_hashLiteral pairs
  | tuple items => exact (hev.guides_exprs items).before fun _ => .pure
  | range start stop => exact hev.guides_rangeLiteral start stop
  | function lit => exact fits.elim
  | struct body => exact hev.guides_structOf body
  | enum variants => exact hev.guides_enumOf variants
  | prefixed op operand => exact (hev.expr operand _).before fun _ => .lift
  | infixed op left right => exact hev.guides_infixed op left right
  | postfixed op target => exact hev.guides_step op target fits
  | assign op target value => exact hev.guides_assign op target value fits
  | ternary cond yes no => exact hev.guides_ternary cond yes no
  | pipe left right => exact hev.guides_pipe left right fits
  | call callee args => exact hev.guides_call callee args
  | method receiver name args => exact hev.guides_method receiver name args
  | member object name => exact hev.guides_member object name
  | index object key => exact hev.guides_index object key
  | slice object start stop => exact hev.guides_slice object start stop
  | conditional branches otherwise => exact hev.guides_conditional branches otherwise
  | unlessThen cond body otherwise => exact hev.guides_unlessThen cond body otherwise
  | whileLoop cond body => exact hev.guides_whileLoop cond body
  | forever body => exact hev.guides_forever body
  | forLoop init cond update body => exact hev.guides_forLoop init cond update body
  | forEach key value iterable filter body =>
    exact hev.guides_forEach key value iterable filter body
  | arrayOf key value iterable filter output =>
    exact hev.guides_arrayOf ⟨key, value⟩ iterable filter output
  | hashOf key value iterable filter outputKey outputValue =>
    exact hev.guides_hashOf key value iterable filter outputKey outputValue
  | grep name iterable cond => exact hev.guides_grep name iterable cond
  | map name iterable body => exact hev.guides_map name iterable body
  | caseOf subject mode arms otherwise =>
    exact hev.guides_caseOf subject mode arms otherwise
  | tryCatch body catches cleanup => exact hev.guides_tryCatch body catches cleanup
  | «include» path => exact .quiet (quiet_includeUnit path)

theorem guides_stmtNode (s : Stmt) :
    (Course.stmt s).Guides p (Node.stmt ev (s.located p)) (Node.stmt ev s) := by
  obtain ⟨place, form⟩ := s
  refine Course.Guides.node fun fits => ?_
  cases form with
  | bind names values => exact hev.guides_define names values
  | ret values => exact hev.guides_returnValues values
  | expr e => exact hev.expr e _
  | function name lit => exact fits.elim
  | defer call =>
    show Course.Guides _ _ (Control.deferCall (call.located (place.orElse p)) _) _
    rw [show call.located (place.orElse p) = call from fits]
    exact .quiet (quiet_deferCall call)
  | spawn call =>
    show Course.Guides _ _ (Control.spawnCall (call.located (place.orElse p)) _) _
    rw [show call.located (place.orElse p) = call from fits]
    exact .quiet (quiet_spawnCall call)
  | throw value => exact hev.guides_throwValue value
  | «break» => exact .quiet .exit
  | «continue» => exact .quiet .exit
  | block body => exact hev.guides_innerBlock body

end Evaluator.Faithful

theorem faithful_evaluator (fuel : Nat) : (evaluator fuel).Faithful := by
  induction fuel with
  | zero => exact ⟨fun _ _ => .quiet .exit, fun _ _ => .quiet .exit⟩
  | succ fuel ih =>
    refine ⟨fun e p => ?_, fun s p => ?_⟩
    · rw [evaluator_expr, evaluator_expr]
      exact ih.guides_exprNode e
    · rw [evaluator_stmt, evaluator_stmt]
      exact ih.guides_stmtNode s

/-- What goes along a part that is settled around the current position is the same. -/
theorem Course.Guides.eq {t : Tree} {x y : Eval Value} {f : Fiber} {σ : Store}
    (h : (Course.part t).Guides f.pos x y) (ht : t.Settled f.pos) : x f σ = y f σ := by
  have stays := h trivial (fun u hu => List.mem_singleton.mp hu ▸ ht) False False.elim
  exact (stays f σ fun _ => rfl).eq

/-- Where a tree is settled around the current position, it makes no difference to what
its evaluation comes to, with the positions of all errors, whether the nodes without a
position are given those of the nodes around them.  So a node without a position reports
the one around it.  The same goes for sessions, with all of their tasks. -/
theorem unplaced_nodes_report_around (fuel : Nat) (f : Fiber) (σ : Store) :
    (∀ e : Expr, (Tree.expr e).Settled f.pos →
      (evaluator fuel).expr (e.located f.pos) f σ = (evaluator fuel).expr e f σ) ∧
    (∀ s : Stmt, (Tree.stmt s).Settled f.pos →
      (evaluator fuel).stmt (s.located f.pos) f σ = (evaluator fuel).stmt s f σ) ∧
    (∀ (s : Session) (e : Expr), (Tree.expr e).Settled s.fiber.pos →
      s.evalExpr (e.located s.fiber.pos) = s.evalExpr e) := by
  refine ⟨fun e he => ((faithful_evaluator fuel).expr e f.pos).eq he,
    fun s hs => ((faithful_evaluator fuel).stmt s f.pos).eq hs, fun s e he => ?_⟩
  have run : (evaluator Session.fuel).expr (e.located s.fiber.pos) s.fiber s.store =
      (evaluator Session.fuel).expr e s.fiber s.store :=
    ((faithful_evaluator Session.fuel).expr e s.fiber.pos).eq he
  unfold Session.evalExpr Session.exec Session.execWithin
  rw [run]

/-- `[1, 1 / 0]` on line 3, whose parts have no positions. -/
def quotientsExpr : Expr :=
  ⟨.ofLine 3, .array [.bare (.int 1), .bare (.infixed .div (.bare (.int 1)) (.bare (.int 0)))]⟩

theorem unplaced_nodes_report_around_array :
    (Tree.expr quotientsExpr).Settled .unknown ∧
    quotientsExpr.located .unknown = ⟨.ofLine 3, .array [⟨.ofLine 3, .int 1⟩,
      ⟨.ofLine 3, .infixed .div ⟨.ofLine 3, .int 1⟩ ⟨.ofLine 3, .int 0⟩⟩]⟩ ∧
    (Session.ofSetup {}).evalExpr (quotientsExpr.located .unknown) =
      (Session.ofSetup {}).evalExpr quotientsExpr ∧
    ((Session.ofSetup {}).evalExpr quotientsExpr).1 =
      .error (.error ⟨.divideByZero, .ofLine 3⟩) := by
  have two {P : Tree → Prop} {a b : Tree} (ha : P a) (hb : P b) : ∀ t ∈ [a, b], P t :=
    List.forall_mem_cons.mpr ⟨ha, List.forall_mem_cons.mpr ⟨hb, nofun⟩⟩
  have still (n : Int64) (q : Position) : (Tree.expr (.bare (.int n))).StillAt q :=
    .node rfl rfl nofun
  have number (n : Int64) (q : Position) : (Tree.expr (.bare (.int n))).Settled q :=
    .node trivial trivial nofun
  have quotientStill (q : Position) : (Tree.expr
      (.bare (.infixed .div (.bare (.int 1)) (.bare (.int 0))))).StillAt q :=
    .node rfl rfl (two (still 1 q) (still 0 q))
  have quotient (q : Position) : (Tree.expr
      (.bare (.infixed .div (.bare (.int 1)) (.bare (.int 0))))).Settled q :=
    .node trivial (Course.StillAt.steady ⟨rfl, two (still 1 q) (still 0 q)⟩)
      (two (number 1 q) (number 0 q))
  have settled : (Tree.expr quotientsExpr).Settled .unknown :=
    .node trivial (Course.StillAt.steady ⟨rfl, two (still 1 _) (quotientStill _)⟩)
      (two (number 1 _) (quotient _))
  let start := Session.ofSetup {}
  obtain ⟨_, _, hsession⟩ := unplaced_nodes_report_around Session.fuel start.fiber start.store
  exact ⟨settled, rfl, hsession start quotientsExpr settled, rfl⟩

/-- The same, where the 1 has been read from line 5. -/
def movedExpr : Expr :=
  ⟨.ofLine 1, .array [⟨.ofLine 5, .int 1⟩,
    .bare (.infixed .div (.bare (.int 1)) (.bare (.int 0)))]⟩

/-- Nothing moves the current position back from line 5, where the error does not lie. -/
theorem unplaced_node_misreports :
    ((Session.ofSetup {}).evalExpr movedExpr).1 = .error (.error ⟨.divideByZero, .ofLine 5⟩) ∧
    ((Session.ofSetup {}).evalExpr (movedExpr.located .unknown)).1 =
      .error (.error ⟨.divideByZero, .ofLine 1⟩) := ⟨rfl, rfl⟩

end TreeWalk
