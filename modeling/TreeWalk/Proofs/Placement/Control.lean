/-
Control follows its courses.

A branch that is not taken is an alternative of the course, and what a loop does again
is a turn of it.  A `break` or a `continue` may leave out the rest of a turn, and an
error the rest of a `try`; the courses allow for that.
-/
import TreeWalk.Proofs.Placement.Expression

namespace TreeWalk

open Eval

namespace Evaluator.Faithful

variable {ev : Evaluator} {p pos : Position} {fuel : Nat} (hev : ev.Faithful)
include hev

/-! ## Branches -/

theorem guides_conditional (branches : List (Expr × Block)) (otherwise : Option Block) :
    (Form.conditional branches otherwise).course.Guides p
      (Control.conditional ev (Stmt.locatedAll? p otherwise) (Form.locatedBranches p branches))
      (Control.conditional ev otherwise branches) := by
  induction branches with
  | nil => exact hev.guides_innerBlockOr otherwise .nothing
  | cons branch rest ih =>
    obtain ⟨cond, body⟩ := branch
    refine (hev.guides_test cond).seq fun holds => ?_
    split
    · exact .one (hev.guides_innerBlock body)
    · exact .other ih

theorem guides_unlessThen (cond : Expr) (body : Block) (otherwise : Option Block) :
    (Form.unlessThen cond body otherwise).course.Guides p
      (Control.unlessThen ev (cond.located p) (Stmt.locatedAll p body)
        (Stmt.locatedAll? p otherwise))
      (Control.unlessThen ev cond body otherwise) := by
  refine (hev.guides_test cond).seq fun holds => ?_
  split
  · exact .one (hev.guides_innerBlockOr otherwise .nothing)
  · exact .other (hev.guides_innerBlock body)

theorem guides_anyAgrees (mode : CaseMode) (subject : Value) (patterns : List Expr) :
    (Course.exprs patterns).Guides p
      (Control.anyAgrees ev mode subject pos (Expr.locatedAll p patterns))
      (Control.anyAgrees ev mode subject pos patterns) := by
  induction patterns with
  | nil => exact .quiet .pure
  | cons pattern rest ih =>
    refine (hev.expr pattern p).seq fun candidate => .after .lift fun agrees => ?_
    split
    · exact .quiet .pure
    · exact ih

theorem guides_caseOf (subject : Expr) (mode : CaseMode) (arms : List (List Expr × Block))
    (otherwise : Option Block) :
    (Form.caseOf subject mode arms otherwise).course.Guides p
      (Control.caseOf ev (subject.located p) mode (Form.locatedArms p arms)
        (Stmt.locatedAll? p otherwise) pos)
      (Control.caseOf ev subject mode arms otherwise pos) := by
  refine (hev.expr subject p).seq fun v => ?_
  induction arms with
  | nil => exact hev.guides_innerBlockOr otherwise v
  | cons arm rest ih =>
    obtain ⟨patterns, body⟩ := arm
    refine (hev.guides_anyAgrees mode v patterns).seq fun found => ?_
    split
    · exact .one (hev.guides_innerBlock body)
    · exact .other ih

theorem guides_handle (message : String) (name? : Option String) (body : Block) :
    (Course.block body).Guides p (Control.handle ev message name? (Stmt.locatedAll p body))
      (Control.handle ev message name? body) := by
  refine Course.Guides.withChildScope (.after .bindName fun _ => ?_)
  cases name? with
  | none => exact hev.guides_block body
  | some name => exact .after .bindName fun _ => hev.guides_block body

theorem guides_catchClauses (message : String) (result : Except Exit Value)
    (clauses : List (CatchPattern × Block)) :
    (clauses.foldr (fun clause rest => Course.either (.block clause.2) rest) .none).Guides p
      (Control.catchClauses ev message result (Form.locatedClauses p clauses))
      (Control.catchClauses ev message result clauses) := by
  induction clauses with
  | nil => exact .quiet .pure
  | cons clause rest ih =>
    obtain ⟨pattern, body⟩ := clause
    refine .after .fiber fun f => .after .read fun name? => ?_
    cases name? with
    | some name? => exact .one (hev.guides_handle message name? body).attempt
    | none => exact .other ih

theorem guides_tryCatch (body : Block) (catches : List (CatchPattern × Block))
    (cleanup : Option Block) :
    (Form.tryCatch body catches cleanup).course.Guides p
      (Control.tryCatch ev (Stmt.locatedAll p body) (Form.locatedClauses p catches)
        (Stmt.locatedAll? p cleanup))
      (Control.tryCatch ev body catches cleanup) := by
  refine (hev.guides_innerBlock body).attempt.seq fun tried => ?_
  cases cleanup with
  | none =>
    cases Control.caughtMessage? tried with
    | none => exact .quiet .ofResult
    | some message =>
      exact (hev.guides_catchClauses message tried catches).seq fun _ => .quiet .ofResult
  | some block =>
    cases Control.caughtMessage? tried
    case' none => refine .skip ?_
    case' some message => refine (hev.guides_catchClauses message tried catches).seq fun _ => ?_
    all_goals
      refine (hev.guides_innerBlock block).attempt.before fun ended => ?_
      split
      · exact .exit
      · exact .ofResult

/-! ## Loops -/

omit hev in
theorem quiet_goesOn (r : Except Exit Value) : Quiet (Loop.goesOn r) := by
  unfold Loop.goesOn
  split
  · exact .pure
  · exact .pure
  · exact .pure
  · exact .exit

theorem guides_body (body : Block) {next : Bool → Eval (Unit ⊕ Value)} (h : ∀ b, Quiet (next b)) :
    (Course.block body).Guides p
      (do next (← Loop.goesOn (← attempt (ev.innerBlock (Stmt.locatedAll p body)))))
      (do next (← Loop.goesOn (← attempt (ev.innerBlock body)))) :=
  (hev.guides_innerBlock body).attempt.before fun r => .bind (quiet_goesOn r) h

omit hev in
theorem quiet_turn (goesOn : Bool) : Quiet (do
    if goesOn then
      yieldTurn
      return .inl ()
    else return .inr .nothing : Eval (Unit ⊕ Value)) := by
  split
  · exact .bind .yieldTurn fun _ => .pure
  · exact .pure

theorem guides_whileLoop (cond : Expr) (body : Block) :
    (Form.whileLoop cond body).course.Guides p
      (Loop.whileLoop ev fuel (cond.located p) (Stmt.locatedAll p body))
      (Loop.whileLoop ev fuel cond body) := by
  refine .again (fun _ => (hev.guides_test cond).seq fun holds => ?_) fuel ()
  split
  · exact hev.guides_body body quiet_turn
  · exact .quiet .pure

theorem guides_forever (body : Block) :
    (Form.forever body).course.Guides p (Loop.forever ev fuel (Stmt.locatedAll p body))
      (Loop.forever ev fuel body) :=
  .again (fun _ => hev.guides_body body quiet_turn) fuel ()

theorem guides_forLoop (init : Option Stmt) (cond update : Option Expr) (body : Block) :
    (Form.forLoop init cond update body).course.Guides p
      (Loop.forLoop ev fuel (Stmt.located? p init) (Expr.located? p cond) (Expr.located? p update)
        (Stmt.locatedAll p body))
      (Loop.forLoop ev fuel init cond update body) := by
  refine Course.Guides.withChildScope ?_
  cases init
  case' none => refine .skip ?_
  case' some s => refine (hev.stmt s p).seq fun _ => ?_
  all_goals
    refine .again (fun _ => (hev.guides_passes cond).seq fun holds => ?_) fuel ()
    split
    · refine (hev.guides_innerBlock body).attempt.seq fun r => .after (quiet_goesOn r) fun b => ?_
      split
      · cases update with
        | none => exact .quiet (.bind .yieldTurn fun _ => .pure)
        | some e => exact (hev.expr e p).before fun _ => .bind .yieldTurn fun _ => .pure
      · exact .quiet .pure
    · exact .quiet .pure

omit hev in
theorem quiet_next (index : Nat) (elements : Elements) : Quiet (Elements.next index elements) := by
  unfold Elements.next
  split
  · exact .pure
  · exact .pure
  · split
    · exact .pure
    · exact .pure
  · refine .bind .await fun v? => ?_
    split
    · exact .pure
    · exact .pure

omit hev in
theorem quiet_bind (names : LoopNames) (bindsKey : Bool) (index : Nat) (e : Element) :
    Quiet (names.bind bindsKey index e) := by
  unfold LoopNames.bind
  split
  · exact .bind .bindName fun _ => .bind .bindName fun _ => .bindName
  · exact .bind .bindName fun _ => .bindName

/-- A loop over elements goes as its steps go. -/
theorem guides_overElements {β : Type} {names : LoopNames} {start : β} {turn : Course}
    {step step' : Bool → β → Element → Eval (β ⊕ β)} (iterable : Expr)
    (h : ∀ bindsKey b e, turn.Guides p (step bindsKey b e) (step' bindsKey b e)) :
    (Course.seq (.expr iterable) (.again turn)).Guides p
      (Loop.overElements ev fuel names (iterable.located p) pos start step)
      (Loop.overElements ev fuel names iterable pos start step') := by
  refine (hev.expr iterable p).seq fun v => .after .lift fun source => ?_
  refine .again (fun state => ?_) fuel _
  obtain ⟨index, elements, b⟩ := state
  refine .after (quiet_next index elements) fun next? => ?_
  cases next? with
  | none => exact .quiet .pure
  | some next =>
    obtain ⟨e, rest⟩ := next
    have turned : turn.Guides p
        (withChildScope do
          names.bind source.bindsKey index e
          step source.bindsKey b e)
        (withChildScope do
          names.bind source.bindsKey index e
          step' source.bindsKey b e) :=
      .withChildScope (.after (quiet_bind names _ index e) fun _ => h _ b e)
    refine turned.before fun result => ?_
    cases result with
    | inl b => exact .bind .yieldTurn fun _ => .pure
    | inr b => exact .pure

theorem guides_forEach (key : Option String) (value : String) (iterable : Expr)
    (filter : Option Expr) (body : Block) :
    (Form.forEach key value iterable filter body).course.Guides p
      (Loop.forEach ev fuel ⟨key, value⟩ (iterable.located p) (Expr.located? p filter)
        (Stmt.locatedAll p body) pos)
      (Loop.forEach ev fuel ⟨key, value⟩ iterable filter body pos) := by
  refine (hev.guides_overElements iterable fun bindsKey results e => ?_).before fun _ => .change
  refine Course.Guides.before (Course.Guides.attempt ?_) fun turn => ?_
  · refine (hev.guides_passes filter).seq fun holds => ?_
    split
    · exact (hev.guides_block body).before fun _ => .pure
    · exact .quiet .pure
  · split
    · exact .pure
    · exact .pure
    · exact .pure
    · exact .pure
    · exact .exit

theorem guides_arrayOf (names : LoopNames) (iterable : Expr) (filter : Option Expr)
    (output : Expr) :
    (Course.seq (.expr iterable) (.again (.seq (.expr? filter) (.expr output)))).Guides p
      (Loop.arrayOf ev fuel names (iterable.located p) (Expr.located? p filter)
        (output.located p) pos)
      (Loop.arrayOf ev fuel names iterable filter output pos) := by
  refine (hev.guides_overElements iterable fun bindsKey results e => ?_).before fun _ => .change
  refine (hev.guides_passes filter).seq fun holds => ?_
  split
  · exact (hev.expr output p).before fun _ => .pure
  · exact .quiet .pure

theorem guides_hashOf (key : Option String) (value : String) (iterable : Expr)
    (filter : Option Expr) (outputKey outputValue : Expr) :
    (Form.hashOf key value iterable filter outputKey outputValue).course.Guides p
      (Loop.hashOf ev fuel ⟨key, value⟩ (iterable.located p) (Expr.located? p filter)
        (outputKey.located p) (outputValue.located p) pos)
      (Loop.hashOf ev fuel ⟨key, value⟩ iterable filter outputKey outputValue pos) := by
  refine (hev.guides_overElements iterable fun bindsKey d e => ?_).before fun _ => .change
  refine (hev.guides_passes filter).seq fun holds => ?_
  split
  · refine (hev.expr outputKey p).seq fun key => .after .lift fun hash => ?_
    exact (hev.expr outputValue p).before fun _ => .pure
  · exact .quiet .pure

theorem guides_grep (name : String) (iterable cond : Expr) :
    (Form.grep name iterable cond).course.Guides p
      (Loop.grep ev fuel name (iterable.located p) (cond.located p) pos)
      (Loop.grep ev fuel name iterable cond pos) := by
  refine (hev.guides_overElements iterable fun bindsKey kept e => ?_).before fun _ => .change
  refine (hev.guides_test cond).before fun holds => ?_
  split
  · exact .pure
  · exact .pure

theorem guides_map (name : String) (iterable body : Expr) :
    (Form.map name iterable body).course.Guides p
      (Loop.map ev fuel name (iterable.located p) (body.located p) pos)
      (Loop.map ev fuel name iterable body pos) := by
  refine (hev.guides_overElements iterable fun bindsKey results e => ?_).before fun _ => .change
  exact (hev.expr body p).before fun _ => .pure

/-! ## Modules and statements -/

omit hev in
theorem quiet_evaluateUnit (path : String) : Quiet (Control.evaluateUnit ev path pos) := by
  refine .bind .read fun program? => ?_
  cases program? with
  | none => exact .fail
  | some program =>
    exact .bind .change fun _ => .bind .fiber fun _ => .bind .withFiber fun _ => .pure

omit hev in
theorem quiet_modify (g : ModuleCache → ModuleCache) : Quiet (modify g : Eval PUnit) := by
  show Quiet (change fun σ => (PUnit.unit, { σ with modules := g σ.modules }))
  exact .change

omit hev in
theorem quiet_includeWith {path : String} {cyclic : Exit} {x : Eval (Except Exit Module)}
    (hx : Quiet x) : Quiet (ModuleCache.includeWith path cyclic x) := by
  refine .bind .read fun cache => ?_
  split
  · exact .pure
  · split
    · exact .pure
    · refine .bind .update fun _ => .bind hx fun result => .bind (quiet_modify _) fun _ => ?_
      split
      · exact .bind (quiet_modify _) fun _ => .pure
      · exact .pure

omit hev in
theorem quiet_includeUnit (path : String) : Quiet (Control.includeUnit ev path pos) := by
  refine .bind .read fun programs => ?_
  split
  · refine .bind .fiber fun f => .bind .await fun _ => ?_
    refine .bind (quiet_includeWith (.protect (quiet_evaluateUnit path))) fun r => ?_
    exact .bind .update fun _ => .bind .ofResult fun _ => .pure
  · exact .fail

theorem guides_throwValue (value : Expr) :
    (StmtForm.throw value).course.Guides p (Control.throwValue ev (value.located p) pos)
      (Control.throwValue ev value pos) := by
  refine (hev.expr value p).before fun v => ?_
  split
  · exact .fail
  · exact .fail

theorem guides_returnValues (values : List Expr) :
    (StmtForm.ret values).course.Guides p (Node.returnValues ev (Expr.locatedAll p values))
      (Node.returnValues ev values) := by
  match values with
  | [] => exact .quiet .exit
  | [single] => exact .seq (hev.expr single p) fun _ => .quiet .exit
  | first :: second :: rest =>
    exact (hev.guides_exprs (first :: second :: rest)).before fun _ => .exit

omit hev in
theorem quiet_deferCall (call : Expr) : Quiet (Control.deferCall call pos) := by
  unfold Control.deferCall
  split
  · refine .bind .fiber fun f => .bind .read fun frame? => ?_
    cases frame? with
    | some frame => exact .bind .update fun _ => .pure
    | none => exact .fail
  · exact .fail

omit hev in
theorem quiet_spawnCall (call : Expr) : Quiet (Control.spawnCall call pos) := by
  unfold Control.spawnCall
  split
  · exact .bind .fiber fun f => .bind .update fun _ => .pure
  · exact .fail

end Evaluator.Faithful
end TreeWalk
