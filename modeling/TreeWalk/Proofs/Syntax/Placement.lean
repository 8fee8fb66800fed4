/-
Trees with a position at every node.

A node that has no place in a source text is meant to stand where the node around it
stands.  `located` writes that down: it gives every expression and statement without a
position the one of the nearest node around it that has one.

An evaluation keeps a single current position.  A node with a position makes that the
current one, and no node puts the former one back.  So a node without a position finds
the position of the node around it only if nothing evaluated before it has moved the
current one.  What is evaluated before what is the `Course` of a node; `Settled` says of
a tree that its positions survive until they are needed.
-/
import TreeWalk.Proofs.Syntax.LoopFree

namespace TreeWalk

mutual

/-- The tree with the position of the nearest node around it at every node that has
none; `p` stands around the whole.  Function literals are left as they are. -/
def Expr.located (p : Position) : Expr → Expr
  | ⟨pos, form⟩ => ⟨pos.orElse p, form.located (pos.orElse p)⟩

def Form.located (p : Position) : Form → Form
  | .interpolated parts => .interpolated (TextPart.locatedAll p parts)
  | .array items => .array (Expr.locatedAll p items)
  | .hash pairs => .hash (Expr.locatedPairs p pairs)
  | .tuple items => .tuple (Expr.locatedAll p items)
  | .range start stop => .range (start.located p) (stop.located p)
  | .struct body => .struct (Stmt.locatedAll p body)
  | .enum variants => .enum (Form.locatedVariants p variants)
  | .prefixed op operand => .prefixed op (operand.located p)
  | .infixed op left right => .infixed op (left.located p) (right.located p)
  | .postfixed op target => .postfixed op (target.located p)
  | .assign op target value => .assign op (target.located p) (value.located p)
  | .ternary cond yes no => .ternary (cond.located p) (yes.located p) (no.located p)
  | .pipe left right => .pipe (left.located p) (right.located p)
  | .call callee args => .call (callee.located p) (Expr.locatedAll p args)
  | .method receiver name args => .method (receiver.located p) name (Expr.locatedAll p args)
  | .member object name => .member (object.located p) name
  | .index object key => .index (object.located p) (key.located p)
  | .slice object start stop =>
    .slice (object.located p) (Expr.located? p start) (Expr.located? p stop)
  | .conditional branches otherwise =>
    .conditional (Form.locatedBranches p branches) (Stmt.locatedAll? p otherwise)
  | .unlessThen cond body otherwise =>
    .unlessThen (cond.located p) (Stmt.locatedAll p body) (Stmt.locatedAll? p otherwise)
  | .whileLoop cond body => .whileLoop (cond.located p) (Stmt.locatedAll p body)
  | .forever body => .forever (Stmt.locatedAll p body)
  | .forLoop init cond update body =>
    .forLoop (Stmt.located? p init) (Expr.located? p cond) (Expr.located? p update)
      (Stmt.locatedAll p body)
  | .forEach key value iterable filter body =>
    .forEach key value (iterable.located p) (Expr.located? p filter) (Stmt.locatedAll p body)
  | .arrayOf key value iterable filter output =>
    .arrayOf key value (iterable.located p) (Expr.located? p filter) (output.located p)
  | .hashOf key value iterable filter outputKey outputValue =>
    .hashOf key value (iterable.located p) (Expr.located? p filter) (outputKey.located p)
      (outputValue.located p)
  | .grep name iterable cond => .grep name (iterable.located p) (cond.located p)
  | .map name iterable body => .map name (iterable.located p) (body.located p)
  | .caseOf subject mode arms otherwise =>
    .caseOf (subject.located p) mode (Form.locatedArms p arms) (Stmt.locatedAll? p otherwise)
  | .tryCatch body catches cleanup =>
    .tryCatch (Stmt.locatedAll p body) (Form.locatedClauses p catches)
      (Stmt.locatedAll? p cleanup)
  | form => form

def Stmt.located (p : Position) : Stmt → Stmt
  | ⟨pos, form⟩ => ⟨pos.orElse p, form.located (pos.orElse p)⟩

def StmtForm.located (p : Position) : StmtForm → StmtForm
  | .bind names values => .bind names (Expr.locatedAll p values)
  | .ret values => .ret (Expr.locatedAll p values)
  | .expr e => .expr (e.located p)
  | .defer call => .defer (call.located p)
  | .spawn call => .spawn (call.located p)
  | .throw value => .throw (value.located p)
  | .block body => .block (Stmt.locatedAll p body)
  | form => form

def TextPart.locatedAll (p : Position) : List TextPart → List TextPart
  | [] => []
  | .text s :: rest => .text s :: TextPart.locatedAll p rest
  | .hole e :: rest => .hole (e.located p) :: TextPart.locatedAll p rest

def Expr.locatedAll (p : Position) : List Expr → List Expr
  | [] => []
  | e :: rest => e.located p :: Expr.locatedAll p rest

def Expr.located? (p : Position) : Option Expr → Option Expr
  | none => none
  | some e => some (e.located p)

def Expr.locatedPairs (p : Position) : List (Expr × Expr) → List (Expr × Expr)
  | [] => []
  | (key, value) :: rest => (key.located p, value.located p) :: Expr.locatedPairs p rest

def Stmt.locatedAll (p : Position) : List Stmt → List Stmt
  | [] => []
  | s :: rest => s.located p :: Stmt.locatedAll p rest

def Stmt.located? (p : Position) : Option Stmt → Option Stmt
  | none => none
  | some s => some (s.located p)

def Stmt.locatedAll? (p : Position) : Option (List Stmt) → Option (List Stmt)
  | none => none
  | some body => some (Stmt.locatedAll p body)

def Form.locatedVariants (p : Position) :
    List (String × Option Expr) → List (String × Option Expr)
  | [] => []
  | (name, value) :: rest => (name, Expr.located? p value) :: Form.locatedVariants p rest

def Form.locatedBranches (p : Position) : List (Expr × List Stmt) → List (Expr × List Stmt)
  | [] => []
  | (cond, body) :: rest =>
    (cond.located p, Stmt.locatedAll p body) :: Form.locatedBranches p rest

def Form.locatedArms (p : Position) :
    List (List Expr × List Stmt) → List (List Expr × List Stmt)
  | [] => []
  | (patterns, body) :: rest =>
    (Expr.locatedAll p patterns, Stmt.locatedAll p body) :: Form.locatedArms p rest

def Form.locatedClauses (p : Position) :
    List (CatchPattern × List Stmt) → List (CatchPattern × List Stmt)
  | [] => []
  | (pattern, body) :: rest => (pattern, Stmt.locatedAll p body) :: Form.locatedClauses p rest

end

namespace Expr

theorem locatedAll_eq (p : Position) (items : List Expr) :
    locatedAll p items = items.map (·.located p) := by
  induction items with
  | nil => rfl
  | cons e rest ih => exact congrArg (e.located p :: ·) ih

theorem locatedPairs_eq (p : Position) (pairs : List (Expr × Expr)) :
    locatedPairs p pairs = pairs.map fun pair => (pair.1.located p, pair.2.located p) := by
  induction pairs with
  | nil => rfl
  | cons pair rest ih => exact congrArg ((pair.1.located p, pair.2.located p) :: ·) ih

theorem pos_located (p : Position) (e : Expr) : (e.located p).pos = e.pos.orElse p := by
  obtain ⟨pos, form⟩ := e
  rfl

theorem isCall_located (p : Position) (e : Expr) : (e.located p).isCall = e.isCall := by
  obtain ⟨pos, form⟩ := e
  cases form <;> rfl

end Expr

theorem Stmt.locatedAll_eq (p : Position) (body : Block) :
    locatedAll p body = body.map (·.located p) := by
  induction body with
  | nil => rfl
  | cons s rest ih => exact congrArg (s.located p :: ·) ih

/-- One part of a text, with positions. -/
def TextPart.located (p : Position) : TextPart → TextPart
  | .text s => .text s
  | .hole e => .hole (e.located p)

theorem TextPart.locatedAll_eq (p : Position) (parts : List TextPart) :
    locatedAll p parts = parts.map (·.located p) := by
  induction parts with
  | nil => rfl
  | cons part rest ih =>
    cases part with
    | text s => exact congrArg (.text s :: ·) ih
    | hole e => exact congrArg (.hole (e.located p) :: ·) ih

/-! ## Courses -/

/-- What the evaluation of a node comes to, and in which order. -/
inductive Course where
  | none
  | part (t : Tree)
  /-- Functions are called; they move the current position to places of their own. -/
  | run
  /-- The second follows if the first does not end the evaluation. -/
  | seq (first second : Course)
  | either (one other : Course)
  /-- Any number of turns. -/
  | again (turn : Course)

namespace Course

def expr (e : Expr) : Course := part (.expr e)

def stmt (s : Stmt) : Course := part (.stmt s)

def expr? : Option Expr → Course
  | some e => expr e
  | .none => none

def stmt? : Option Stmt → Course
  | some s => stmt s
  | .none => none

/-- One after the other. -/
def each {α : Type} (course : α → Course) (items : List α) : Course :=
  items.foldr (fun a rest => seq (course a) rest) none

def exprs (items : List Expr) : Course := each expr items

def block (body : Block) : Course := each stmt body

def block? : Option Block → Course
  | some body => block body
  | .none => none

/-- The parts that may be evaluated. -/
def parts : Course → List Tree
  | none | run => []
  | part t => [t]
  | seq first second => first.parts ++ second.parts
  | either one other => one.parts ++ other.parts
  | again turn => turn.parts

/-- No function is called on the way. -/
def calm : Course → Bool
  | none | part _ => true
  | run => false
  | seq first second => first.calm && second.calm
  | either one other => one.calm && other.calm
  | again turn => turn.calm

end Course

/-- What is evaluated to find the place that a target names. -/
def Form.ofTarget : Form → Course
  | .index object key => .seq (.expr object) (.expr key)
  | .member object _ => .expr object
  | _ => .none

def Form.course : Form → Course
  | .interpolated parts => .each (fun
      | .text _ => .none
      | .hole e => .expr e) parts
  | .array items => .exprs items
  | .hash pairs => .each (fun pair => .seq (.expr pair.1) (.expr pair.2)) pairs
  | .tuple items => .exprs items
  | .range start stop => .seq (.expr start) (.expr stop)
  | .struct body => .block body
  | .enum variants => .each (fun variant => .expr? variant.2) variants
  | .prefixed _ operand => .expr operand
  | .infixed _ left right => .seq (.expr left) (.expr right)
  | .postfixed _ target => target.form.ofTarget
  | .assign _ target value => .seq target.form.ofTarget (.expr value)
  | .ternary cond yes no => .seq (.expr cond) (.either (.expr yes) (.expr no))
  -- The value of `left` takes its place in the call as a literal, at its position.
  | .pipe left right => .seq (.expr left) (.expr? (right.withFirstArgument? ⟨left.pos, .nil⟩))
  | .call ⟨_, .ident _⟩ args => .seq (.exprs args) .run
  | .call callee args => .seq (.expr callee) (.seq (.exprs args) .run)
  | .method receiver _ args => .seq (.expr receiver) (.seq (.exprs args) .run)
  | .member object _ => .expr object
  | .index object key => .seq (.expr object) (.expr key)
  | .slice object start stop => .seq (.expr object) (.seq (.expr? start) (.expr? stop))
  | .conditional branches otherwise =>
    branches.foldr (fun branch rest => .seq (.expr branch.1) (.either (.block branch.2) rest))
      (.block? otherwise)
  | .unlessThen cond body otherwise =>
    .seq (.expr cond) (.either (.block? otherwise) (.block body))
  | .whileLoop cond body => .again (.seq (.expr cond) (.block body))
  | .forever body => .again (.block body)
  | .forLoop init cond update body =>
    .seq (.stmt? init) (.again (.seq (.expr? cond) (.seq (.block body) (.expr? update))))
  | .forEach _ _ iterable filter body =>
    .seq (.expr iterable) (.again (.seq (.expr? filter) (.block body)))
  | .arrayOf _ _ iterable filter output =>
    .seq (.expr iterable) (.again (.seq (.expr? filter) (.expr output)))
  | .hashOf _ _ iterable filter outputKey outputValue =>
    .seq (.expr iterable)
      (.again (.seq (.expr? filter) (.seq (.expr outputKey) (.expr outputValue))))
  | .grep _ iterable cond => .seq (.expr iterable) (.again (.expr cond))
  | .map _ iterable body => .seq (.expr iterable) (.again (.expr body))
  | .caseOf subject _ arms otherwise =>
    .seq (.expr subject)
      (arms.foldr (fun arm rest => .seq (.exprs arm.1) (.either (.block arm.2) rest))
        (.block? otherwise))
  | .tryCatch body catches cleanup =>
    .seq (.block body)
      (.seq (catches.foldr (fun clause rest => .either (.block clause.2) rest) .none)
        (.block? cleanup))
  | .ident _ | .int _ | .float _ | .str _ | .bool _ | .nil | .function _ | .include _ => .none

def StmtForm.course : StmtForm → Course
  | .bind _ values => .exprs values
  | .ret values => .exprs values
  | .expr e => .expr e
  | .throw value => .expr value
  | .block body => .block body
  | .function _ _ | .defer _ | .spawn _ | .break | .continue => .none

namespace Tree

def pos : Tree → Position
  | expr e => e.pos
  | stmt s => s.pos

def located (p : Position) : Tree → Tree
  | expr e => expr (e.located p)
  | stmt s => stmt (s.located p)

def course : Tree → Course
  | expr e => e.form.course
  | stmt s => s.form.course

/-- The evaluation of the tree does not move the current position away from `p`: no
node of it has another one, and no functions are called. -/
inductive StillAt (p : Position) : Tree → Prop
  | node {t : Tree} (here : t.pos.orElse p = p) (calm : t.course.calm = true)
      (parts : ∀ part ∈ t.course.parts, StillAt p part) : StillAt p t

end Tree

namespace Course

/-- Some part takes the current position for its own. -/
def Awaits (c : Course) : Prop := ∃ t ∈ c.parts, t.pos.isKnown = false

def StillAt (p : Position) (c : Course) : Prop :=
  c.calm = true ∧ ∀ t ∈ c.parts, t.StillAt p

/-- The current position is still `p` for every part that takes it for its own. -/
def Steady (p : Position) : Course → Prop
  | none | part _ | run => True
  | seq first second =>
    first.Steady p ∧ second.Steady p ∧ (second.Awaits → first.StillAt p)
  | either one other => one.Steady p ∧ other.Steady p
  | again turn => turn.Steady p ∧ (turn.Awaits → turn.StillAt p)

end Course

namespace Tree

/-- What is asked of a node at `p` beyond the course of its evaluation.  There are no
function literals and declarations.  Calls that are put off, or that a task evaluates, are
kept for later, and must not wait for a position until then.  The parts of a target stand
at the position of the assignment, and the literal that a pipe passes on at that of its
left side. -/
def Fits (p : Position) : Tree → Prop
  | expr ⟨_, .function _⟩ => False
  | expr ⟨_, .postfixed _ target⟩ =>
    target.pos.orElse p = p ∨ ¬ target.form.ofTarget.Awaits
  | expr ⟨_, .assign _ target _⟩ =>
    target.pos.orElse p = p ∨ ¬ target.form.ofTarget.Awaits
  | expr ⟨_, .pipe left right⟩ => left.pos.isKnown = true ∨ right.pos.orElse p = p
  | stmt ⟨_, .function _ _⟩ => False
  | stmt ⟨_, .defer call⟩ => call.located p = call
  | stmt ⟨_, .spawn call⟩ => call.located p = call
  | _ => True

/-- Inside of `p`, every node without a position is evaluated while the current position
is that of the node around it. -/
inductive Settled : Position → Tree → Prop
  | node {p : Position} {t : Tree} (fits : t.Fits (t.pos.orElse p))
      (steady : t.course.Steady (t.pos.orElse p))
      (parts : ∀ part ∈ t.course.parts, Settled (t.pos.orElse p) part) : Settled p t

end Tree

/-! ## Courses that are still -/

namespace Course

variable {c d c' d' : Course} {p : Position}

theorem mem_parts_each {α : Type} {course : α → Course} {items : List α} {t : Tree} :
    t ∈ (each course items).parts ↔ ∃ a ∈ items, t ∈ (course a).parts := by
  induction items with
  | nil => simp [each, parts]
  | cons a rest ih =>
    show t ∈ (course a).parts ++ (each course rest).parts ↔ _
    rw [List.mem_append, ih]
    simp only [List.mem_cons, exists_eq_or_imp]

theorem calm_each {α : Type} {course : α → Course} (h : ∀ a, (course a).calm = true)
    (items : List α) : (each course items).calm = true := by
  induction items with
  | nil => rfl
  | cons a rest ih =>
    show ((course a).calm && (each course rest).calm) = true
    rw [h a, ih, Bool.and_self]

theorem awaits_seq : (seq c d).Awaits ↔ c.Awaits ∨ d.Awaits := by
  simp only [Awaits, parts, List.mem_append, or_and_right, exists_or]

theorem awaits_either : (either c d).Awaits ↔ c.Awaits ∨ d.Awaits := awaits_seq

theorem stillAt_seq : (seq c d).StillAt p ↔ c.StillAt p ∧ d.StillAt p := by
  simp only [StillAt, calm, parts, Bool.and_eq_true, List.mem_append, or_imp, forall_and,
    and_and_and_comm]

theorem stillAt_either : (either c d).StillAt p ↔ c.StillAt p ∧ d.StillAt p := stillAt_seq

/-- What does not move the current position can be gone through in any order. -/
theorem StillAt.steady (h : c.StillAt p) : c.Steady p := by
  induction c with
  | none | part _ | run => trivial
  | seq c d ihc ihd =>
    obtain ⟨hc, hd⟩ := stillAt_seq.mp h
    exact ⟨ihc hc, ihd hd, fun _ => hc⟩
  | either c d ihc ihd =>
    obtain ⟨hc, hd⟩ := stillAt_either.mp h
    exact ⟨ihc hc, ihd hd⟩
  | again turn ih => exact ⟨ih h, fun _ => h⟩

/-- One course can take the place of another: it asks for no more, and moves the current
position no further. -/
structure Replaces (p : Position) (c d : Course) : Prop where
  awaits : d.Awaits → c.Awaits
  still : c.StillAt p → d.StillAt p
  steady : c.Steady p → d.Steady p
  settled : (∀ t ∈ c.parts, t.Settled p) → ∀ t ∈ d.parts, t.Settled p

namespace Replaces

theorem refl (p : Position) (c : Course) : Replaces p c c := ⟨id, id, id, id⟩

/-- The first of two parts may be left out. -/
theorem second : Replaces p (.seq c d) d where
  awaits h := awaits_seq.mpr (.inr h)
  still h := (stillAt_seq.mp h).2
  steady h := h.2.1
  settled h t ht := h t (List.mem_append_right _ ht)

theorem one : Replaces p (.either c d) c where
  awaits h := awaits_either.mpr (.inl h)
  still h := (stillAt_either.mp h).1
  steady h := h.1
  settled h t ht := h t (List.mem_append_left _ ht)

theorem other : Replaces p (.either c d) d where
  awaits h := awaits_either.mpr (.inr h)
  still h := (stillAt_either.mp h).2
  steady h := h.2
  settled h t ht := h t (List.mem_append_right _ ht)

theorem seq (hc : Replaces p c c') (hd : Replaces p d d') :
    Replaces p (.seq c d) (.seq c' d') where
  awaits h := awaits_seq.mpr ((awaits_seq.mp h).imp hc.awaits hd.awaits)
  still h := stillAt_seq.mpr ((stillAt_seq.mp h).imp hc.still hd.still)
  steady h := ⟨hc.steady h.1, hd.steady h.2.1, fun ha => hc.still (h.2.2 (hd.awaits ha))⟩
  settled h t ht := by
    rcases List.mem_append.mp ht with ht | ht
    · exact hc.settled (fun u hu => h u (List.mem_append_left _ hu)) t ht
    · exact hd.settled (fun u hu => h u (List.mem_append_right _ hu)) t ht

/-- An expression can take the place of another one at the same position. -/
theorem expr {first second : Expr} (hpos : second.pos = first.pos)
    (hstill : (Tree.expr first).StillAt p → (Tree.expr second).StillAt p)
    (hsettled : (Tree.expr first).Settled p → (Tree.expr second).Settled p) :
    Replaces p (.expr first) (.expr second) where
  awaits := by
    rintro ⟨t, ht, hunknown⟩
    obtain rfl := List.mem_singleton.mp ht
    refine ⟨.expr first, List.mem_singleton.mpr rfl, ?_⟩
    rw [← hunknown]
    exact congrArg Position.isKnown hpos.symm
  still h := by
    refine ⟨rfl, fun t ht => ?_⟩
    obtain rfl := List.mem_singleton.mp ht
    exact hstill (h.2 _ (List.mem_singleton.mpr rfl))
  steady _ := trivial
  settled h t ht :=
    List.mem_singleton.mp ht ▸ hsettled (h _ (List.mem_singleton.mpr rfl))

/-- A call can take the place of another one that differs from it in its first
argument. -/
theorem call {first second right call call' : Expr}
    (h : ∀ q, Replaces q (.expr first) (.expr second))
    (hcall : right.withFirstArgument? first = some call)
    (hcall' : right.withFirstArgument? second = some call') :
    Replaces p (.expr call) (.expr call') := by
  -- The two nodes, with the courses of their forms.
  have node : ∀ pos form form', form.course.calm = false →
      (∀ q, (Tree.expr ⟨pos, form'⟩).Fits q) →
      (∀ q, Replaces q form.course form'.course) →
      Replaces p (.expr ⟨pos, form⟩) (.expr ⟨pos, form'⟩) := by
    intro pos form form' hcalm fits hcourse
    refine expr rfl (fun ⟨_, calm, _⟩ => ?_) fun ⟨_, steady, parts⟩ => ?_
    · exact absurd (hcalm.symm.trans calm) Bool.false_ne_true
    · exact .node (fits _) ((hcourse _).steady steady) ((hcourse _).settled parts)
  have arguments : ∀ args q, Replaces q (.seq (exprs (first :: args)) .run)
      (.seq (exprs (second :: args)) .run) := fun args q =>
    ((h q).seq (refl q (exprs args))).seq (refl q .run)
  obtain ⟨pos, form⟩ := right
  cases form with
  | call callee args =>
    obtain rfl := Option.some.inj hcall
    obtain rfl := Option.some.inj hcall'
    obtain ⟨place, form⟩ := callee
    cases form with
    | ident name => exact node pos _ _ (Bool.and_false _) (fun _ => trivial) (arguments args)
    | _ =>
      exact node pos _ _ (Bool.and_false _) (fun _ => trivial) fun q =>
        (refl q _).seq (arguments args q)
  | method receiver name args =>
    obtain rfl := Option.some.inj hcall
    obtain rfl := Option.some.inj hcall'
    exact node pos _ _ (Bool.and_false _) (fun _ => trivial) fun q =>
      (refl q _).seq (arguments args q)
  | _ => cases hcall

end Replaces

end Course

/-! ## Literals of values -/

namespace Store

open TreeWalk.Tree

variable {σ : Store} {pos p q : Position} {v : Value}

theorem course_of_isLiteral {form : Form} (h : form.isLiteral = true) :
    form.course.calm = true ∧
      ∀ t ∈ form.course.parts, ∃ e, t = .expr e ∧ Part.ofExpr e ∈ form.parts := by
  cases form with
  | array items =>
    refine ⟨Course.calm_each (fun _ => rfl) items, fun t ht => ?_⟩
    obtain ⟨e, he, ht⟩ := Course.mem_parts_each.mp ht
    exact ⟨e, List.mem_singleton.mp ht, Part.mem_ofExprs he⟩
  | hash pairs =>
    refine ⟨Course.calm_each (fun _ => rfl) pairs, fun t ht => ?_⟩
    obtain ⟨pair, hpair, ht⟩ := Course.mem_parts_each.mp ht
    rcases List.mem_cons.mp ht with rfl | ht
    · exact ⟨pair.1, rfl, List.mem_flatMap.mpr ⟨pair, hpair, List.mem_cons_self⟩⟩
    · obtain rfl := List.mem_singleton.mp ht
      exact ⟨pair.2, rfl, List.mem_flatMap.mpr
        ⟨pair, hpair, List.mem_cons_of_mem _ List.mem_cons_self⟩⟩
  | int | float | str | bool | nil => exact ⟨rfl, fun t ht => nomatch ht⟩
  | _ => cases h

/-- The literal of a value is all at one position, and moves the current one no further
than there. -/
theorem settled_literal? {e : Expr} (h : σ.literal? pos v = some e) : e.pos = pos ∧
    (∀ p, pos.orElse p = p → (expr e).StillAt p) ∧ ∀ p, (expr e).Settled p := by
  refine literal?_induction (Q := fun e => e.pos = pos ∧
    (∀ p, pos.orElse p = p → (expr e).StillAt p) ∧ ∀ p, (expr e).Settled p)
    (fun e hpos hliteral hparts => ?_) h
  obtain ⟨calm, course⟩ := course_of_isLiteral hliteral
  have part : ∀ t ∈ (expr e).course.parts, (∀ p, pos.orElse p = p → t.StillAt p) ∧
      ∀ p, t.Settled p := by
    intro t ht
    obtain ⟨x, rfl, hx⟩ := course t ht
    obtain ⟨y, heq, hy⟩ := hparts _ hx
    obtain rfl := Tree.expr.inj (congrArg Part.tree heq)
    exact hy.2
  have fits : ∀ q, (expr e).Fits q := by
    obtain ⟨place, form⟩ := e
    intro q
    cases form with
    | int | float | str | bool | nil | array | hash => trivial
    | _ => cases hliteral
  refine ⟨hpos, fun p hp => ?_, fun p => ?_⟩
  · have here : (expr e).pos.orElse p = p := by rwa [show (expr e).pos = pos from hpos]
    exact .node here calm fun t ht => (part t ht).1 p hp
  · have hplace : pos.orElse (pos.orElse p) = pos.orElse p := Position.orElse_orElse pos p
    refine .node (fits _) (Course.StillAt.steady ⟨calm, fun t ht => ?_⟩) fun t ht => (part t ht).2 _
    rw [show (expr e).pos = pos from hpos]
    exact (part t ht).1 _ hplace

theorem mapM_map_eq {α β γ : Type} (g : β → γ) (f : α → Option β) (items : List α) :
    items.mapM (fun a => (f a).map g) = (items.mapM f).map (·.map g) := by
  induction items with
  | nil => rfl
  | cons a rest ih =>
    rw [List.mapM_cons, List.mapM_cons, ih]
    cases f a with
    | none => rfl
    | some b =>
      cases rest.mapM f with
      | none => rfl
      | some others => rfl

theorem literalForm?_located (inner : Value → Option Expr) :
    σ.literalForm? (fun w => (inner w).map (·.located p)) v =
      (σ.literalForm? inner v).map (·.located p) := by
  unfold literalForm?
  split
  · cases Nullable.get? _ <;> rfl
  · cases Nullable.get? _ <;> rfl
  · cases Nullable.get? _ <;> rfl
  · split <;> rfl
  · rfl
  · next id =>
    rw [mapM_map_eq (Expr.located p)]
    cases ((σ.array id).toList.mapM inner) with
    | none => rfl
    | some items => exact congrArg (some ∘ Form.array) (Expr.locatedAll_eq p items).symm
  · next id =>
    have entry (e : Entry) : (do
        return (← (inner e.key).map (·.located p), ← (inner e.value).map (·.located p)) :
          Option (Expr × Expr)) = Option.map (fun pair => (pair.1.located p, pair.2.located p))
        (do return (← inner e.key, ← inner e.value)) := by
      cases inner e.key with
      | none => rfl
      | some key => cases inner e.value <;> rfl
    rw [funext entry, mapM_map_eq]
    generalize List.mapM (m := Option) _ (σ.dict id).toList = pairs?
    cases pairs? with
    | none => rfl
    | some pairs => exact congrArg (some ∘ Form.hash) (Expr.locatedPairs_eq p pairs).symm
  · rfl

/-- The literal of a value at the position that is found around it. -/
theorem literal?_located (pos p : Position) (v : Value) :
    σ.literal? (pos.orElse p) v = (σ.literal? pos v).map (·.located p) := by
  have node : ∀ p (inner : Value → Option Expr) v,
      (σ.literalForm? (fun w => (inner w).map (·.located (pos.orElse p))) v).map
          (Expr.mk (pos.orElse p)) =
        ((σ.literalForm? inner v).map (Expr.mk pos)).map (·.located p) := by
    intro p inner v
    rw [literalForm?_located]
    cases σ.literalForm? inner v <;> rfl
  have within : ∀ fuel p v, σ.literalWithin? (pos.orElse p) fuel v =
      (σ.literalWithin? pos fuel v).map (·.located p) := by
    intro fuel
    induction fuel with
    | zero => exact fun p v => node p (fun _ => none) v
    | succ fuel ih =>
      intro p v
      have inner : σ.literalWithin? (pos.orElse p) fuel =
          fun w => (σ.literalWithin? pos fuel w).map (·.located (pos.orElse p)) := by
        funext w
        rw [← ih, Position.orElse_orElse]
      show (σ.literalForm? (σ.literalWithin? (pos.orElse p) fuel) v).map _ = _
      rw [inner]
      exact node p _ v
  exact within _ p v

end Store

namespace Expr

theorem withFirstArgument?_located (p : Position) (e first : Expr) :
    (e.located p).withFirstArgument? (first.located (e.pos.orElse p)) =
      (e.withFirstArgument? first).map (·.located p) := by
  obtain ⟨pos, form⟩ := e
  cases form <;> rfl

end Expr
end TreeWalk
