/-
What a tree lets out.

A `break` or `continue` ends at the body of the loop around it, and `return` at
the function around it.  What is left of them can leave the tree.  A call that is put
off is kept by the function around it, so it leaves the tree as well.  All of them
follow from what the immediate parts of a node are, so the parts are listed once, each
with whether it is a loop's body.

Function literals have no parts here, and neither have `defer` and `spawn`: what
lies inside of them is evaluated elsewhere, by a call that ends at its own
boundary.
-/
import Mathlib.Tactic.Tauto
import TreeWalk.Error
import TreeWalk.Store.Literal

namespace TreeWalk

/-- An expression or a statement. -/
inductive Tree where
  | expr (e : Expr)
  | stmt (s : Stmt)

/-- An immediate part of a node. -/
structure Part where
  tree : Tree
  /-- The part belongs to the body of a loop or to the filter of a `for` over
  elements, where `break` and `continue` end. -/
  inLoop : Bool

namespace Part

def ofExpr (e : Expr) : Part := ⟨.expr e, false⟩

def ofExprs (items : List Expr) : List Part := items.map ofExpr

def ofExpr? (e : Option Expr) : List Part := ofExprs e.toList

def ofStmt (s : Stmt) : Part := ⟨.stmt s, false⟩

def ofBlock (body : Block) : List Part := body.map ofStmt

def ofBlock? (body : Option Block) : List Part := ofBlock (body.getD [])

/-- A statement of the body of a loop. -/
def inBody (s : Stmt) : Part := ⟨.stmt s, true⟩

def ofBody (body : Block) : List Part := body.map inBody

/-- The filter of a `for` over elements. -/
def ofFilter (filter : Option Expr) : List Part := filter.toList.map (⟨.expr ·, true⟩)

def ofText : TextPart → List Part
  | .text _ => []
  | .hole e => [ofExpr e]

variable {e : Expr} {s : Stmt}

theorem mem_ofExprs {items : List Expr} (h : e ∈ items) : ofExpr e ∈ ofExprs items :=
  List.mem_map_of_mem h

theorem mem_ofExpr? {e? : Option Expr} (h : e ∈ e?) : ofExpr e ∈ ofExpr? e? :=
  mem_ofExprs (Option.mem_toList.mpr h)

theorem mem_ofBlock {body : Block} (h : s ∈ body) : ofStmt s ∈ ofBlock body :=
  List.mem_map_of_mem h

theorem mem_ofBlock? {body : Option Block} (h : s ∈ body.getD []) : ofStmt s ∈ ofBlock? body :=
  mem_ofBlock h

theorem mem_ofBody {body : Block} (h : s ∈ body) : inBody s ∈ ofBody body := List.mem_map_of_mem h

theorem mem_ofFilter {filter : Option Expr} (h : e ∈ filter) : ⟨.expr e, true⟩ ∈ ofFilter filter :=
  List.mem_map.mpr ⟨e, Option.mem_toList.mpr h, rfl⟩

end Part

open TreeWalk.Part

namespace Form

/-- The parts of an expression that its evaluation comes to. -/
def parts : Form → List Part
  | .interpolated texts => texts.flatMap ofText
  | .array items => ofExprs items
  | .hash pairs => pairs.flatMap fun entry => ofExprs [entry.1, entry.2]
  | .tuple items => ofExprs items
  | .range start stop => ofExprs [start, stop]
  | .struct body => ofBlock body
  | .enum variants => variants.flatMap fun variant => ofExpr? variant.2
  | .prefixed _ operand => ofExprs [operand]
  | .infixed _ left right => ofExprs [left, right]
  | .postfixed _ target => ofExprs [target]
  | .assign _ target value => ofExprs [target, value]
  | .ternary cond yes no => ofExprs [cond, yes, no]
  | .pipe left right => ofExprs [left, right]
  | .call callee args => ofExprs (callee :: args)
  | .method receiver _ args => ofExprs (receiver :: args)
  | .member object _ => ofExprs [object]
  | .index object key => ofExprs [object, key]
  | .slice object start stop => ofExpr object :: (ofExpr? start ++ ofExpr? stop)
  | .conditional branches otherwise =>
    (branches.flatMap fun branch => ofExpr branch.1 :: ofBlock branch.2) ++ ofBlock? otherwise
  | .unlessThen cond body otherwise => ofExpr cond :: (ofBlock body ++ ofBlock? otherwise)
  | .whileLoop cond body => ofExpr cond :: ofBody body
  | .forever body => ofBody body
  | .forLoop init cond update body =>
    ofBlock init.toList ++ (ofExpr? cond ++ (ofExpr? update ++ ofBody body))
  | .forEach _ _ iterable filter body =>
    ofExpr iterable :: (ofFilter filter ++ ofBody body)
  | .arrayOf _ _ iterable filter output => ofExpr iterable :: (ofExpr? filter ++ ofExprs [output])
  | .hashOf _ _ iterable filter outputKey outputValue =>
    ofExpr iterable :: (ofExpr? filter ++ ofExprs [outputKey, outputValue])
  | .grep _ iterable cond => ofExprs [iterable, cond]
  | .map _ iterable body => ofExprs [iterable, body]
  | .caseOf subject _ arms otherwise =>
    ofExpr subject ::
      ((arms.flatMap fun arm => ofExprs arm.1 ++ ofBlock arm.2) ++ ofBlock? otherwise)
  | .tryCatch body catches cleanup =>
    ofBlock body ++ ((catches.flatMap fun clause => ofBlock clause.2) ++ ofBlock? cleanup)
  | .ident _ | .int _ | .float _ | .str _ | .bool _ | .nil | .function _ | .include _ => []

/-- The forms of the literals of values. -/
def isLiteral : Form → Bool
  | .int _ | .float _ | .str _ | .bool _ | .nil | .array _ | .hash _ => true
  | _ => false

/-! Where the parts of the larger forms stand.  Proofs about all forms go through these
names, so that the order of the parts stays here. -/

section Parts

variable {key : Option String} {value : String} {iterable subject cond output outputKey : Expr}
  {mode : CaseMode} {start stop filter : Option Expr} {body : Block}
  {otherwise cleanup : Option Block}
  {e : Expr} {s : Stmt}

theorem mem_interpolated {texts : List TextPart} (h : .hole e ∈ texts) :
    ofExpr e ∈ (interpolated texts).parts :=
  List.mem_flatMap.mpr ⟨.hole e, h, List.mem_singleton.mpr rfl⟩

theorem mem_hash_key {entries : List (Expr × Expr)} {entry : Expr × Expr} (h : entry ∈ entries) :
    ofExpr entry.1 ∈ (hash entries).parts :=
  List.mem_flatMap.mpr ⟨entry, h, mem_ofExprs List.mem_cons_self⟩

theorem mem_hash_value {entries : List (Expr × Expr)} {entry : Expr × Expr} (h : entry ∈ entries) :
    ofExpr entry.2 ∈ (hash entries).parts :=
  List.mem_flatMap.mpr ⟨entry, h, mem_ofExprs (List.mem_cons_of_mem _ List.mem_cons_self)⟩

theorem mem_enum {variants : List (String × Option Expr)} {variant : String × Option Expr}
    (h : variant ∈ variants) (he : e ∈ variant.2) : ofExpr e ∈ (enum variants).parts :=
  List.mem_flatMap.mpr ⟨variant, h, mem_ofExpr? he⟩

theorem mem_slice_start (h : e ∈ start) : ofExpr e ∈ (slice subject start stop).parts :=
  List.mem_cons_of_mem _ (List.mem_append_left _ (mem_ofExpr? h))

theorem mem_slice_stop (h : e ∈ stop) : ofExpr e ∈ (slice subject start stop).parts :=
  List.mem_cons_of_mem _ (List.mem_append_right _ (mem_ofExpr? h))

theorem mem_conditional_cond {branches : List (Expr × Block)} {branch : Expr × Block}
    (h : branch ∈ branches) : ofExpr branch.1 ∈ (conditional branches otherwise).parts :=
  List.mem_append_left _ (List.mem_flatMap.mpr ⟨branch, h, List.mem_cons_self⟩)

theorem mem_conditional_body {branches : List (Expr × Block)} {branch : Expr × Block}
    (h : branch ∈ branches) (hs : s ∈ branch.2) :
    ofStmt s ∈ (conditional branches otherwise).parts :=
  List.mem_append_left _ (List.mem_flatMap.mpr
    ⟨branch, h, List.mem_cons_of_mem _ (mem_ofBlock hs)⟩)

theorem mem_conditional_otherwise {branches : List (Expr × Block)}
    (hs : s ∈ otherwise.getD []) : ofStmt s ∈ (conditional branches otherwise).parts :=
  List.mem_append_right _ (mem_ofBlock? hs)

theorem mem_unlessThen_body (hs : s ∈ body) : ofStmt s ∈ (unlessThen cond body otherwise).parts :=
  List.mem_cons_of_mem _ (List.mem_append_left _ (mem_ofBlock hs))

theorem mem_unlessThen_otherwise (hs : s ∈ otherwise.getD []) :
    ofStmt s ∈ (unlessThen cond body otherwise).parts :=
  List.mem_cons_of_mem _ (List.mem_append_right _ (mem_ofBlock? hs))

theorem mem_forEach_filter (h : e ∈ filter) :
    ⟨.expr e, true⟩ ∈ (forEach key value iterable filter body).parts :=
  List.mem_cons_of_mem _ (List.mem_append_left _ (mem_ofFilter h))

theorem mem_forEach_body (hs : s ∈ body) :
    inBody s ∈ (forEach key value iterable filter body).parts :=
  List.mem_cons_of_mem _ (List.mem_append_right _ (mem_ofBody hs))

theorem mem_arrayOf_filter (h : e ∈ filter) :
    ofExpr e ∈ (arrayOf key value iterable filter output).parts :=
  List.mem_cons_of_mem _ (List.mem_append_left _ (mem_ofExpr? h))

theorem mem_arrayOf_output : ofExpr output ∈ (arrayOf key value iterable filter output).parts :=
  List.mem_cons_of_mem _ (List.mem_append_right _ (mem_ofExprs List.mem_cons_self))

theorem mem_hashOf_filter (h : e ∈ filter) :
    ofExpr e ∈ (hashOf key value iterable filter outputKey output).parts :=
  List.mem_cons_of_mem _ (List.mem_append_left _ (mem_ofExpr? h))

theorem mem_hashOf_key :
    ofExpr outputKey ∈ (hashOf key value iterable filter outputKey output).parts :=
  List.mem_cons_of_mem _ (List.mem_append_right _ (mem_ofExprs List.mem_cons_self))

theorem mem_hashOf_value :
    ofExpr output ∈ (hashOf key value iterable filter outputKey output).parts :=
  List.mem_cons_of_mem _ (List.mem_append_right _
    (mem_ofExprs (List.mem_cons_of_mem _ List.mem_cons_self)))

theorem mem_caseOf_test {arms : List (List Expr × Block)} {arm : List Expr × Block}
    (h : arm ∈ arms) (he : e ∈ arm.1) : ofExpr e ∈ (caseOf subject mode arms otherwise).parts :=
  List.mem_cons_of_mem _ (List.mem_append_left _ (List.mem_flatMap.mpr
    ⟨arm, h, List.mem_append_left _ (mem_ofExprs he)⟩))

theorem mem_caseOf_body {arms : List (List Expr × Block)} {arm : List Expr × Block}
    (h : arm ∈ arms) (hs : s ∈ arm.2) : ofStmt s ∈ (caseOf subject mode arms otherwise).parts :=
  List.mem_cons_of_mem _ (List.mem_append_left _ (List.mem_flatMap.mpr
    ⟨arm, h, List.mem_append_right _ (mem_ofBlock hs)⟩))

theorem mem_caseOf_otherwise {arms : List (List Expr × Block)} (hs : s ∈ otherwise.getD []) :
    ofStmt s ∈ (caseOf subject mode arms otherwise).parts :=
  List.mem_cons_of_mem _ (List.mem_append_right _ (mem_ofBlock? hs))

theorem mem_tryCatch_body {catches : List (CatchPattern × Block)} (hs : s ∈ body) :
    ofStmt s ∈ (tryCatch body catches cleanup).parts :=
  List.mem_append_left _ (mem_ofBlock hs)

theorem mem_tryCatch_clause {catches : List (CatchPattern × Block)}
    {clause : CatchPattern × Block} (h : clause ∈ catches) (hs : s ∈ clause.2) :
    ofStmt s ∈ (tryCatch body catches cleanup).parts :=
  List.mem_append_right _ (List.mem_append_left _ (List.mem_flatMap.mpr
    ⟨clause, h, mem_ofBlock hs⟩))

theorem mem_tryCatch_cleanup {catches : List (CatchPattern × Block)}
    (hs : s ∈ cleanup.getD []) : ofStmt s ∈ (tryCatch body catches cleanup).parts :=
  List.mem_append_right _ (List.mem_append_right _ (mem_ofBlock? hs))

end Parts

end Form

namespace StmtForm

/-- The parts of a statement that its evaluation comes to. -/
def parts : StmtForm → List Part
  | .bind _ values => ofExprs values
  | .ret values => ofExprs values
  | .expr e => ofExprs [e]
  | .throw value => ofExprs [value]
  | .block body => ofBlock body
  | .function _ _ | .defer _ | .spawn _ | .break | .continue => []

end StmtForm

namespace Tree

def parts : Tree → List Part
  | expr e => e.form.parts
  | stmt s => s.form.parts

/-- A `break` or `continue` lies in the tree outside of its loops and of its
function literals. -/
inductive Escapes : Tree → Prop
  | brk {pos : Position} : Escapes (stmt ⟨pos, .break⟩)
  | next {pos : Position} : Escapes (stmt ⟨pos, .continue⟩)
  | part {t : Tree} {p : Part} (hp : p ∈ t.parts) (hout : p.inLoop = false)
      (h : Escapes p.tree) : Escapes t

/-- A `return` lies in the tree outside of its function literals. -/
inductive Returns : Tree → Prop
  | ret {pos : Position} {values : List Expr} : Returns (stmt ⟨pos, .ret values⟩)
  | part {t : Tree} {p : Part} (hp : p ∈ t.parts) (h : Returns p.tree) : Returns t

/-- A `defer` of the call lies in the tree outside of its function literals. -/
inductive PutsOff : Tree → Expr → Prop
  | defer {pos : Position} {call : Expr} : PutsOff (stmt ⟨pos, .defer call⟩) call
  | part {t : Tree} {p : Part} {call : Expr} (hp : p ∈ t.parts) (h : PutsOff p.tree call) :
      PutsOff t call

theorem escapes_expr_iff {e : Expr} :
    (expr e).Escapes ↔ ∃ p ∈ e.form.parts, p.inLoop = false ∧ p.tree.Escapes := by
  constructor
  · intro h
    cases h with
    | part hp hout h => exact ⟨_, hp, hout, h⟩
  · rintro ⟨p, hp, hout, h⟩
    exact .part hp hout h

theorem escapes_stmt_iff {pos : Position} {form : StmtForm} :
    (stmt ⟨pos, form⟩).Escapes ↔
      form = .break ∨ form = .continue ∨ ∃ p ∈ form.parts, p.inLoop = false ∧ p.tree.Escapes := by
  constructor
  · intro h
    cases h with
    | brk => exact .inl rfl
    | next => exact .inr (.inl rfl)
    | part hp hout h => exact .inr (.inr ⟨_, hp, hout, h⟩)
  · rintro (rfl | rfl | ⟨p, hp, hout, h⟩)
    · exact .brk
    · exact .next
    · exact .part hp hout h

theorem returns_expr_iff {e : Expr} :
    (expr e).Returns ↔ ∃ p ∈ e.form.parts, p.tree.Returns := by
  constructor
  · intro h
    cases h with
    | part hp h => exact ⟨_, hp, h⟩
  · rintro ⟨p, hp, h⟩
    exact .part hp h

theorem putsOff_expr_iff {e call : Expr} :
    (expr e).PutsOff call ↔ ∃ p ∈ e.form.parts, p.tree.PutsOff call := by
  constructor
  · intro h
    cases h with
    | part hp h => exact ⟨_, hp, h⟩
  · rintro ⟨p, hp, h⟩
    exact .part hp h

/-- The tree lets out neither `break` nor `continue` nor `return`. -/
def Confined (t : Tree) : Prop := ¬ t.Escapes ∧ ¬ t.Returns

theorem Confined.of_parts {e : Expr} (h : ∀ p ∈ e.form.parts, p.tree.Confined) :
    (expr e).Confined := by
  constructor
  · intro he
    obtain ⟨p, hp, _, hpart⟩ := escapes_expr_iff.mp he
    exact (h p hp).1 hpart
  · intro he
    obtain ⟨p, hp, hpart⟩ := returns_expr_iff.mp he
    exact (h p hp).2 hpart

end Tree

/-! ## Literals -/

namespace Store

open TreeWalk.Tree

variable {σ : Store} {pos : Position}

theorem exists_of_mem_mapM {α β : Type} {f : α → Option β} {items : List α} {results : List β}
    (h : items.mapM f = some results) {b : β} (hb : b ∈ results) : ∃ a ∈ items, f a = some b := by
  induction items generalizing results with
  | nil =>
    obtain rfl := Option.some.inj h
    cases hb
  | cons a rest ih =>
    rw [List.mapM_cons] at h
    obtain ⟨first, hfirst, h⟩ := Option.bind_eq_some_iff.mp h
    obtain ⟨others, hothers, h⟩ := Option.bind_eq_some_iff.mp h
    obtain rfl := Option.some.inj h
    rcases List.mem_cons.mp hb with rfl | hb
    · exact ⟨a, List.mem_cons_self, hfirst⟩
    · obtain ⟨a', ha', hf⟩ := ih hothers hb
      exact ⟨a', List.mem_cons_of_mem _ ha', hf⟩

/-- What is made of a value is a literal, whose parts are made of other values. -/
theorem isLiteral_of_literalForm? {inner : Value → Option Expr} {v : Value} {form : Form}
    (h : σ.literalForm? inner v = some form) :
    form.isLiteral = true ∧ ∀ p ∈ form.parts, ∃ w e, inner w = some e ∧ p = ofExpr e := by
  unfold literalForm? at h
  split at h
  · obtain ⟨n, _, rfl⟩ := Option.map_eq_some_iff.mp h
    exact ⟨rfl, fun p hp => nomatch hp⟩
  · obtain ⟨x, _, rfl⟩ := Option.map_eq_some_iff.mp h
    exact ⟨rfl, fun p hp => nomatch hp⟩
  · obtain ⟨s, _, rfl⟩ := Option.map_eq_some_iff.mp h
    exact ⟨rfl, fun p hp => nomatch hp⟩
  · split at h
    · obtain rfl := Option.some.inj h
      exact ⟨rfl, fun p hp => nomatch hp⟩
    · cases h
  · obtain rfl := Option.some.inj h
    exact ⟨rfl, fun p hp => nomatch hp⟩
  · obtain ⟨items, hitems, rfl⟩ := Option.map_eq_some_iff.mp h
    refine ⟨rfl, fun p hp => ?_⟩
    obtain ⟨item, hitem, rfl⟩ := List.mem_map.mp hp
    obtain ⟨w, _, hw⟩ := exists_of_mem_mapM hitems hitem
    exact ⟨w, item, hw, rfl⟩
  · obtain ⟨entries, hentries, rfl⟩ := Option.map_eq_some_iff.mp h
    refine ⟨rfl, fun p hp => ?_⟩
    obtain ⟨entry, hentry, hp⟩ := List.mem_flatMap.mp hp
    obtain ⟨e, _, he⟩ := exists_of_mem_mapM hentries hentry
    obtain ⟨key, hkey, he⟩ := Option.bind_eq_some_iff.mp he
    obtain ⟨value, hvalue, he⟩ := Option.bind_eq_some_iff.mp he
    obtain rfl := Option.some.inj he
    obtain ⟨item, hitem, rfl⟩ := List.mem_map.mp hp
    rcases List.mem_cons.mp hitem with rfl | hitem
    · exact ⟨e.key, item, hkey, rfl⟩
    · obtain rfl := List.mem_singleton.mp hitem
      exact ⟨e.value, item, hvalue, rfl⟩
  · cases h

/-- What holds of a literal if it holds of its parts holds of the literals of
values. -/
theorem literal?_induction {Q : Expr → Prop} (hQ : ∀ e : Expr, e.pos = pos →
      e.form.isLiteral = true → (∀ p ∈ e.form.parts, ∃ part, p = ofExpr part ∧ Q part) → Q e)
    {v : Value} {e : Expr} (h : σ.literal? pos v = some e) : Q e := by
  have within : ∀ (inner : Value → Option Expr), (∀ v e, inner v = some e → Q e) →
      ∀ v e, (σ.literalForm? inner v).map (Expr.mk pos) = some e → Q e := by
    intro inner hinner v e h
    obtain ⟨form, hform, rfl⟩ := Option.map_eq_some_iff.mp h
    obtain ⟨hliteral, hparts⟩ := isLiteral_of_literalForm? hform
    refine hQ _ rfl hliteral fun p hp => ?_
    obtain ⟨w, part, hw, rfl⟩ := hparts p hp
    exact ⟨part, rfl, hinner w part hw⟩
  have fuelled : ∀ fuel v e, σ.literalWithin? pos fuel v = some e → Q e := by
    intro fuel
    induction fuel with
    | zero => exact within _ fun _ _ h => nomatch h
    | succ fuel ih => exact within _ ih
  exact fuelled _ v e h

/-- The literal of a value lets nothing out. -/
theorem confined_literal? {v : Value} {e : Expr} (h : σ.literal? pos v = some e) :
    (expr e).Confined := by
  refine literal?_induction (Q := fun e => (expr e).Confined) (fun e _ _ hparts => ?_) h
  refine .of_parts fun p hp => ?_
  obtain ⟨part, rfl, hpart⟩ := hparts p hp
  exact hpart

/-- The literal of a value puts nothing off. -/
theorem not_putsOff_literal? {v : Value} {e call : Expr} (h : σ.literal? pos v = some e) :
    ¬ (expr e).PutsOff call := by
  refine literal?_induction (Q := fun e => ¬ (expr e).PutsOff call) (fun e _ _ hparts he => ?_) h
  obtain ⟨p, hp, hcall⟩ := putsOff_expr_iff.mp he
  obtain ⟨part, rfl, hpart⟩ := hparts p hp
  exact hpart hcall

end Store

/-! ## Ways to leave -/

/-- The ways in which an evaluation may end other than with a value, and what it may
leave to be done later.  Aborts are always among them. -/
structure Ways where
  /-- With an error. -/
  fail : Prop
  /-- With `return`. -/
  ret : Prop
  /-- With `break` or `continue`. -/
  loop : Prop
  /-- An abort may leave the task in another scope or with other calls under way
  than it began with. -/
  lost : Prop
  /-- With a call put off for the end of the function around it. -/
  puts : Expr → Prop

namespace Ways

def allows (w : Ways) : Exit → Prop
  | .error _ => w.fail
  | .ret _ => w.ret
  | .brk | .next => w.loop
  | .fault _ | .exhausted => True

/-- Only an abort; any call may be put off. -/
def none : Ways := ⟨False, False, False, True, fun _ => True⟩

/-- In every way there is. -/
def all : Ways := ⟨True, True, True, True, fun _ => True⟩

/-- An error or an abort; no call is put off. -/
def failing : Ways := ⟨True, False, False, True, fun _ => False⟩

/-- The ways out of the body of a loop that itself has the ways `w`. -/
def inLoop (w : Ways) : Ways := { w with loop := True }

/-- The ways of a computation that is always back where it began. -/
def steady (w : Ways) : Ways := { w with lost := False }

/-- What leaves in one of the ways `w` leaves in one of the ways `w'`. -/
structure Le (w w' : Ways) : Prop where
  fail : w.fail → w'.fail
  ret : w.ret → w'.ret
  loop : w.loop → w'.loop
  lost : w.lost → w'.lost
  puts : ∀ call, w.puts call → w'.puts call

instance : LE Ways := ⟨Le⟩

variable {w w' w'' : Ways}

theorem le_refl (w : Ways) : w ≤ w := ⟨id, id, id, id, fun _ => id⟩

theorem le_trans (h : w ≤ w') (h' : w' ≤ w'') : w ≤ w'' :=
  ⟨h'.fail ∘ h.fail, h'.ret ∘ h.ret, h'.loop ∘ h.loop, h'.lost ∘ h.lost,
    fun call => h'.puts call ∘ h.puts call⟩

theorem le_all (w : Ways) : w ≤ all :=
  ⟨fun _ => trivial, fun _ => trivial, fun _ => trivial, fun _ => trivial, fun _ _ => trivial⟩

theorem steady_le (w : Ways) : w.steady ≤ w := ⟨id, id, id, False.elim, fun _ => id⟩

theorem allows_of_isAbort {e : Exit} (he : e.isAbort = true) : w.allows e := by
  cases e with
  | fault message => trivial
  | exhausted => trivial
  | _ => cases he

theorem isAbort_of_none {e : Exit} (he : none.allows e) : e.isAbort = true := by
  cases e with
  | fault message => rfl
  | exhausted => rfl
  | _ => exact he.elim

theorem allows_of_le (h : w ≤ w') {e : Exit} (he : w.allows e) : w'.allows e := by
  cases e with
  | error e => exact h.fail he
  | ret v => exact h.ret he
  | brk => exact h.loop he
  | next => exact h.loop he
  | fault message => trivial
  | exhausted => trivial

end Ways

namespace Tree

/-- The ways in which the evaluation of a tree may end. -/
def ways (t : Tree) : Ways := ⟨True, t.Returns, t.Escapes, True, t.PutsOff⟩

theorem ways_part_le {t : Tree} {p : Part} (hp : p ∈ t.parts) (hout : p.inLoop = false) :
    p.tree.ways ≤ t.ways := ⟨id, .part hp, .part hp hout, id, fun _ => .part hp⟩

theorem ways_body_le {t : Tree} {p : Part} (hp : p ∈ t.parts) : p.tree.ways ≤ t.ways.inLoop :=
  ⟨id, .part hp, fun _ => trivial, id, fun _ => .part hp⟩

/-- The parts of a call with another first argument. -/
theorem parts_withFirstArgument {right first call : Expr}
    (h : right.withFirstArgument? first = some call) :
    ∀ p ∈ call.form.parts, p ∈ right.form.parts ∨ p = .ofExpr first := by
  obtain ⟨pos, form⟩ := right
  unfold Expr.withFirstArgument? at h
  dsimp only at h
  split at h
  · obtain rfl := Option.some.inj h
    intro p hp
    simp only [Form.parts, ofExprs, List.map_cons, List.mem_cons] at hp ⊢
    tauto
  · obtain rfl := Option.some.inj h
    intro p hp
    simp only [Form.parts, ofExprs, List.map_cons, List.mem_cons] at hp ⊢
    tauto
  · cases h

/-- Putting a literal before the arguments of a call lets nothing else out. -/
theorem ways_withFirstArgument {right literal call : Expr} {σ : Store} {pos : Position} {v : Value}
    (hlit : σ.literal? pos v = some literal) (h : right.withFirstArgument? literal = some call) :
    (expr call).ways ≤ (expr right).ways := by
  have parts := parts_withFirstArgument h
  have hconfined := Store.confined_literal? hlit
  refine ⟨id, fun hr => ?_, fun hs => ?_, id, fun c hc => ?_⟩
  · obtain ⟨p, hp, hpart⟩ := returns_expr_iff.mp hr
    rcases parts p hp with hp | rfl
    · exact .part hp hpart
    · exact absurd hpart hconfined.2
  · obtain ⟨p, hp, hout, hpart⟩ := escapes_expr_iff.mp hs
    rcases parts p hp with hp | rfl
    · exact .part hp hout hpart
    · exact absurd hpart hconfined.1
  · obtain ⟨p, hp, hpart⟩ := putsOff_expr_iff.mp hc
    rcases parts p hp with hp | rfl
    · exact .part hp hpart
    · exact absurd hpart (Store.not_putsOff_literal? hlit)

end Tree
end TreeWalk
