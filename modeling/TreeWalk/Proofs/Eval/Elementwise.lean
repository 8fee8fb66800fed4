/-
One expression for every element, written in three ways.

`map x in it { e }` and `[e for x in it]` are the same computation.  The loop
`for x in it { e }` goes as they do, too, and ends alike, as long as no evaluation of `e`
ends in `break` or `continue`: the loop takes those for its own, and the others let them
pass.  To tell them from a `break` of the iterable, which all three let pass, the
comprehension is also run with a mark of one's choice in their place; whatever ends
without the mark is the same in all.

The expression is a statement in the loop and so nested one node deeper, for which the
loop has one more of the fuel.
-/
import TreeWalk.Proofs.Fuel.Evaluator

namespace TreeWalk

open Eval

/-! ## An expression as a block -/

/-- Entering one node and then another that knows its position, if the first one does. -/
theorem Eval.enter_enter {α : Type} {stmtPos pos : Position} (k : Position → Eval α)
    (hplace : stmtPos.isKnown = true → pos.isKnown = true) :
    (enter stmtPos >>= fun _ => enter pos >>= k) = enter pos >>= k := by
  funext f σ
  have hpos : pos.orElse (stmtPos.orElse f.pos) = pos.orElse f.pos := by
    unfold Position.orElse
    split
    · rfl
    · next hunknown => rw [if_neg (mt hplace hunknown)]
  show k (pos.orElse (stmtPos.orElse f.pos))
    { f with pos := pos.orElse (stmtPos.orElse f.pos) } σ = _
  rw [hpos]
  rfl

theorem Evaluator.block_singleton (ev : Evaluator) (s : Stmt) : ev.block [s] = ev.stmt s := by
  unfold Evaluator.block
  rw [foldList_cons]
  exact bind_pure _

/-- A block of one expression is the expression, one node deeper. -/
theorem evaluator_block_expr (stmtPos : Position) (e : Expr) (n : Nat) :
    (evaluator (n + 1)).block [⟨stmtPos, .expr e⟩] =
      enter stmtPos >>= fun _ => (evaluator n).expr e := by
  rw [Evaluator.block_singleton, evaluator_stmt]
  rfl

section

variable {stmtPos : Position} {e : Expr} (n : Nat)
  (hplace : stmtPos.isKnown = true → e.pos.isKnown = true)
include hplace

theorem evaluator_enter_expr :
    (enter stmtPos >>= fun _ => (evaluator (n + 1)).expr e) = (evaluator (n + 1)).expr e := by
  rw [evaluator_expr]
  exact enter_enter _ hplace

theorem cut_expr_block :
    Cut (· = .exhausted) ((evaluator n).expr e) ((evaluator (n + 1)).block [⟨stmtPos, .expr e⟩]) := by
  rw [evaluator_block_expr]
  cases n with
  | zero => exact .exit_left rfl
  | succ n =>
    rw [evaluator_enter_expr n hplace]
    exact .refl _

theorem cut_block_expr :
    Cut (· = .exhausted) ((evaluator n).block [⟨stmtPos, .expr e⟩]) ((evaluator n).expr e) := by
  cases n with
  | zero => exact .exit_left rfl
  | succ n =>
    rw [evaluator_block_expr, ← evaluator_enter_expr n hplace]
    exact .after fun _ => (cut_evaluator n.le_succ).expr e

end

/-! ## Marking `break` and `continue` -/

/-- Other exits than `break` and `continue`. -/
def Exit.Passes : Exit → Prop
  | .brk | .next => False
  | _ => True

namespace Eval

variable {α β : Type} {left right : Exit → Prop} {mark : Exit} {x y : Eval α}

/-- Ends by `mark` where a computation ends in `break` or `continue`. -/
def marking (mark : Exit) (x : Eval α) : Eval α := do
  match ← protect x with
  | .ok a => return a
  | .error .brk => exit mark
  | .error .next => exit mark
  | .error e => exit e

theorem marking_bind_apply (mark : Exit) (x : Eval α) (l : α → Eval β) (f : Fiber) (σ : Store) :
    (marking mark x >>= l) f σ = (x f σ).andThen fun
      | .ok a => l a
      | .error .brk => exit mark
      | .error .next => exit mark
      | .error e => exit e := by
  unfold marking
  rw [bind_assoc, bind_apply]
  unfold protect
  rw [Step.andThen_andThen]
  congr 1
  funext r f σ
  match r with
  | .ok a => rfl
  | .error e => cases e <;> rfl

theorem attempt_bind_apply (y : Eval α) (k : Except Exit α → Eval β) (f : Fiber) (σ : Store) :
    (attempt y >>= k) f σ = (y f σ).andThen fun
      | .ok a => k (.ok a)
      | .error e => if e.isAbort then exit e else k (.error e) := by
  rw [bind_apply]
  unfold attempt
  rw [Step.andThen_andThen]
  congr 1
  funext r f σ
  match r with
  | .ok a => rfl
  | .error e =>
    dsimp only
    cases e.isAbort <;> rfl

namespace Concur

/-- Where the second leaves the exits that pass alone, what it does with the others does
not count: the first is marked there. -/
theorem marking {l : α → Eval β} {next : Except Exit α → Eval β} {f : Fiber} {σ : Store}
    (h : Concur left right x y) (hmark : left mark) (hright : ∀ e, right e → e.Passes)
    (hok : ∀ a, Concur left right (l a) (next (.ok a)))
    (herror : ∀ e, e.Passes → next (.error e) = exit e) :
    ((Eval.marking mark x >>= l) f σ).Concur (EndsBy left) (EndsBy right)
      ((y f σ).andThen next) := by
  rw [marking_bind_apply]
  refine (h f σ).andThen ?_ ?_ ?_
  · rintro (e | a) f σ
    · match e with
      | .brk | .next => exact .left hmark
      | .error _ | .ret _ | .fault _ | .exhausted =>
        rw [herror _ (by trivial)]
        exact .same
    · exact hok a f σ
  · rintro (e | a) f σ u hr
    · match e with
      | .brk | .next => exact .left hmark
      | .error _ | .ret _ | .fault _ | .exhausted => exact .left hr
    · exact hr.elim
  · rintro (e | a) f σ u hr
    · rw [herror e (hright e hr)]
      exact .right hr
    · exact hr.elim

end Concur
end Eval

/-! ## The three forms -/

namespace Elementwise

variable (name : String) (iterable e : Expr) (pos stmtPos : Position)

/-- `map name in iterable { e }` -/
def mapping : Expr := ⟨pos, .map name iterable e⟩

/-- `[e for name in iterable]` -/
def comprehension : Expr := ⟨pos, .arrayOf none name iterable none e⟩

/-- `for name in iterable { e }`, with `e` as the statement at some position. -/
def loop : Expr := ⟨pos, .forEach none name iterable none [⟨stmtPos, .expr e⟩]⟩

/-- The comprehension, ended by `mark` where an evaluation of `e` ends in `break` or
`continue`. -/
def marked (mark : Exit) : Nat → Eval Value
  | 0 => exit .exhausted
  | n + 1 => do
    let pos ← enter pos
    let results ← Loop.overElements (evaluator n) n ⟨none, name⟩ iterable pos []
      fun _ results _ => do
        let v ← marking mark ((evaluator n).expr e)
        return .inl (v :: results)
    Loop.collected results

theorem mapping_eq_comprehension (n : Nat) : (evaluator n).expr (mapping name iterable e pos) =
    (evaluator n).expr (comprehension name iterable e pos) := by
  cases n with
  | zero => rfl
  | succ n =>
    rw [evaluator_expr, evaluator_expr]
    unfold Node.expr mapping comprehension
    dsimp only
    simp only [Loop.map_eq_arrayOf]

theorem marked_comprehension (mark : Exit) (n : Nat) :
    Concur (· = mark) (fun _ => False) (marked name iterable e pos mark n)
      ((evaluator n).expr (comprehension name iterable e pos)) := by
  cases n with
  | zero => exact .refl _
  | succ n =>
    rw [evaluator_expr]
    refine .after fun pos => .before (.overElements .refl _ (.refl _) [] fun _ results _ => ?_) _
    simp only [Loop.passes, pure_bind, if_true]
    intro f σ
    rw [bind_apply ((evaluator n).expr e)]
    exact Concur.marking (.refl _) rfl (fun _ h => h.elim) (fun a => .refl _) fun _ _ => rfl

variable {left right : Exit → Prop} {mark : Exit} {n m : Nat}

theorem marked_loop (hfuel : Concur.Fuels left right n m)
    (hiterable : Concur left right ((evaluator n).expr iterable) ((evaluator m).expr iterable))
    (hbody : Concur left right ((evaluator n).expr e) ((evaluator m).block [⟨stmtPos, .expr e⟩]))
    (hmark : left mark) (hright : ∀ e, right e → e.Passes) :
    Concur left right (marked name iterable e pos mark (n + 1))
      ((evaluator (m + 1)).expr (loop name iterable e pos stmtPos)) := by
  rw [evaluator_expr]
  refine .after fun pos => .before (.overElements hfuel _ hiterable [] fun _ results _ => ?_) _
  simp only [Loop.passes, pure_bind, if_true]
  intro f σ
  rw [attempt_bind_apply, bind_apply ((evaluator m).block _), Step.andThen_andThen]
  refine Concur.marking hbody hmark hright (fun a => .refl _) fun r hr => ?_
  -- The loop passes on what is neither `break` nor `continue`.
  cases r with
  | brk | next => exact hr.elim
  | _ => rfl

/-- The map and the comprehension are the same.  Marked where an evaluation of the
expression ends in `break` or `continue`, the comprehension goes as it does unmarked, and
as the loop does with fuel for one node more; with as much fuel, up to where the loop runs
out of it.  So where the mark is not met all three wait for the same with the same store,
and end alike.  The statement in the loop may be anywhere, or nowhere if the expression
is. -/
theorem forms_agree (mark : Exit) (n : Nat)
    (hplace : stmtPos.isKnown = true → e.pos.isKnown = true) :
    (evaluator n).expr (mapping name iterable e pos) =
      (evaluator n).expr (comprehension name iterable e pos) ∧
    Concur (· = mark) (fun _ => False) (marked name iterable e pos mark n)
      ((evaluator n).expr (comprehension name iterable e pos)) ∧
    Concur (fun r => r = mark ∨ r = .exhausted) (fun _ => False)
      (marked name iterable e pos mark n)
      ((evaluator (n + 1)).expr (loop name iterable e pos stmtPos)) ∧
    Concur (· = mark) (· = .exhausted) (marked name iterable e pos mark n)
      ((evaluator n).expr (loop name iterable e pos stmtPos)) := by
  refine ⟨mapping_eq_comprehension name iterable e pos n,
    marked_comprehension name iterable e pos mark n, ?_, ?_⟩
  · have hcut {x y : Eval Value} (h : Cut (· = .exhausted) x y) :
        Concur (fun r => r = mark ∨ r = .exhausted) (fun _ => False) x y :=
      h.mono (fun _ => .inr) fun _ hr => hr
    cases n with
    | zero => exact .exit_left (.inr rfl)
    | succ n =>
      exact marked_loop name iterable e pos stmtPos ⟨fun _ => .inr rfl, fun h => by omega⟩
        (hcut ((cut_evaluator n.le_succ).expr iterable)) (hcut (cut_expr_block n hplace)) (.inl rfl)
        fun _ hr => hr.elim
  · cases n with
    | zero => exact .refl _
    | succ n =>
      have hbody : Concur (· = mark) (· = .exhausted) ((evaluator n).expr e)
          ((evaluator n).block [⟨stmtPos, .expr e⟩]) :=
        (cut_block_expr n hplace).symm.mono (fun _ hr => hr.elim) fun _ hr => hr
      refine marked_loop name iterable e pos stmtPos .refl (.refl _) hbody rfl ?_
      rintro r rfl
      trivial

/-- `for x in it { x }` with no position for the statement. -/
theorem forms_agree_unplaced :
    Concur (· = .next) (· = .exhausted)
      (marked "x" (.bare (.ident "it")) ⟨⟨1, 15⟩, .ident "x"⟩ ⟨1, 1⟩ .next 5)
      ((evaluator 5).expr
        (loop "x" (.bare (.ident "it")) ⟨⟨1, 15⟩, .ident "x"⟩ ⟨1, 1⟩ .unknown)) :=
  (forms_agree "x" (.bare (.ident "it")) ⟨⟨1, 15⟩, .ident "x"⟩ ⟨1, 1⟩ .unknown .next 5
    nofun).2.2.2

end Elementwise
end TreeWalk
