/-
How deep `defer` statements lie in each other.

What a call that is put off can put off in its turn lies in that call.  The parts of a
node are smaller than the node, so there is an end to this: `deferDepth` counts how many
`defer` statements stand around each other, outside of function literals, whose calls
put off on frames of their own.
-/
import Mathlib.Data.List.MinMax
import Mathlib.Logic.Relation
import TreeWalk.Proofs.Syntax.LoopFree

namespace TreeWalk

open TreeWalk.Part

/-! ## Parts are smaller -/

namespace Part

/-- No part is larger than `n`. -/
def Bounded (n : Nat) (parts : List Part) : Prop := ∀ p ∈ parts, sizeOf p.tree ≤ n

namespace Bounded

variable {α : Type} [SizeOf α] {n : Nat} {parts others : List Part}

theorem nil : Bounded n [] := fun _ hp => nomatch hp

theorem cons {p : Part} (hp : sizeOf p.tree ≤ n) (h : Bounded n parts) : Bounded n (p :: parts) :=
  List.forall_mem_cons.mpr ⟨hp, h⟩

theorem append (h : Bounded n parts) (h' : Bounded n others) : Bounded n (parts ++ others) :=
  List.forall_mem_append.mpr ⟨h, h'⟩

theorem map {part : α → Part} {items : List α}
    (hpart : ∀ a, sizeOf (part a).tree = 1 + sizeOf a) (h : sizeOf items ≤ n) :
    Bounded n (items.map part) := by
  intro p hp
  obtain ⟨a, ha, rfl⟩ := List.mem_map.mp hp
  have hlt := List.sizeOf_lt_of_mem ha
  have heq := hpart a
  omega

theorem flatMap {part : α → List Part} {items : List α}
    (hparts : ∀ a, Bounded (sizeOf a) (part a)) (h : sizeOf items ≤ n) :
    Bounded n (items.flatMap part) := by
  intro p hp
  obtain ⟨a, ha, hpart⟩ := List.mem_flatMap.mp hp
  have hlt := List.sizeOf_lt_of_mem ha
  have hle := hparts a p hpart
  omega

theorem option {part : α → Part} {a? : Option α}
    (hpart : ∀ a, sizeOf (part a).tree = 1 + sizeOf a) (h : sizeOf a? ≤ n) :
    Bounded n (a?.toList.map part) := by
  cases a? with
  | none => exact nil
  | some a => exact cons ((hpart a).trans_le h) nil

theorem exprs {items : List Expr} (h : sizeOf items ≤ n) : Bounded n (ofExprs items) :=
  map (fun _ => rfl) h

theorem block {body : Block} (h : sizeOf body ≤ n) : Bounded n (ofBlock body) :=
  map (fun _ => rfl) h

theorem block? {body : Option Block} (h : sizeOf body ≤ n) : Bounded n (ofBlock? body) := by
  cases body with
  | none => exact nil
  | some body => exact block ((Nat.le_add_left _ 1).trans h)

theorem body {body : Block} (h : sizeOf body ≤ n) : Bounded n (ofBody body) :=
  map (fun _ => rfl) h

end Bounded
end Part

/-- The parts of an expression are no larger than its form. -/
theorem Form.bounded_parts (form : Form) : Bounded (sizeOf form) form.parts := by
  cases form
  case interpolated texts =>
    refine .flatMap (fun text => ?_) (by simp +arith)
    cases text with
    | text s => exact .nil
    | hole e => exact .cons (by simp +arith [ofExpr]) .nil
  case array items => exact .exprs (by simp +arith)
  case hash pairs =>
    refine .flatMap (fun ⟨key, value⟩ => ?_) (by simp +arith)
    exact .cons (by simp +arith [ofExpr]) (.cons (by simp +arith [ofExpr]) .nil)
  case tuple items => exact .exprs (by simp +arith)
  case struct body => exact .block (by simp +arith)
  case enum variants =>
    refine .flatMap (fun ⟨name, value⟩ => ?_) (by simp +arith)
    exact .option (fun _ => rfl) (by simp +arith)
  case call callee args => exact .cons (by simp +arith [ofExpr]) (.exprs (by simp +arith))
  case method receiver name args =>
    exact .cons (by simp +arith [ofExpr]) (.exprs (by simp +arith))
  case slice object start stop =>
    refine .cons (by simp +arith [ofExpr]) (.append ?_ ?_)
    · exact .option (fun _ => rfl) (by simp +arith)
    · exact .option (fun _ => rfl) (by simp +arith)
  case conditional branches otherwise =>
    refine .append (.flatMap (fun ⟨cond, body⟩ => ?_) (by simp +arith)) (.block? (by simp +arith))
    exact .cons (by simp +arith [ofExpr]) (.block (by simp +arith))
  case unlessThen cond body otherwise =>
    refine .cons (by simp +arith [ofExpr]) (.append ?_ ?_)
    · exact .block (by simp +arith)
    · exact .block? (by simp +arith)
  case whileLoop cond body => exact .cons (by simp +arith [ofExpr]) (.body (by simp +arith))
  case forever body => exact .body (by simp +arith)
  case forLoop init cond update body =>
    refine .append ?_ (.append ?_ (.append ?_ (.body (by simp +arith))))
    · exact .option (fun _ => rfl) (by simp +arith)
    · exact .option (fun _ => rfl) (by simp +arith)
    · exact .option (fun _ => rfl) (by simp +arith)
  case forEach key value iterable filter body =>
    refine .cons (by simp +arith [ofExpr]) (.append ?_ ?_)
    · exact .option (fun _ => rfl) (by simp +arith)
    · exact .body (by simp +arith)
  case arrayOf key value iterable filter output =>
    refine .cons (by simp +arith [ofExpr]) (.append ?_ (.cons (by simp +arith [ofExpr]) .nil))
    exact .option (fun _ => rfl) (by simp +arith)
  case hashOf key value iterable filter outputKey outputValue =>
    refine .cons (by simp +arith [ofExpr]) (.append ?_
      (.cons (by simp +arith [ofExpr]) (.cons (by simp +arith [ofExpr]) .nil)))
    exact .option (fun _ => rfl) (by simp +arith)
  case caseOf subject mode arms otherwise =>
    refine .cons (by simp +arith [ofExpr]) (.append ?_ (.block? (by simp +arith)))
    refine .flatMap (fun ⟨patterns, body⟩ => ?_) (by simp +arith)
    exact .append (.exprs (by simp +arith)) (.block (by simp +arith))
  case tryCatch body catches cleanup =>
    refine .append (.block (by simp +arith)) (.append ?_ (.block? (by simp +arith)))
    refine .flatMap (fun ⟨pattern, body⟩ => ?_) (by simp +arith)
    exact .block (by simp +arith)
  -- What is left has a fixed number of parts.
  all_goals simp +arith [Form.parts, Part.Bounded, ofExprs, ofExpr]

/-- The parts of a statement are no larger than its form. -/
theorem StmtForm.bounded_parts (form : StmtForm) : Bounded (sizeOf form) form.parts := by
  cases form
  case bind names values => exact .exprs (by simp +arith)
  case ret values => exact .exprs (by simp +arith)
  case block body => exact .block (by simp +arith)
  all_goals simp +arith [StmtForm.parts, Part.Bounded, ofExprs, ofExpr]

namespace Tree

variable {s t : Tree} {call : Expr}

theorem sizeOf_part_lt {p : Part} (hp : p ∈ t.parts) : sizeOf p.tree < sizeOf t := by
  cases t with
  | expr e =>
    obtain ⟨pos, form⟩ := e
    have hle := form.bounded_parts p hp
    simp only [expr.sizeOf_spec, Expr.mk.sizeOf_spec]
    omega
  | stmt s =>
    obtain ⟨pos, form⟩ := s
    have hle := form.bounded_parts p hp
    simp only [stmt.sizeOf_spec, Stmt.mk.sizeOf_spec]
    omega

theorem mem_putOff (h : call ∈ t.putOff) : ∃ pos, t = stmt ⟨pos, .defer call⟩ := by
  unfold putOff at h
  split at h
  · obtain rfl := List.mem_singleton.mp h
    exact ⟨_, rfl⟩
  · cases h

theorem sizeOf_putOff_lt (h : call ∈ t.putOff) : sizeOf (expr call) < sizeOf t := by
  obtain ⟨pos, rfl⟩ := mem_putOff h
  simp only [expr.sizeOf_spec, stmt.sizeOf_spec, Stmt.mk.sizeOf_spec, StmtForm.defer.sizeOf_spec]
  omega

/-! ## What lies in a tree -/

/-- What lies right below a node, outside of its function literals. -/
def below (t : Tree) : List Tree := t.parts.map (·.tree) ++ t.putOff.map expr

/-- The first tree lies properly in the second, outside of its function literals. -/
def Under : Tree → Tree → Prop := Relation.TransGen fun s t => s ∈ t.below

/-- A call that a tree puts off lies in it. -/
theorem PutsOff.under (h : t.PutsOff call) : (expr call).Under t := by
  induction h with
  | defer => exact .single (List.mem_append_right _ List.mem_cons_self)
  | part hp _ ih => exact ih.tail (List.mem_append_left _ (List.mem_map_of_mem hp))

/-! ## Depth -/

/-- How many `defer` statements of the tree stand around each other. -/
def deferDepth (t : Tree) : Nat :=
  max ((t.parts.attach.map fun p => p.1.tree.deferDepth).foldr max 0)
    ((t.putOff.attach.map fun call => (expr call.1).deferDepth + 1).foldr max 0)
termination_by sizeOf t
decreasing_by
  · exact sizeOf_part_lt p.2
  · exact sizeOf_putOff_lt call.2

theorem deferDepth_part_le {p : Part} (hp : p ∈ t.parts) : p.tree.deferDepth ≤ t.deferDepth := by
  have hmem : p.tree.deferDepth ∈ t.parts.attach.map fun p => p.1.tree.deferDepth :=
    List.mem_map.mpr ⟨⟨p, hp⟩, List.mem_attach _ _, rfl⟩
  rw [deferDepth.eq_def t]
  exact le_max_of_le_left (List.le_max_of_le' 0 hmem (Nat.le_refl _))

theorem deferDepth_defer {pos : Position} :
    (stmt ⟨pos, .defer call⟩).deferDepth = (expr call).deferDepth + 1 := by
  rw [deferDepth]
  rfl

/-- A call that a tree puts off is less deep. -/
theorem PutsOff.deferDepth_lt (h : t.PutsOff call) : (expr call).deferDepth < t.deferDepth := by
  induction h with
  | defer => exact deferDepth_defer ▸ Nat.lt_succ_self _
  | part hp _ ih => exact Nat.lt_of_lt_of_le ih (deferDepth_part_le hp)

end Tree
end TreeWalk
