/-
Trees whose evaluation is bounded by the values it comes to.

`while`, `forever` and `for (;;)` go on for as long as a program likes, and `spawn`
starts something else.  A tree that is free of them, with the functions in it and
the calls that it puts off, repeats something only for the elements of a sequence.

Calls that are put off can put off calls in their turn, but only those that lie in
them.  `Shallow m` says how deep such calls lie in each other.
-/
import TreeWalk.Proofs.Syntax.Escape

namespace TreeWalk

namespace FunctionLit

/-- The trees that a call of the function comes to. -/
def trees (lit : FunctionLit) : List Tree :=
  (lit.params.filterMap (·.default)).map .expr ++ lit.body.map .stmt

end FunctionLit

namespace Form

/-- Loops that no sequence bounds. -/
def isOpenLoop : Form → Bool
  | .whileLoop _ _ | .forever _ | .forLoop _ _ _ _ => true
  | _ => false

end Form

namespace StmtForm

def isSpawn : StmtForm → Bool
  | .spawn _ => true
  | _ => false

end StmtForm

namespace Tree

/-- The node is a loop that no sequence bounds, or asks for a task. -/
def isOpen : Tree → Bool
  | expr e => e.form.isOpenLoop
  | stmt s => s.form.isSpawn

/-- The functions that the node makes. -/
def functions : Tree → List FunctionLit
  | expr ⟨_, .function lit⟩ => [lit]
  | stmt ⟨_, .function _ lit⟩ => [lit]
  | _ => []

/-- The calls that the node puts off. -/
def putOff : Tree → List Expr
  | stmt ⟨_, .defer call⟩ => [call]
  | _ => []

/-- Neither a loop that no sequence bounds nor `spawn` lies in the tree, its
functions and the calls it puts off included. -/
inductive LoopFree : Tree → Prop
  | node {t : Tree} (closed : t.isOpen = false) (parts : ∀ p ∈ t.parts, LoopFree p.tree)
      (functions : ∀ lit ∈ t.functions, ∀ inner ∈ lit.trees, LoopFree inner)
      (putOff : ∀ call ∈ t.putOff, LoopFree (expr call)) : LoopFree t

end Tree

/-- The trees that a call of the function comes to are free of such loops. -/
def FunctionLit.LoopFree (lit : FunctionLit) : Prop := ∀ t ∈ lit.trees, t.LoopFree

namespace Tree

/-- The tree is loop-free, and calls that are put off lie less than `m` deep in each
other.  Functions count for themselves, since each of their calls has a frame of its
own. -/
inductive Shallow : Nat → Tree → Prop
  | node {m : Nat} {t : Tree} (closed : t.isOpen = false)
      (parts : ∀ p ∈ t.parts, Shallow m p.tree) (functions : ∀ lit ∈ t.functions, lit.LoopFree)
      (depth : Expr → Nat) (lower : ∀ call ∈ t.putOff, depth call < m)
      (putOff : ∀ call ∈ t.putOff, Shallow (depth call) (expr call)) : Shallow m t

theorem Shallow.mono {m m' : Nat} {t : Tree} (h : t.Shallow m) (hm : m ≤ m') : t.Shallow m' := by
  induction h generalizing m' with
  | node closed _ functions depth lower putOff ih _ =>
    exact .node closed (fun p hp => ih p hp hm) functions depth
      (fun call hcall => Nat.lt_of_lt_of_le (lower call hcall) hm) putOff

/-- What is bounded for each element of a list is bounded for all of them. -/
theorem exists_bound {α : Type} {P : Nat → α → Prop} (hmono : ∀ {m m' a}, P m a → m ≤ m' → P m' a)
    {items : List α} (h : ∀ a ∈ items, ∃ m, P m a) : ∃ m, ∀ a ∈ items, P m a := by
  induction items with
  | nil => exact ⟨0, fun a ha => nomatch ha⟩
  | cons a rest ih =>
    obtain ⟨m, hm⟩ := h a List.mem_cons_self
    obtain ⟨m', hm'⟩ := ih fun b hb => h b (List.mem_cons_of_mem a hb)
    refine ⟨max m m', fun b hb => ?_⟩
    rcases List.mem_cons.mp hb with rfl | hb
    · exact hmono hm (Nat.le_max_left m m')
    · exact hmono (hm' b hb) (Nat.le_max_right m m')

/-- Calls that are put off lie in each other only so deep. -/
theorem LoopFree.exists_shallow {t : Tree} (h : t.LoopFree) : ∃ m, t.Shallow m := by
  induction h with
  | @node t closed _ functions _ ihparts _ ihputOff =>
    obtain ⟨m, hparts⟩ := exists_bound (P := fun m (p : Part) => p.tree.Shallow m) (.mono · ·) ihparts
    obtain ⟨k, hputOff⟩ := exists_bound (P := fun k call => (expr call).Shallow k) (.mono · ·) ihputOff
    exact ⟨max m (k + 1), .node closed (fun p hp => (hparts p hp).mono (Nat.le_max_left _ _))
      functions (fun _ => k) (fun _ _ => Nat.lt_of_lt_of_le (Nat.lt_succ_self k) (Nat.le_max_right _ _))
      hputOff⟩

/-- The trees that a call of the function comes to, all of them. -/
theorem exists_shallow_of_function {lit : FunctionLit} (h : lit.LoopFree) :
    ∃ m, ∀ t ∈ lit.trees, t.Shallow m :=
  exists_bound (.mono · ·) fun t ht => (h t ht).exists_shallow

theorem exists_shallow_of_block {body : Block} (h : ∀ s ∈ body, (stmt s).LoopFree) :
    ∃ m, ∀ s ∈ body, (stmt s).Shallow m :=
  exists_bound (P := fun m s => (stmt s).Shallow m) (.mono · ·) fun s hs => (h s hs).exists_shallow

end Tree

namespace FunctionLit

variable {lit : FunctionLit}

theorem mem_trees_of_body {s : Stmt} (h : s ∈ lit.body) : .stmt s ∈ lit.trees :=
  List.mem_append_right _ (List.mem_map_of_mem h)

theorem mem_trees_of_default {p : Param} {e : Expr} (h : p ∈ lit.params) (he : p.default = some e) :
    .expr e ∈ lit.trees :=
  List.mem_append_left _ (List.mem_map_of_mem (List.mem_filterMap.mpr ⟨p, h, he⟩))

end FunctionLit
end TreeWalk
