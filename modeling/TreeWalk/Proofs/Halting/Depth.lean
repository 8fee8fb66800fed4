/-
Trees halt where calls are nested only so deep.

A call makes the stack deeper, and a unit begins with an empty stack but with one unit
fewer to go on to.  So every call and every unit is evaluated in a smaller setting, if
the units left count for more than the room on the stack.
-/
import Mathlib.Data.Finset.Card
import TreeWalk.Proofs.Fuel.Evaluator
import TreeWalk.Proofs.Halting.Node

namespace TreeWalk

open Eval Value Filter

/-- The evaluator, but for values that tasks share: an expression with such a value is a
fault. -/
def sparing (refusal : String) : Nat → Evaluator
  | 0 => ⟨fun _ => exit .exhausted, fun _ => exit .exhausted, fun _ _ _ => exit .exhausted⟩
  | fuel + 1 =>
    { expr := fun e => unshared refusal (Node.expr (sparing refusal fuel) fuel e)
      stmt := Node.stmt (sparing refusal fuel)
      call := Call.value (sparing refusal fuel) fuel }

variable {refusal : String}

theorem unfolds_sparing : Unfolds refusal (sparing refusal) := ⟨fun _ _ => rfl, fun _ _ => rfl⟩

theorem Eval.Cut.unshared {x y : Eval Value} (h : Cut (· = .fault refusal) x y) :
    Cut (· = .fault refusal) (Eval.unshared refusal x) y := by
  rw [← bind_pure y]
  refine .bind h fun v => ?_
  split
  · exact .exit_left rfl
  · exact .refl _

/-- Evaluation goes the same way with values that tasks share and without them, until an
expression has one. -/
theorem cut_sparing (refusal : String) (n : Nat) :
    (sparing refusal n).Cut (· = .fault refusal) (evaluator n) := by
  have haborts : ∀ e : Exit, e = .fault refusal → e.isAbort = true := by
    rintro e rfl
    rfl
  induction n with
  | zero => exact ⟨haborts, fun _ => .refl _, fun _ => .refl _, fun _ _ _ => .refl _⟩
  | succ n ih =>
    refine ⟨haborts, fun e => ?_, fun s => ?_, fun v args pos => ?_⟩
    · rw [evaluator_expr]
      exact (ih.exprNode .refl e).unshared
    · rw [evaluator_stmt]
      exact ih.stmtNode s
    · rw [evaluator_call]
      exact ih.value .refl v args

namespace Setting

variable {c : Setting} {ev : Nat → Evaluator} {pos : Position}

/-- A call halts if whatever is evaluated with its frame on top does. -/
theorem halts_value {v : Value} {args : List Value}
    (hall : ∀ top stack, c.stack.push? top = some stack → (c.entered stack top.id).HandlesAll ev)
    (hv : v.Tame) (hargs : AllTame args) :
    c.Halts 0 Value.Tame fun n => Call.value (ev n) n v args pos := by
  cases v with
  | function fn => exact halts_invoke tendsto_id hall hv hargs
  | native f =>
    exact Halts.enter.seq fun _ => Halts.fiber.bind fun _ _ => .speak (Native.speaks_run hargs)
  | _ => exact .fail

theorem answers_sparing
    (hall : ∀ top stack, c.stack.push? top = some stack →
      (c.entered stack top.id).HandlesAll (sparing refusal)) :
    c.Answers (sparing refusal) := fun _ _ _ hv hargs =>
  .of_succ (halts_value hall hv hargs)

/-- The units that are free of loops. -/
def UnitsLoopFree (programs : Option (Assoc Program)) : Prop :=
  ∀ path program, programs.bind (·.get? path) = some program → ∀ s ∈ program, (Tree.stmt s).LoopFree

/-- How many units are left to be evaluated. -/
def unitsLeft (c : Setting) : Nat := ((c.programs.getD []).names.toFinset \ c.loading.toFinset).card

/-- How many calls there is room for. -/
def room (c : Setting) (limit : Nat) : Nat := limit - c.stack.depth

theorem unitsLeft_unit {path : String} {program : Program}
    (h : c.programs.bind (·.get? path) = some program) (hout : path ∉ c.loading) :
    (c.unit path).unitsLeft < c.unitsLeft := by
  obtain ⟨programs, hprograms, hget⟩ := Option.bind_eq_some_iff.mp h
  have hname : path ∈ programs.names := by
    rw [Assoc.mem_names_iff_get?_isSome, hget]
    rfl
  refine Finset.card_lt_card (Finset.ssubset_iff_of_subset ?_ |>.mpr ⟨path, ?_, ?_⟩)
  · intro other hother
    simp only [unit, Finset.mem_sdiff, List.mem_toFinset, List.mem_cons, not_or] at hother ⊢
    exact ⟨hother.1, hother.2.2⟩
  · simp only [hprograms, Option.getD_some, Finset.mem_sdiff, List.mem_toFinset]
    exact ⟨hname, hout⟩
  · simp [unit]

theorem room_entered {limit : Nat} {top : Frame} {stack : CallStack}
    (hlimit : c.stack.limit = some limit) (hpush : c.stack.push? top = some stack) :
    stack.limit = some limit ∧ (c.entered stack top.id).room limit < c.room limit := by
  unfold CallStack.push? at hpush
  split at hpush
  · cases hpush
  · next hfull =>
    obtain rfl := Option.some.inj hpush
    refine ⟨hlimit, ?_⟩
    have hless : ¬ limit ≤ c.stack.frames.length := by
      intro hle
      refine hfull ?_
      rw [CallStack.isFull, hlimit]
      exact decide_eq_true hle
    simp only [room, entered, CallStack.depth, List.length_cons]
    omega

/-- Loop-free trees halt in every setting with a finite limit. -/
theorem handlesAll_sparing (refusal : String) (c : Setting) (limit : Nat)
    (hlimit : c.stack.limit = some limit)
    (hunits : UnitsLoopFree c.programs) : c.HandlesAll (sparing refusal) := by
  refine unfolds_sparing.handlesAll (answers_sparing fun top stack hpush => ?_)
    fun path program hget hout => ?_
  · have hroom := room_entered hlimit hpush
    exact handlesAll_sparing refusal (c.entered stack top.id) limit hroom.1 hunits
  · have hleft := unitsLeft_unit hget hout
    obtain ⟨m, hm⟩ := Tree.exists_shallow_of_block (hunits path program hget)
    have hall := handlesAll_sparing refusal (c.unit path) limit hlimit hunits
    exact ⟨m, halts_topLevel fun s hs => hall m _ (hm s hs)⟩
termination_by (c.unitsLeft, c.room limit)
decreasing_by
  · exact Prod.Lex.right _ hroom.2
  · exact Prod.Lex.left _ _ hleft

end Setting
end TreeWalk
