/-
Room for deep evaluations.

The evaluator is a recursive function, and a machine stack holds only so many of
its calls.  Every so many levels an evaluation moves to a stack of its own.  This
changes nothing about what is computed: both definitions here are the identity.
-/
import TreeWalk.Eval.Step

namespace TreeWalk
namespace MachineStack

variable {α : Type}

/-- The same computation on a machine stack of its own. -/
def fresh (x : Eval α) : Eval α := fun f σ => (Task.spawn (fun _ => x f σ) .dedicated).get

/-- How many levels of an evaluation share a machine stack. -/
def levels : Nat := 2000

/-- The same computation, on a machine stack of its own at every so many levels. -/
@[inline] def within (level : Nat) (x : Eval α) : Eval α := fun f σ =>
  if level % levels = 0 then fresh x f σ else x f σ

@[simp] theorem fresh_eq (x : Eval α) : fresh x = x := rfl

@[simp] theorem within_eq (level : Nat) (x : Eval α) : within level x = x := by
  funext f σ
  unfold within
  split <;> rfl

end MachineStack
end TreeWalk
