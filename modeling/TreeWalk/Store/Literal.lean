/-
Values as literals.

Numbers, strings, booleans, `nil`, and arrays and hashes of such have a literal,
an expression that evaluates to an equal value.  NULL scalars have none, and a
literal has no place for the message of a boolean or of `nil`.
-/
import TreeWalk.Store.Basic

namespace TreeWalk
namespace Store

/-- The form of the literal of a value, where `inner` makes the literal of what
lies behind a reference. -/
def literalForm? (σ : Store) (inner : Value → Option Expr) : Value → Option Form
  | .int n => n.get?.map .int
  | .float x => x.get?.map .float
  | .str s => s.get?.map .str
  | .bool b => if b.valid then some (.bool b.value) else none
  | .nil _ => some .nil
  | .array id => ((σ.array id).toList.mapM inner).map .array
  | .hash id =>
    ((σ.dict id).toList.mapM fun (e : Entry) => do
      return (← inner e.key, ← inner e.value)).map .hash
  | _ => none

/-- The literal of a value behind up to `fuel` references. -/
def literalWithin? (σ : Store) (pos : Position) : Nat → Value → Option Expr
  | 0, v => (σ.literalForm? (fun _ => none) v).map (⟨pos, ·⟩)
  | fuel + 1, v => (σ.literalForm? (literalWithin? σ pos fuel) v).map (⟨pos, ·⟩)

/-- The literal of a value, all of it at one position. -/
def literal? (σ : Store) (pos : Position) (v : Value) : Option Expr :=
  σ.literalWithin? pos σ.depth v

end Store
end TreeWalk
