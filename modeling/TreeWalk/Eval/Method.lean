/-
Calls of methods.

What a name stands for is decided by the kind of the receiver.  Structs, enums
and modules look for a member of that name; all other values have a table.
-/
import TreeWalk.Eval.Object
import TreeWalk.Eval.Visit
import TreeWalk.Store.Access

namespace TreeWalk
namespace Method

open Eval

variable (ev : Evaluator)

def onFunction (f : Value) (args : Args) : Eval Value := do
  match args.name, f with
  | "call", _ => ev.callBack f args.values
  | "name", .function c =>
    lift args.empty
    return .ofString c.lit.displayName
  | "name", .native n =>
    lift args.empty
    return .ofString n.name
  | "arity", .function c =>
    lift args.empty
    return .ofLength c.lit.params.length
  | _, _ => Object.failMethod functionNames f.kind args

/-- A member that can be called is called; another one is the answer to a call
without arguments. -/
def onMembers (v : Value) (scope : ScopeId) (args : Args) : Eval Value := do
  let member? ← read (·.getLocal? scope args.name)
  match member?, args.values with
  | some member, values =>
    if member.isCallable then ev.callBack member values
    else if values.isEmpty then return member
    else lift (Access.failMember v scope args.name args.pos)
  | none, values =>
    if args.name = "toString" ∧ values.isEmpty then return .ofString (← read (·.display v))
    else lift (Access.failMember v scope args.name args.pos)

/-- `v.name(values)` -/
def call (v : Value) (name : String) (values : List Value) : Eval Value := do
  let args : Args := ⟨name, values, ← position⟩
  match v with
  | .int n => Object.dispatch v.kind args fun m => lift (IntMethod.run n m args)
  | .float x => Object.dispatch v.kind args fun m => lift (FloatMethod.run x m args)
  | .str s => Object.dispatch v.kind args fun m => lift (StringMethod.run s m args)
  | .bool b => Object.dispatch v.kind args fun m => lift (BoolMethod.run b m args)
  | .nil reason => Object.dispatch v.kind args fun m => lift (NilMethod.run reason m args)
  | .array id =>
    Object.dispatch v.kind args fun
      | ArrayMethod.act m => lift (ArrayAction.run id m args)
      | ArrayMethod.visit m => Visit.onArray ev id m args
  | .tuple items multi =>
    Object.dispatch v.kind args fun m => lift (TupleMethod.run items multi m args)
  | .range r => Object.dispatch v.kind args fun m => lift (RangeMethod.run r m args)
  | .hash id =>
    Object.dispatch v.kind args fun
      | HashMethod.act m => lift (HashAction.run id m args)
      | HashMethod.visit m => Visit.onHash ev id m args
  | .channel id => Object.dispatch v.kind args (Object.onChannel id · args)
  | .function _ => onFunction ev v args
  | .native _ => onFunction ev v args
  | .struct scope _ => onMembers ev v scope args
  | .enum scope _ => onMembers ev v scope args
  | .module m => onMembers ev v m.scope args
  | .object o => Object.call ev o args

end Method
end TreeWalk
