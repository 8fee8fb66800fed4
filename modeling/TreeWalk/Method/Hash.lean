/-
Methods of hashes.

`push` and `set` are two names of one method, and so are `pop` and `delete`.
-/
import TreeWalk.Method.Scalar

namespace TreeWalk

open Atomic

variable {M : Type → Type} [Monad M] [Effects M]

/-- Methods of hashes that call nothing back. -/
inductive HashAction where
  | delete | empty | get | has | keys | len | pop | push | set | toString | values
  deriving DecidableEq, Repr, Inhabited

/-- Methods of hashes that call a function for every entry. -/
inductive HashVisit where
  | filter | map
  deriving DecidableEq, Repr, Inhabited

inductive HashMethod where
  | act (m : HashAction)
  | visit (m : HashVisit)
  deriving DecidableEq, Repr, Inhabited

namespace HashMethod

def names : List String :=
  ["delete", "empty", "filter", "get", "has", "keys", "len", "map", "pop", "push", "set",
   "toString", "values"]

def ofName? : String → Option HashMethod
  | "len" => some (act .len)
  | "empty" => some (act .empty)
  | "keys" => some (act .keys)
  | "values" => some (act .values)
  | "toString" => some (act .toString)
  | "push" => some (act .push)
  | "set" => some (act .set)
  | "pop" => some (act .pop)
  | "delete" => some (act .delete)
  | "get" => some (act .get)
  | "has" => some (act .has)
  | "filter" => some (visit .filter)
  | "map" => some (visit .map)
  | _ => none

instance : MethodTable HashMethod := ⟨names, ofName?⟩

end HashMethod

namespace Atomic

/-- The key under which a hash files a value, or a failure. -/
def keyOf (v : Value) (pos : Position) : M Key := require v.key? (.unhashable v.kind) pos

end Atomic

namespace HashAction

/-- Files the second argument under the first. -/
def store (id : HashId) (args : Args) : M Value := do
  let (key, value) ← args.two
  let hash ← keyOf key args.pos
  update (·.modifyDict id (·.insert hash key value))
  return .hash id

/-- Takes an entry out and answers what it held. -/
def remove (id : HashId) (args : Args) : M Value := do
  let hash ← keyOf (← args.one) args.pos
  let found ← read fun σ => (σ.dict id).get? hash
  update (·.modifyDict id (·.erase hash))
  return (found.map (·.value)).getD .nothing

def run (id : HashId) (m : HashAction) (args : Args) : M Value := do
  match m with
  | len =>
    args.empty
    return .ofLength (← read (·.dict id)).size
  | empty =>
    args.empty
    return .ofBool (← read (·.dict id)).isEmpty
  | keys =>
    args.empty
    newArray (← read (·.dict id)).keys
  | values =>
    args.empty
    newArray (← read (·.dict id)).values
  | toString => args.toString (.hash id)
  | push => store id args
  | set => store id args
  | pop => remove id args
  | delete => remove id args
  | get =>
    let (key, fallback?) ← args.oneOrTwo
    let hash ← keyOf key args.pos
    match (← read (·.dict id)).get? hash with
    | some entry => return entry.value
    | none => return fallback?.getD .nothing
  | has =>
    let hash ← keyOf (← args.one) args.pos
    return .ofBool ((← read (·.dict id)).contains hash)

end HashAction
end TreeWalk
