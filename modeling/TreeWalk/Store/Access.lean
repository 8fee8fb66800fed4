/-
Names, members, elements and slices.

A name stands for what the host has published under it, or else for what the
scopes bind it to, then for an included module or a member of one, and last for
a function of the language.
-/
import TreeWalk.Method.Object

namespace TreeWalk

namespace Value

/-- The scope that holds the members of a struct, an enum or a module. -/
def memberScope? : Value → Option ScopeId
  | struct scope _ => some scope
  | enum scope _ => some scope
  | module m => some m.scope
  | _ => none

end Value

namespace Access

open Atomic

/-- Fails to find a name; the names that can be seen are searched for a similar
one. -/
def failName {α : Type} (scope : ScopeId) (name : String) (pos : Position) : Atomic α := do
  let candidates ← read fun σ =>
    σ.names scope ++ σ.registry.names ++ σ.moduleNames ++ Native.builtins.map Native.name
  fail (.unknownIdentifier name (Suggest.similar name candidates)) pos

/-- What a name stands for, seen from a scope. -/
def resolve? (σ : Store) (scope : ScopeId) (name : String) : Option Value :=
  (σ.registry.get? name).or <| (σ.get? scope name).or <| (σ.moduleMember? name).or <|
    (Native.ofName? name).map .native

def lookup (scope : ScopeId) (name : String) (pos : Position) : Atomic Value := do
  match ← read (resolve? · scope name) with
  | some v => return v
  | none => failName scope name pos

/-- What the host has published under `base.name`. -/
def published? (σ : Store) (base name : String) : Option Value :=
  σ.registry.get? (base ++ "." ++ name)

/-- Fails to find a member of a struct, an enum or a module. -/
def failMember {α : Type} (v : Value) (scope : ScopeId) (name : String) (pos : Position) :
    Atomic α := do
  let candidates ← read fun σ => (σ.members scope).names
  fail (.unknownMember name v.kind (Suggest.similar name candidates)) pos

/-- `v.name` -/
def member (v : Value) (name : String) (pos : Position) : Atomic Value := do
  match v.memberScope? with
  | some scope =>
    match ← read (·.getLocal? scope name) with
    | some found => return found
    | none => failMember v scope name pos
  | none =>
    match v with
    | .hash id =>
      match (← read (·.dict id)).get? (.ofString name) with
      | some entry => return entry.value
      | none => fail (.key name) pos
    | _ => fail (.unknownMember name v.kind (Suggest.similar name v.methodNames)) pos

/-- Fails because `v` cannot be indexed by `key`. -/
def failIndexType {α : Type} (v key : Value) (pos : Position) : Atomic α :=
  fail (.indexType v.kind key.kind) pos

/-- The position that `key` names in `v`, a sequence of a given length. -/
def positionIn (v key : Value) (length : Nat) (pos : Position) : Atomic Nat :=
  match key.int? with
  | some i => require (Sequence.resolveIndex? i length) (.index i length) pos
  | none => failIndexType v key pos

/-- The item that `key` names in a list of items of `v`. -/
def itemOf {α : Type} (v key : Value) (items : List α) (pos : Position) : Atomic α := do
  let i ← positionIn v key items.length pos
  require items[i]? (.index (Word.ofLength i) items.length) pos

/-- `v[key]` -/
def index (v key : Value) (pos : Position) : Atomic Value := do
  match v with
  | .array id => itemOf v key (← read (·.array id)).toList pos
  | .tuple items _ => itemOf v key items pos
  | .str s =>
    match s.get? with
    | some s => return .ofString (← itemOf v key s.toList pos).toString
    | none => failIndexType v key pos
  | .range r => return .ofInt (r.get (← positionIn v key r.length pos))
  | .hash id =>
    let hash ← keyOf key pos
    return (((← read (·.dict id)).get? hash).map (·.value)).getD .nothing
  | _ =>
    match v.memberScope?, key.string? with
    | some _, some name => member v name pos
    | _, _ => failIndexType v key pos

/-- The bound of a slice of `v` that an expression gave. -/
def bound (v given : Value) (pos : Position) : Atomic Int64 :=
  match given.int? with
  | some n => pure n
  | none => failIndexType v given pos

/-- `v[start:stop]` -/
def slice (v : Value) (start : Int64) (stop : Option Int64) (pos : Position) : Atomic Value := do
  match v with
  | .array id =>
    let items := (← read (·.array id)).toList
    let (low, high) ← Sequence.bounds start stop items.length pos
    newArray (Sequence.slice items low high)
  | .tuple items _ =>
    let (low, high) ← Sequence.bounds start stop items.length pos
    return .tuple (Sequence.slice items low high) false
  | .str s =>
    match s.get? with
    | some s =>
      let (low, high) ← Sequence.bounds start stop s.length pos
      return .ofString (String.ofList (Sequence.slice s.toList low high))
    | none => fail (.indexType v.kind "a slice") pos
  | _ => fail (.indexType v.kind "a slice") pos

end Access
end TreeWalk
