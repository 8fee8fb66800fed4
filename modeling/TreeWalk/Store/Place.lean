/-
Places: what can be assigned to.

An assignment finds its place once, and then reads and writes that place.  A
write is first looked into and answers the change that it amounts to, so a write
that fails changes nothing.
-/
import TreeWalk.Store.Access

namespace TreeWalk

/-- A name, an element of a container, or a member of an object. -/
inductive Place where
  | name (name : String)
  | element (container key : Value)
  | member (object : Value) (name : String)

namespace Place

open Atomic

/-- What a place holds, seen from a scope. -/
def get (scope : ScopeId) (place : Place) (pos : Position) : Atomic Value := do
  match place with
  | name n =>
    match ← read (·.get? scope n) with
    | some v => return v
    | none => Access.failName scope n pos
  | element container key => Access.index container key pos
  | member object n => Access.member object n pos

/-- The change that writes a member.  Structs keep the members they have, and
enums their values. -/
def writeMember (object : Value) (n : String) (v : Value) (pos : Position) :
    Atomic (Store → Store) := do
  match object with
  | .struct scope _ =>
    match ← read (·.getLocal? scope n) with
    | some _ => return (·.bind scope n v)
    | none => fail (.unknownMember n object.kind none) pos
  | .enum _ _ => fail (.enumAssign n) pos
  | .hash id => return (·.modifyDict id (·.insert (.ofString n) (.ofString n) v))
  | _ => fail (.assignTarget "a member of this value") pos

/-- The change that writes an element of a container. -/
def writeElement (container key v : Value) (pos : Position) : Atomic (Store → Store) := do
  match container with
  | .array id =>
    let i ← Access.positionIn container key (← read (·.array id)).size pos
    return (·.modifyArray id (·.setIfInBounds i v))
  | .hash id =>
    let hash ← keyOf key pos
    return (·.modifyDict id (·.insert hash key v))
  | .struct _ _ =>
    match key.string? with
    | some n => writeMember container n v pos
    | none => Access.failIndexType container key pos
  | .enum _ _ =>
    match key.string? with
    | some n => writeMember container n v pos
    | none => Access.failIndexType container key pos
  | _ => Access.failIndexType container key pos

/-- The change that gives a new value to the nearest binding of a name.  A name
that is not bound is bound in the scope itself if `declare` allows it. -/
def writeName (scope : ScopeId) (n : String) (v : Value) (declare : Bool) (pos : Position) :
    Atomic (Store → Store) := do
  match ← read (·.binder? scope n) with
  | some s => return (·.bind s n v)
  | none => if declare then return (·.bind scope n v) else Access.failName scope n pos

/-- The change that writes a place, seen from a scope; or a failure, where there is
none. -/
def write (scope : ScopeId) (place : Place) (v : Value) (declare : Bool) (pos : Position) :
    Atomic (Store → Store) :=
  match place with
  | name n => writeName scope n v declare pos
  | element container key => writeElement container key v pos
  | member object n => writeMember object n v pos

end Place
end TreeWalk
