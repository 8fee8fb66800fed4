/-
Computations on the store.

Such a computation reads and changes the store and ends with a value or an exit.  It
does not wait and calls no script, so nothing runs between its parts.  What it is run
as is left open: it may be part of a task, which sees each change as soon as it is made,
or be all or nothing, so that what it has changed is forgotten when it ends with an exit.
-/
import TreeWalk.Store.Equality

namespace TreeWalk

/-- What computations on the store are made of. -/
class Effects (M : Type → Type) where
  /-- Ends with an exit. -/
  exit {α : Type} (e : Exit) : M α
  /-- Changes the store and answers what the change answers. -/
  change {α : Type} (f : Store → α × Store) : M α

/-- A computation on the store that is all or nothing. -/
abbrev Atomic := StateT Store (Except Exit)

instance : Effects Atomic where
  exit e := throw e
  change f := fun σ => .ok (f σ)

namespace Atomic

variable {M : Type → Type} [Effects M] {α : Type}

/-- Fails with a cause at a position. -/
def fail (cause : Cause) (pos : Position) : M α := Effects.exit (.error ⟨cause, pos⟩)

/-- Fails with a fault that no script can catch. -/
def fault (message : String) : M α := Effects.exit (.fault message)

/-- Changes the store and answers what the change answers. -/
def change (f : Store → α × Store) : M α := Effects.change f

def update (f : Store → Store) : M Unit := change fun σ => ((), f σ)

/-- Reads from the store. -/
def read (f : Store → α) : M α := change fun σ => (f σ, σ)

/-- The value, or a failure. -/
def require [Monad M] (a? : Option α) (cause : Cause) (pos : Position) : M α :=
  match a? with
  | some a => pure a
  | none => fail cause pos

/-- The greatest size in bytes that a container may ask for. -/
def sizeLimit : Nat := Nat.pow 2 63 - 1

/-- The size in bytes that an array asks for per element. -/
def elementSize : Nat := 32

/-- Refuses to make a container of more bytes than any may have. -/
def reserve [Monad M] (bytes : Nat) : M Unit :=
  if sizeLimit < bytes then fault "capacity overflow" else pure ()

def newArray (items : List Value) : M Value := change (·.newArray items.toArray)

def newDict (d : Dict) : M Value := change (·.newDict d)

end Atomic
end TreeWalk
