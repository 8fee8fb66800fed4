/-
Handles.

Arrays, hashes, scopes, frames and channels are shared: two values that hold the
same handle see each other's changes.  A handle is the number of a cell of the
store.  Each kind of cell has handles of its own type, so that none can be
looked up in the wrong table.
-/

namespace TreeWalk

structure ArrayId where
  index : Nat
  deriving DecidableEq, Repr, Inhabited

structure HashId where
  index : Nat
  deriving DecidableEq, Repr, Inhabited

structure ScopeId where
  index : Nat
  deriving DecidableEq, Repr, Inhabited

structure FrameId where
  index : Nat
  deriving DecidableEq, Repr, Inhabited

structure ChannelId where
  index : Nat
  deriving DecidableEq, Repr, Inhabited

/-- Tells apart functions made from the same literal in the same scope. -/
structure FunctionId where
  index : Nat
  deriving DecidableEq, Repr, Inhabited

structure WaitGroupId where
  index : Nat
  deriving DecidableEq, Repr, Inhabited

structure MutexId where
  index : Nat
  deriving DecidableEq, Repr, Inhabited

structure RWMutexId where
  index : Nat
  deriving DecidableEq, Repr, Inhabited

structure CondId where
  index : Nat
  deriving DecidableEq, Repr, Inhabited

structure OnceId where
  index : Nat
  deriving DecidableEq, Repr, Inhabited

structure HostId where
  index : Nat
  deriving DecidableEq, Repr, Inhabited

end TreeWalk
