/-
Included modules.

A unit is evaluated at most once; later includes of its path answer the module
that the first one made.  `loading` holds the paths whose evaluation is under
way, so that a unit that includes itself, directly or through others, is refused
rather than evaluated forever.
-/
import Std.Data.HashMap
import TreeWalk.Error

namespace TreeWalk

structure ModuleCache where
  /-- The paths being evaluated, the innermost first. -/
  loading : List String
  modules : Std.HashMap String Module
  /-- The paths in the order in which their evaluation ended. -/
  order : List String

namespace ModuleCache

def empty : ModuleCache := ⟨[], ∅, []⟩

instance : Inhabited ModuleCache := ⟨empty⟩

def get? (cache : ModuleCache) (path : String) : Option Module := cache.modules[path]?

def size (cache : ModuleCache) : Nat := cache.modules.size

/-- The finished modules in the order in which they were loaded. -/
def loaded (cache : ModuleCache) : List Module := cache.order.filterMap cache.get?

/-- Forgets every finished module. -/
def clear (cache : ModuleCache) : ModuleCache := { cache with modules := ∅, order := [] }

def begin (cache : ModuleCache) (path : String) : ModuleCache :=
  { cache with loading := path :: cache.loading }

/-- Takes a path off the chain of paths being evaluated. -/
def leave (cache : ModuleCache) (path : String) : ModuleCache :=
  { cache with loading := cache.loading.erase path }

def finish (cache : ModuleCache) (path : String) (m : Module) : ModuleCache :=
  { cache with modules := cache.modules.insert path m, order := cache.order ++ [path] }

/-- The module for `path`: the cached one, or the one that `evaluate` makes.
Whatever becomes of the evaluation, the path leaves the chain; only a module that
was made is kept. -/
def includeWith {m : Type → Type} {ε : Type} [Monad m] [MonadStateOf ModuleCache m] (path : String)
    (cyclic : ε) (evaluate : m (Except ε Module)) : m (Except ε Module) := do
  let cache ← get
  match cache.get? path with
  | some found => return .ok found
  | none =>
    if cache.loading.contains path then return .error cyclic
    set (cache.begin path)
    let result ← evaluate
    modify (·.leave path)
    match result with
    | .ok made =>
      modify (·.finish path made)
      return .ok made
    | .error e => return .error e

end ModuleCache

namespace Module

/-- The last part of a path: what follows the last slash, not counting slashes
and single dots at the end.  A path that ends in two dots, or in nothing, has
none. -/
def fileName? (path : String) : Option String :=
  let parts := (path.splitOn "/").filter fun part => part ≠ "" ∧ part ≠ "."
  match parts.getLast? with
  | some ".." => none
  | last => last

/-- A file name without what follows its last dot; a dot at the very start does
not count. -/
def stem (name : String) : String :=
  match (name.toList.reverse.dropWhile (· ≠ '.')) with
  | '.' :: before => if before = [] then name else String.ofList before.reverse
  | _ => name

/-- The name under which the module of a path is known. -/
def nameOf (path : String) : String :=
  match fileName? path with
  | some name => stem name
  | none => path

end Module
end TreeWalk
