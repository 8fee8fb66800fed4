/-
Hashes that remember the order of insertion.

The entries are found through a table by key; a separate list keeps the keys in
the order in which they came in, and everything that walks through a hash walks
through that list.
-/
import Std.Data.HashMap
import TreeWalk.Value.Basic

namespace TreeWalk

/-- An entry of a hash: the key as it was given, and what it stands for. -/
structure Entry where
  key : Value
  value : Value

/-- A hash that remembers the order of insertion. -/
structure Dict where
  order : List Key
  entries : Std.HashMap Key Entry

namespace Dict

def empty : Dict := ⟨[], ∅⟩

instance : Inhabited Dict := ⟨empty⟩

def size (d : Dict) : Nat := d.order.length

def isEmpty (d : Dict) : Bool := d.order.isEmpty

def get? (d : Dict) (key : Key) : Option Entry := d.entries[key]?

def contains (d : Dict) (key : Key) : Bool := d.entries.contains key

/-- Files `value` under `hash`.  A key that is there keeps its place and the form
in which it was first given; a new one goes last. -/
def insert (d : Dict) (hash : Key) (key value : Value) : Dict :=
  match d.get? hash with
  | some entry => { d with entries := d.entries.insert hash { entry with value := value } }
  | none => ⟨d.order ++ [hash], d.entries.insert hash ⟨key, value⟩⟩

def erase (d : Dict) (hash : Key) : Dict :=
  if d.contains hash then ⟨d.order.erase hash, d.entries.erase hash⟩ else d

/-- Files a value as `insert` does, and answers what the key stood for before. -/
def put (d : Dict) (hash : Key) (key value : Value) : Option Value × Dict :=
  ((d.get? hash).map (·.value), d.insert hash key value)

/-- Takes the entry of a key out as `erase` does, and answers it. -/
def take (d : Dict) (hash : Key) : Option Entry × Dict := (d.get? hash, d.erase hash)

/-- The entries in order of insertion. -/
def toList (d : Dict) : List Entry := d.order.filterMap d.get?

def keys (d : Dict) : List Value := d.toList.map (·.key)

def values (d : Dict) : List Value := d.toList.map (·.value)

/-- The entries of `b` inserted into `a` in turn. -/
def merge (a b : Dict) : Dict :=
  b.toList.foldl (fun d entry =>
    match entry.key.key? with
    | some hash => d.insert hash entry.key entry.value
    | none => d) a

end Dict
end TreeWalk
