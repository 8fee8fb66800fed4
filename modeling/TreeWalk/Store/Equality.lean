/-
Equality and order of values.

The language has its own equality, which compares numbers across kinds, and
which is not defined between a number and a string.  `same` is the finer
equality of the host: it tells messages, payloads and the order of hashes apart.
Both see through references, and go as deep as references can follow each other.
-/
import TreeWalk.Store.Render

namespace TreeWalk

namespace ObjectRef

/-- Whether two references name one object. -/
def same : ObjectRef → ObjectRef → Bool
  | waitGroup a, waitGroup b => a = b
  | mutex a, mutex b => a = b
  | rwMutex a, rwMutex b => a = b
  | cond a, cond b => a = b
  | once a, once b => a = b
  | host a _ _ _, host b _ _ _ => a = b
  | _, _ => false

end ObjectRef

namespace Value

/-- Whether two values are one and the same shared object. -/
def identical : Value → Value → Bool
  | struct a _, struct b _ => a = b
  | enum a _, enum b _ => a = b
  | function f, function g => f.id = g.id
  | native f, native g => f = g
  | channel a, channel b => a = b
  | module m, module n => m.scope = n.scope
  | object a, object b => a.same b
  | _, _ => false

/-- Whether the kind of a value is numeric. -/
def isNumeric : Value → Bool
  | int _ => true
  | float _ => true
  | _ => false

def isString : Value → Bool
  | str _ => true
  | _ => false

end Value

namespace Store

/-- Hashes are equal when they have the same keys with values that show alike,
in any order. -/
def equalDicts (σ : Store) (a b : Dict) : Bool :=
  a.size = b.size && a.toList.all fun entry =>
    match entry.key.key?.bind b.get? with
    | some other =>
      σ.display other.key == σ.display entry.key && σ.display other.value == σ.display entry.value
    | none => false

/-- Equality where one side is NULL: to `nil`, or between two NULL scalars of one
kind. -/
def equalInvalid (a b : Value) : Bool :=
  a.isNil || b.isNil || (!a.isValid && !b.isValid && a.kind == b.kind)

mutual

/-- The language's `==`, where `inner` compares what lies behind references;
`none` where it is not defined. -/
def equalWith? (σ : Store) (inner : Value → Value → Bool) : Value → Value → Option Bool
  | a, b =>
    if !a.isValid || !b.isValid then some (equalInvalid a b)
    else
      match a, b with
      | .int m, .int n => some (m.payload == n.payload)
      | .array i, .array j =>
        let xs := (σ.array i).toList
        let ys := (σ.array j).toList
        some (i = j || (xs.length = ys.length && (xs.zip ys).all fun (x, y) => inner x y))
      | .array _, _ => some false
      | _, .array _ => some false
      | .str s, .str t => some (s.payload == t.payload)
      | .hash i, .hash j => some (σ.equalDicts (σ.dict i) (σ.dict j))
      | .bool p, .bool q => some (p.value == q.value)
      | .nil _, .nil _ => some true
      | .tuple xs _, .tuple ys _ => some (equalItems σ inner xs ys)
      | .range r, .range s => some (r = s)
      | a, b =>
        match a.number?, b.number? with
        | some x, some y => some (x == y)
        | some _, none => if b.isString then none else some false
        | none, some _ => if a.isString then none else some false
        | none, none => some (a.identical b)

def equalItems (σ : Store) (inner : Value → Value → Bool) : List Value → List Value → Bool
  | [], [] => true
  | a :: as, b :: bs => (equalWith? σ inner a b).getD false && equalItems σ inner as bs
  | _, _ => false

end

/-- `==` through up to `fuel` references. -/
def equalWithin? (σ : Store) : Nat → Value → Value → Option Bool
  | 0 => σ.equalWith? fun _ _ => false
  | fuel + 1 => σ.equalWith? fun a b => (equalWithin? σ fuel a b).getD false

/-- The language's `==`; `none` between a number and a string. -/
def equal? (σ : Store) (a b : Value) : Option Bool := σ.equalWithin? σ.depth a b

/-- Whether two values count as equal, as `case`, `contains` and `in` ask. -/
def equal (σ : Store) (a b : Value) : Bool := (σ.equal? a b).getD false

/-- The order that `sort` uses: numbers by size, strings by code points. -/
def compare? (a b : Value) : Option Ordering :=
  match a, b with
  | .int m, .int n =>
    match m.get?, n.get? with
    | some x, some y => some (compare x y)
    | _, _ => none
  | _, _ =>
    match a.number?, b.number? with
    | some x, some y =>
      if x < y then some .lt else if x == y then some .eq else if y < x then some .gt else none
    | _, _ =>
      match a.string?, b.string? with
      | some s, some t => some (compare s t)
      | _, _ => none

mutual

/-- The host's equality, where `inner` compares what lies behind references. -/
def sameWith (σ : Store) (inner : Value → Value → Bool) : Value → Value → Bool
  | .int m, .int n => m.payload == n.payload && m.valid == n.valid
  | .float x, .float y => x.payload == y.payload && x.valid == y.valid
  | .bool p, .bool q => p = q
  | .nil m, .nil n => m = n
  | .str s, .str t => s.payload == t.payload && s.valid == t.valid
  | .array i, .array j =>
    let xs := (σ.array i).toList
    let ys := (σ.array j).toList
    i = j || (xs.length = ys.length && (xs.zip ys).all fun (x, y) => inner x y)
  | .tuple xs m, .tuple ys n => sameItems σ inner xs ys && m == n
  | .hash i, .hash j =>
    let d := σ.dict i
    let e := σ.dict j
    i = j || (d.order = e.order && (d.toList.zip e.toList).all fun (x, y) =>
      inner x.key y.key && inner x.value y.value)
  | .range r, .range s => r = s
  | a, b => a.identical b

def sameItems (σ : Store) (inner : Value → Value → Bool) : List Value → List Value → Bool
  | [], [] => true
  | a :: as, b :: bs => sameWith σ inner a b && sameItems σ inner as bs
  | _, _ => false

end

/-- The host's equality through up to `fuel` references. -/
def sameWithin (σ : Store) : Nat → Value → Value → Bool
  | 0 => σ.sameWith fun _ _ => false
  | fuel + 1 => σ.sameWith (sameWithin σ fuel)

def same (σ : Store) (a b : Value) : Bool := σ.sameWithin σ.depth a b

/-- The host's equality of hashes: the same keys in the same order, with the same
entries. -/
def sameDict (σ : Store) (d e : Dict) : Bool :=
  d.order = e.order && (d.toList.zip e.toList).all fun (x, y) =>
    σ.same x.key y.key && σ.same x.value y.value

end Store
end TreeWalk
