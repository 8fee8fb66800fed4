/-
How much memory the table of a pattern takes.

A pattern is only accepted if its table of states stays within a limit, both the
table that reads a text forward and the one that reads it backward.  These tables
read UTF-8, one byte in each step; they are not built, only measured.  A state
takes 32 bytes, and besides that 8 bytes for each of its transitions, or 4 for
each of its alternatives.

Counting stops as soon as the limit is passed, so the work is bounded by the
limit and not by the counts of repetitions.
-/
import TreeWalk.Regex.Pattern
import TreeWalk.Regex.Utf8

namespace TreeWalk
namespace Regex

/-- The size of a table of states. -/
structure Footprint where
  states : Nat
  /-- The bytes that transitions and alternatives take. -/
  extra : Nat
  deriving DecidableEq, Repr

namespace Footprint

def bytes (f : Footprint) : Nat := 32 * f.states + f.extra

/-- The most bytes that a table may take. -/
def limit : Nat := 10 * Nat.pow 2 20

/-- Counting that fails when the limit is passed. -/
abbrev Counting := StateT Footprint Option

/-- Adds to the table, if that much still fits. -/
def grow (states extra : Nat) : Counting Unit := fun f =>
  let f := ⟨f.states + states, f.extra + extra⟩
  if limit < f.bytes then none else some ((), f)

/-- Adds a state that takes some bytes of its own, and answers its number. -/
def state (extra : Nat) : Counting Nat := fun f => do
  let ((), grown) ← grow 1 extra f
  return (f.states, grown)

/-- Adds the link from the end of one part to what follows it.  Only a fork takes
memory for it. -/
def link (fromFork : Bool) : Counting Unit := grow 0 (if fromFork then 4 else 0)

/-- Adds `n` parts in a row.  Parts answer whether they end in a fork, and so does
the row; the row in front, if there is one, ends as `before` tells. -/
def copies (part : Counting Bool) (before : Option Bool) : Nat → Counting Bool
  | 0 =>
    match before with
    | some fork => return fork
    | none => do
      grow 1 0
      return false
  | n + 1 => do
    let fork ← part
    link (before.getD false)
    copies part (some fork) n

/-- Adds up to `n` parts in a row that can be left before each of them, after a
part that ends as `before` tells. -/
def optionalCopies (part : Counting Bool) (before : Bool) : Nat → Counting Unit
  | 0 => link before
  | n + 1 => do
    grow 1 8
    let fork ← part
    link before
    optionalCopies part fork n

/-- A literal cut from a list of them: what is left of it after its first byte. -/
def tailsOf (byte : UInt8) (texts : List (List UInt8)) : List (List UInt8) :=
  texts.filterMap fun
    | b :: rest => if b = byte then some rest else none
    | [] => none

/-- The first bytes of texts, each once. -/
def heads (texts : List (List UInt8)) : List UInt8 := (texts.filterMap List.head?).eraseDups

/-- Texts cut where one of them is empty. -/
def segments : List (List UInt8) → List (List (List UInt8))
  | [] => [[]]
  | [] :: rest => [] :: segments rest
  | text :: rest =>
    match segments rest with
    | first :: more => (text :: first) :: more
    | [] => [[text]]

/-- The size of the tree of texts of which one is to match, without its end.  What
texts begin with is shared, but not across a text that ends there, since an
earlier text goes before a later one. -/
def tree : Nat → List (List UInt8) → Footprint
  | 0, _ => ⟨0, 0⟩
  | fuel + 1, texts =>
    if texts.all List.isEmpty then ⟨0, 0⟩
    else
      let parts := segments texts
      let filled := parts.filter (!·.isEmpty)
      let endsFirst := if (parts.head?.getD []).isEmpty then 1 else 0
      let endsLater := (parts.dropWhile List.isEmpty).length - 1
      filled.foldl (fun f part =>
        let bytes := heads part
        let own := if bytes.length = 1 then 0 else 8 * bytes.length
        bytes.foldl (fun f b =>
          let below := tree fuel (tailsOf b part)
          ⟨f.states + below.states, f.extra + below.extra⟩) ⟨f.states + 1, f.extra + own⟩)
        ⟨1, 4 * (filled.length + endsFirst + endsLater)⟩

/-- The UTF-8 bytes of a text. -/
def utf8 (text : List Char) : List UInt8 := (String.ofList text).toUTF8.toList

/-- Adds the tree of literals of which one is to match. -/
def addTree (backward : Bool) (texts : List (List Char)) : Counting Bool := do
  let texts := texts.map fun t => if backward then (utf8 t).reverse else utf8 t
  let longest := texts.foldl (fun n t => max n t.length) 0
  let f := tree (longest + 1) texts
  grow (f.states + 1) f.extra
  return false

/-- One step of the digest that finds the slot of a state. -/
def mix (digest : UInt64) (n : Nat) : UInt64 := (digest ^^^ n.toUInt64) * 1099511628211

def digest (numbers : List Nat) : UInt64 := numbers.foldl mix 14695981039346656037

/-- States that were added for a set and can be used again: what they do, and
their number.  There is one slot for each digest, so a state is forgotten when
another takes its slot. -/
structure Slots where
  table : Array (Option (List Nat × Nat))

namespace Slots

def ofSize (n : Nat) : Slots := ⟨.replicate n none⟩

/-- The number of the state that does this, added if need be. -/
def use (slots : Slots) (what : List Nat) (extra : Nat) : Counting (Nat × Slots) := do
  let slot := (digest what % slots.table.size.toUInt64).toNat
  match slots.table.getD slot none with
  | some (known, id) =>
    if known = what then return (id, slots)
    else
      let id ← state extra
      return (id, ⟨slots.table.setIfInBounds slot (some (what, id))⟩)
  | none =>
    let id ← state extra
    return (id, ⟨slots.table.setIfInBounds slot (some (what, id))⟩)

end Slots

/-- Adds the tree of some sequences of ranges of bytes that lead to `target`, its
leaves first, and answers the number of its root.  Equal nodes are shared. -/
def addSequences (target : Nat) :
    Nat → List (List (Nat × Nat)) → Slots → Counting (Nat × Slots)
  | 0, _, slots => return (target, slots)
  | fuel + 1, sequences, slots => do
    let groups := sequences.splitBy fun a b => a.head? == b.head?
    let (node, slots) ← groups.foldlM (fun ((node : List Nat), slots) group => do
      match group with
      | ((first, last) :: []) :: _ => return (target :: last :: first :: node, slots)
      | ((first, last) :: _) :: _ =>
        let (next, slots) ← addSequences target fuel (group.map List.tail) slots
        return (next :: last :: first :: node, slots)
      | _ => return (node, slots)) ([], slots)
    slots.use node.reverse (8 * groups.length)

/-- Adds a set that is read forward. -/
def addForward (set : CharSet) : Counting Bool := do
  let target ← state 0
  discard <| addSequences target 4 (Utf8.ofSet set) (.ofSize 10000)
  return false

/-- Adds a sequence of ranges of bytes that is read backward, from `target` on. -/
def addBackwardFrom : List (Nat × Nat) → Nat → Slots → Counting Slots
  | [], _, slots => do
    link true
    return slots
  | (first, last) :: rest, target, slots => do
    let (id, slots) ← slots.use [target, first, last] 0
    addBackwardFrom rest id slots

/-- Adds a set that is read backward. -/
def addBackward (set : CharSet) : Counting Bool := do
  grow 1 0
  let target ← state 0
  discard <| (Utf8.ofSet set).foldlM (fun slots sequence => addBackwardFrom sequence target slots)
    (Slots.ofSize 1000)
  return false

/-- Adds a set of characters. -/
def addSet (backward : Bool) (set : CharSet) : Counting Bool :=
  if set.isAscii then do
    grow 2 (8 * set.ranges.length)
    return false
  else if backward then addBackward set
  else addForward set

/-- Adds a pattern repeated. -/
def addRepeated (part : Counting Bool) (consumes : Bool) (least : Nat) (most : Option Nat) :
    Counting Bool := do
  match most with
  | some most =>
    if least = 0 ∧ most = 1 then
      grow 1 8
      let fork ← part
      grow 1 0
      link fork
      return false
    else
      let fork ← copies part none least
      if least = most then return fork
      grow 1 0
      optionalCopies part fork (most - least)
      return false
  | none =>
    match least with
    | 0 =>
      if consumes then
        grow 1 4
        link (← part)
        return true
      else
        let fork ← part
        grow 3 16
        link fork
        return false
    | 1 =>
      let fork ← part
      grow 1 4
      link fork
      return true
    | n + 2 =>
      let before ← copies part none (n + 1)
      let fork ← part
      grow 1 4
      link before
      link fork
      return true

/-- The texts of literals, if all patterns are. -/
def literals? (ps : List Pattern) : Option (List (List Char)) :=
  ps.mapM fun
    | .literal text => some text
    | _ => none

mutual

/-- Adds a pattern and answers whether it ends in a fork. -/
def add (backward : Bool) : Pattern → Counting Bool
  | .empty => do grow 1 0; return false
  | .literal text => do grow (utf8 text).length 0; return false
  | .chars set _ => addSet backward set
  | .look _ => do grow 1 0; return false
  | .repeated p least most _ => addRepeated (add backward p) p.consumes least most
  | .group _ p =>
    if backward then add backward p
    else do
      grow 1 0
      link (← add backward p)
      grow 1 0
      return false
  | .concat items => if backward then addBack items else addFront backward none items
  | .alt branches =>
    match literals? branches with
    | some texts => addTree backward texts
    | none => addBranches backward 0 branches

/-- Adds patterns in a row, after one that ends as `before` tells. -/
def addFront (backward : Bool) (before : Option Bool) : List Pattern → Counting Bool
  | [] => return before.getD false
  | p :: rest => do
    let fork ← add backward p
    link (before.getD false)
    addFront backward (some fork) rest

/-- Adds patterns in a row, the last one first. -/
def addBack : List Pattern → Counting Bool
  | [] => return false
  | p :: rest => do
    let before ← addBack rest
    let fork ← add true p
    link before
    return fork

/-- Adds patterns of which one is to match, after `done` of them. -/
def addBranches (backward : Bool) (done : Nat) : List Pattern → Counting Bool
  | [] => return false
  | p :: rest => do
    let fork ← add backward p
    if done = 1 then grow 2 4
    grow 0 4
    link fork
    addBranches backward (done + 1) rest

end

/-- Adds the start that skips to where a match begins, unless there is only one
place for that. -/
def addStart (anchored : Bool) : Counting Unit := if anchored then grow 1 0 else grow 3 16

/-- Measures the table that reads a text forward. -/
def forward (p : Pattern) : Counting Unit := do
  addStart (p.startsWith .textStart)
  discard <| add false (.group 0 p)
  grow 1 0

/-- Measures the table that reads a text backward. -/
def backward (p : Pattern) : Counting Unit := do
  addStart (p.endsWith .textEnd)
  link (← add true p)
  grow 1 0

/-- Whether the tables of a pattern stay within the limit. -/
def fits (p : Pattern) : Bool :=
  ((forward p).run ⟨0, 0⟩).isSome && ((backward p).run ⟨0, 0⟩).isSome

end Footprint
end Regex
end TreeWalk
