/-
Regular expressions as they are written.

A tree keeps every construct of the text, before flags and names have been given
a meaning.  Its height counts the constructs that enclose others; a concatenation,
an alternation or a union of a single part is that part.
-/
import TreeWalk.Text.CharSet

namespace TreeWalk
namespace Regex

/-- What can be switched within a group. -/
inductive Flag where
  | ignoreCase | multiLine | dotAll | swapGreed | unicode | crlf
  /-- White space and comments in the text are skipped. -/
  | verbose
  deriving DecidableEq, Repr

namespace Flag

def ofLetter? : Char → Option Flag
  | 'i' => some ignoreCase
  | 'm' => some multiLine
  | 's' => some dotAll
  | 'U' => some swapGreed
  | 'u' => some unicode
  | 'R' => some crlf
  | 'x' => some verbose
  | _ => none

end Flag

/-- A flag that is switched on or off. -/
structure Switch where
  flag : Flag
  on : Bool
  deriving DecidableEq, Repr

/-- A character that stands for itself.  One that is written as two hexadecimal
digits names a byte where Unicode is switched off. -/
structure Literal where
  char : Char
  byte : Bool := false
  deriving DecidableEq, Repr

/-- The sets with a letter of their own. -/
inductive Shorthand where
  | digit | space | word
  deriving DecidableEq, Repr

/-- How a set is asked for after `\p`. -/
inductive Query where
  | name (name : String)
  | value (name value : String)
  deriving DecidableEq, Repr

/-- Conditions on a place, as they are written. -/
inductive Anchor where
  | lineStart | lineEnd
  | textStart | textEnd
  | wordEdge | notWordEdge
  | wordStart | wordEnd
  | wordStartHalf | wordEndHalf
  deriving DecidableEq, Repr

/-- The operations between the parts of a bracketed set. -/
inductive SetOp where
  | inter | diff | symmDiff
  deriving DecidableEq, Repr

/-- What stands between brackets. -/
inductive SetTree where
  | empty
  | literal (l : Literal)
  | range (low high : Literal)
  /-- `[:name:]`. -/
  | ascii (set : CharSet) (negated : Bool)
  | shorthand (s : Shorthand) (negated : Bool)
  | property (q : Query) (negated : Bool)
  | bracketed (inner : SetTree) (negated : Bool)
  | union (items : List SetTree)
  | op (o : SetOp) (left right : SetTree)

namespace SetTree

mutual

def height : SetTree → Nat
  | bracketed inner _ => inner.height + 1
  | union items => heightOfAll 0 items + 1
  | op _ left right => max left.height right.height + 1
  | _ => 0

def heightOfAll (highest : Nat) : List SetTree → Nat
  | [] => highest
  | t :: rest => heightOfAll (max highest t.height) rest

end

/-- The union of the items, which are given last one first. -/
def ofItems : List SetTree → SetTree
  | [] => empty
  | [t] => t
  | items => union items.reverse

end SetTree

/-- What makes a group. -/
inductive GroupKind where
  /-- A group that is captured, by its number. -/
  | capture (index : Nat)
  | plain (switches : List Switch)

inductive Tree where
  | empty
  /-- Flags for the rest of the group around them. -/
  | switches (list : List Switch)
  | literal (l : Literal)
  | dot
  | anchor (a : Anchor)
  | shorthand (s : Shorthand) (negated : Bool)
  | property (q : Query) (negated : Bool)
  | set (inner : SetTree) (negated : Bool)
  | repeated (t : Tree) (least : Nat) (most : Option Nat) (greedy : Bool)
  | group (kind : GroupKind) (t : Tree)
  | concat (items : List Tree)
  | alt (branches : List Tree)

namespace Tree

mutual

def height : Tree → Nat
  | set inner _ => inner.height + 1
  | repeated t _ _ _ => t.height + 1
  | group _ t => t.height + 1
  | concat items => heightOfAll 0 items + 1
  | alt branches => heightOfAll 0 branches + 1
  | _ => 0

def heightOfAll (highest : Nat) : List Tree → Nat
  | [] => highest
  | t :: rest => heightOfAll (max highest t.height) rest

end

/-- The concatenation of the items, which are given last one first. -/
def ofItems : List Tree → Tree
  | [] => empty
  | [t] => t
  | items => concat items.reverse

/-- The alternation of the branches, which are given last one first. -/
def ofBranches : List Tree → Tree
  | [] => empty
  | [t] => t
  | branches => alt branches.reverse

/-- Whether a repetition can apply to the tree. -/
def isRepeatable : Tree → Bool
  | empty | switches _ => false
  | _ => true

end Tree
end Regex
end TreeWalk
