/-
Patterns: the meaning of a regular expression once flags and names have been
resolved.

Patterns are built in a simplified form.  Concatenations and alternations are
flat, neighbouring literals are joined, alternatives that are single characters
or sets become one set, and what all alternatives begin with is written once.
Greed and the numbers of groups do not change which texts match; they are kept
because patterns that differ in them are not the same.
-/
import TreeWalk.Regex.Look

namespace TreeWalk
namespace Regex

/-- What a regular expression describes. -/
inductive Pattern where
  | empty
  | literal (text : List Char)
  /-- A character of a set; `ascii` tells that it was written where Unicode is
  switched off. -/
  | chars (set : CharSet) (ascii : Bool)
  | look (l : Look)
  /-- Between `least` and `most` times; without an upper bound if `most` is
  `none`. -/
  | repeated (p : Pattern) (least : Nat) (most : Option Nat) (greedy : Bool)
  | group (index : Nat) (p : Pattern)
  | concat (items : List Pattern)
  | alt (branches : List Pattern)

namespace Pattern

mutual

/-- Whether two patterns are written alike. -/
def same : Pattern → Pattern → Bool
  | empty, empty => true
  | literal s, literal t => s = t
  | chars s a, chars t b => s = t && a = b
  | look l, look m => l = m
  | repeated p least most greedy, repeated q least' most' greedy' =>
    p.same q && least = least' && most = most' && greedy = greedy'
  | group i p, group j q => i = j && p.same q
  | concat ps, concat qs => sameAll ps qs
  | alt ps, alt qs => sameAll ps qs
  | _, _ => false

def sameAll : List Pattern → List Pattern → Bool
  | [], [] => true
  | p :: ps, q :: qs => p.same q && sameAll ps qs
  | _, _ => false

end

mutual

/-- Patterns written alike are the same pattern. -/
theorem same_iff : ∀ p q : Pattern, p.same q = true ↔ p = q
  | empty, q => by cases q <;> simp [same]
  | literal _, q => by cases q <;> simp [same]
  | chars _ _, q => by cases q <;> simp [same]
  | look _, q => by cases q <;> simp [same]
  | repeated p _ _ _, q => by cases q <;> simp [same, same_iff p, and_assoc]
  | group _ p, q => by cases q <;> simp [same, same_iff p]
  | concat ps, q => by cases q <;> simp [same, sameAll_iff ps]
  | alt ps, q => by cases q <;> simp [same, sameAll_iff ps]

theorem sameAll_iff : ∀ ps qs : List Pattern, sameAll ps qs = true ↔ ps = qs
  | [], qs => by cases qs <;> simp [sameAll]
  | p :: ps, qs => by cases qs <;> simp [sameAll, same_iff p, sameAll_iff ps]

end

instance : DecidableEq Pattern := fun p q => decidable_of_iff _ (same_iff p q)

/-- The pattern that matches nothing. -/
def never : Pattern := chars .empty true

mutual

/-- Whether the pattern can match no text but the empty one. -/
def matchesOnlyEmpty : Pattern → Bool
  | empty => true
  | literal text => text.isEmpty
  | chars _ _ => false
  | look _ => true
  | repeated p _ most _ => most.isSome && p.matchesOnlyEmpty
  | group _ p => p.matchesOnlyEmpty
  | concat items => allMatchOnlyEmpty items
  | alt branches => allMatchOnlyEmpty branches

def allMatchOnlyEmpty : List Pattern → Bool
  | [] => true
  | p :: rest => p.matchesOnlyEmpty && allMatchOnlyEmpty rest

end

mutual

/-- The length of the shortest text that matches; `none` if a part of the pattern
can match nothing at all. -/
def shortest? : Pattern → Option Nat
  | empty => some 0
  | literal text => some text.length
  | chars set _ => if set.isEmpty then none else some 1
  | look _ => some 0
  | repeated p least _ _ => p.shortest?.map (· * least)
  | group _ p => p.shortest?
  | concat items => shortestSum? 0 items
  | alt [] => none
  | alt (p :: rest) => do shortestMin? (← p.shortest?) rest

def shortestSum? (total : Nat) : List Pattern → Option Nat
  | [] => some total
  | p :: rest => do shortestSum? (total + (← p.shortest?)) rest

def shortestMin? (least : Nat) : List Pattern → Option Nat
  | [] => some least
  | p :: rest => do shortestMin? (min least (← p.shortest?)) rest

end

/-- Whether every match is longer than the empty text. -/
def consumes (p : Pattern) : Bool :=
  match p.shortest? with
  | some n => 0 < n
  | none => false

mutual

/-- Whether the pattern begins with a condition whatever it matches: the first
parts of a concatenation count as long as the ones before them match only the
empty text. -/
def startsWith (l : Look) : Pattern → Bool
  | look m => m = l
  | repeated p least _ _ => 0 < least && p.startsWith l
  | group _ p => p.startsWith l
  | concat items => anyStartsWith l items
  | alt branches => allStartWith l branches
  | _ => false

def anyStartsWith (l : Look) : List Pattern → Bool
  | [] => false
  | p :: rest => p.startsWith l || (p.matchesOnlyEmpty && anyStartsWith l rest)

def allStartWith (l : Look) : List Pattern → Bool
  | [] => true
  | p :: rest => p.startsWith l && allStartWith l rest

end

mutual

/-- Whether the pattern ends with a condition whatever it matches. -/
def endsWith (l : Look) : Pattern → Bool
  | look m => m = l
  | repeated p least _ _ => 0 < least && p.endsWith l
  | group _ p => p.endsWith l
  | concat items => (concatEnd l items).1
  | alt branches => allEndWith l branches
  | _ => false

/-- Whether a concatenation ends with a condition, and whether it matches only the
empty text. -/
def concatEnd (l : Look) : List Pattern → Bool × Bool
  | [] => (false, true)
  | p :: rest =>
    let (found, onlyEmpty) := concatEnd l rest
    (found || (onlyEmpty && p.endsWith l), onlyEmpty && p.matchesOnlyEmpty)

def allEndWith (l : Look) : List Pattern → Bool
  | [] => true
  | p :: rest => p.endsWith l && allEndWith l rest

end

/-- A character of a set.  A set of one character is a literal. -/
def ofSet (set : CharSet) (ascii : Bool) : Pattern :=
  if set.isEmpty then never
  else
    match set.single? with
    | some c => literal [c]
    | none => chars set ascii

/-- A pattern repeated.  What matches only the empty text need not be repeated
more than once. -/
def repeating (p : Pattern) (least : Nat) (most : Option Nat) (greedy : Bool) : Pattern :=
  let (least, most) :=
    if p.matchesOnlyEmpty then (min least 1, some (min (most.getD 1) 1)) else (least, most)
  if most = some 0 then empty
  else if least = 1 ∧ most = some 1 then p
  else repeated p least most greedy

/-- The literal of characters given last one first, in front of `done`. -/
def closeLiteral (text : List Char) (done : List Pattern) : List Pattern :=
  if text.isEmpty then done else literal text.reverse :: done

/-- Items with neighbouring literals joined, last one first.  `text` is the
literal that is open, last character first. -/
def joinLiterals (text : List Char) (done : List Pattern) : List Pattern → List Pattern
  | [] => closeLiteral text done
  | literal more :: rest => joinLiterals (more.reverse ++ text) done rest
  | p :: rest => joinLiterals [] (p :: closeLiteral text done) rest

/-- The items of a pattern as a part of a concatenation. -/
def items : Pattern → List Pattern
  | empty => []
  | concat items => items
  | p => [p]

/-- One pattern after the other. -/
def sequence (ps : List Pattern) : Pattern :=
  match (joinLiterals [] [] (ps.flatMap items)).reverse with
  | [] => empty
  | [p] => p
  | ps => concat ps

/-- The branches of a pattern as a part of an alternation. -/
def branches : Pattern → List Pattern
  | alt branches => branches
  | p => [p]

/-- The set of a literal of one character. -/
def singleLiteral? : Pattern → Option CharSet
  | literal [c] => some (.single c)
  | _ => none

def charSet? : Pattern → Option CharSet
  | chars set _ => some set
  | _ => none

/-- The set that branches are together, if all are characters or all are sets. -/
def asSet? (bs : List Pattern) : Option CharSet :=
  ((bs.mapM singleLiteral?) <|> bs.mapM charSet?).map (·.foldl (· ∪ ·) .empty)

/-- One of several patterns without a common start, given flat. -/
def plainChoice (bs : List Pattern) : Pattern :=
  match bs with
  | [] => never
  | [p] => p
  | _ =>
    match asSet? bs with
    | some set => ofSet set false
    | none => alt bs

/-- What two lists begin with. -/
def commonStart : List Pattern → List Pattern → List Pattern
  | p :: ps, q :: qs => if p = q then p :: commonStart ps qs else []
  | _, _ => []

/-- The parts of a concatenation of several. -/
def parts? : Pattern → Option (List Pattern)
  | concat items => some items
  | _ => none

/-- One of several patterns. -/
def choice (ps : List Pattern) : Pattern :=
  let bs := ps.flatMap branches
  match asSet? bs, bs.mapM parts? with
  | none, some (first :: second :: more) =>
    match (second :: more).foldl commonStart first with
    | [] => plainChoice bs
    | start =>
      let ends := (first :: second :: more).map fun parts => sequence (parts.drop start.length)
      sequence (start ++ [plainChoice (ends.flatMap branches)])
  | _, _ => plainChoice bs

end Pattern
end Regex
end TreeWalk
