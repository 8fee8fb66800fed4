/-
Matching by simulation.

A pattern becomes a table of states, and all states that the text read so far
can lead to are followed at once.  A state is either left by reading a character
of a set, or without reading anything, possibly under a condition on the
place.
-/
import TreeWalk.Regex.Pattern

namespace TreeWalk
namespace Regex

inductive State where
  | accept
  | read (set : CharSet) (next : Nat)
  | check (l : Look) (next : Nat)
  | fork (first second : Nat)

namespace Automaton

/-- Adds a state to a table and answers its number. -/
def push (s : State) (table : Array State) : Nat × Array State := (table.size, table.push s)

/-- Adds the states of `n` copies of a pattern in a row, the last leading to
`next`. -/
def copies (add : Nat → Array State → Nat × Array State) :
    Nat → Nat → Array State → Nat × Array State
  | 0, next, table => (next, table)
  | n + 1, next, table =>
    let (entry, table) := add next table
    copies add n entry table

/-- Adds the states of up to `n` copies in a row; before each of them the row
can be left for `exit`. -/
def optionalCopies (add : Nat → Array State → Nat × Array State) (exit : Nat) :
    Nat → Nat → Array State → Nat × Array State
  | 0, next, table => (next, table)
  | n + 1, next, table =>
    let (body, table) := add next table
    let (entry, table) := push (.fork body exit) table
    optionalCopies add exit n entry table

/-- Adds the states that read the given characters, last one first. -/
def addText : List Char → Nat → Array State → Nat × Array State
  | [], next, table => (next, table)
  | c :: before, next, table =>
    let (entry, table) := push (.read (.single c) next) table
    addText before entry table

mutual

/-- Adds the states of a pattern whose matches lead to state `next`, and answers
the state to enter by. -/
def add : Pattern → Nat → Array State → Nat × Array State
  | .empty, next, table => (next, table)
  | .literal text, next, table => addText text.reverse next table
  | .chars set _, next, table => push (.read set next) table
  | .look l, next, table => push (.check l next) table
  | .group _ p, next, table => add p next table
  | .concat items, next, table => addAll items next table
  | .alt branches, next, table => addEach branches next table
  | .repeated p least none _, next, table =>
    let (loop, table) := push .accept table
    let (body, table) := add p loop table
    let table := table.setIfInBounds loop (.fork body next)
    copies (add p) least loop table
  | .repeated p least (some most) _, next, table =>
    let (entry, table) := optionalCopies (add p) next (most - least) next table
    copies (add p) least entry table

/-- Adds the states of patterns in a row. -/
def addAll : List Pattern → Nat → Array State → Nat × Array State
  | [], next, table => (next, table)
  | p :: rest, next, table =>
    let (entry, table) := addAll rest next table
    add p entry table

/-- Adds the states of patterns of which one is to match. -/
def addEach : List Pattern → Nat → Array State → Nat × Array State
  | [], next, table => push (.read .empty next) table
  | p :: rest, next, table =>
    let (first, table) := add p next table
    let (second, table) := addEach rest next table
    push (.fork first second) table

end

/-- The table of a pattern and the state to enter by. -/
def ofPattern (p : Pattern) : Nat × Array State := add p 0 #[.accept]

/-- The states reached from those on the list without reading a character,
between two given neighbours.  `marked` are the states already met, and the
answer lists the states that read or accept. -/
def closure (table : Array State) (before after : Option Char) :
    Nat → List Nat → Array Bool → List Nat → List Nat × Array Bool
  | _, [], marked, found => (found, marked)
  | 0, _, marked, found => (found, marked)
  | fuel + 1, s :: todo, marked, found =>
    if marked.getD s true then closure table before after fuel todo marked found
    else
      let marked := marked.setIfInBounds s true
      match table.getD s .accept with
      | .accept => closure table before after fuel todo marked (s :: found)
      | .read _ _ => closure table before after fuel todo marked (s :: found)
      | .check l next =>
        closure table before after fuel (if l.holds before after then next :: todo else todo)
          marked found
      | .fork first second =>
        closure table before after fuel (first :: second :: todo) marked found

def accepts (table : Array State) (states : List Nat) : Bool :=
  states.any fun s => match table.getD s .accept with
    | .accept => true
    | _ => false

/-- The states after reading a character. -/
def step (table : Array State) (states : List Nat) (c : Char) : List Nat :=
  states.filterMap fun s =>
    match table.getD s .accept with
    | .read set next => if set.contains c then some next else none
    | _ => none

/-- The states to follow at a place: those reached from `states`, and those
reached from the entry, since a match may begin anywhere. -/
def reach (entry : Nat) (table : Array State) (before after : Option Char) (states : List Nat) :
    List Nat :=
  (closure table before after (3 * table.size + states.length + 3) (entry :: states)
    (Array.replicate table.size false) []).1

/-- Whether a match ends within the rest of a text. -/
def search (entry : Nat) (table : Array State) (before : Option Char) (states : List Nat) :
    List Char → Bool
  | [] => accepts table (reach entry table before none states)
  | c :: rest =>
    let reached := reach entry table before (some c) states
    accepts table reached || search entry table (some c) (step table reached c) rest

end Automaton
end Regex
end TreeWalk
