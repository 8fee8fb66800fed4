/-
The pattern that a regular expression stands for.

The meaning of a tree depends on the flags in force, which `(?i)` and its kind
change for the rest of the group they stand in.  Disregarding case comes before
negation, part by part: what is excluded is excluded in both cases.  Where
Unicode is switched off, a set must not leave the ASCII characters, since its
other members would be bytes and not characters.
-/
import TreeWalk.Regex.Pattern
import TreeWalk.Regex.Property
import TreeWalk.Regex.Reader

namespace TreeWalk
namespace Regex

/-- The flags in force. -/
structure Flags where
  ignoreCase : Bool := false
  multiLine : Bool := false
  dotAll : Bool := false
  swapGreed : Bool := false
  crlf : Bool := false
  unicode : Bool := true

namespace Flags

def switch (fl : Flags) (s : Switch) : Flags :=
  match s.flag with
  | .ignoreCase => { fl with ignoreCase := s.on }
  | .multiLine => { fl with multiLine := s.on }
  | .dotAll => { fl with dotAll := s.on }
  | .swapGreed => { fl with swapGreed := s.on }
  | .crlf => { fl with crlf := s.on }
  | .unicode => { fl with unicode := s.on }
  | .verbose => fl

def switchAll (fl : Flags) (list : List Switch) : Flags := list.foldl switch fl

end Flags

namespace Meaning

def invalidUtf8 : String := "pattern can match invalid UTF-8"

def unicodeNotAllowed : String := "Unicode not allowed here"

/-- The ASCII letters of a set in both cases, and its other members. -/
def foldAscii (set : CharSet) : CharSet :=
  let shifted (low high : Nat) (distance : Int) : CharSet :=
    .ofPoints (((List.range 26).filterMap fun k =>
      if set.hasPoint (low + k) && low + k ≤ high then some ((low + k : Int) + distance).toNat
      else none))
  set ∪ shifted 65 90 32 ∪ shifted 97 122 (-32)

/-- A set as it is meant where case may be disregarded. -/
def folded (fl : Flags) (set : CharSet) : CharSet :=
  if fl.ignoreCase then if fl.unicode then LetterCase.foldSet set else foldAscii set else set

/-- A set or its complement. -/
def foldAndNegate (fl : Flags) (negated : Bool) (set : CharSet) : Except String CharSet :=
  let set := folded fl set
  let set := if negated then set.complement else set
  if !fl.unicode && !set.isAscii then throw invalidUtf8 else return set

/-- The code point of a character in a bracketed set. -/
def point (fl : Flags) (l : Literal) : Except String Nat :=
  if !fl.unicode && 128 ≤ l.char.toNat then throw (if l.byte then invalidUtf8 else unicodeNotAllowed)
  else return l.char.toNat

/-- Digits, white space and word characters. -/
def shorthandSet (fl : Flags) (s : Shorthand) : CharSet :=
  match s, fl.unicode with
  | .digit, true => Category.set [.nd]
  | .digit, false => .range 48 57
  | .space, true => CharClass.whiteSpace
  | .space, false => .ofRanges [(9, 13), (32, 32)]
  | .word, true => CharClass.word
  | .word, false => .ofRanges [(48, 57), (65, 90), (95, 95), (97, 122)]

/-- These sets have their members in both cases already. -/
def shorthand (fl : Flags) (s : Shorthand) (negated : Bool) : Except String CharSet :=
  let set := shorthandSet fl s
  if !negated then return set
  else if !fl.unicode then throw invalidUtf8
  else return set.complement

def property (fl : Flags) (q : Query) (negated : Bool) : Except String CharSet :=
  if !fl.unicode then throw unicodeNotAllowed
  else
    let found :=
      match q with
      | .name name => Property.ofName? name
      | .value name value => Property.ofValue? name value
    match found with
    | some set => foldAndNegate fl negated set
    | none => throw "Unicode property not found"

mutual

/-- The set that stands between brackets. -/
def set (fl : Flags) : SetTree → Except String CharSet
  | .empty => return .empty
  | .literal l => do
    let n ← point fl l
    return .range n n
  | .range low high => do return .range (← point fl low) (← point fl high)
  | .ascii set negated => foldAndNegate fl negated set
  | .shorthand s negated => shorthand fl s negated
  | .property q negated => property fl q negated
  | .bracketed inner negated => do foldAndNegate fl negated (← set fl inner)
  | .union items => setOfAll fl .empty items
  | .op o left right => do
    let a := folded fl (← set fl left)
    let b := folded fl (← set fl right)
    match o with
    | .inter => return a ∩ b
    | .diff => return a \ b
    | .symmDiff => return a.symmDiff b

def setOfAll (fl : Flags) (found : CharSet) : List SetTree → Except String CharSet
  | [] => return found
  | t :: rest => do setOfAll fl (found ∪ (← set fl t)) rest

end

/-- A character that stands for itself, or for all its cases. -/
def literal (fl : Flags) (l : Literal) : Except String Pattern :=
  if !fl.unicode && l.byte && 128 ≤ l.char.toNat then throw invalidUtf8
  else if fl.ignoreCase && fl.unicode && LetterCase.hasCase l.char then
    return .ofSet (.ofPoints ((LetterCase.foldClass l.char).map Char.toNat)) false
  else if fl.ignoreCase && !fl.unicode && l.char.isAlpha then
    return .ofSet (foldAscii (.single l.char)) true
  else return .literal [l.char]

/-- Any character, but for the ends of lines. -/
def dot (fl : Flags) : Except String Pattern :=
  if !fl.unicode then throw invalidUtf8
  else
    let ends : CharSet :=
      if fl.dotAll then .empty else if fl.crlf then .ofPoints [10, 13] else .single '\n'
    return .ofSet ends.complement false

def anchor (fl : Flags) (a : Anchor) : Look :=
  let ascii := !fl.unicode
  match a with
  | .lineStart =>
    if !fl.multiLine then .textStart else if fl.crlf then .lineStartCRLF else .lineStart
  | .lineEnd => if !fl.multiLine then .textEnd else if fl.crlf then .lineEndCRLF else .lineEnd
  | .textStart => .textStart
  | .textEnd => .textEnd
  | .wordEdge => .wordEdge ascii
  | .notWordEdge => .notWordEdge ascii
  | .wordStart => .wordStart ascii
  | .wordEnd => .wordEnd ascii
  | .wordStartHalf => .wordStartHalf ascii
  | .wordEndHalf => .wordEndHalf ascii

mutual

/-- The pattern of a tree, with the flags that hold after it. -/
def pattern : Tree → StateT Flags (Except String) Pattern
  | .empty => return .empty
  | .switches list => do
    modify (·.switchAll list)
    return .empty
  | .literal l => do literal (← get) l
  | .dot => do dot (← get)
  | .anchor a => do return .look (anchor (← get) a)
  | .shorthand s negated => do
    let fl ← get
    return .ofSet (← shorthand fl s negated) (!fl.unicode)
  | .property q negated => do return .ofSet (← property (← get) q negated) false
  | .set inner negated => do
    let fl ← get
    let found ← set fl inner
    return .ofSet (← foldAndNegate fl negated found) (!fl.unicode)
  | .repeated t least most greedy => do
    let p ← pattern t
    return .repeating p least most (greedy != (← get).swapGreed)
  | .group (.capture index) t => do
    let outer ← get
    let p ← pattern t
    modifyThe Flags fun _ => outer
    return .group index p
  | .group (.plain list) t => do
    let outer ← get
    modify (·.switchAll list)
    let p ← pattern t
    modifyThe Flags fun _ => outer
    return p
  | .concat items => do return .sequence (← patterns [] items)
  | .alt branches => do return .choice (← patterns [] branches)

/-- The patterns of trees, after those in `done`, last one first. -/
def patterns (done : List Pattern) : List Tree → StateT Flags (Except String) (List Pattern)
  | [] => return done.reverse
  | t :: rest => do patterns ((← pattern t) :: done) rest

end

/-- The pattern that a text writes, or what is wrong with it. -/
def ofText (text : String) : Except String Pattern := do
  (pattern (← Reader.tree text)).run' {}

end Meaning
end Regex
end TreeWalk
