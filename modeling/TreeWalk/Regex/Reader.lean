/-
Reading regular expressions.

Reading goes from left to right and follows one flag only, the one that allows
white space and comments between the parts.  The fuel that the recursive readers
take is the length of the text, which each of their rounds shortens.  A tree that
has grown too high is refused at once.
-/
import TreeWalk.Regex.Tree
import TreeWalk.Text.CharClass

namespace TreeWalk
namespace Regex
namespace Reader

/-- How far a text has been read. -/
structure Cursor where
  rest : List Char
  /-- White space and comments are skipped. -/
  verbose : Bool := false
  /-- The names given to groups so far. -/
  names : List String := []
  /-- How many groups have been numbered. -/
  groups : Nat := 0

abbrev Reading := StateT Cursor (Except String)

/-- A text without leading white space and comments; `true` stands inside of a
comment. -/
def skipVerbose : Bool → List Char → List Char
  | _, [] => []
  | true, c :: cs => skipVerbose (c != '\n') cs
  | false, c :: cs =>
    if c = '#' then skipVerbose true cs
    else if CharClass.isBlank c then skipVerbose false cs
    else c :: cs

def fail {α : Type} (message : String) : Reading α := throw message

def rest : Reading (List Char) := do return (← get).rest

def setRest (cs : List Char) : Reading Unit := modify fun s => { s with rest := cs }

def peek : Reading (Option Char) := do return (← get).rest.head?

/-- The next character; at the end of the text, a complaint. -/
def require (message : String) : Reading Char := do
  match ← peek with
  | some c => return c
  | none => fail message

def skipSpace : Reading Unit := modify fun s =>
  if s.verbose then { s with rest := skipVerbose false s.rest } else s

def bump : Reading Unit := modify fun s => { s with rest := s.rest.drop 1 }

/-- Passes over a character and the space after it. -/
def advance : Reading Unit := do bump; skipSpace

/-- The highest tree that is accepted. -/
def heightLimit : Nat := 250

def tooHigh : String := "exceed the maximum number of nested parentheses/brackets"

/-- A tree, unless it is too high. -/
def bounded (t : Tree) : Reading Tree :=
  if heightLimit < t.height then fail tooHigh else return t

/-- A bracketed set, unless it is too high. -/
def boundedSet (t : SetTree) : Reading SetTree :=
  if heightLimit < t.height then fail tooHigh else return t

/-- The characters up to one that does not satisfy `keep`, passing over space
between them. -/
def takeWhileSpaced (keep : Char → Bool) : Nat → Reading (List Char)
  | 0 => return []
  | fuel + 1 => do
    match ← peek with
    | some c =>
      if keep c then
        advance
        return c :: (← takeWhileSpaced keep fuel)
      else return []
    | none => return []

def spaced (keep : Char → Bool) : Reading (List Char) := do
  takeWhileSpaced keep ((← rest).length + 1)

def dropBlank : Reading Unit := modify fun s => { s with rest := s.rest.dropWhile CharClass.isBlank }

/-- A decimal number of at most 32 bits, with blanks around it; `none` without
digits. -/
def decimal? : Reading (Option Nat) := do
  dropBlank
  let digits ← spaced Char.isDigit
  dropBlank
  if digits = [] then return none
  let n := digits.foldl (fun n c => 10 * n + (c.toNat - 48)) 0
  if Nat.pow 2 32 ≤ n then fail "decimal literal invalid"
  return some n

def isHex (c : Char) : Bool := c.isDigit || ('a' ≤ c && c ≤ 'f') || ('A' ≤ c && c ≤ 'F')

def hexValue (digits : List Char) : Nat :=
  digits.foldl (fun n c =>
    16 * n + (if c.isDigit then c.toNat - 48 else c.toLower.toNat - 87)) 0

/-- The character with a given code point. -/
def scalar (n : Nat) : Reading Char :=
  if n.isValidChar then return Char.ofNat n
  else fail "hexadecimal literal is not a Unicode scalar value"

/-- Exactly `n` hexadecimal digits. -/
def hexDigits : Nat → Reading (List Char)
  | 0 => return []
  | n + 1 => do
    let c ← require "incomplete escape sequence"
    if !isHex c then fail "invalid hexadecimal digit"
    advance
    return c :: (← hexDigits n)

/-- What a character or an escape stands for. -/
inductive Atom where
  | literal (l : Literal)
  | shorthand (s : Shorthand) (negated : Bool)
  | property (q : Query) (negated : Bool)
  | dot
  | anchor (a : Anchor)

namespace Atom

def tree : Atom → Tree
  | literal l => .literal l
  | shorthand s negated => .shorthand s negated
  | property q negated => .property q negated
  | dot => .dot
  | anchor a => .anchor a

end Atom

/-- The code point after `\x`, `\u` or `\U`. -/
def hexEscape (width : Nat) : Reading Atom := do
  let c ← require "incomplete escape sequence"
  if c = '\x7b' then
    advance
    let digits ← spaced (· != '\x7d')
    discard <| require "incomplete escape sequence"
    advance
    if digits = [] then fail "hexadecimal literal empty"
    if !digits.all isHex then fail "invalid hexadecimal digit"
    return .literal { char := ← scalar (hexValue digits) }
  else
    let value := hexValue (← hexDigits width)
    return .literal { char := ← scalar value, byte := width = 2 }

/-- The part of a text before a separator and the part after it. -/
def cutAt? (separator : List Char) : List Char → Option (List Char × List Char)
  | [] => none
  | c :: cs =>
    if separator.isPrefixOf (c :: cs) then some ([], (c :: cs).drop separator.length)
    else (cutAt? separator cs).map fun (a, b) => (c :: a, b)

/-- What is asked for in braces, and whether `!=` asks for its complement. -/
def bracedQuery (text : List Char) : Query × Bool :=
  let value (a b : List Char) : Query := .value (String.ofList a) (String.ofList b)
  match cutAt? "!=".toList text with
  | some (a, b) => (value a b, true)
  | none =>
    match cutAt? ":".toList text with
    | some (a, b) => (value a b, false)
    | none =>
      match cutAt? "=".toList text with
      | some (a, b) => (value a b, false)
      | none => (.name (String.ofList text), false)

/-- The set after `\p` or `\P`. -/
def propertyEscape (negated : Bool) : Reading Atom := do
  let c ← require "incomplete escape sequence"
  if c = '\x7b' then
    advance
    let text ← spaced (· != '\x7d')
    discard <| require "incomplete escape sequence"
    bump
    let (query, unequal) := bracedQuery text
    return .property query (negated != unequal)
  else
    if c = '\\' then fail "invalid Unicode character class"
    advance
    return .property (.name c.toString) negated

def shorthand? : Char → Option Shorthand
  | 'd' => some .digit
  | 's' => some .space
  | 'w' => some .word
  | _ => none

def isMeta (c : Char) : Bool := "\\.+*?()|[]\x7b\x7d^$#&-~".toList.contains c

/-- Characters that a backslash turns into themselves: all of ASCII but letters,
digits and angle brackets. -/
def isEscapable (c : Char) : Bool :=
  isMeta c || (c.toNat < 128 && !c.isAlphanum && c != '<' && c != '>')

/-- A named word boundary in braces after `\b`, if there is one. -/
def namedBoundary : Reading (Option Anchor) := do
  let start ← rest
  match start with
  | '\x7b' :: _ =>
    advance
    let isName (c : Char) : Bool := c.isAlpha || c == '-'
    let first ← require "special word boundary assertion is unclosed"
    if !isName first then
      setRest start
      return none
    let name ← spaced isName
    if (← peek) != some '\x7d' then fail "special word boundary assertion is unclosed"
    bump
    match String.ofList name with
    | "start" => return some .wordStart
    | "end" => return some .wordEnd
    | "start-half" => return some .wordStartHalf
    | "end-half" => return some .wordEndHalf
    | _ => fail "unrecognized special word boundary assertion"
  | _ => return none

/-- What follows a backslash. -/
def escape : Reading Atom := do
  bump
  let c ← require "incomplete escape sequence"
  if c.isDigit then fail "backreferences are not supported"
  match c with
  | 'x' => advance; hexEscape 2
  | 'u' => advance; hexEscape 4
  | 'U' => advance; hexEscape 8
  | 'p' => advance; propertyEscape false
  | 'P' => advance; propertyEscape true
  | _ =>
    bump
    match shorthand? c.toLower with
    | some s => return .shorthand s (c != c.toLower)
    | none =>
      if isEscapable c then return .literal { char := c }
      else
        match c with
        | 'a' => return .literal { char := '\x07' }
        | 'f' => return .literal { char := '\x0c' }
        | 't' => return .literal { char := '\t' }
        | 'n' => return .literal { char := '\n' }
        | 'r' => return .literal { char := '\r' }
        | 'v' => return .literal { char := '\x0b' }
        | 'A' => return .anchor .textStart
        | 'z' => return .anchor .textEnd
        | 'b' => return .anchor ((← namedBoundary).getD .wordEdge)
        | 'B' => return .anchor .notWordEdge
        | '<' => return .anchor .wordStart
        | '>' => return .anchor .wordEnd
        | _ => fail "unrecognized escape sequence"

/-- A single character of a text or an escape. -/
def atom : Reading Atom := do
  match ← require "unexpected end of pattern" with
  | '\\' => escape
  | '.' => bump; return .dot
  | '^' => bump; return .anchor .lineStart
  | '$' => bump; return .anchor .lineEnd
  | c => bump; return .literal { char := c }

def unclosedSet : String := "unclosed character class"

/-- The bracketed names of sets of ASCII characters. -/
def asciiSet? : String → Option CharSet
  | "alnum" => some (.ofRanges [(48, 57), (65, 90), (97, 122)])
  | "alpha" => some (.ofRanges [(65, 90), (97, 122)])
  | "ascii" => some (.range 0 127)
  | "blank" => some (.ofPoints [9, 32])
  | "cntrl" => some (.ofRanges [(0, 31), (127, 127)])
  | "digit" => some (.range 48 57)
  | "graph" => some (.range 33 126)
  | "lower" => some (.range 97 122)
  | "print" => some (.range 32 126)
  | "punct" => some (.ofRanges [(33, 47), (58, 64), (91, 96), (123, 126)])
  | "space" => some (.ofRanges [(9, 13), (32, 32)])
  | "upper" => some (.range 65 90)
  | "word" => some (.ofRanges [(48, 57), (65, 90), (95, 95), (97, 122)])
  | "xdigit" => some (.ofRanges [(48, 57), (65, 70), (97, 102)])
  | _ => none

/-- `[:name:]` or `[:^name:]` at the start of a text, and what follows it. -/
def namedSet? (cs : List Char) : Option (SetTree × List Char) :=
  match cs with
  | '[' :: ':' :: rest =>
    let (negated, rest) :=
      match rest with
      | '^' :: rest => (true, rest)
      | rest => (false, rest)
    match cutAt? [':'] rest with
    | some (name, ']' :: rest) =>
      (asciiSet? (String.ofList name)).map fun set => (.ascii set negated, rest)
    | _ => none
  | _ => none

/-- An end of a range in a bracketed set. -/
def setAtom : Reading Atom := do
  match ← require unclosedSet with
  | '\\' => escape
  | c => bump; return .literal { char := c }

def setLiteral : Atom → Reading Literal
  | .literal l => return l
  | _ => fail "invalid range boundary, must be a literal"

/-- A character, a set or a range of a bracketed set. -/
def setItem : Reading SetTree := do
  let first ← setAtom
  skipSpace
  let c ← require unclosedSet
  let following := (← rest).drop 1
  let following := if (← get).verbose then skipVerbose false following else following
  if c != '-' || following.head? == some ']' || following.head? == some '-' then
    match first with
    | .literal l => return .literal l
    | .shorthand s negated => return .shorthand s negated
    | .property q negated => return .property q negated
    | _ => fail "invalid escape sequence found in character class"
  else
    advance
    discard <| require unclosedSet
    let last ← setAtom
    let low ← setLiteral first
    let high ← setLiteral last
    if high.char < low.char then
      fail "invalid character class range, the start must be <= the end"
    return .range low high

/-- The hyphens at the start of a bracketed set, which stand for themselves. -/
def leadingHyphens : Nat → List SetTree → Reading (List SetTree)
  | 0, items => return items
  | fuel + 1, items => do
    match ← require unclosedSet with
    | '-' => advance; leadingHyphens fuel (.literal { char := '-' } :: items)
    | _ => return items

/-- The set to the left of an operation, if one is open, combined with the items
read since, last one first. -/
def closeOp (pending : Option (SetTree × SetOp)) (items : List SetTree) : Reading SetTree :=
  match pending with
  | none => boundedSet (.ofItems items)
  | some (left, o) => boundedSet (.op o left (.ofItems items))

mutual

/-- A bracketed set, from its opening bracket on, with whether it is negated.
`depth` brackets are open around it. -/
def bracket : Nat → Nat → Reading (SetTree × Bool)
  | 0, _ => fail unclosedSet
  | fuel + 1, depth => do
    if heightLimit ≤ depth then fail tooHigh
    advance
    let negated := (← require unclosedSet) == '^'
    if negated then advance
    let items ← leadingHyphens fuel []
    let items ←
      if items.isEmpty && (← require unclosedSet) == ']' then
        advance
        discard <| require unclosedSet
        pure [SetTree.literal { char := ']' }]
      else pure items
    return (← bracketFrom fuel depth none items, negated)

/-- The rest of a bracketed set, after the items read since the open operation in
`pending`, last one first. -/
def bracketFrom : Nat → Nat → Option (SetTree × SetOp) → List SetTree → Reading SetTree
  | 0, _, _, _ => fail unclosedSet
  | fuel + 1, depth, pending, items => do
    skipSpace
    match ← rest with
    | [] => fail unclosedSet
    | ']' :: _ =>
      bump
      closeOp pending items
    | '&' :: '&' :: more =>
      setRest more
      bracketFrom fuel depth (some (← closeOp pending items, .inter)) []
    | '-' :: '-' :: more =>
      setRest more
      bracketFrom fuel depth (some (← closeOp pending items, .diff)) []
    | '~' :: '~' :: more =>
      setRest more
      bracketFrom fuel depth (some (← closeOp pending items, .symmDiff)) []
    | '[' :: more =>
      match namedSet? ('[' :: more) with
      | some (named, after) =>
        setRest after
        bracketFrom fuel depth pending (named :: items)
      | none =>
        let (inner, negated) ← bracket fuel (depth + 1)
        bracketFrom fuel depth pending (.bracketed inner negated :: items)
    | _ =>
      let item ← setItem
      bracketFrom fuel depth pending (item :: items)

end

/-- The flags of a group up to the character that ends them.  `seen` are the
letters met so far, `on` is false after the hyphen. -/
def groupFlags (switches : List Switch) (seen : List Char) (on dangling : Bool) :
    List Char → Reading (List Switch × Char)
  | [] => fail "incomplete flags, expected a colon or a parenthesis"
  | c :: cs => do
    if c = ':' ∨ c = ')' then
      if dangling then fail "dangling flag negation operator"
      setRest cs
      if seen.isEmpty ∧ c = ')' then fail "repetition operator missing expression"
      return (switches.reverse, c)
    if seen.contains c then fail "duplicate flag"
    if c = '-' then groupFlags switches (c :: seen) false true cs
    else
      match Flag.ofLetter? c with
      | some flag => groupFlags (⟨flag, on⟩ :: switches) (c :: seen) on false cs
      | none => fail "unrecognized flag"

def isNameChar (isFirst : Bool) (c : Char) : Bool :=
  c == '_' || CharClass.isAlphabetic c ||
    (!isFirst && (c == '.' || c == '[' || c == ']' || CharClass.isNumeric c))

/-- The name of a group, up to the closing angle bracket. -/
def groupName (after : List Char) : Reading Unit := do
  match cutAt? ['>'] after with
  | none => fail "unclosed capture group name"
  | some (name, following) =>
    if name = [] then fail "empty capture group name"
    let good := (name.head?.map (isNameChar true)).getD true && name.tail.all (isNameChar false)
    if !good then fail "invalid capture group name"
    if (← get).names.contains (String.ofList name) then fail "duplicate capture group name"
    modify fun s => { s with rest := following, names := String.ofList name :: s.names }

/-- A new group that is captured. -/
def numbered : Reading GroupKind := do
  modify fun s => { s with groups := s.groups + 1 }
  return .capture (← get).groups

/-- What the start of a group announces: flags for the rest of the group around
it, or a group. -/
inductive GroupStart where
  | switches (list : List Switch)
  | group (kind : GroupKind)

def groupStart : Reading GroupStart := do
  advance
  match ← rest with
  | '?' :: '=' :: _ | '?' :: '!' :: _ | '?' :: '<' :: '=' :: _ | '?' :: '<' :: '!' :: _ =>
    fail "look-around, including look-ahead and look-behind, is not supported"
  | '?' :: 'P' :: '<' :: more => groupName more; return .group (← numbered)
  | '?' :: '<' :: more => groupName more; return .group (← numbered)
  | '?' :: more =>
    if more = [] then fail "unclosed group"
    let (switches, stop) ← groupFlags [] [] true false more
    return if stop = ')' then .switches switches else .group (.plain switches)
  | _ => return .group (← numbered)

/-- Follows the flag that the reader itself obeys. -/
def obey (switches : List Switch) : Reading Unit :=
  match switches.find? (·.flag == .verbose) with
  | some s => modify fun cursor => { cursor with verbose := s.on }
  | none => return

def GroupKind.switches : GroupKind → List Switch
  | .capture _ => []
  | .plain switches => switches

/-- The bounds in braces after an expression. -/
def bounds : Reading (Nat × Option Nat) := do
  let unclosed := "unclosed counted repetition"
  let missing := "repetition quantifier expects a valid decimal"
  advance
  discard <| require unclosed
  let least ← decimal?
  let c ← require unclosed
  let found ←
    if c != ',' then
      match least with
      | some n => pure (n, some n)
      | none => fail missing
    else
      advance
      let c ← require unclosed
      match least with
      | none => fail missing
      | some n =>
        if c = '\x7d' then pure (n, none)
        else
          match ← decimal? with
          | some m => pure (n, some m)
          | none => fail missing
  if (← peek) != some '\x7d' then fail unclosed
  match found with
  | (n, some m) => if m < n then fail "invalid repetition count range" else return found
  | _ => return found

/-- Passes over the end of a repetition, and over space after it where its count
was given, and answers whether it is greedy; a question mark makes it lazy. -/
def greedy (counted : Bool) : Reading Bool := do
  if counted then advance else bump
  if (← peek) == some '?' then
    bump
    return false
  return true

mutual

/-- The alternatives from here to the end of the group, after those in
`branches`, last one first.  `depth` groups are open around them. -/
def alternativesFrom : Nat → Nat → List Tree → Reading Tree
  | 0, _, _ => fail "pattern too long"
  | fuel + 1, depth, branches => do
    let branch ← sequenceFrom fuel depth []
    match ← rest with
    | '|' :: more =>
      setRest more
      alternativesFrom fuel depth (branch :: branches)
    | _ => bounded (.ofBranches (branch :: branches))

/-- The items from here to the end of the alternative, after those in `items`,
last one first. -/
def sequenceFrom : Nat → Nat → List Tree → Reading Tree
  | 0, _, _ => fail "pattern too long"
  | fuel + 1, depth, items => do
    skipSpace
    let repeated (least : Nat) (most : Option Nat) (counted : Bool) : Reading Tree := do
      match items with
      | t :: before =>
        if !t.isRepeatable then fail "repetition operator missing expression"
        let t ← bounded (.repeated t least most (← greedy counted))
        sequenceFrom fuel depth (t :: before)
      | [] => fail "repetition operator missing expression"
    match ← peek with
    | none | some ')' | some '|' => bounded (.ofItems items)
    | some '(' =>
      let outer := (← get).verbose
      match ← groupStart with
      | .switches list =>
        obey list
        sequenceFrom fuel depth (.switches list :: items)
      | .group kind =>
        if heightLimit ≤ depth then fail tooHigh
        obey (GroupKind.switches kind)
        let inner ← alternativesFrom fuel (depth + 1) []
        if (← peek) != some ')' then fail "unclosed group"
        modify fun s => { s with verbose := outer }
        bump
        let t ← bounded (.group kind inner)
        sequenceFrom fuel depth (t :: items)
    | some '[' =>
      let (inner, negated) ← bracket fuel 0
      let t ← bounded (.set inner negated)
      sequenceFrom fuel depth (t :: items)
    | some '?' => repeated 0 (some 1) false
    | some '*' => repeated 0 none false
    | some '+' => repeated 1 none false
    | some '\x7b' =>
      if items.isEmpty then fail "repetition operator missing expression"
      let (least, most) ← bounds
      repeated least most true
    | some _ =>
      let a ← atom
      sequenceFrom fuel depth (a.tree :: items)

end

/-- The tree that a text writes, or what is wrong with it. -/
def tree (text : String) : Except String Tree := do
  let cs := text.toList
  let (t, cursor) ← (alternativesFrom (2 * cs.length + 2) 0 []).run { rest := cs }
  match cursor.rest with
  | [] => return t
  | _ => throw "unopened group"

end Reader
end Regex
end TreeWalk
