/-
Conditions on a place between two characters.
-/
import TreeWalk.Text.CharClass

namespace TreeWalk
namespace Regex

inductive Look where
  | textStart
  | textEnd
  | lineStart
  | lineEnd
  /-- Lines end at a carriage return, a newline, or the two together. -/
  | lineStartCRLF
  | lineEndCRLF
  | wordEdge (ascii : Bool)
  | notWordEdge (ascii : Bool)
  | wordStart (ascii : Bool)
  | wordEnd (ascii : Bool)
  | wordStartHalf (ascii : Bool)
  | wordEndHalf (ascii : Bool)
  deriving DecidableEq, Repr

namespace Look

/-- Whether a neighbour of the place is a character of a word. -/
def isWord (ascii : Bool) : Option Char → Bool
  | none => false
  | some c => if ascii then c.isAlphanum || c == '_' else CharClass.isWord c

/-- Whether the condition holds between two neighbours, `none` being the border
of the text. -/
def holds (look : Look) (before after : Option Char) : Bool :=
  match look with
  | textStart => before.isNone
  | textEnd => after.isNone
  | lineStart => before.isNone || before == some '\n'
  | lineEnd => after.isNone || after == some '\n'
  | lineStartCRLF =>
    before.isNone || before == some '\n' || (before == some '\r' && after != some '\n')
  | lineEndCRLF =>
    after.isNone || after == some '\r' || (after == some '\n' && before != some '\r')
  | wordEdge ascii => isWord ascii before != isWord ascii after
  | notWordEdge ascii => isWord ascii before == isWord ascii after
  | wordStart ascii => !isWord ascii before && isWord ascii after
  | wordEnd ascii => isWord ascii before && !isWord ascii after
  | wordStartHalf ascii => !isWord ascii before
  | wordEndHalf ascii => !isWord ascii after

end Look
end Regex
end TreeWalk
