/-
Regular expressions.

`ofText` reads a regular expression and prepares it for matching; `isMatch`
answers whether some part of a text matches.
-/
import TreeWalk.Regex.Automaton
import TreeWalk.Regex.Footprint
import TreeWalk.Regex.Meaning

namespace TreeWalk

/-- A regular expression ready for matching. -/
structure Regex where
  entry : Nat
  table : Array Regex.State

namespace Regex

/-- The regular expression that a text writes, or what is wrong with it. -/
def ofText (text : String) : Except String Regex := do
  let p ← Meaning.ofText text
  if !Footprint.fits p then throw "compiled regex exceeds size limit"
  let (entry, table) := Automaton.ofPattern p
  return ⟨entry, table⟩

/-- Whether some part of the text matches. -/
def isMatch (r : Regex) (text : String) : Bool :=
  Automaton.search r.entry r.table none [] text.toList

end Regex
end TreeWalk
