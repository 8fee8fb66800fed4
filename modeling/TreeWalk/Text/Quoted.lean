/-
Texts in quotes.

A quoted text shows its control characters, its quotes and whatever cannot be
shown on its own by escapes: a backslash and a letter for the common ones, and
the code point in hexadecimal for the others.
-/
import TreeWalk.Text.CharClass

namespace TreeWalk
namespace Quoted

/-- A natural number in lower-case hexadecimal. -/
def hex (n : Nat) : String := String.ofList (Nat.toDigits 16 n)

/-- The escape that names a code point. -/
def codePoint (c : Char) : String := "\\u\x7b" ++ hex c.toNat ++ "\x7d"

def escapeChar (c : Char) : String :=
  if c = '\x00' then "\\0"
  else if c = '\t' then "\\t"
  else if c = '\r' then "\\r"
  else if c = '\n' then "\\n"
  else if c = '"' then "\\\""
  else if c = '\\' then "\\\\"
  else if CharClass.extendsGrapheme c then codePoint c
  else if CharClass.isPrintable c then c.toString
  else codePoint c

def quote (s : String) : String := "\"" ++ String.join (s.toList.map escapeChar) ++ "\""

end Quoted
end TreeWalk
