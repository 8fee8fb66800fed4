/-
Finding, splitting and replacing in texts.

Occurrences are taken leftmost first and do not overlap.  Positions count
characters, also where the search is among the bytes that encode a text.
-/
import TreeWalk.Text.CharClass

namespace TreeWalk
namespace Search

/-- The first position at which `needle` occurs. -/
def find? {α : Type} [BEq α] (needle : List α) : List α → Option Nat
  | [] => if needle.isEmpty then some 0 else none
  | a :: rest =>
    if needle.isPrefixOf (a :: rest) then some 0 else (find? needle rest).map (· + 1)

/-- The bytes that encode a text in UTF-8. -/
def bytes (text : List Char) : List UInt8 := text.flatMap String.utf8EncodeChar

/-- The number of characters that begin among some bytes. -/
def charCount (bytes : List UInt8) : Nat := bytes.countP (·.IsUTF8FirstByte)

/-- The first position at which `needle` occurs: its bytes are searched for, and
the characters before the byte where they are found are counted. -/
def position? (needle text : List Char) : Option Nat :=
  (find? (bytes needle) (bytes text)).map fun offset => charCount ((bytes text).take offset)

def contains (needle text : List Char) : Bool := (find? needle text).isSome

/-- The parts of a text between the occurrences of a non-empty separator, given
the part read so far, last character first, and how many characters of an
occurrence are still to be passed over. -/
def splitFrom (separator part : List Char) : Nat → List Char → List (List Char)
  | _, [] => [part.reverse]
  | skip + 1, _ :: cs => splitFrom separator part skip cs
  | 0, c :: cs =>
    if separator.isPrefixOf (c :: cs) then
      part.reverse :: splitFrom separator [] (separator.length - 1) cs
    else splitFrom separator (c :: part) 0 cs

/-- The parts of a text between the occurrences of a separator; an empty
separator stands between any two characters. -/
def split (separator text : List Char) : List (List Char) :=
  if separator = [] then text.map ([·]) else splitFrom separator [] 0 text

/-- A text in which every occurrence of a non-empty one is replaced, given how
many characters of an occurrence are still to be passed over. -/
def replaceFrom (old new : List Char) : Nat → List Char → List Char
  | _, [] => []
  | skip + 1, _ :: cs => replaceFrom old new skip cs
  | 0, c :: cs =>
    if old.isPrefixOf (c :: cs) then new ++ replaceFrom old new (old.length - 1) cs
    else c :: replaceFrom old new 0 cs

/-- Every occurrence of `old` replaced by `new`.  The empty text occurs before
every character and at the end. -/
def replace (old new text : List Char) : List Char :=
  if old = [] then new ++ text.flatMap (fun c => c :: new) else replaceFrom old new 0 text

/-- A text without the white space around it. -/
def trim (text : List Char) : List Char :=
  ((text.dropWhile CharClass.isBlank).reverse.dropWhile CharClass.isBlank).reverse

/-- The runs of characters between white space, given the run read so far, last
character first. -/
def wordsFrom (word : List Char) : List Char → List (List Char)
  | [] => if word = [] then [] else [word.reverse]
  | c :: cs =>
    if CharClass.isBlank c then
      if word = [] then wordsFrom [] cs else word.reverse :: wordsFrom [] cs
    else wordsFrom (c :: word) cs

/-- The words of a text: its longest runs without white space. -/
def words (text : List Char) : List (List Char) := wordsFrom [] text

end Search
end TreeWalk
