/-
Where text may be divided: into visible units, words and sentences.

For each of the three divisions, the characters fall into classes by what they do
at a boundary.  The classes are named as in the standard; characters in none of
them have the class `Other`, which has no name here.
-/
import TreeWalk.Text.Emoji
import TreeWalk.Text.Ideograph
import TreeWalk.Text.Script
import TreeWalk.Text.Sign

namespace TreeWalk
namespace Boundary

/-- A class of characters with its names. -/
structure Entry where
  names : List String
  set : CharSet

def carriageReturn : Entry := ⟨["CR"], .single '\r'⟩

def lineFeed : Entry := ⟨["LF"], .single '\n'⟩

def zeroWidthJoiner : Entry := ⟨["ZWJ"], .range 0x200D 0x200D⟩

def regionalIndicator : Entry := ⟨["RI", "Regional_Indicator"], Emoji.regionalIndicator⟩

/-- The Hangul syllables without a final consonant: of each 28 syllables that
share their first two letters, the first. -/
def openSyllables : CharSet := .ofPoints ((List.range 399).map fun n => 0xAC00 + 28 * n)

/-- Spacing marks that do not join the character before them. -/
def unattached : CharSet := .ofGaps
  "4139 2 11 1 41 3 2 7 21 1 3 6 2 1 10 3 2500 1 1 2 36886 1 1 1 27810 2"

/-- Letters that join the character after them. -/
def preposed : CharSet := .ofGaps
  "3406 1 66675 2 525 1 1389 1 1 1 248 1 73 6 700 1 443 1"

def joiners : CharSet := .range 0x200C 0x200D

/-- The classes of characters at the edges of visible units. -/
def grapheme : List Entry :=
  [carriageReturn, lineFeed, zeroWidthJoiner, regionalIndicator,
    ⟨["CN", "Control"],
      (Category.set [.zl, .zp, .cc, .cf] ∪ (Category.set [.cn] ∩ Sign.defaultIgnorable)) \
        (.ofPoints [10, 13] ∪ joiners ∪ Sign.prependedConcatenation ∪
          CharClass.graphemeExtend)⟩,
    ⟨["EX", "Extend"], CharClass.graphemeExtend ∪ Emoji.modifier⟩,
    ⟨["PP", "Prepend"], Sign.prependedConcatenation ∪ preposed⟩,
    ⟨["SM", "SpacingMark"],
      (Category.set [.mc] ∪ .ofPoints [0xE33, 0xEB3]) \
        (CharClass.graphemeExtend ∪ unattached)⟩,
    ⟨["L"], .ofRanges [(0x1100, 0x115F), (0xA960, 0xA97C)]⟩,
    ⟨["V"],
      .ofRanges [(0x1160, 0x11A7), (0xD7B0, 0xD7C6), (0x16D63, 0x16D63), (0x16D67, 0x16D6A)]⟩,
    ⟨["T"], .ofRanges [(0x11A8, 0x11FF), (0xD7CB, 0xD7FB)]⟩,
    ⟨["LV"], openSyllables⟩,
    ⟨["LVT"], .range 0xAC00 0xD7A3 \ openSyllables⟩]

/-- Marks and other characters that stay with the one before them. -/
def attached : CharSet := CharClass.graphemeExtend ∪ Category.set [.mc]

/-- Digits, with the signs that enclose them. -/
def numeric : CharSet :=
  Category.set [.nd] ∪ .ofPoints [0x66B, 0x19DA] ∪
    (Sign.prependedConcatenation \ .range 0x70F 0x70F)

def hebrewLetter : CharSet := Script.set "Hebr" ∩ Category.set [.lo]

def katakana : CharSet :=
  Script.set "Kana" ∪ .range 0x3031 0x3035 ∪
    .ofPoints [0x309B, 0x309C, 0x30A0, 0x30FC, 0xFF70]

/-- Letters of the scripts that put no spaces between words. -/
def unspacedLetter : CharSet := .ofGaps
  "3585 48 1 2 12 7 58 2 1 1 1 5 1 24 1 1 1 10 1 2 9 1 2 5 1 1 21 4 288 43 20 1 16 6 4 4 3 1 3 2
    7 3 4 13 12 1 1777 52 35 1 4 1 371 30 2 5 11 44 4 26 86 53 82 1 36664 5 1 10 10 5 97 23 3 1 3
    50 1 1 3 2 2 5 2 1 1 1 24 3 27682 27 37 7"

/-- Signs that count as letters of words. -/
def letterSign : CharSet := .ofGaps
  "706 4 12 6 6 2 5 7 1 1 1 17 602 3 1 1 43 1 104 1 283 1 40952 15 9 2 103 2 976 1"

/-- Letters of words: not those of scripts without spaces. -/
def wordLetter : CharSet :=
  (CharClass.alphabetic \
    (Ideograph.ideographic ∪ katakana ∪ hebrewLetter ∪ attached ∪ Script.set "Hira" ∪
      unspacedLetter)) ∪ letterSign

/-- The classes of characters at the edges of words. -/
def word : List Entry :=
  [carriageReturn, lineFeed, zeroWidthJoiner, regionalIndicator,
    ⟨["LE", "ALetter"], wordLetter⟩,
    ⟨["DQ", "Double_Quote"], .single '"'⟩,
    ⟨["SQ", "Single_Quote"], .range 0x27 0x27⟩,
    ⟨["Extend"], attached ∪ Emoji.modifier⟩,
    ⟨["EX", "ExtendNumLet"], Category.set [.pc] ∪ .range 0x202F 0x202F⟩,
    ⟨["FO", "Format"],
      Category.set [.cf] \
        (Sign.prependedConcatenation ∪ CharClass.graphemeExtend ∪ .range 0x200B 0x200D)⟩,
    ⟨["HL", "Hebrew_Letter"], hebrewLetter⟩,
    ⟨["KA", "Katakana"], katakana⟩,
    ⟨["ML", "MidLetter"], CharClass.midLetter⟩,
    ⟨["MB", "MidNumLet"], CharClass.midNumLet⟩,
    ⟨["MN", "MidNum"], .ofPoints [0x2C, 0x3B, 0x37E, 0x589, 0x60C, 0x60D, 0x66C, 0x7F8, 0x2044,
      0xFE50, 0xFE54, 0xFF0C, 0xFF1B]⟩,
    ⟨["NL", "Newline"], .ofPoints [11, 12, 0x85, 0x2028, 0x2029]⟩,
    ⟨["NU", "Numeric"], numeric⟩,
    ⟨["WSegSpace"], Category.set [.zs] \ .ofPoints [0xA0, 0x2007, 0x202F]⟩]

/-- The full stops, which may also stand within a sentence. -/
def fullStop : CharSet := .ofPoints [0x2E, 0x2024, 0xFE52, 0xFF0E]

/-- Georgian letters, whose cases do not mark the start of a sentence. -/
def georgianLower : CharSet := .ofRanges [(0x10D0, 0x10FA), (0x10FD, 0x10FF)]

def georgianUpper : CharSet := .ofRanges [(0x1C90, 0x1CBA), (0x1CBD, 0x1CBF)]

def lower : CharSet := CharClass.lowercase \ (CharClass.graphemeExtend ∪ georgianLower)

def upper : CharSet := (CharClass.uppercase ∪ Category.set [.lt]) \ georgianUpper

/-- Ornaments that enclose text like brackets do. -/
def ornament : CharSet :=
  .ofRanges [(0x275B, 0x2760), (0x2E00, 0x2E01), (0x2E06, 0x2E08), (0x2E0B, 0x2E0B),
    (0x1F676, 0x1F678)]

def separator : CharSet := .ofPoints [0x85, 0x2028, 0x2029]

/-- The classes of characters at the edges of sentences. -/
def sentence : List Entry :=
  [carriageReturn, lineFeed,
    ⟨["AT", "ATerm"], fullStop⟩,
    ⟨["CL", "Close"],
      (Category.set [.ps, .pe, .pi, .pf] ∪ Sign.quotationMark ∪ ornament) \
        .ofPoints [0xFF02, 0xFF07]⟩,
    ⟨["EX", "Extend"], attached ∪ .range 0x200D 0x200D⟩,
    ⟨["FO", "Format"],
      Category.set [.cf] \
        ((Sign.prependedConcatenation \ .range 0x70F 0x70F) ∪ CharClass.graphemeExtend ∪ joiners)⟩,
    ⟨["LO", "Lower"], lower⟩,
    ⟨["UP", "Upper"], upper⟩,
    ⟨["LE", "OLetter"],
      (CharClass.alphabetic ∪ .range 0x5F3 0x5F3) \ (lower ∪ upper ∪ attached)⟩,
    ⟨["NU", "Numeric"], numeric ∪ .range 0x66C 0x66C⟩,
    ⟨["SC", "SContinue"], .ofPoints [0x2C, 0x2D, 0x3A, 0x3B, 0x37E, 0x55D, 0x60C, 0x60D, 0x7F8,
      0x1802, 0x1808, 0x2013, 0x2014, 0x3001, 0xFE10, 0xFE11, 0xFE13, 0xFE14, 0xFE31, 0xFE32,
      0xFE50, 0xFE51, 0xFE54, 0xFE55, 0xFE58, 0xFE63, 0xFF0C, 0xFF0D, 0xFF1A, 0xFF1B, 0xFF64]⟩,
    ⟨["SE", "Sep"], separator⟩,
    ⟨["SP", "Sp"], CharClass.whiteSpace \ (separator ∪ .ofPoints [10, 13])⟩,
    ⟨["ST", "STerm"], Sign.sentenceTerminal \ fullStop⟩]

end Boundary
end TreeWalk
