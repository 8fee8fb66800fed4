/-
Classes of characters that the language and its patterns ask for.

Most of them are unions of general categories with a short list of further
characters.  Every class is a set, and the questions about a single character
ask for membership in it.
-/
import TreeWalk.Text.Category

namespace TreeWalk
namespace CharClass

/-- White space: what `trim` removes, where `split` divides. -/
def whiteSpace : CharSet := .ofGaps
  "9 5 18 1 100 1 26 1 5599 1 2431 11 29 2 5 1 47 1 4000 1"

def isBlank (c : Char) : Bool := whiteSpace.contains c

def otherAlphabetic : CharSet := .ofGaps
  "837 1 29 13 576 14 1 1 1 2 1 2 1 1 72 11 48 13 1 7 16 1 101 7 4 4 2 2 4 1 35 1 30 16 102 11
    101 2 3 9 1 3 1 4 106 1 60 12 3 7 6 20 54 2 2 15 1 2 5 3 10 2 29 3 58 7 2 2 2 2 10 1 10 2 29
    3 58 5 4 2 2 2 4 1 30 2 3 1 11 3 58 8 1 3 1 2 21 2 22 3 4 3 58 7 2 2 2 2 9 2 10 2 30 1 59 5 3
    3 1 3 10 1 40 5 57 7 1 3 1 3 8 2 11 2 29 3 58 7 1 3 1 3 8 2 11 2 15 1 12 4 58 7 1 3 1 3 10 1
    10 2 29 3 75 6 1 1 1 8 18 2 61 1 2 7 18 1 99 1 2 6 1 2 16 1 163 19 9 11 1 36 110 12 1 1 2 4
    23 4 4 3 1 3 2 7 3 4 13 12 1 1 10 4 1652 2 30 2 30 2 30 2 66 19 188 2 34 1 118 12 4 9 222 5
    57 10 2 20 74 2 11 3 49 5 48 15 60 3 30 9 2 2 57 11 50 19 412 34 1729 52 2294 32 30836 8 34 2
    354 1 8 1 23 5 88 2 50 16 1 1 57 1 38 5 28 12 45 4 48 12 37 1 67 14 12 1 8 2 45 3 50 1 1 3 2
    2 5 1 44 5 5 1 237 8 20275 1 2135 5 1670 3 1 2 5 4 788 4 65 1 321 2 79 1 259 3 53 14 45 2 11
    3 45 9 9 1 61 3 36 12 18 2 57 3 48 13 14 2 92 9 2 1 6 1 2 1 157 10 23 4 58 7 2 2 2 2 10 1 10
    2 84 9 1 1 2 1 1 4 1 2 103 13 1 3 106 18 237 7 2 7 29 2 82 15 1 1 106 11 103 14 257 13 247 6
    1 2 2 2 3 1 1 1 142 7 2 6 4 1 28 10 42 5 1 4 18 11 46 14 407 8 1 7 83 22 1 14 122 6 3 1 1 2 1
    3 1 1 3 1 66 5 1 2 1 4 348 4 9 2 1 1 48 7 3 3 16861 17 3616 1 1 55 7 4 93 2 19628 1 9057 7 1
    17 2 7 1 2 1 5 100 1 2231 1 2024 26 6 26 6 26"

def otherLowercase : CharSet := .ofGaps
  "170 1 15 1 501 9 7 2 30 5 96 1 52 1 3457 1 3119 63 13 1 34 37 689 1 13 1 16 13 211 16 848 26
    1938 2 31262 2 210 1 129 3 3 2 866 4 9 1 23574 1 2 3 1 42 1 9 55413 62"

def otherUppercase : CharSet := .ofGaps
  "8544 16 838 26 117856 26 6 26 6 26"

def lowercase : CharSet := Category.set [.ll] ∪ otherLowercase

def uppercase : CharSet := Category.set [.lu] ∪ otherUppercase

def alphabetic : CharSet :=
  lowercase ∪ uppercase ∪ Category.set [.lt, .lm, .lo, .nl] ∪ otherAlphabetic

def isAlphabetic (c : Char) : Bool := alphabetic.contains c

def isNumeric (c : Char) : Bool := (Category.ofChar c).isNumber

/-- Characters that have, or are, a case. -/
def cased : CharSet := lowercase ∪ uppercase ∪ Category.set [.lt]

def isCased (c : Char) : Bool := cased.contains c

/-- Signs that stand within words but not within numbers. -/
def midLetter : CharSet := .ofGaps
  "58 1 124 1 719 1 471 1 148 1 6706 1 56811 1 65 1 196 1"

/-- Signs that stand within words and within numbers. -/
def midNumLet : CharSet := .ofGaps
  "46 1 8169 2 10 1 56877 1 180 1 6 1"

/-- Characters that are looked through when the case of a neighbour matters. -/
def caseIgnorable : CharSet :=
  Category.set [.mn, .me, .cf, .lm, .sk] ∪ midLetter ∪ midNumLet ∪ .range 0x27 0x27

def isCaseIgnorable (c : Char) : Bool := caseIgnorable.contains c

def otherGraphemeExtend : CharSet := .ofGaps
  "2494 1 24 1 358 1 24 1 102 1 24 1 232 1 1 1 4 2 1 2 9 2 103 1 24 1 119 1 15 1 2357 1 30 1 1024
    1 5 1 1 1 5 2 101 1 71 2 1048 1 4129 2 31011 1 108 1 21981 2 4640 1 116 1 264 1 14 1 9 1 96 1
    9 1 2 1 1 3 5 1 224 1 12 1 241 1 262 1 633 1 12 1 1539 1 20654 2 24947 2 6 6 798381 96"

/-- Characters that join the one before them into one visible unit. -/
def graphemeExtend : CharSet := Category.set [.mn, .me] ∪ otherGraphemeExtend

def extendsGrapheme (c : Char) : Bool := graphemeExtend.contains c

/-- Characters that can be shown as they are. -/
def isPrintable (c : Char) : Bool :=
  let category := Category.ofChar c
  c == ' ' || !(category.isOther || category.isSeparator)

/-- The zero-width joiner and non-joiner. -/
def joinControl : CharSet := .range 0x200C 0x200D

/-- The characters of words: letters, marks, decimal digits and connectors. -/
def word : CharSet :=
  alphabetic ∪ Category.set [.mn, .mc, .me, .nd, .pc] ∪ joinControl

def isWord (c : Char) : Bool := word.contains c

end CharClass
end TreeWalk
