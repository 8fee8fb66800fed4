/-
The characters of identifiers and of the syntax around them.

An identifier starts with a letter and goes on with letters, marks, digits and
connectors.  The stable forms leave out the few characters that normalization
would change into something that is no identifier.
-/
import TreeWalk.Text.Category

namespace TreeWalk
namespace Identifier

def patternSyntax : CharSet := .ofGaps
  "33 15 10 7 26 4 1 1 26 4 34 7 1 1 1 2 1 1 1 2 4 1 4 1 3 1 23 1 31 1 7960 24 8 15 2 19 1 10 305
    720 160 630 30 1132 512 128 385 3 4 25 15 1 52493 2 261 2"

def patternWhiteSpace : CharSet := .ofGaps
  "9 5 18 1 100 1 8072 2 24 2"

def otherStart : CharSet := .ofGaps
  "6277 2 2193 1 21 1 3948 2"

def otherContinue : CharSet := .ofGaps
  "183 1 719 1 4065 9 1640 1 1585 2 4333 1 52841 1"

def start : CharSet :=
  (Category.set [.lu, .ll, .lt, .lm, .lo, .nl] ∪ otherStart) \
    (patternSyntax ∪ patternWhiteSpace)

def continuing : CharSet :=
  (start ∪ Category.set [.mn, .mc, .nd, .pc] ∪ otherContinue) \
    (patternSyntax ∪ patternWhiteSpace)

/-- Characters that start an identifier only until it is normalized. -/
def unstableStart : CharSet := .ofGaps
  "890 1 2744 1 127 1 8679 2 52161 6 406 2 116 1 1 1 1 1 1 1 1 1 1 1 1 1 1 1 287 2"

/-- Characters that continue an identifier only until it is normalized. -/
def unstableContinue : CharSet := .ofGaps
  "890 1 11552 2 52161 6 406 2 116 1 1 1 1 1 1 1 1 1 1 1 1 1 1 1"

def stableStart : CharSet := start \ unstableStart

def stableContinuing : CharSet := continuing \ unstableContinue

/-- Mathematical signs that may start an identifier. -/
def mathStart : CharSet := .ofGaps
  "8706 1 4 1 22 1 111778 1 25 1 31 1 25 1 31 1 25 1 31 1 25 1 31 1 25 1"

/-- Mathematical signs that may continue an identifier. -/
def mathContinue : CharSet := .ofGaps
  "178 2 5 1 8118 1 3 11 1 15 371 1 4 1 22 1 111778 1 25 1 31 1 25 1 31 1 25 1 31 1 25 1 31 1 25
    1"

end Identifier
end TreeWalk
