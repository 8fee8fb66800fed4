/-
Ideographs, their parts, and the signs that describe how they are put together.
-/
import TreeWalk.Text.CharSet

namespace TreeWalk
namespace Ideograph

def ideographic : CharSet := .ofGaps
  "12294 2 25 9 14 3 965 6592 64 20992 22784 366 2 106 29962 1 27 6136 8 1238 41 10 9319 396
    19716 42720 32 4154 6 222 2 5762 14 7473 15 622 2466 542 1506 4939 5 4192"

def unified : CharSet := .ofGaps
  "13312 6592 64 20992 23054 2 1 1 1 2 10 1 1 1 1 2 2 3 67030 42720 32 4154 6 222 2 5762 14 7473
    15 622 4514 4939 5 4192"

def radical : CharSet := .ofGaps
  "11904 26 1 89 12 214"

/-- Signs that put two parts together. -/
def binaryOperator : CharSet := .ofGaps
  "12272 2 2 10 497 1"

/-- Signs that put three parts together. -/
def trinaryOperator : CharSet := .ofGaps
  "12274 2"

/-- Signs that change a single part. -/
def unaryOperator : CharSet := .ofGaps
  "12286 2"

end Ideograph
end TreeWalk
