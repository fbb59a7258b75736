/-
# The depth limit

Rules nest no deeper than the limit of the settings.  A derivation keeps count of
the levels that are left, and recursion on that number is what makes it finite;
`descend` gives the same limit as a step from one depth to the next.
-/

import TypeDeduction.Failure

namespace TypeDeduction
namespace Depth

/-- The levels that a limit leaves below the start; none when it is not positive. -/
def levels (limit : Int) : Nat := limit.toNat

/-- The depth of the level below which `left` levels are left. -/
def reached (limit : Int) (left : Nat) : Nat := levels limit - left

/-- The next depth, unless the limit is reached. -/
def descend (limit : Int) (depth : Nat) : Except Failure Nat :=
  if limit ≤ depth then .error (.tooDeep limit) else .ok (depth + 1)

end Depth
end TypeDeduction
