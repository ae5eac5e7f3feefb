/-!
Sets of characters given by the ranges of their numbers, in order and apart from each other.
-/

namespace Gauge.Text

/-- Looks a number up in the ranges from `low` up to `high`, halving what is left each time. -/
def inRangesBetween (ranges : Array (Nat × Nat)) (n low high : Nat) : Bool :=
  if low < high then
    let middle := (low + high) / 2
    let (first, last) := ranges.getD middle (0, 0)
    if n < first then inRangesBetween ranges n low middle
    else if last < n then inRangesBetween ranges n (middle + 1) high
    else true
  else false
termination_by high - low

def inRanges (ranges : Array (Nat × Nat)) (n : Nat) : Bool :=
  inRangesBetween ranges n 0 ranges.size

end Gauge.Text
