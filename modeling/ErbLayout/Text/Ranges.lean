/-!
Properties of code points as ascending lists of ranges, both ends included.
-/

namespace ErbLayout.Text

/-- Ranges of code points in ascending order. -/
abbrev Ranges := List (Nat × Nat)

/-- Whether `n` lies in one of the ranges; the search ends at the first range beyond `n`. -/
def Ranges.contains : Ranges → Nat → Bool
  | [], _ => false
  | (lo, hi) :: rest, n => if n < lo then false else n ≤ hi || Ranges.contains rest n

def Ranges.has (t : Ranges) (c : Char) : Bool := t.contains c.toNat

end ErbLayout.Text
