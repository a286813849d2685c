import ErbLayout.Text.Basic

/-!
Natural numbers in decimal, as they are written in options: digits, perhaps after a plus sign.
-/

namespace ErbLayout.Text

def digitsValue (digits : Text) : Nat := digits.foldl (fun n c => 10 * n + (c.toNat - 48)) 0

/-- The number below `limit` that a text stands for. -/
def nat? (limit : Nat) (s : Text) : Option Nat :=
  let digits := (after? ['+'] s).getD s
  if !digits.isEmpty && digits.all Char.isDigit && digitsValue digits < limit
    then some (digitsValue digits)
  else none

def wordLimit : Nat := Nat.pow 2 64

end ErbLayout.Text
