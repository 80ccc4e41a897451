/-!
Reading hexadecimal digits.
-/

namespace OpGraph.Text

def hexDigit? (c : Char) : Option Nat :=
  if c.isDigit then some (c.toNat - 48)
  else if 'a' ≤ c ∧ c ≤ 'f' then some (c.toNat - 87)
  else if 'A' ≤ c ∧ c ≤ 'F' then some (c.toNat - 55)
  else none

def natOfHex? (digits : List Char) : Option Nat :=
  if digits.isEmpty then
    none
  else
    digits.foldlM (fun n c => (hexDigit? c).map fun digit => 16 * n + digit) 0

end OpGraph.Text
