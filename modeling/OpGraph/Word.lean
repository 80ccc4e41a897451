/-!
Arithmetic on 64-bit words. Sizes and counts are natural numbers; an operation whose exact result
does not fit a word is refused instead of wrapping around.
-/

namespace OpGraph

/-- An operation whose exact result does not fit its word. -/
inductive Overflow where
  | add
  | subtract
  | multiply
deriving DecidableEq, Repr

def Overflow.message : Overflow → String
  | .add => "attempt to add with overflow"
  | .subtract => "attempt to subtract with overflow"
  | .multiply => "attempt to multiply with overflow"

namespace Word

/-- The number of values of a 64-bit word. -/
def limit : Nat := UInt64.size

def add (x y : Nat) : Except Overflow Nat :=
  if x + y < limit then .ok (x + y) else .error .add

def sub (x y : Nat) : Except Overflow Nat :=
  if y ≤ x then .ok (x - y) else .error .subtract

def mul (x y : Nat) : Except Overflow Nat :=
  if x * y < limit then .ok (x * y) else .error .multiply

/-- The product of a list, formed from left to right; every partial product has to fit. -/
def product (xs : List Nat) : Except Overflow Nat :=
  xs.foldlM mul 1

end Word

end OpGraph
