/-!
Dimension lists and orders of axes. An order lists, for every axis of the result, the axis of the
source that it is taken from.
-/

namespace OpGraph

/-- The extents of a tensor, outermost first; a negative extent is not known. -/
abbrev Dims := List Int64

namespace AxisOrder

/-- An order of `n` axes names every position below `n` once. -/
def isPermutation (order : List Int64) : Bool :=
  order.all (fun axis => decide (0 ≤ axis.toInt ∧ axis.toInt < order.length)) && decide order.Nodup

def isIdentity (order : List Int64) : Bool :=
  order.zipIdx.all fun (axis, i) => axis == Int64.ofNat i

/-- The entries of `xs` at the positions that `order` names. -/
def select (xs order : List Int64) : Option (List Int64) :=
  order.mapM fun axis => xs[axis.toInt.toNat]?

/-- The dimensions after a transpose: entry `i` of the result is the extent of axis `order[i]`. -/
def permute (dims : Dims) (order : List Int64) : Option Dims :=
  if dims.length = order.length ∧ isPermutation order then
    select dims order
  else
    none

/-- The order that transposes by `first` and then by `second`. -/
def compose (first second : List Int64) : Option (List Int64) :=
  if first.length = second.length ∧ isPermutation first ∧ isPermutation second then
    select first second
  else
    none

/-- The order that undoes `order`: entry `i` is the position at which `order` names axis `i`. -/
def inverse (order : List Int64) : Option (List Int64) :=
  if isPermutation order then
    (List.range order.length).mapM fun i => (order.idxOf? (Int64.ofNat i)).map Int64.ofNat
  else
    none

end AxisOrder

end OpGraph
