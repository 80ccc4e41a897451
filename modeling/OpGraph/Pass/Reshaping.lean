import OpGraph.Pass.Basic

/-!
Consecutive transposes become one, or none if they undo each other; of two consecutive reshapes only
the outer one counts.
-/

namespace OpGraph.RulePass

open PatternBuilder

/-- The order of axes of a `Transpose` node. -/
def permAttr : String := "perm"

/-- `Transpose(Transpose(x))`. -/
def transposePattern : Except Fault Pattern := PatternBuilder.run do
  let x ← named (← wildcard) "x"
  let inner ← named (← node (.standard "Transpose") [x]) "inner"
  named (← node (.standard "Transpose") [inner]) "outer"

def Action.mergeTransposes : Action := fun pass m g => do
  let some x := m.namedArg? "x" | return (none, g)
  let some inner := m.namedNode? "inner" | return (none, g)
  let some outer := m.namedNode? "outer" | return (none, g)
  let some first := (← g.node inner).attrInts? permAttr | return (none, g)
  let some second := (← g.node outer).attrInts? permAttr | return (none, g)
  let some order := AxisOrder.compose first second | return (none, g)
  let some old := (← g.node outer).output? 0 | return (none, g)
  if AxisOrder.isIdentity order then
    return counted "transposes_cancelled" (← g.bypass outer old x)
  else
    let draft := (((Draft.new pass).withOpType "Transpose").withInputs [x]).withAttr permAttr
      (.ints order) |>.anchorSame old
    return counted "transposes_merged" (← g.supplant outer old draft)

def mergeTranspose : RulePass where
  name := "merge_transpose"
  rules := [⟨"merge_transpose", transposePattern, Action.mergeTransposes⟩]
  mode := .fixedPoint
  order := .topological

/-- Whether a 0 in the target of a reshape is taken as it is. -/
def allowZeroAttr : String := "allowzero"

/-- `Reshape(Reshape(x, c), shape)` for constants `c` and `shape`. -/
def reshapePattern : Except Fault Pattern := PatternBuilder.run do
  let x ← named (← wildcard) "x"
  let innerShape ← constant
  let inner ← named (← node (.standard "Reshape") [x, innerShape]) "inner"
  let shape ← named (← constant) "shape"
  named (← node (.standard "Reshape") [inner, shape]) "outer"

/--
The target may depend on the shape of the input: a 0 in it stands for the extent of the input unless
zeros are taken as they are. A target that cannot be read counts as well.
-/
def copiesInputDims (g : Graph) (shape : ArgId) (allowZero : Option Int64) : Except Fault Bool := do
  match ← g.constantValue? shape with
  | none => return true
  | some tensor =>
    match tensor.int64s "shape" with
    | .error _ => return true
    | .ok values => return allowZero ≠ some 1 && values.contains 0

def Action.mergeReshapes : Action := fun pass m g => do
  let some x := m.namedArg? "x" | return (none, g)
  let some shape := m.namedArg? "shape" | return (none, g)
  let some outer := m.namedNode? "outer" | return (none, g)
  let node ← g.node outer
  let some old := node.output? 0 | return (none, g)
  if ← copiesInputDims g shape (node.attrInt? allowZeroAttr) then
    return (none, g)
  let some dims := (← g.arg old).type.shape | return (none, g)
  let draft ← ((Draft.new pass).withOpType "Reshape").cloneAttrs g outer
  let draft := (draft.withInputs [x, shape]).anchorReshape old dims
  return counted "reshapes_merged" (← g.supplant outer old draft)

def mergeReshape : RulePass where
  name := "merge_reshape"
  rules := [⟨"merge_reshape", reshapePattern, Action.mergeReshapes⟩]
  mode := .fixedPoint
  order := .topological

end OpGraph.RulePass
