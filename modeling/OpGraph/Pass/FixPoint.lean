import OpGraph.Pass.Basic

/-!
Fixed-point conversions. A pair of `QuantizeLinear` and `DequantizeLinear` whose scale is a power of
two becomes one `fix` node, conversions that undo each other collapse, and a converted constant
becomes a constant.
-/

namespace OpGraph.RulePass

open PatternBuilder

/-! ### Quantize and dequantize -/

/-- `DequantizeLinear(QuantizeLinear(x, scale, zero_point), dq_scale, dq_zero_point)`. -/
def quantizePattern : Except Fault Pattern := PatternBuilder.run do
  let x ← named (← wildcard) "x"
  let scale ← named (← constant) "scale"
  let zeroPoint ← named (← constant) "zero_point"
  let quant ← named (← nodeWith (.standard "QuantizeLinear")
    [(x, false), (scale, false), (zeroPoint, true)] []) "quant"
  let scale ← named (← constant) "dq_scale"
  let zeroPoint ← named (← constant) "dq_zero_point"
  named (← nodeWith (.standard "DequantizeLinear")
    [(quant, false), (scale, false), (zeroPoint, true)] []) "dequant"

/-- The fix-point `n` of a scale `2 ^ -n`. -/
def scaleFixPoint? (scale : Single) : Option Int64 :=
  scale.log2?.map fun e => Int64.ofInt (-e)

/-- The number in a constant with one element. -/
def namedScale? (m : Match) (g : Graph) (name : String) : Except Fault (Option Single) :=
  match m.namedArg? name with
  | none => .ok none
  | some arg => do return (← g.constantValue? arg).bind Tensor.singleFloat?

/-- A zero point that is there, of type `int8`, and zero. Without one the pair would be unsigned. -/
def isSignedZero (m : Match) (g : Graph) (name : String) : Except Fault Bool :=
  match m.namedArg? name with
  | none => .ok false
  | some arg => do
    match ← g.constantValue? arg with
    | none => return false
    | some tensor => return tensor.elem == .int8 && (← g.isZero arg)

/-- The fix-point that a matched pair amounts to. -/
def pairFixPoint? (m : Match) (g : Graph) : Except Fault (Option Int64) := do
  let some scale ← namedScale? m g "scale" | return none
  let some dqScale ← namedScale? m g "dq_scale" | return none
  if !scale.equals dqScale then
    return none
  if !(← isSignedZero m g "zero_point") then
    return none
  if !(← isSignedZero m g "dq_zero_point") then
    return none
  return scaleFixPoint? scale

def Action.pairToFix : Action := fun pass m g => do
  let some x := m.namedArg? "x" | return (none, g)
  let some dequant := m.namedNode? "dequant" | return (none, g)
  let some fixPoint ← pairFixPoint? m g | return (none, g)
  let some old := (← g.node dequant).output? 0 | return (none, g)
  let draft ← (((Draft.new pass).withKey .fix).withInputs [x]).withAttr fixPointAttr (.int fixPoint)
    |>.anchorRemark old (.fixPoint fixPoint)
  return counted "qdq_pairs_converted" (← g.supplant dequant old draft)

def qdqToFix : RulePass where
  name := "qdq_to_fix"
  rules := [⟨"qdq_to_fix", quantizePattern, Action.pairToFix⟩]
  mode := .fixedPoint
  order := .topological

/-! ### Conversions that undo each other -/

/-- `outer(inner(x))`. -/
def conversionPattern (inner outer : OpKey) : Except Fault Pattern := PatternBuilder.run do
  let x ← named (← wildcard) "x"
  let inner ← named (← node inner [x]) "inner"
  named (← node outer [inner]) "outer"

/-- Two matched conversions with one fix-point. -/
structure Conversions where
  x : ArgId
  inner : NodeId
  outer : NodeId
  fixPoint : Int64

def conversions? (m : Match) (g : Graph) : Except Fault (Option Conversions) := do
  let some x := m.namedArg? "x" | return none
  let some inner := m.namedNode? "inner" | return none
  let some outer := m.namedNode? "outer" | return none
  let some fixPoint := (← g.node inner).attrInt? fixPointAttr | return none
  if (← g.node outer).attrInt? fixPointAttr = some fixPoint then
    return some ⟨x, inner, outer, fixPoint⟩
  else
    return none

/-- `fix2float(float2fix(x))` becomes `fix(x)`. -/
def Action.foldRoundTrip : Action := fun pass m g => do
  let some c ← conversions? m g | return (none, g)
  let some old := (← g.node c.outer).output? 0 | return (none, g)
  let draft := (((Draft.new pass).withKey .fix).withInputs [c.x]).withAttr fixPointAttr
    (.int c.fixPoint) |>.anchorSame old
  return counted "roundtrips_folded" (← g.supplant c.outer old draft)

/-- `float2fix(fix2float(x))` is `x`. -/
def Action.bypassToInput : Action := fun _ m g => do
  let some c ← conversions? m g | return (none, g)
  let some out := (← g.node c.outer).output? 0 | return (none, g)
  return counted "roundtrips_bypassed" (← g.bypass c.outer out c.x)

/-- `fix(fix(x))` is the inner `fix(x)`. -/
def Action.bypassToInner : Action := fun _ m g => do
  let some c ← conversions? m g | return (none, g)
  let some inner := (← g.node c.inner).output? 0 | return (none, g)
  let some out := (← g.node c.outer).output? 0 | return (none, g)
  return counted "double_fix_collapsed" (← g.bypass c.outer out inner)

def fixCleanup : RulePass where
  name := "fix_cleanup"
  rules := [
    ⟨"fold_roundtrip", conversionPattern .float2fix .fix2float, Action.foldRoundTrip⟩,
    ⟨"bypass_reverse_roundtrip", conversionPattern .fix2float .float2fix, Action.bypassToInput⟩,
    ⟨"collapse_double_fix", conversionPattern .fix .fix, Action.bypassToInner⟩]
  mode := .fixedPoint
  order := .topological

/-! ### Converted constants -/

/-- `float2fix(c)` of a constant. -/
def constantPattern : Except Fault Pattern := PatternBuilder.run do
  let c ← named (← constant) "c"
  named (← node .float2fix [c]) "quant"

/-- An element in fixed-point form, `x * 2 ^ fixPoint` rounded and clamped to 8 bits. -/
def quantize (fixPoint : Int64) (x : Single) : Int8 :=
  x.quantize (Single.twoPow fixPoint.toInt)

/--
Puts an initializer in place of a converted constant. The initializer is anchored to the output it
replaces. A graph output and a constant that is not `float32` are left alone.
-/
def Action.foldConstant : Action := fun pass m g => do
  let some c := m.namedArg? "c" | return (none, g)
  let some id := m.namedNode? "quant" | return (none, g)
  let node ← g.node id
  let some fixPoint := node.attrInt? fixPointAttr | return (none, g)
  let some out := node.output? 0 | return (none, g)
  if g.isOutput out then
    return (none, g)
  let some tensor ← g.constantValue? c | return (none, g)
  let name := (← g.arg c).name
  match tensor.float32s name with
  | .error _ => return (none, g)
  | .ok values =>
    let folded : Tensor := ⟨tensor.dims, .int8 (values.map (quantize fixPoint))⟩
    match Graph.addInitializer (g.freshArgName (name ++ "_fix")) folded g with
    | .error (.fault fault) _ => throw fault
    | .error (.error _) g => return (none, g)
    | .ok new g =>
      let g := { g with log := g.log.record new ⟨some out, .fixPoint fixPoint, pass⟩ }
      let g ← g.replaceAllUses out new
      return (some "constants_folded", (← g.removeNode id).2)

def foldFixConstant : RulePass where
  name := "fold_fix_constant"
  rules := [⟨"fold_constant", constantPattern, Action.foldConstant⟩]
  mode := .fixedPoint
  order := .topological

end OpGraph.RulePass
