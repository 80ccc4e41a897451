import OpGraph.Pass.Basic

/-!
Nodes that hand on their input: `Identity`, and `Add` with a constant that is zero everywhere. Both
are bypassed. Identities are visited from the graph outputs upwards, so a run of them collapses from
its end.
-/

namespace OpGraph.RulePass

open PatternBuilder

/-- `Identity(x)`. -/
def identityPattern : Except Fault Pattern := PatternBuilder.run do
  let x ← named (← wildcard) "x"
  named (← node (.standard "Identity") [x]) "identity"

def Action.bypassIdentity : Action := fun _ m g => do
  let some x := m.namedArg? "x" | return (none, g)
  let some id := m.namedNode? "identity" | return (none, g)
  let some out := (← g.node id).output? 0 | return (none, g)
  return counted "identities_removed" (← g.bypass id out x)

def removeIdentity : RulePass where
  name := "remove_identity"
  rules := [⟨"bypass_identity", identityPattern, Action.bypassIdentity⟩]
  mode := .fixedPoint
  order := .reverseTopological

/-- `Add(x, zero)`, in either order. -/
def addZeroPattern : Except Fault Pattern := PatternBuilder.run do
  let x ← named (← wildcard) "x"
  let zero ← named (← constant) "zero"
  named (← commutable (.standard "Add") x zero) "add"

/-- Declines unless the sum has the shape of `x`: the zero might broadcast it to a larger one. -/
def Action.bypassAddZero : Action := fun _ m g => do
  let some x := m.namedArg? "x" | return (none, g)
  let some zero := m.namedArg? "zero" | return (none, g)
  let some add := m.namedNode? "add" | return (none, g)
  if !(← g.isZero zero) then
    return (none, g)
  let some out := (← g.node add).output? 0 | return (none, g)
  let shape := (← g.arg x).type.shape
  let outShape := (← g.arg out).type.shape
  if shape.isNone || shape ≠ outShape then
    return (none, g)
  return counted "zero_additions_removed" (← g.bypass add out x)

def foldAddZero : RulePass where
  name := "fold_add_zero"
  rules := [⟨"add_zero", addZeroPattern, Action.bypassAddZero⟩]
  mode := .fixedPoint
  order := .topological

end OpGraph.RulePass
