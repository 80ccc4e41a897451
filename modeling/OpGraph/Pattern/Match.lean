import OpGraph.Graph.Basic
import OpGraph.Pattern.Basic

/-!
Matching a pattern against an arg of a graph. Every entry on the way is bound to the arg it matched
and to the node that produces it; an entry that is met again has to match the same arg. The first
alternative that matches and the first order of operands that matches are taken for good, and what a
failed attempt has bound is forgotten.
-/

namespace OpGraph

/-- What an entry is bound to; both are absent for an entry off the chosen way. -/
structure Binding where
  node : Option NodeId
  arg : Option ArgId
deriving DecidableEq

namespace Binding

def unbound : Binding := ⟨none, none⟩

def isBound (b : Binding) : Bool :=
  b.arg.isSome

end Binding

abbrev Bindings := Std.ExtTreeMap PatternId Binding

/-- A successful match: a binding for every entry reachable from the root. -/
structure Match where
  pattern : Pattern
  bindings : Bindings

namespace Match

variable (m : Match)

def node? (id : PatternId) : Option NodeId :=
  m.bindings[id]?.bind Binding.node

def arg? (id : PatternId) : Option ArgId :=
  m.bindings[id]?.bind Binding.arg

def named? (name : String) : Option Binding :=
  (m.pattern.find? name).bind fun id => m.bindings[id]?

def namedNode? (name : String) : Option NodeId :=
  (m.named? name).bind Binding.node

def namedArg? (name : String) : Option ArgId :=
  (m.named? name).bind Binding.arg

def entries : List (PatternId × Binding) :=
  m.bindings.toList

end Match

namespace Pattern

/-- An attempt to match an entry against an arg, on top of earlier bindings. -/
abbrev Attempt := PatternId → ArgId → Bindings → Except Fault (Option Bindings)

/-- Matches the operands of a node in the order of their slots. -/
def matchOperands (attempt : Attempt) (node : Node) (optional : List Bool) :
    List (PatternId × Nat) → Bindings → Except Fault (Option Bindings)
  | [], bound => .ok (some bound)
  | (operand, slot) :: rest, bound =>
    match node.input? slot with
    | none =>
      match optional[slot]? with
      | none => .error (.outOfRange optional.length slot)
      | some false => .ok none
      | some true => matchOperands attempt node optional rest bound
    | some input => do
      match ← attempt operand input bound with
      | none => return none
      | some bound => matchOperands attempt node optional rest bound

def matchPair (attempt : Attempt) (lhs rhs : PatternId) (first second : ArgId) (bound : Bindings) :
    Except Fault (Option Bindings) := do
  match ← attempt lhs first bound with
  | none => return none
  | some bound => attempt rhs second bound

/-- The first item that matches. -/
def matchAny (attempt : Attempt) (arg : ArgId) (bound : Bindings) :
    List PatternId → Except Fault (Option Bindings)
  | [] => .ok none
  | item :: rest => do
    match ← attempt item arg bound with
    | some bound => return some bound
    | none => matchAny attempt arg bound rest

def matchAll (attempt : Attempt) (arg : ArgId) :
    List PatternId → Bindings → Except Fault (Option Bindings)
  | [], bound => .ok (some bound)
  | item :: rest, bound => do
    match ← attempt item arg bound with
    | none => return none
    | some bound => matchAll attempt arg rest bound

/-- The node has the operator and the attributes, and no operand beyond the given number. -/
def fits (node : Node) (key : OpKey) (count : Nat) (attrs : List (String × Attr)) : Bool :=
  node.key == key && attrs.all (fun (name, value) => node.attr? name == some value) &&
    (node.inputs.drop count).all Option.isNone

variable (p : Pattern) (g : Graph)

/-- Matches the kind of an entry that is not bound yet. -/
def matchKind (attempt : Attempt) (id : PatternId) (arg : ArgId) (bound : Bindings) :
    PatternKind → Except Fault (Option Bindings)
  | .wildcard => return some (bound.insert id ⟨g.producer? arg, some arg⟩)
  | .constant => do
    let found ← g.isConstant arg
    return if found then some (bound.insert id ⟨g.producer? arg, some arg⟩) else none
  | .graphInput =>
    return if g.isInput arg then some (bound.insert id ⟨g.producer? arg, some arg⟩) else none
  | .node key operands optional attrs => do
    let some producer := g.producer? arg | return none
    let node ← g.node producer
    if fits node key operands.length attrs then
      matchOperands attempt node optional operands.zipIdx
        (bound.insert id ⟨some producer, some arg⟩)
    else
      return none
  | .commutable key lhs rhs => do
    let some producer := g.producer? arg | return none
    let node ← g.node producer
    match node.inputs with
    | [some a, some b] =>
      if node.key = key then
        let bound := bound.insert id ⟨some producer, some arg⟩
        match ← matchPair attempt lhs rhs a b bound with
        | some bound => return some bound
        | none => matchPair attempt lhs rhs b a bound
      else
        return none
    | _ => return none
  | .anyOf items => do
    let some bound ← matchAny attempt arg bound items | return none
    return some (bound.insert id ⟨g.producer? arg, some arg⟩)
  | .allOf items => do
    let some bound ← matchAll attempt arg items bound | return none
    return some (bound.insert id ⟨g.producer? arg, some arg⟩)

/-- Matches an entry; children come before their parents, so `id + 1` levels are enough. -/
def matchAt : Nat → Attempt
  | 0, id, _, _ => notPreceding id
  | fuel + 1, id, arg, bound =>
    match bound[id]? with
    | some binding => return if binding.arg = some arg then some bound else none
    | none => do matchKind g (matchAt fuel) id arg bound (← p.kind id)

/-- Adds an empty binding for every reachable entry that was not met. -/
def complete (bound : Bindings) : Bindings :=
  p.reachable.foldl (fun bound id => if id ∈ bound then bound else bound.insert id .unbound) bound

/-- Matches the root against an arg. -/
def matchArg (arg : ArgId) : Except Fault (Option Match) := do
  match ← p.matchAt g (p.root.index + 1) p.root arg ∅ with
  | none => return none
  | some bound => return some ⟨p, p.complete bound⟩

/-- Matches the root against the first output of a node. -/
def matchNode (node : NodeId) : Except Fault (Option Match) := do
  match (← g.node node).output? 0 with
  | none => return none
  | some arg => p.matchArg g arg

end Pattern

end OpGraph
