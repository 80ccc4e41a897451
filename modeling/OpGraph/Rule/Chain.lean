import OpGraph.Rule.Basic

/-!
Running rules over a graph. A scan offers every node to its rules; the first rule that fires ends
the scan and the next one starts from a fresh order, because the nodes may have changed. A run that
keeps firing beyond its budget is a fault.

In a chain a rule is offered only to nodes of the operators that its pattern can match; rules that
can match any operator come after those.
-/

namespace OpGraph

variable {σ : Type}

/-- How many firings a run may have unless told otherwise. -/
def defaultBudget : Nat := 10000

/-- What a run of rules is set up with. -/
structure Engine (σ : Type) where
  /-- The name in the fault of a run that does not end. -/
  name : String
  /-- The rules to which a node is offered, in order. -/
  candidates : Node → List (Rule σ)
  mode : ScanMode
  order : ScanOrder
  budget : Nat

structure Run (σ : Type) where
  graph : Graph
  context : σ
  /-- In a run that offers nodes once: those not offered yet. -/
  pending : Std.ExtTreeSet NodeId

structure Firing where
  rule : String
  node : String
deriving DecidableEq

namespace Engine

variable (e : Engine σ)

/-- Offers a node to rules until one fires. -/
def offer (node : NodeId) : List (Rule σ) → Graph → σ → Except Fault (Option String × Graph × σ)
  | [], g, ctx => .ok (none, g, ctx)
  | rule :: rest, g, ctx => do
    let (fired, g, ctx) ← rule.tryApply node g ctx
    if fired then
      return (some rule.name, g, ctx)
    else
      offer node rest g ctx

/-- Visits nodes until a rule fires. Nodes that are gone by now are passed over. -/
def scan : List NodeId → Run σ → Except Fault (Option Firing × Run σ)
  | [], run => .ok (none, run)
  | id :: rest, run =>
    match run.graph.node? id with
    | none => scan rest run
    | some node =>
      if e.mode = .once ∧ id ∉ run.pending then
        scan rest run
      else do
        let pending := run.pending.erase id
        let (fired, g, ctx) ← offer id (e.candidates node) run.graph run.context
        match fired with
        | some rule => return (some ⟨rule, node.name⟩, ⟨g, ctx, pending⟩)
        | none => scan rest ⟨g, ctx, pending⟩

/-- A scan in a fresh order. -/
def freshScan (run : Run σ) : Except Fault (Option Firing × Run σ) := do
  e.scan (← e.order.nodes run.graph) run

/-- Scans until nothing fires; the number is that of the firings allowed. -/
def scans : Nat → Run σ → RunStats → Except Fault (RunStats × Run σ)
  | 0, run, stats => do
    match ← e.freshScan run with
    | (none, run) => return (stats.addScan, run)
    | (some firing, _) => throw (.budget e.budget e.name firing.rule firing.node)
  | left + 1, run, stats => do
    match ← e.freshScan run with
    | (none, run) => return (stats.addScan, run)
    | (some firing, run) => scans left run (stats.addScan.addFiring firing.rule)

def apply (g : Graph) (ctx : σ) : Except Fault (RunStats × Graph × σ) := do
  let pending := match e.mode with
    | .once => Std.ExtTreeSet.ofList g.nodeIds compare
    | .fixedPoint => ∅
  let (stats, run) ← e.scans e.budget ⟨g, ctx, pending⟩ .empty
  return (stats, run.graph, run.context)

end Engine

/-- Applies a rule alone until it fires no more. -/
def Rule.apply (rule : Rule σ) (order : ScanOrder) (g : Graph) (ctx : σ) :
    Except Fault (RunStats × Graph × σ) :=
  Engine.apply ⟨rule.name, fun _ => [rule], .fixedPoint, order, defaultBudget⟩ g ctx

/-- An ordered set of rules, kept by the operators that their patterns can match. -/
structure RuleChain (σ : Type) where
  name : String
  /-- The rules that can match an operator, in the order they were added. -/
  keyed : Std.ExtTreeMap OpKey (List (Rule σ))
  /-- The rules that can match any operator. -/
  unkeyed : List (Rule σ)
  mode : ScanMode
  order : ScanOrder
  budget : Nat

namespace RuleChain

def empty (name : String) (mode : ScanMode) (order : ScanOrder) (budget : Nat) : RuleChain σ :=
  ⟨name, ∅, [], mode, order, budget⟩

/-- Adds a rule under every operator that the root of its pattern can match. -/
def add (chain : RuleChain σ) (rule : Rule σ) : Except Fault (RuleChain σ) := do
  match ← rule.pattern.rootKeys with
  | none => return { chain with unkeyed := chain.unkeyed ++ [rule] }
  | some keys =>
    let keyed := keys.foldl (fun keyed key => keyed.insert key (keyed.getD key [] ++ [rule]))
      chain.keyed
    return { chain with keyed := keyed }

def ofRules (name : String) (mode : ScanMode) (order : ScanOrder) (budget : Nat)
    (rules : List (Rule σ)) : Except Fault (RuleChain σ) :=
  rules.foldlM add (empty name mode order budget)

def candidates (chain : RuleChain σ) (node : Node) : List (Rule σ) :=
  chain.keyed.getD node.key [] ++ chain.unkeyed

def apply (chain : RuleChain σ) (g : Graph) (ctx : σ) : Except Fault (RunStats × Graph × σ) :=
  Engine.apply ⟨chain.name, chain.candidates, chain.mode, chain.order, chain.budget⟩ g ctx

end RuleChain

end OpGraph
