import OpGraph.Graph.Topology
import OpGraph.Pattern.Match

/-!
Rules. A rule pairs a pattern with an action on the graph. The action sees what the pattern matched
and answers whether it changed the graph; besides the graph it may change a context of the run.
-/

namespace OpGraph

structure Rule (σ : Type) where
  name : String
  pattern : Pattern
  action : Match → Graph → σ → Except Fault (Bool × Graph × σ)

namespace Rule

variable {σ : Type}

/-- Matches the rule against a node and runs the action on success. -/
def tryApply (rule : Rule σ) (node : NodeId) (g : Graph) (ctx : σ) :
    Except Fault (Bool × Graph × σ) := do
  match ← rule.pattern.matchNode g node with
  | none => return (false, g, ctx)
  | some found => rule.action found g ctx

end Rule

/-- When a run of rules ends. -/
inductive ScanMode where
  /-- After a scan in which nothing fires. -/
  | fixedPoint
  /-- When every node that was there at the start has been offered once. -/
  | once
deriving DecidableEq

namespace ScanMode

def name : ScanMode → String
  | fixedPoint => "fixed_point"
  | once => "once"

def ofName? (name : String) : Option ScanMode :=
  [fixedPoint, once].find? fun mode => mode.name == name

end ScanMode

/-- The order in which a scan visits the nodes. -/
inductive ScanOrder where
  /-- Producers before their readers. -/
  | topological
  /-- Readers before their producers. -/
  | reverseTopological
deriving DecidableEq

namespace ScanOrder

def name : ScanOrder → String
  | topological => "topological"
  | reverseTopological => "reverse_topological"

def ofName? (name : String) : Option ScanOrder :=
  [topological, reverseTopological].find? fun order => order.name == name

def nodes (order : ScanOrder) (g : Graph) : Except Fault (List NodeId) := do
  let ids ← g.orderOrFault
  return match order with
    | topological => ids
    | reverseTopological => ids.reverse

end ScanOrder

structure RunStats where
  scans : Nat
  changes : Nat
  perRule : Std.ExtTreeMap String Nat
deriving DecidableEq

namespace RunStats

def empty : RunStats := ⟨0, 0, ∅⟩

def fired (s : RunStats) (rule : String) : Nat :=
  s.perRule.getD rule 0

def addScan (s : RunStats) : RunStats :=
  { s with scans := s.scans + 1 }

def addFiring (s : RunStats) (rule : String) : RunStats :=
  { s with
    changes := s.changes + 1
    perRule := s.perRule.insert rule (s.fired rule + 1) }

def merge (s other : RunStats) : Except Overflow RunStats := do
  let scans ← Word.add s.scans other.scans
  let changes ← Word.add s.changes other.changes
  let perRule ← other.perRule.toList.foldlM (fun counts (rule, count) => do
    return counts.insert rule (← Word.add (counts.getD rule 0) count)) s.perRule
  return ⟨scans, changes, perRule⟩

end RunStats

end OpGraph
