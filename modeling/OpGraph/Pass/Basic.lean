import OpGraph.Fusion.Fuse
import OpGraph.Graph.Draft
import OpGraph.Model.Basic
import OpGraph.Pattern.Builder
import OpGraph.Pattern.Cache
import OpGraph.Rule.Chain

/-!
Passes: sets of rules that run as one chain. A rule works on the graph in place. It either declines
or replaces a node for good, and counts what it did.
-/

namespace OpGraph

inductive PassError where
  | unknownPass (name : String)
  /-- A blob or directory cannot be read or written. -/
  | artifact
  /-- The graph is not valid after the pass. -/
  | resolve (pass : String) (error : GraphError)
  /-- The graph cannot be saved after the pass. -/
  | dump (pass : String) (error : ModelError)
  | partition (error : FusionError)
deriving DecidableEq

def PassError.message? : PassError → Option String
  | unknownPass name => some ("unknown pass '" ++ name ++ "'")
  | artifact => none
  | resolve pass error => some ("graph invalid after pass '" ++ pass ++ "': " ++ error.message)
  | dump pass error =>
    error.message?.map fun text => "cannot dump graph after pass '" ++ pass ++ "': " ++ text
  | partition error => some ("partitioning failed: " ++ error.message)

structure PassReport where
  pass : String
  scans : Nat
  changes : Nat
  /-- The firings of rules, and what they counted themselves. -/
  counters : Std.ExtTreeMap String Nat
  /-- The nodes removed as garbage after the pass. -/
  collected : Nat
deriving DecidableEq

def PassReport.empty (pass : String) : PassReport := ⟨pass, 0, 0, ∅, 0⟩

structure PassContext where
  pass : String
  counters : Std.ExtTreeMap String Nat
deriving DecidableEq

def PassContext.bump (ctx : PassContext) (counter : String) : PassContext :=
  { ctx with counters := ctx.counters.insert counter (ctx.counters.getD counter 0 + 1) }

/--
What a rule of a pass does with a match: the counter of the deed, unless it declines, and the graph
as it leaves it. Nothing is undone when it declines.
-/
abbrev Action := String → Match → Graph → Except Fault (Option String × Graph)

structure RuleSpec where
  name : String
  pattern : Except Fault Pattern
  act : Action

/-- The rule with its compiled pattern. -/
def RuleSpec.toRule (spec : RuleSpec) (pattern : Pattern) : Rule PassContext where
  name := spec.name
  pattern := pattern
  action m g ctx := do
    match ← spec.act ctx.pass m g with
    | (none, g) => return (false, g, ctx)
    | (some counter, g) => return (true, g, ctx.bump counter)

structure RulePass where
  name : String
  rules : List RuleSpec
  mode : ScanMode
  order : ScanOrder

/-- The graph, the storage and the cache that passes work on. -/
structure Workspace where
  graph : Graph
  storage : Storage
  cache : PatternCache

/-- A step of a pass; the workspace is kept also when it fails. -/
abbrev PassM := EStateM (Failure PassError) Workspace

namespace PassM

def orFault {α : Type} (x : Except Fault α) : PassM α :=
  match x with
  | .ok a => return a
  | .error fault => throw (.fault fault)

def edit {ε α : Type} (onError : ε → PassError) (step : Edit ε α) : PassM α := fun w =>
  match step w.graph with
  | .ok a g => .ok a { w with graph := g }
  | .error failure g => .error (failure.mapError onError) { w with graph := g }

def fetch (store : Store) (key : String) (compiled : Pattern) : PassM Pattern := fun w =>
  match PatternCache.fetch store key compiled (w.cache, w.storage) with
  | .ok pattern (cache, storage) => .ok pattern { w with cache := cache, storage := storage }
  | .error _ (cache, storage) =>
    .error (.error .artifact) { w with cache := cache, storage := storage }

end PassM

namespace RulePass

variable (p : RulePass)

/-- The name of a rule among those of all passes. -/
def ruleKey (spec : RuleSpec) : String :=
  p.name ++ "." ++ spec.name

def compile (store : Store) : PassM (List (Rule PassContext)) :=
  p.rules.mapM fun spec => do
    let compiled ← PassM.orFault spec.pattern
    return spec.toRule (← PassM.fetch store (p.ruleKey spec) compiled)

def run (store : Store) (budget : Nat) : PassM PassReport := do
  let rules ← p.compile store
  let chain ← PassM.orFault (RuleChain.ofRules p.name p.mode p.order budget rules)
  let w ← get
  let (stats, g, ctx) ← PassM.orFault (chain.apply w.graph ⟨p.name, ∅⟩)
  set { w with graph := g }
  let counters := stats.perRule.toList.foldl (fun counters (rule, count) =>
    counters.insert rule count) ctx.counters
  return ⟨p.name, stats.scans, stats.changes, counters, 0⟩

end RulePass

namespace Graph

/--
Lets everything that reads the output `out` of a node read `survivor` and drops the node. Declines
if `out` is a graph output that `survivor` cannot stand in for under the same name.
-/
def bypass (g : Graph) (node : NodeId) (out survivor : ArgId) : Except Fault (Bool × Graph) := do
  if g.isOutput out && ((g.producer? survivor).isNone || g.isOutput survivor) then
    return (false, g)
  let g ← g.replaceAllUses out survivor
  return (true, (← g.removeNode node).2)

/--
Lets everything that reads the output `old` of a node read a new node and drops the old one. A new
node without a first output stays where it is.
-/
def supplant (g : Graph) (node : NodeId) (old : ArgId) (draft : Draft) :
    Except Fault (Bool × Graph) := do
  let ((_, outputs), g) ← draft.build g
  let some new := outputs.head?.join | return (false, g)
  let g ← g.replaceAllUses old new
  return (true, (← g.removeNode node).2)

end Graph

/-- The outcome of a rule that ends with one step: the step counts if it was made. -/
def RulePass.counted (counter : String) (step : Bool × Graph) : Option String × Graph :=
  (if step.1 then some counter else none, step.2)

end OpGraph
