import OpGraph.Config
import OpGraph.Fusion.Partition
import OpGraph.Graph.Collect
import OpGraph.Graph.Resolve
import OpGraph.Model.File
import OpGraph.Pass.FixPoint
import OpGraph.Pass.Neutral
import OpGraph.Pass.Reshaping

/-!
Pipelines of passes. After every pass the garbage is collected, the graph is validated unless this
is switched off, and it is saved if there is a directory for that.
-/

namespace OpGraph

/-- A pass is a set of rules or the fusion of what a device takes. -/
inductive Pass where
  | rules (pass : RulePass)
  | partition

namespace Pass

def partitionName : String := "partition"

def name : Pass → String
  | rules pass => pass.name
  | partition => partitionName

/-- The name of the device, which starts the names of fused nodes. -/
def device : String := "device"

def runPartition (config : Config) : PassM PassReport := do
  let report := PassReport.empty partitionName
  if config.deviceOps.isEmpty then
    return report
  let capability := (OpSet.ofEntries device config.deviceOps).capability
  let outcome ← PassM.edit .partition capability.partition
  let counters : Std.ExtTreeMap String Nat :=
    (Std.ExtTreeMap.empty.insert "regions_fused" outcome.fused.length).insert "regions_skipped"
      outcome.skipped.length
  return { report with changes := outcome.fused.length, counters := counters }

def run (pass : Pass) (config : Config) (store : Store) : PassM PassReport :=
  match pass with
  | rules pass => pass.run store config.maxChanges
  | partition => runPartition config

end Pass

/-- The passes that are always there, in the order of the default pipeline. -/
inductive Builtin where
  | removeIdentity
  | qdqToFix
  | fixCleanup
  | foldFixConstant
  | mergeTranspose
  | mergeReshape
  | foldAddZero
  | partition
deriving DecidableEq

namespace Builtin

def all : List Builtin :=
  [removeIdentity, qdqToFix, fixCleanup, foldFixConstant, mergeTranspose, mergeReshape, foldAddZero,
    partition]

def pass : Builtin → Pass
  | removeIdentity => .rules .removeIdentity
  | qdqToFix => .rules .qdqToFix
  | fixCleanup => .rules .fixCleanup
  | foldFixConstant => .rules .foldFixConstant
  | mergeTranspose => .rules .mergeTranspose
  | mergeReshape => .rules .mergeReshape
  | foldAddZero => .rules .foldAddZero
  | partition => .partition

def name (b : Builtin) : String :=
  b.pass.name

def ofName? (name : String) : Option Builtin :=
  all.find? fun b => b.name == name

end Builtin

abbrev Registry := Std.ExtTreeMap String Pass

namespace Registry

def empty : Registry := ∅

/-- Adds a pass; it takes the place of one of the same name. -/
def register (r : Registry) (pass : Pass) : Registry :=
  r.insert pass.name pass

def builtin : Registry :=
  (Builtin.all.map Builtin.pass).foldl register empty

def find (r : Registry) (name : String) : Except PassError Pass :=
  match r[name]? with
  | some pass => .ok pass
  | none => .error (.unknownPass name)

end Registry

structure Pipeline where
  config : Config
  registry : Registry

namespace Pipeline

variable (p : Pipeline)

def find (name : String) : PassM Pass :=
  match p.registry.find name with
  | .ok pass => return pass
  | .error error => throw (.error error)

/-- Makes the directory for saved graphs, if there is to be one. -/
def prepareDump : PassM Unit := fun w =>
  match p.config.dumpDir with
  | none => .ok () w
  | some dir =>
    match w.storage.files.makeDirectories dir with
    | .ok files => .ok () { w with storage := { w.storage with files := files } }
    | .error _ => .error (.error .artifact) w

/-- The number of a pass, in two digits at least. -/
def ordinal (i : Nat) : String :=
  if i < 10 then "0" ++ toString i else toString i

def dump (i : Nat) (pass : String) : PassM Unit := fun w =>
  match p.config.dumpDir with
  | none => .ok () w
  | some dir =>
    let base := ordinal i ++ "_" ++ pass
    let save := w.graph.save (Path.join dir (base ++ ".json")) (some (base ++ ".bin"))
      p.config.externalThreshold
    match save w.storage.files with
    | .ok () files => .ok () { w with storage := { w.storage with files := files } }
    | .error failure files =>
      .error (failure.mapError (.dump pass)) { w with storage := { w.storage with files := files } }

def collect : PassM Nat := do
  let w ← get
  let (removed, g) ← PassM.orFault w.graph.collect
  set { w with graph := g }
  return removed

def runPass (store : Store) (i : Nat) (name : String) : PassM PassReport := do
  let report ← (← p.find name).run p.config store
  let collected ← collect
  if p.config.resolve then
    PassM.edit (.resolve name) Graph.resolve
  p.dump i name
  return { report with collected := collected }

/-- Runs the pipeline. All names are checked before the first pass runs. -/
def run (store : Store) : PassM (List PassReport) := do
  let names := p.config.pipeline
  names.forM fun name => discard (p.find name)
  p.prepareDump
  names.zipIdx.mapM fun (name, i) => p.runPass store i name

end Pipeline

end OpGraph
