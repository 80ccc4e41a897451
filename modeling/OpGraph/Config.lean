import OpGraph.Rule.Chain
import OpGraph.Text.Blank

/-!
The settings of a pipeline, given one by one or by environment variables.
-/

namespace OpGraph

structure Config where
  passes : List String
  disabled : Std.ExtTreeSet String
  /-- How often the rules of one pass may fire. -/
  maxChanges : Nat
  /-- Where to save the graph after every pass. -/
  dumpDir : Option String
  /-- Larger initializers go to an external file when the graph is saved. -/
  externalThreshold : Nat
  /-- The graph is validated after every pass. -/
  resolve : Bool
  /-- The operators that the device takes. -/
  deviceOps : List String

namespace Config

def defaultPasses : List String := [
  "remove_identity",
  "qdq_to_fix",
  "fix_cleanup",
  "fold_fix_constant",
  "merge_transpose",
  "merge_reshape",
  "fold_add_zero",
  "partition"]

/-- In bytes. -/
def defaultThreshold : Nat := 1024

def default : Config :=
  ⟨defaultPasses, ∅, defaultBudget, none, defaultThreshold, true, []⟩

/-- The passes that run, in order. -/
def pipeline (c : Config) : List String :=
  c.passes.filter fun pass => pass ∉ c.disabled

/-- The number written by decimal digits. -/
def ofDigits? (digits : List Char) : Option Nat :=
  if digits.isEmpty then
    none
  else
    digits.foldlM (fun n c => if c.isDigit then some (10 * n + (c.toNat - 48)) else none) 0

/-- A number of 64 bits in decimal digits, with an optional plus sign. -/
def number? (s : String) : Option Nat :=
  let digits := match s.toList with
    | '+' :: rest => rest
    | digits => digits
  (ofDigits? digits).filter (· < Word.limit)

/-- The settings that environment variables give; what cannot be read has its default. -/
def ofEnvironment (var : String → Option String) : Config where
  passes := ((var "GRAFT_PASSES").map Text.commaItems).getD defaultPasses
  disabled :=
    Std.ExtTreeSet.ofList (((var "GRAFT_DISABLE_PASSES").map Text.commaItems).getD []) compare
  maxChanges := ((var "GRAFT_MAX_REWRITES").bind number?).getD defaultBudget
  dumpDir := var "GRAFT_DUMP_DIR"
  externalThreshold := ((var "GRAFT_EXTERNAL_DATA_THRESHOLD").bind number?).getD defaultThreshold
  resolve := (var "GRAFT_NO_RESOLVE").isNone
  deviceOps := ((var "GRAFT_DEVICE_OPS").map Text.commaItems).getD []

end Config

end OpGraph
