import OpGraph.Graph.Basic
import OpGraph.Hash64

/-!
The canonical text of a graph. It names args and nodes and never shows a handle, so it does not
depend on the order in which they were created.
-/

namespace OpGraph.Graph

variable (g : Graph)

/-- An arg by name and type; an empty slot is an underscore. -/
def slotText : Option ArgId → Except Fault String
  | none => .ok "_"
  | some id => do
    let arg ← g.arg id
    return arg.name ++ ": " ++ arg.type.text

def sortLines (lines : List String) : List String :=
  lines.mergeSort fun a b => (compare a b).isLE

def inputLines : Except Fault (List String) :=
  g.inputs.mapM fun a => do return "input " ++ (← g.slotText (some a))

def outputLines : Except Fault (List String) :=
  g.outputs.mapM fun a => do return "output " ++ (← g.slotText (some a))

/-- The hash of the raw bytes stands for the elements. -/
def initializerLines : Except Fault (List String) := do
  let lines ← g.initializers.toList.mapM fun (arg, tensor) => do
    let digest := (hash64 0 tensor.data.toBytes).toNat
    return "initializer " ++ (← g.slotText (some arg)) ++ " #" ++ Text.hexPadded 16 digest
  return sortLines lines

def nodeLine (node : Node) : Except Fault String := do
  let inputs ← node.inputs.mapM g.slotText
  let outputs ← node.outputs.mapM g.slotText
  let attrs := node.attrs.toList.map fun (name, value) => name ++ "=" ++ value.text
  return "node " ++ node.name ++ " " ++ node.key.text ++ "(" ++ ", ".intercalate inputs ++
    ") -> (" ++ ", ".intercalate outputs ++ ") [" ++ ", ".intercalate attrs ++ "]"

def nodeLines : Except Fault (List String) :=
  sortLines <$> g.liveNodes.mapM g.nodeLine

def canonicalText : Except Fault String := do
  let inputs ← g.inputLines
  let outputs ← g.outputLines
  let initializers ← g.initializerLines
  let nodes ← g.nodeLines
  return "\n".intercalate (("graph " ++ g.name) :: (inputs ++ outputs ++ initializers ++ nodes))

end OpGraph.Graph
