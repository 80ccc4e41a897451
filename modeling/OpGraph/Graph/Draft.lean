import OpGraph.Graph.Edit

/-!
Drafts of nodes. A rule collects the facets of a new node in a draft, some of them copied from
existing nodes, and commits the draft as one node. A draft may be anchored to an arg that the new
node stands in for: the anchor is recorded on the first output, and the type of that output follows
from the anchored arg unless it is given.
-/

namespace OpGraph

/-- Where an output of a new node comes from. -/
inductive OutputSlot where
  /-- A new arg, with a given name or one made from the name of the node. -/
  | fresh (name : Option String)
  /-- An arg whose producer has been removed. -/
  | reuse (arg : ArgId)
  | absent
deriving DecidableEq

structure Draft where
  pass : String
  name : Option String
  key : OpKey
  inputs : List (Option ArgId)
  attrs : Attrs
  outputs : List OutputSlot
  /-- The element type of the first output, if given. -/
  elem : Option Elem
  /-- The shape of the first output, if given; it may be given as unknown. -/
  shape : Option Shape
  anchor : Option (ArgId × Anchor)

namespace Draft

def new (pass : String) : Draft :=
  ⟨pass, none, ⟨"", ""⟩, [], ∅, [], none, none, none⟩

variable (d : Draft)

def withOpType (opType : String) : Draft :=
  { d with key := ⟨d.key.domain, opType⟩ }

def withDomain (domain : String) : Draft :=
  { d with key := ⟨domain, d.key.opType⟩ }

def withKey (key : OpKey) : Draft :=
  { d with key := key }

def withName (name : String) : Draft :=
  { d with name := some name }

def withInputs (args : List ArgId) : Draft :=
  { d with inputs := args.map some }

/-- The inputs are the first outputs of the given nodes. -/
def withInputNodes (g : Graph) (nodes : List NodeId) : Except Fault Draft := do
  return { d with inputs := ← nodes.mapM fun n => do return (← g.node n).output? 0 }

/-- Fills the next operand slot, or leaves it empty. -/
def appendInput (arg : Option ArgId) : Draft :=
  { d with inputs := d.inputs ++ [arg] }

def withAttr (name : String) (value : Attr) : Draft :=
  { d with attrs := d.attrs.insert name value }

def cloneInputs (g : Graph) (node : NodeId) : Except Fault Draft := do
  return { d with inputs := (← g.node node).inputs }

def cloneAttrs (g : Graph) (node : NodeId) : Except Fault Draft := do
  return { d with attrs := (← g.node node).attrs }

def cloneOperator (g : Graph) (node : NodeId) : Except Fault Draft := do
  return { d with key := (← g.node node).key }

/-- Takes the operator, the inputs and the attributes of a node. -/
def cloneNode (g : Graph) (node : NodeId) : Except Fault Draft := do
  let node ← g.node node
  return { d with key := node.key, inputs := node.inputs, attrs := node.attrs }

def cloneShape (g : Graph) (arg : ArgId) : Except Fault Draft := do
  return { d with shape := some (← g.arg arg).type.shape }

def cloneElem (g : Graph) (arg : ArgId) : Except Fault Draft := do
  return { d with elem := some (← g.arg arg).type.elem }

def withShape (dims : Dims) : Draft :=
  { d with shape := some (some dims) }

def withElem (elem : Elem) : Draft :=
  { d with elem := some elem }

def appendOutput (slot : OutputSlot) : Draft :=
  { d with outputs := d.outputs ++ [slot] }

/-- The new node replaces an arg outright. -/
def anchorSame (old : ArgId) : Draft :=
  { d with anchor := some (old, .identity) }

/-- The new node carries an arg with a remark: an order of axes, a fix-point or something custom. -/
def anchorRemark (old : ArgId) (kind : Anchor) : Except Fault Draft :=
  match kind with
  | .identity | .reshape _ => .error (.noMetadata kind)
  | _ => .ok { d with anchor := some (old, kind) }

/-- The new node holds the data of an arg in a new shape. -/
def anchorReshape (old : ArgId) (dims : Dims) : Draft :=
  { d with anchor := some (old, .reshape dims) }

/-! ### Checks -/

def flaw {α : Type} (flaw : DraftFlaw) : Except Fault α :=
  .error (.draft d.pass flaw)

/-- The operands are as many as the operator takes. -/
def checkArity : Except Fault Unit :=
  match Signature.find? d.key with
  | none => .ok ()
  | some s => do
    if let some most := s.maxInputs then
      if most < d.inputs.length then
        d.flaw (.tooManyInputs d.key most d.inputs.length)
    match (List.range s.minInputs).find? fun slot => d.inputs[slot]?.join.isNone with
    | some slot => d.flaw (.missingOperand d.key slot)
    | none => return ()

def checkInputs (g : Graph) : Except Fault Unit :=
  match (present d.inputs).find? fun arg => (g.arg? arg).isNone with
  | some arg => d.flaw (.deadInput d.key arg)
  | none => .ok ()

/-- The anchored arg is live, and a transpose permutes its axes. -/
def checkAnchor (g : Graph) : Except Fault Unit :=
  match d.anchor with
  | none => .ok ()
  | some (old, kind) =>
    match g.arg? old with
    | none => d.flaw (.deadAnchor d.key old)
    | some arg =>
      match kind with
      | .transpose order =>
        if AxisOrder.isPermutation order && arg.type.rank.all (· == order.length) then
          .ok ()
        else
          d.flaw (.badTranspose d.key order arg.type.rank)
      | _ => .ok ()

def check (g : Graph) : Except Fault Unit := do
  if d.key.opType = "" then
    d.flaw .noOpType
  d.checkArity
  d.checkInputs g
  d.checkAnchor g

/-! ### Committing -/

/-- The type of the anchored arg after the anchor. -/
def anchoredType? (g : Graph) : Except Fault (Option TensorType) :=
  match d.anchor with
  | none => .ok none
  | some (old, kind) => do
    let type := (← g.arg old).type
    return some ⟨type.elem, kind.replayShape type.shape⟩

def inputType? (g : Graph) : Except Fault (Option TensorType) :=
  match d.inputs.head?.join with
  | none => .ok none
  | some arg => do return some (← g.arg arg).type

/--
The type of the first output: what the draft gives, else what follows from the anchor, else the type
of the first input. A given shape must not contradict the anchor.
-/
def primaryType (g : Graph) : Except Fault TensorType := do
  let anchored ← d.anchoredType? g
  let input ← d.inputType? g
  let elem := d.elem <|> (anchored.map TensorType.elem).filter (· ≠ .undefined) <|>
    input.map TensorType.elem
  let anchoredShape := anchored.bind TensorType.shape
  let shape ← match d.shape with
    | none => pure (anchoredShape <|> input.bind TensorType.shape)
    | some given =>
      match given, anchoredShape with
      | some dims, some anchoredDims =>
        if dims = anchoredDims then pure given else d.flaw (.shapeConflict d.key dims anchoredDims)
      | _, _ => pure given
  return ⟨elem.getD .undefined, shape⟩

/-- Makes the arg of one output slot. -/
def placeOutput (name : String) (primary : TensorType) (g : Graph) (slot : OutputSlot) (i : Nat) :
    Except Fault (Option ArgId × Graph) :=
  match slot with
  | .absent => .ok (none, g)
  | .reuse arg => do
    if i = 0 ∧ primary.elem ≠ .undefined then
      return (some arg, ← g.setArgType arg primary)
    else
      return (some arg, g)
  | .fresh argName =>
    let argName := argName.getD (g.freshArgName (name ++ ":" ++ toString i))
    let type := if i = 0 then primary else .unknown .undefined
    match Graph.newArg argName type g with
    | .ok arg g => .ok (some arg, g)
    | .error (.error e) _ => d.flaw (.badOutput i name e)
    | .error (.fault f) _ => .error f

def placeOutputs (name : String) (primary : TensorType) :
    List (OutputSlot × Nat) → Graph → Except Fault (List (Option ArgId) × Graph)
  | [], g => .ok ([], g)
  | (slot, i) :: rest, g => do
    let (arg, g) ← d.placeOutput name primary g slot i
    let (args, g) ← placeOutputs name primary rest g
    return (arg :: args, g)

/--
Moves a fix-point held by the producer of an arg into the log, where it outlives the producer.
-/
def captureFixPoint (g : Graph) (old : ArgId) : Except Fault Graph := do
  if (g.log.fixPoint? old).isSome then
    return g
  let some producer := g.producer? old | return g
  match (← g.node producer).attrInt? fixPointAttr with
  | some n => return { g with log := g.log.annotate old (.fixPoint n) d.pass }
  | none => return g

/-- Records the anchor on the first output. -/
def recordAnchor (g : Graph) (outputs : List (Option ArgId)) : Except Fault Graph :=
  match d.anchor, outputs.head?.join with
  | some (old, kind), some out => do
    let g ← d.captureFixPoint g old
    return { g with log := g.log.record out ⟨some old, kind, d.pass⟩ }
  | _, _ => .ok g

/-- Commits the draft; the answer is the new node with its output slots. -/
def build (g : Graph) : Except Fault ((NodeId × List (Option ArgId)) × Graph) := do
  d.check g
  let primary ← d.primaryType g
  let name := d.name.getD (g.freshNodeName (d.pass ++ "/" ++ d.key.opType))
  let slots := if d.outputs.isEmpty then [.fresh none] else d.outputs
  let (outputs, g) ← d.placeOutputs name primary slots.zipIdx g
  match Graph.addNode ⟨name, d.key, d.inputs, outputs, d.attrs⟩ g with
  | .ok id g => return ((id, outputs), ← d.recordAnchor g outputs)
  | .error (.error e) _ => d.flaw (.badNode name e)
  | .error (.fault f) _ => throw f

end Draft

end OpGraph
