import OpGraph.Pattern.Basic

/-!
Building patterns. Equal entries that refer to others are shared; leaves are always new, so that two
wildcards stay two variables. To ask that two places match the same arg, one entry is used in both.
-/

namespace OpGraph

structure PatternBuilder where
  kinds : Array PatternKind
  names : Array (Option String)
  /-- The entries that can be shared. -/
  shared : List (PatternKind × PatternId)
deriving DecidableEq

namespace PatternBuilder

def empty : PatternBuilder := ⟨#[], #[], []⟩

abbrev Build := StateT PatternBuilder (Except Fault)

def flaw {α : Type} (flaw : PatternFlaw) : Build α :=
  throw (.pattern flaw)

/--
How many entries have a handle of 32 bits. Growing beyond is a fault: the handle would start over.
-/
def capacity : Nat := UInt32.size

def append (b : PatternBuilder) (kind : PatternKind) : PatternBuilder where
  kinds := b.kinds.push kind
  names := b.names.push none
  shared := if kind.isLeaf then b.shared else b.shared ++ [(kind, ⟨b.kinds.size⟩)]

/-- The entry of a kind: an existing one if it can be shared, else a new one. -/
def add (kind : PatternKind) : Build PatternId := do
  let b ← get
  if let some child := kind.children.find? fun child => b.kinds.size ≤ child.index then
    flaw (.unknownChild child b.kinds.size)
  match if kind.isLeaf then none else b.shared.lookup kind with
  | some id => return id
  | none =>
    if capacity ≤ b.kinds.size then
      flaw .tableFull
    set (b.append kind)
    return ⟨b.kinds.size⟩

def wildcard : Build PatternId := add .wildcard

def constant : Build PatternId := add .constant

def graphInput : Build PatternId := add .graphInput

/-- Attribute constraints by name; of several of one name the last counts. -/
def attrsByName (attrs : List (String × Attr)) : Attrs :=
  attrs.foldl (fun m attr => m.insert attr.1 attr.2) ∅

/-- Attribute constraints by name, ascending. -/
def sortedAttrs (attrs : List (String × Attr)) : List (String × Attr) :=
  (attrsByName attrs).toList

end PatternBuilder

/-- A node entry that is put together part by part. -/
structure NodeSketch where
  key : OpKey
  operands : List PatternId
  optional : List Bool
  /-- Attribute constraints, one of a name. -/
  attrs : List (String × Attr)
deriving DecidableEq

namespace NodeSketch

def start (opType : String) : NodeSketch := ⟨.standard opType, [], [], []⟩

def inDomain (s : NodeSketch) (domain : String) : NodeSketch :=
  { s with key := ⟨domain, s.key.opType⟩ }

/-- Adds an operand; it may be absent if the flag is set. -/
def operand (s : NodeSketch) (id : PatternId) (optional : Bool) : NodeSketch :=
  { s with operands := s.operands ++ [id], optional := s.optional ++ [optional] }

/-- Adds a constraint and takes back an earlier one of the name. -/
def attr (s : NodeSketch) (name : String) (value : Attr) : NodeSketch :=
  { s with attrs := s.attrs.filter (fun x => x.1 != name) ++ [(name, value)] }

def kind (s : NodeSketch) : PatternKind :=
  .node s.key s.operands s.optional (PatternBuilder.sortedAttrs s.attrs)

end NodeSketch

namespace PatternBuilder

/-- A node with operands, each with a flag that lets it be absent, and attribute constraints. -/
def nodeWith (key : OpKey) (operands : List (PatternId × Bool)) (attrs : List (String × Attr)) :
    Build PatternId :=
  let sketch := (NodeSketch.start key.opType).inDomain key.domain
  let sketch := operands.foldl (fun s operand => s.operand operand.1 operand.2) sketch
  add (attrs.foldl (fun s attr => s.attr attr.1 attr.2) sketch).kind

/-- A node whose operands have to be there. -/
def node (key : OpKey) (operands : List PatternId) : Build PatternId :=
  nodeWith key (operands.map fun id => (id, false)) []

def commutable (key : OpKey) (lhs rhs : PatternId) : Build PatternId :=
  add (.commutable key lhs rhs)

def anyOf (items : List PatternId) : Build PatternId :=
  if items.isEmpty then flaw .emptyAlternation else add (.anyOf items)

def allOf (items : List PatternId) : Build PatternId :=
  if items.isEmpty then flaw .emptySequence else add (.allOf items)

/-- Gives a name to an entry. An entry has one name and a name one entry. -/
def named (id : PatternId) (name : String) : Build PatternId := do
  let b ← get
  if b.kinds.size ≤ id.index then
    flaw (.unknownPattern id)
  if let some owner := b.names.toList.findIdx? (· == some name) then
    if owner ≠ id.index then
      flaw (.nameTaken name ⟨owner⟩ id)
  if let some existing := b.names[id.index]?.join then
    if existing ≠ name then
      flaw (.alreadyNamed id existing name)
  set { b with names := b.names.setIfInBounds id.index (some name) }
  return id

/-- The table so far with a root; the builder can go on. -/
def freeze (b : PatternBuilder) (root : PatternId) : Except Fault Pattern :=
  if root.index < b.kinds.size then
    .ok ⟨b.kinds, b.names, root⟩
  else
    .error (.pattern (.rootOutside root b.kinds.size))

/-- The pattern that a build from an empty table gives. -/
def run (build : Build PatternId) : Except Fault Pattern := do
  let (root, b) ← StateT.run build .empty
  b.freeze root

end PatternBuilder

end OpGraph
