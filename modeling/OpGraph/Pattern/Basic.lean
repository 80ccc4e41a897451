import OpGraph.Failure

/-!
Patterns over operator graphs. A pattern is a table of entries and a root among them. Every entry
comes after the entries it refers to, so two parents can share a child and no entry refers to
itself.
-/

namespace OpGraph

inductive PatternKind where
  | wildcard
  /-- An initializer or the output of a `Constant` node. -/
  | constant
  /-- A declared graph input. -/
  | graphInput
  /--
  An output of a node with this operator, these attributes and operands; an operand may be absent if
  its flag is set.
  -/
  | node (key : OpKey) (operands : List PatternId) (optional : List Bool)
    (attrs : List (String × Attr))
  /-- An output of a node with two operands that may stand in either order. -/
  | commutable (key : OpKey) (lhs rhs : PatternId)
  /-- What the first matching alternative matches. -/
  | anyOf (items : List PatternId)
  /-- What all items match at once. -/
  | allOf (items : List PatternId)
deriving DecidableEq

namespace PatternKind

def children : PatternKind → List PatternId
  | wildcard | constant | graphInput => []
  | node _ operands _ _ => operands
  | commutable _ lhs rhs => [lhs, rhs]
  | anyOf items | allOf items => items

def isLeaf : PatternKind → Bool
  | wildcard | constant | graphInput => true
  | _ => false

/-- The operator that an entry names itself. -/
def key? : PatternKind → Option OpKey
  | node key .. | commutable key .. => some key
  | _ => none

end PatternKind

/-- A table of entries, some of them with names, and the root. -/
structure Pattern where
  kinds : Array PatternKind
  names : Array (Option String)
  root : PatternId
deriving DecidableEq

namespace Pattern

variable (p : Pattern)

def size : Nat := p.kinds.size

def kind (id : PatternId) : Except Fault PatternKind :=
  match p.kinds[id.index]? with
  | some kind => .ok kind
  | none => .error (.outOfRange p.kinds.size id.index)

def name? (id : PatternId) : Option String :=
  p.names[id.index]?.join

def find? (name : String) : Option PatternId :=
  (p.names.toList.findIdx? (· == some name)).map Handle.mk

def childrenAt (i : Nat) : List PatternId :=
  match p.kinds[i]? with
  | some kind => kind.children
  | none => []

/-- The entries reachable from the root, collected from the root downwards. -/
def reachableSet : Std.ExtTreeSet PatternId :=
  (List.range (p.root.index + 1)).reverse.foldl (fun seen i =>
    if ⟨i⟩ ∈ seen then (p.childrenAt i).foldl (fun seen child => seen.insert child) seen else seen)
    (Std.ExtTreeSet.empty.insert p.root)

/-- The entries reachable from the root, ascending. -/
def reachable : List PatternId :=
  p.reachableSet.toList

/-- An entry that does not precede the one that refers to it. -/
def notPreceding {α : Type} (id : PatternId) : Except Fault α :=
  .error (.pattern (.notPreceding id))

def joinKeys (keys more : List OpKey) : List OpKey :=
  more.foldl (fun keys key => if keys.contains key then keys else keys ++ [key]) keys

/-- All keys that some alternative has, unless one of them can match any operator. -/
def alternativeKeys (keysAt : PatternId → Except Fault (Option (List OpKey))) :
    List PatternId → List OpKey → Except Fault (Option (List OpKey))
  | [], keys => .ok (some keys)
  | item :: rest, keys => do
    match ← keysAt item with
    | none => return none
    | some more => alternativeKeys keysAt rest (joinKeys keys more)

/-- The keys of the first item that has any. -/
def firstKeys (keysAt : PatternId → Except Fault (Option (List OpKey))) :
    List PatternId → Except Fault (Option (List OpKey))
  | [] => .ok none
  | item :: rest => do
    match ← keysAt item with
    | some keys => return some keys
    | none => firstKeys keysAt rest

def keysAt : Nat → PatternId → Except Fault (Option (List OpKey))
  | 0, id => notPreceding id
  | fuel + 1, id => do
    match ← p.kind id with
    | .anyOf items => alternativeKeys (keysAt fuel) items []
    | .allOf items => firstKeys (keysAt fuel) items
    | kind => return kind.key?.map fun key => [key]

/-- The operators that the root can match, or `none` if it can match any. -/
def rootKeys : Except Fault (Option (List OpKey)) :=
  p.keysAt (p.root.index + 1) p.root

end Pattern

end OpGraph
