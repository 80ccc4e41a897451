import OpGraph.Pattern.Basic
import OpGraph.Text.Tree

/-!
Patterns as texts: one line with nested operands, or a tree with an entry a line.
-/

namespace OpGraph.Pattern

variable (p : Pattern)

/-- Operands with a question mark behind those that may be absent. -/
def operandTexts (textAt : PatternId → Except Fault String) (optional : List Bool) :
    List (PatternId × Nat) → Except Fault (List String)
  | [] => .ok []
  | (operand, slot) :: rest => do
    let text ← textAt operand
    match optional[slot]? with
    | none => throw (.outOfRange optional.length slot)
    | some flag =>
      let rest ← operandTexts textAt optional rest
      return (if flag then text ++ "?" else text) :: rest

def textAt : Nat → PatternId → Except Fault String
  | 0, id => notPreceding id
  | fuel + 1, id => do
    let body ← match ← p.kind id with
      | .wildcard => pure "_"
      | .constant => pure "const"
      | .graphInput => pure "input"
      | .node key operands optional _ => do
        let items ← operandTexts (textAt fuel) optional operands.zipIdx
        pure (key.text ++ "(" ++ ", ".intercalate items ++ ")")
      | .commutable key lhs rhs => do
        pure (key.text ++ "\x7b" ++ (← textAt fuel lhs) ++ ", " ++ (← textAt fuel rhs) ++ "\x7d")
      | .anyOf items => do
        pure ("(" ++ " | ".intercalate (← items.mapM (textAt fuel)) ++ ")")
      | .allOf items => do
        pure ("(" ++ " & ".intercalate (← items.mapM (textAt fuel)) ++ ")")
    return match p.name? id with
      | some name => name ++ ":" ++ body
      | none => body

/-- The written form of a pattern; a name stands in front of its entry. -/
def text : Except Fault String :=
  p.textAt (p.root.index + 1) p.root

/-! ### Trees -/

/-- An item of a tree: an entry with its children below, or a reference to one shown before. -/
inductive Shown where
  | entry (id : PatternId)
  | again (id : PatternId)
deriving DecidableEq

def flagText (flag : Bool) : String :=
  if flag then "true" else "false"

def kindText : PatternKind → String
  | .wildcard => "WILDCARD"
  | .constant => "CONSTANT"
  | .graphInput => "GRAPH_INPUT"
  | .node key _ optional attrs =>
    let flags :=
      if optional.any (· == true) then
        " optional=" ++ Text.bracketed (optional.map flagText)
      else
        ""
    "NODE(" ++ key.text ++ ")" ++ flags ++
      String.join (attrs.map fun (name, value) => " " ++ name ++ "=" ++ value.text)
  | .commutable key _ _ => "COMMUTABLE(" ++ key.text ++ ")"
  | .anyOf _ => "OR"
  | .allOf _ => "SEQUENCE"

def shownText : Shown → String
  | .again id => "[" ++ id.text ++ "] → (see above)"
  | .entry id =>
    let kind := match p.kinds[id.index]? with
      | some kind => kindText kind
      | none => ""
    let name := match p.name? id with
      | some name => " '" ++ name ++ "'"
      | none => ""
    "[" ++ id.text ++ "] " ++ kind ++ name

/-- The trees of several entries, with the set of entries shown so far handed on. -/
def compactForest
    (compactAt : PatternId → Std.ExtTreeSet PatternId →
      Except Fault (Text.Tree Shown × Std.ExtTreeSet PatternId)) :
    List PatternId → Std.ExtTreeSet PatternId →
      Except Fault (List (Text.Tree Shown) × Std.ExtTreeSet PatternId)
  | [], seen => .ok ([], seen)
  | id :: rest, seen => do
    let (tree, seen) ← compactAt id seen
    let (trees, seen) ← compactForest compactAt rest seen
    return (tree :: trees, seen)

def compactAt : Nat → PatternId → Std.ExtTreeSet PatternId →
    Except Fault (Text.Tree Shown × Std.ExtTreeSet PatternId)
  | 0, id, _ => notPreceding id
  | fuel + 1, id, seen =>
    if id ∈ seen then
      .ok (.node (.again id) [], seen)
    else do
      let kind ← p.kind id
      let (children, seen) ← compactForest (compactAt fuel) kind.children (seen.insert id)
      return (.node (.entry id) children, seen)

/-- The tree in which every entry is expanded where it comes first and only named after that. -/
def compactTree : Except Fault (Text.Tree Shown) :=
  Prod.fst <$> p.compactAt (p.root.index + 1) p.root ∅

def fullAt : Nat → PatternId → Except Fault (Text.Tree Shown)
  | 0, id => notPreceding id
  | fuel + 1, id => do
    let kind ← p.kind id
    return .node (.entry id) (← kind.children.mapM (fullAt fuel))

/-- The tree in which every entry is expanded wherever it comes. -/
def fullTree : Except Fault (Text.Tree Shown) :=
  p.fullAt (p.root.index + 1) p.root

def drawCompact : Except Fault String := do
  return (← p.compactTree).draw p.shownText

def drawFull : Except Fault String := do
  return (← p.fullTree).draw p.shownText

end OpGraph.Pattern
