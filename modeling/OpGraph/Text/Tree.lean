/-!
Trees and their drawing with lines between parents and children.
-/

namespace OpGraph.Text

inductive Tree (α : Type) where
  | node (label : α) (children : List (Tree α))

namespace Tree

variable {α : Type}

mutual

/-- The labels, parents before their children. -/
def labels : Tree α → List α
  | node label children => label :: forestLabels children

def forestLabels : List (Tree α) → List α
  | [] => []
  | tree :: rest => labels tree ++ forestLabels rest

end

mutual

/--
The lines of a tree: the label after `here`, the children after lines that start with `below`.
-/
def drawLines (caption : α → String) (here below : String) : Tree α → List String
  | node label children => (here ++ caption label) :: drawForest caption below children

def drawForest (caption : α → String) (below : String) : List (Tree α) → List String
  | [] => []
  | [tree] => drawLines caption (below ++ "└─ ") (below ++ "   ") tree
  | tree :: rest =>
    drawLines caption (below ++ "├─ ") (below ++ "│  ") tree ++ drawForest caption below rest

end

/-- The drawing of a tree; every line ends in a line break. -/
def draw (caption : α → String) (tree : Tree α) : String :=
  String.join ((drawLines caption "" "" tree).map (· ++ "\n"))

end Tree

end OpGraph.Text
