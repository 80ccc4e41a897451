import OpGraph.Handle

/-!
Disjoint sets of nodes. Every set is a tree in which a node points to a node that was not allocated
after it; the first node of a set is its root and points to itself. Looking for a root shortens the
way to it.
-/

namespace OpGraph

/-- Trees of nodes. A node that is not listed is a tree of its own. -/
structure Forest where
  parents : Std.ExtTreeMap NodeId NodeId
  descends : ∀ (id parent : NodeId), parents[id]? = some parent → parent.index ≤ id.index

namespace Forest

def empty : Forest := ⟨∅, by simp⟩

instance : Membership NodeId Forest := ⟨fun f id => id ∈ f.parents⟩

instance (f : Forest) (id : NodeId) : Decidable (id ∈ f) :=
  inferInstanceAs (Decidable (id ∈ f.parents))

def parent (f : Forest) (id : NodeId) : NodeId :=
  f.parents.getD id id

theorem parent_le (f : Forest) (id : NodeId) : (f.parent id).index ≤ id.index := by
  unfold parent
  rw [Std.ExtTreeMap.getD_eq_getD_getElem?]
  cases hparent : f.parents[id]? with
  | none => exact Nat.le_refl id.index
  | some p => exact f.descends id p hparent

theorem parent_lt {f : Forest} {id : NodeId} (h : f.parent id ≠ id) :
    (f.parent id).index < id.index := by
  apply Nat.lt_of_le_of_ne (f.parent_le id)
  intro heq
  apply h
  calc f.parent id
    _ = ⟨(f.parent id).index⟩ := rfl
    _ = id := by rw [heq]

/-- Lets a node point to another one, or to itself. -/
def hang (f : Forest) (id target : NodeId) (h : target.index ≤ id.index) : Forest where
  parents := f.parents.insert id target
  descends := by
    intro id' p hp
    rw [Std.ExtTreeMap.getElem?_insert] at hp
    split at hp
    · next heq =>
      cases Std.LawfulEqCmp.compare_eq_iff_eq.mp heq
      cases hp
      exact h
    · exact f.descends id' p hp

/-- Every node in a set of its own. -/
def singletons (ids : List NodeId) : Forest :=
  ids.foldl (fun f id => f.hang id id (Nat.le_refl id.index)) empty

/-- The root of the tree of a node. On the way to it, the node is hung under its grandparent. -/
def root (f : Forest) (id : NodeId) : NodeId × Forest :=
  if f.parent id = id then
    (id, f)
  else
    let grand := f.parent (f.parent id)
    root (f.hang id grand (Nat.le_trans (f.parent_le (f.parent id)) (f.parent_le id))) grand
termination_by id.index
decreasing_by
  next hne => exact Nat.lt_of_le_of_lt (f.parent_le (f.parent id)) (parent_lt hne)

/-- Joins the sets of two nodes; the root that comes first is the root of both. -/
def join (f : Forest) (a b : NodeId) : Forest :=
  let (x, f) := f.root a
  let (y, f) := f.root b
  if hlt : x.index < y.index then
    f.hang y x (Nat.le_of_lt hlt)
  else if hgt : y.index < x.index then
    f.hang x y (Nat.le_of_lt hgt)
  else
    f

/-- Enters nodes, in their order, under the roots of their trees. -/
def group (f : Forest) (groups : Std.ExtTreeMap NodeId (List NodeId)) :
    List NodeId → Std.ExtTreeMap NodeId (List NodeId)
  | [] => groups
  | id :: ids =>
    let (root, f) := f.root id
    group f (groups.insert root (groups.getD root [] ++ [id])) ids

end Forest

end OpGraph
