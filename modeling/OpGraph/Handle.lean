import Std.Data.ExtTreeMap
import Std.Data.ExtTreeSet

/-!
Handles of nodes, args and pattern entries. Entries live in append-only arenas, so a handle is the
position at which its entry was allocated and is never given to another entry.

In memory and in files a position takes 32 bits, and beyond `2 ^ 32` entries positions would start
over. That an arena stays below this bound is assumed here of nodes and args, whose positions are
plain numbers. Builders of patterns have a fault in its place, because every position of a pattern
has to be read back from its blob.
-/

namespace OpGraph

inductive Arena where
  | node
  | arg
  | pattern
deriving DecidableEq, Repr

/-- The letter that marks a handle of this arena in texts. -/
def Arena.letter : Arena → String
  | .node => "n"
  | .arg => "a"
  | .pattern => "p"

structure Handle (arena : Arena) where
  index : Nat
deriving DecidableEq, Repr

abbrev NodeId := Handle .node
abbrev ArgId := Handle .arg
abbrev PatternId := Handle .pattern

namespace Handle

variable {arena : Arena}

/-- The written form of a handle, such as `n3` or `a0`. -/
def text (h : Handle arena) : String :=
  arena.letter ++ toString h.index

instance : Inhabited (Handle arena) := ⟨⟨0⟩⟩

/-- Handles are ordered by their time of allocation. -/
instance : Ord (Handle arena) := ⟨fun x y => compare x.index y.index⟩

theorem compare_def (x y : Handle arena) : compare x y = compare x.index y.index := rfl

instance : Std.TransOrd (Handle arena) where
  eq_swap := by
    intro x y
    simp only [compare_def]
    exact Std.OrientedCmp.eq_swap
  isLE_trans := by
    intro x y z
    simp only [compare_def]
    exact Std.TransCmp.isLE_trans

instance : Std.LawfulEqOrd (Handle arena) where
  compare_self := by
    intro x
    simp only [compare_def]
    exact Std.ReflCmp.compare_self
  eq_of_compare := by
    intro x y h
    cases x
    cases y
    simpa [compare_def] using h

instance : LawfulBEq (Handle arena) := inferInstance

end Handle

end OpGraph
