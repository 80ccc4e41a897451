import OpGraph.Graph.Edit
import Std.Data.String.ToNat

/-!
A fresh name is in no use. The search tries one name more than there are names in use, and the names
it tries are distinct.
-/

namespace OpGraph

namespace freshName

variable {α : Type} (names : Std.ExtTreeMap String α) (base : String)

def numbered (i : Nat) : String :=
  base ++ "_" ++ toString i

theorem numbered_injective {i j : Nat} (h : numbered base i = numbered base j) : i = j := by
  rw [numbered, numbered, String.append_right_inj] at h
  exact Nat.repr_injective h

theorem search_mem {fuel i : Nat} (h : search names base fuel i ∈ names) :
    ∀ k ≤ fuel, numbered base (i + k) ∈ names := by
  induction fuel generalizing i with
  | zero =>
    intro k hk
    obtain rfl : k = 0 := by omega
    exact h
  | succ fuel ih =>
    rw [search] at h
    split at h
    · next hmem =>
      intro k hk
      cases k with
      | zero => exact hmem
      | succ k =>
        have := ih h k (by omega)
        rwa [Nat.add_assoc, Nat.add_comm 1 k] at this
    · next hmem => exact absurd h hmem

end freshName

theorem freshName_not_mem {α : Type} (names : Std.ExtTreeMap String α) (base : String) :
    freshName names base ∉ names := by
  rw [freshName]
  split
  · next h => exact h.2
  · intro hmem
    have htried := freshName.search_mem names base hmem
    have hnodup : ((List.range (names.size + 1)).map fun k =>
        freshName.numbered base (1 + k)).Nodup := by
      apply List.Pairwise.map _ _ List.nodup_range
      intro i j hij heq
      have := freshName.numbered_injective base heq
      omega
    have hsub : ((List.range (names.size + 1)).map fun k =>
        freshName.numbered base (1 + k)) ⊆ names.keys := by
      intro name hname
      simp only [List.mem_map, List.mem_range] at hname
      obtain ⟨k, hk, rfl⟩ := hname
      rw [Std.ExtTreeMap.mem_keys]
      exact htried k (by omega)
    have hlength := hnodup.length_le_of_subset hsub
    rw [Std.ExtTreeMap.length_keys, List.length_map, List.length_range] at hlength
    omega

theorem freshName_of_not_mem {α : Type} {names : Std.ExtTreeMap String α} {base : String}
    (hbase : base ≠ "") (hfree : base ∉ names) : freshName names base = base :=
  if_pos ⟨hbase, hfree⟩

theorem freshName_ne_empty {α : Type} (names : Std.ExtTreeMap String α) (base : String) :
    freshName names base ≠ "" := by
  have hsearch : ∀ fuel i, freshName.search names base fuel i ≠ "" := by
    intro fuel i
    induction fuel generalizing i with
    | zero => simp [freshName.search]
    | succ fuel ih =>
      rw [freshName.search]
      split
      · exact ih (i + 1)
      · simp
  rw [freshName]
  split
  · next h => exact h.1
  · exact hsearch _ _

end OpGraph
