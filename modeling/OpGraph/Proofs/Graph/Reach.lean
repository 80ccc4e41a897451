import OpGraph.Graph.Reach
import OpGraph.Proofs.Graph.Topology

/-!
The closure of a set of nodes under a step, computed in rounds, holds exactly what is reached from
the set. Two steps are used: backwards to the producers of inputs and forwards to the readers of
outputs.
-/

namespace OpGraph

namespace Graph

open Relation

theorem NodeSet.size_le {s : NodeSet} {l : List NodeId} (h : ∀ id ∈ s, id ∈ l) :
    s.size ≤ l.length := by
  rw [← s.length_toList]
  apply (Handle.nodup_toList s).length_le_of_subset
  intro id hid
  exact h id (Std.ExtTreeSet.mem_toList.mp hid)

theorem NodeSet.mem_of_size_le {s t : NodeSet} (hsub : ∀ id ∈ s, id ∈ t) (hsize : t.size ≤ s.size)
    {id : NodeId} (hid : id ∈ t) : id ∈ s := by
  by_contra hnot
  have hnodup : (id :: s.toList).Nodup := by
    rw [List.nodup_cons, Std.ExtTreeSet.mem_toList]
    exact ⟨hnot, Handle.nodup_toList s⟩
  have hsubset : id :: s.toList ⊆ t.toList := by
    intro id' hid'
    rw [List.mem_cons, Std.ExtTreeSet.mem_toList] at hid'
    rw [Std.ExtTreeSet.mem_toList]
    rcases hid' with rfl | hid'
    · exact hid
    · exact hsub id' hid'
  have := hnodup.length_le_of_subset hsubset
  rw [List.length_cons, s.length_toList, t.length_toList] at this
  omega

theorem mem_foldl_insert {arena : Arena} {ids : List (Handle arena)}
    {s : Std.ExtTreeSet (Handle arena)} {id : Handle arena} :
    id ∈ ids.foldl (fun s id => s.insert id) s ↔ id ∈ s ∨ id ∈ ids := by
  induction ids generalizing s with
  | nil => simp
  | cons id' ids ih =>
    rw [List.foldl_cons, ih, Std.ExtTreeSet.mem_insert, Std.LawfulEqCmp.compare_eq_iff_eq,
      List.mem_cons]
    grind

section Closure

variable {next : NodeId → Except Fault (List NodeId)} {step : NodeId → NodeId → Prop}

theorem grow_spec {live : List NodeId}
    (hnext : ∀ id ∈ live, ∃ ids, next id = .ok ids ∧ ∀ id', id' ∈ ids ↔ step id id')
    {seen : NodeSet} (hseen : ∀ id ∈ seen, id ∈ live) :
    ∃ more, grow next seen = .ok more ∧
      ∀ id, id ∈ more ↔ id ∈ seen ∨ ∃ source ∈ seen, step source id := by
  have hrun := foldlM_succeeds
    (f := fun (seen : NodeSet) id => do
      return (← next id).foldl (fun seen id => seen.insert id) seen)
    (P := fun done more => ∀ id, id ∈ more ↔ id ∈ seen ∨ ∃ source ∈ done, step source id)
    seen.toList ?_ seen (by simp)
  · simp only [Std.ExtTreeSet.mem_toList] at hrun
    exact hrun
  · intro done id rest more heq hmore
    have hid : id ∈ seen := by
      rw [← Std.ExtTreeSet.mem_toList, heq]
      simp
    obtain ⟨ids, hids, hmem⟩ := hnext id (hseen id hid)
    refine ⟨ids.foldl (fun seen id => seen.insert id) more, by rw [hids]; rfl, ?_⟩
    intro id'
    rw [mem_foldl_insert, hmore, hmem]
    simp only [List.mem_append, List.mem_singleton]
    grind

theorem closure_spec (live : List NodeId)
    (hnext : ∀ id ∈ live, ∃ ids, next id = .ok ids ∧ ∀ id', id' ∈ ids ↔ step id id')
    (hstep : ∀ id id', step id id' → id' ∈ live) :
    ∀ rounds (seen : NodeSet), (∀ id ∈ seen, id ∈ live) → live.length < rounds + seen.size →
      ∃ closed, closure next rounds seen = .ok closed ∧
        ∀ id, id ∈ closed ↔ ∃ source ∈ seen, ReflTransGen step source id := by
  intro rounds
  induction rounds with
  | zero =>
    intro seen hseen hlt
    have := seen.size_le hseen
    omega
  | succ rounds ih =>
    intro seen hseen hlt
    obtain ⟨more, hmore, hmem⟩ := grow_spec hnext hseen
    have hsub : ∀ id ∈ seen, id ∈ more := fun id hid => (hmem id).mpr (.inl hid)
    rw [closure, hmore]
    simp only [bind, Except.bind]
    by_cases hsize : more.size = seen.size
    · rw [if_pos hsize]
      refine ⟨seen, rfl, ?_⟩
      intro id
      refine ⟨fun hid => ⟨id, hid, .refl⟩, ?_⟩
      rintro ⟨source, hsource, hpath⟩
      induction hpath with
      | refl => exact hsource
      | tail _ hlast ihpath =>
        apply NodeSet.mem_of_size_le hsub (Nat.le_of_eq hsize)
        exact (hmem _).mpr (.inr ⟨_, ihpath, hlast⟩)
    · rw [if_neg hsize]
      have hgrown : seen.size < more.size := by
        rcases Nat.lt_or_ge seen.size more.size with hlt' | hge
        · exact hlt'
        · have hle : seen.size ≤ more.size := by
            rw [← more.length_toList]
            exact seen.size_le fun id hid => Std.ExtTreeSet.mem_toList.mpr (hsub id hid)
          omega
      have hlive : ∀ id ∈ more, id ∈ live := by
        intro id hid
        rcases (hmem id).mp hid with hid | ⟨source, -, hlast⟩
        · exact hseen id hid
        · exact hstep source id hlast
      obtain ⟨closed, hclosed, hreach⟩ := ih more hlive (by omega)
      refine ⟨closed, hclosed, ?_⟩
      intro id
      rw [hreach]
      constructor
      · rintro ⟨source, hsource, hpath⟩
        rcases (hmem source).mp hsource with hsource | ⟨first, hfirst, hone⟩
        · exact ⟨source, hsource, hpath⟩
        · exact ⟨first, hfirst, .head hone hpath⟩
      · rintro ⟨source, hsource, hpath⟩
        exact ⟨source, hsub source hsource, hpath⟩

end Closure

variable {g : Graph}

def PullsFrom (g : Graph) (stop : ArgId → Prop) (target source : NodeId) : Prop :=
  ∃ node a, g.node? target = some node ∧ a ∈ node.presentInputs ∧ ¬ stop a ∧
    g.producer? a = some source

namespace Indexed

variable (h : g.Indexed)

include h

theorem reachedBackwards_spec (stop : Std.ExtTreeSet ArgId) {start : NodeSet}
    (hstart : ∀ id ∈ start, id ∈ g.nodeIds) :
    ∃ reached, g.reachedBackwards stop start = .ok reached ∧
      ∀ id, id ∈ reached ↔ ∃ first ∈ start, ReflTransGen (g.PullsFrom (· ∈ stop)) first id := by
  apply closure_spec g.nodeIds
  · intro id hid
    obtain ⟨node, hnode⟩ := h.mem_nodeIds.mp hid
    refine ⟨_, by rw [producersUpTo, node_eq_ok_iff.mpr hnode]; rfl, ?_⟩
    intro id'
    simp only [List.mem_filterMap, List.mem_filter, decide_eq_true_eq, PullsFrom, hnode,
      Option.some.injEq]
    grind
  · rintro id id' ⟨node, a, -, -, -, hsource⟩
    exact h.mem_nodeIds_of_producer? hsource
  · exact hstart
  · rw [nodeIds, List.length_map]
    omega

theorem mem_successors_iff {id : NodeId} (hid : id ∈ g.nodeIds) :
    ∃ ids, g.successors id = .ok ids ∧ ∀ id', id' ∈ ids ↔ g.Feeds id id' := by
  obtain ⟨node, hnode⟩ := h.mem_nodeIds.mp hid
  refine ⟨_, by rw [successors, node_eq_ok_iff.mpr hnode]; rfl, ?_⟩
  intro id'
  rw [ascending, Std.ExtTreeSet.mem_toList, Std.ExtTreeSet.mem_ofList, List.contains_iff_mem,
    List.mem_flatMap]
  simp only [h.mem_consumersOf_iff, Feeds, h.producer?_eq_some_iff, hnode, Option.some.injEq]
  grind

theorem reachedForwards_spec {start : NodeSet} (hstart : ∀ id ∈ start, id ∈ g.nodeIds) :
    ∃ reached, g.reachedForwards start = .ok reached ∧
      ∀ id, id ∈ reached ↔ ∃ first ∈ start, ReflTransGen g.Feeds first id := by
  apply closure_spec g.nodeIds
  · intro id hid
    exact h.mem_successors_iff hid
  · intro id id' hfeeds
    exact (h.mem_nodeIds_of_feeds hfeeds).2
  · exact hstart
  · rw [nodeIds, List.length_map]
    omega

end Indexed

end Graph

end OpGraph
