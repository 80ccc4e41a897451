import Mathlib.Data.List.Basic
import Mathlib.Logic.Relation
import OpGraph.Fusion.Forest
import OpGraph.Proofs.Graph.Indexed

/-!
Trees by their roots. The root of a node is the one choice that is constant along parents and keeps
what points to itself, so shortening a way does not move it, and hanging one root under another
moves exactly the nodes of its tree. Joining along edges therefore generates their equivalence.
-/

namespace OpGraph.Forest

open Relation

variable {f : Forest}

/-! ### Roots -/

def top (f : Forest) (id : NodeId) : NodeId :=
  if f.parent id = id then id else top f (f.parent id)
termination_by id.index
decreasing_by
  next hne => exact parent_lt hne

theorem top_of_parent_eq {id : NodeId} (h : f.parent id = id) : f.top id = id := by
  rw [top, if_pos h]

theorem top_parent (f : Forest) (id : NodeId) : f.top (f.parent id) = f.top id := by
  by_cases hroot : f.parent id = id
  · rw [hroot]
  · conv => rhs; rw [top, if_neg hroot]

theorem parent_top (f : Forest) (id : NodeId) : f.parent (f.top id) = f.top id := by
  fun_induction top f id with
  | case1 id hroot => exact hroot
  | case2 id _ ih => exact ih

theorem top_le (f : Forest) (id : NodeId) : (f.top id).index ≤ id.index := by
  fun_induction top f id with
  | case1 id => exact Nat.le_refl id.index
  | case2 id _ ih => exact Nat.le_trans ih (f.parent_le id)

theorem top_top (f : Forest) (id : NodeId) : f.top (f.top id) = f.top id := by
  apply top_of_parent_eq
  apply parent_top

theorem top_eq_of_constant {t : NodeId → NodeId} (hroot : ∀ id, f.parent id = id → t id = id)
    (hparent : ∀ id, t (f.parent id) = t id) : f.top = t := by
  funext id
  fun_induction top f id with
  | case1 id h => rw [hroot id h]
  | case2 id _ ih => rw [ih, hparent]

/-! ### Hanging a node elsewhere -/

theorem mem_hang {id target id' : NodeId} {h : target.index ≤ id.index} :
    id' ∈ f.hang id target h ↔ id' = id ∨ id' ∈ f := by
  change id' ∈ f.parents.insert id target ↔ _ ∨ id' ∈ f.parents
  rw [Std.ExtTreeMap.mem_insert, Std.LawfulEqCmp.compare_eq_iff_eq, eq_comm]

theorem parent_hang {id target : NodeId} (h : target.index ≤ id.index) (id' : NodeId) :
    (f.hang id target h).parent id' = if id' = id then target else f.parent id' := by
  change (f.parents.insert id target).getD id' id' = _
  rw [Std.ExtTreeMap.getD_insert]
  simp only [Std.LawfulEqCmp.compare_eq_iff_eq, @eq_comm _ id' id]
  rfl

section Hang

variable {id target : NodeId} (hlt : target.index < id.index)

include hlt

theorem parent_eq_of_hang {id' : NodeId}
    (h : (f.hang id target (Nat.le_of_lt hlt)).parent id' = id') :
    id' ≠ id ∧ f.parent id' = id' := by
  rw [parent_hang] at h
  split at h
  · next heq =>
    subst heq
    subst h
    exact absurd hlt (Nat.lt_irrefl _)
  · next hne => exact ⟨hne, h⟩

theorem top_hang_inside (hsame : f.top target = f.top id) :
    (f.hang id target (Nat.le_of_lt hlt)).top = f.top := by
  apply top_eq_of_constant
  · intro id' hroot
    exact top_of_parent_eq (parent_eq_of_hang hlt hroot).2
  · intro id'
    rw [parent_hang]
    split
    · next heq => rw [hsame, heq]
    · exact f.top_parent id'

theorem top_hang_root (hroot : f.parent id = id) (id' : NodeId) :
    (f.hang id target (Nat.le_of_lt hlt)).top id'
      =
    if f.top id' = id then f.top target else f.top id' := by
  apply congrFun (top_eq_of_constant (t := fun id' => if f.top id' = id then f.top target
    else f.top id') ?_ ?_) id'
  · intro id' hroot'
    obtain ⟨hne, hparent⟩ := parent_eq_of_hang hlt hroot'
    simp only [top_of_parent_eq hparent, if_neg hne]
  · intro id'
    rw [parent_hang]
    split
    · next heq =>
      simp only [heq, top_of_parent_eq hroot, if_true]
      split <;> rfl
    · simp only [f.top_parent]

end Hang

/-! ### The operations -/

theorem mem_of_parent_ne {id : NodeId} (h : f.parent id ≠ id) : id ∈ f := by
  apply Classical.byContradiction
  intro hout
  apply h
  exact Std.ExtTreeMap.getD_eq_fallback hout

theorem root_spec (f : Forest) (id : NodeId) :
    (f.root id).1 = f.top id ∧ (f.root id).2.top = f.top ∧
      ∀ id', id' ∈ (f.root id).2 ↔ id' ∈ f := by
  fun_induction root f id with
  | case1 f id hroot =>
    refine ⟨(top_of_parent_eq hroot).symm, rfl, ?_⟩
    intro id'
    rfl
  | case2 f id hne grand ih =>
    have hlt : grand.index < id.index := Nat.lt_of_le_of_lt (f.parent_le _) (parent_lt hne)
    have hgrand : f.top grand = f.top id := by rw [f.top_parent, f.top_parent]
    rw [top_hang_inside hlt hgrand, hgrand] at ih
    refine ⟨ih.1, ih.2.1, ?_⟩
    intro id'
    rw [ih.2.2, mem_hang]
    apply or_iff_right_of_imp
    rintro rfl
    exact mem_of_parent_ne hne

theorem mem_singletons_iff {ids : List NodeId} {id : NodeId} : id ∈ singletons ids ↔ id ∈ ids := by
  have hfold : ∀ (ids : List NodeId) (f : Forest),
      id ∈ ids.foldl (fun f id => f.hang id id (Nat.le_refl id.index)) f ↔ id ∈ f ∨ id ∈ ids := by
    intro ids
    induction ids with
    | nil => simp
    | cons first ids ih =>
      intro f
      rw [List.foldl_cons, ih, mem_hang, List.mem_cons, or_assoc, or_left_comm]
  rw [singletons, hfold]
  apply or_iff_right
  exact Std.ExtTreeMap.not_mem_empty

theorem top_singletons (ids : List NodeId) (id : NodeId) : (singletons ids).top id = id := by
  apply top_of_parent_eq
  have hfold : ∀ (ids : List NodeId) (f : Forest), f.parent id = id →
      (ids.foldl (fun f id => f.hang id id (Nat.le_refl id.index)) f).parent id = id := by
    intro ids
    induction ids with
    | nil => exact fun _ h => h
    | cons first ids ih =>
      intro f h
      apply ih
      rw [parent_hang]
      split
      · next heq => exact heq.symm
      · exact h
  apply hfold
  exact Std.ExtTreeMap.getD_empty

theorem join_cases (f : Forest) (a b : NodeId) :
    ∃ f' : Forest, f'.top = f.top ∧ (∀ id, id ∈ f' ↔ id ∈ f) ∧
      (f.top a = f.top b ∧ f.join a b = f' ∨
        (∃ hlt : (f.top a).index < (f.top b).index,
          f.join a b = f'.hang (f.top b) (f.top a) (Nat.le_of_lt hlt)) ∨
        ∃ hlt : (f.top b).index < (f.top a).index,
          f.join a b = f'.hang (f.top a) (f.top b) (Nat.le_of_lt hlt)) := by
  obtain ⟨hroot, htop, hmem⟩ := f.root_spec a
  unfold join
  generalize f.root a = found at hroot htop hmem
  obtain ⟨x, f₁⟩ := found
  obtain ⟨hroot', htop', hmem'⟩ := f₁.root_spec b
  dsimp only at hroot htop hmem ⊢
  generalize f₁.root b = found at hroot' htop' hmem'
  obtain ⟨y, f₂⟩ := found
  dsimp only at hroot' htop' hmem' ⊢
  rw [htop] at hroot' htop'
  subst hroot
  subst hroot'
  refine ⟨f₂, htop', fun id => (hmem' id).trans (hmem id), ?_⟩
  split
  · next hlt => exact .inr (.inl ⟨hlt, rfl⟩)
  · next hnlt =>
    split
    · next hgt => exact .inr (.inr ⟨hgt, rfl⟩)
    · next hngt =>
      left
      refine ⟨?_, rfl⟩
      rw [Handle.ext_iff_index]
      omega

theorem mem_join_iff {a b id : NodeId} (ha : f.top a ∈ f) (hb : f.top b ∈ f) :
    id ∈ f.join a b ↔ id ∈ f := by
  obtain ⟨f', -, hmem, ⟨-, hjoin⟩ | ⟨hlt, hjoin⟩ | ⟨hlt, hjoin⟩⟩ := f.join_cases a b
  · rw [hjoin, hmem]
  · rw [hjoin, mem_hang, hmem]
    apply or_iff_right_of_imp
    rintro rfl
    exact hb
  · rw [hjoin, mem_hang, hmem]
    apply or_iff_right_of_imp
    rintro rfl
    exact ha

theorem top_hang_top {f' : Forest} (htop : f'.top = f.top) {a b : NodeId}
    (hlt : (f.top a).index < (f.top b).index) (id : NodeId) :
    (f'.hang (f.top b) (f.top a) (Nat.le_of_lt hlt)).top id
      =
    if f.top id = f.top b then f.top a else f.top id := by
  rw [top_hang_root hlt, htop, f.top_top]
  rw [← htop]
  apply parent_top

theorem top_join_eq_iff {a b x y : NodeId} :
    (f.join a b).top x = (f.join a b).top y
      ↔
    f.top x = f.top y ∨ f.top x = f.top a ∧ f.top y = f.top b ∨
      f.top x = f.top b ∧ f.top y = f.top a := by
  obtain ⟨f', htop, -, ⟨hsame, hjoin⟩ | ⟨hlt, hjoin⟩ | ⟨hlt, hjoin⟩⟩ := f.join_cases a b
  · rw [hjoin, htop]
    grind
  · have hmoved := top_hang_top htop hlt
    rw [hjoin, hmoved, hmoved]
    grind
  · have hmoved := top_hang_top htop hlt
    rw [hjoin, hmoved, hmoved]
    grind

/-! ### Connected nodes -/

structure Spans (f : Forest) (nodes : List NodeId) (edge : NodeId → NodeId → Prop) : Prop where
  mem_iff : ∀ id, id ∈ f ↔ id ∈ nodes
  inside : ∀ x y, edge x y → x ∈ nodes ∧ y ∈ nodes
  top_eq_iff : ∀ x y, f.top x = f.top y ↔ EqvGen edge x y

theorem top_eq_of_eqvGen {edge : NodeId → NodeId → Prop}
    (hedge : ∀ x y, edge x y → f.top x = f.top y) {x y : NodeId} (hpath : EqvGen edge x y) :
    f.top x = f.top y := by
  induction hpath with
  | rel x y hxy => exact hedge x y hxy
  | refl => rfl
  | symm _ _ _ ih => exact ih.symm
  | trans _ _ _ _ _ ih ih' => exact ih.trans ih'

theorem spans_singletons (ids : List NodeId) : (singletons ids).Spans ids fun _ _ => False where
  mem_iff _ := mem_singletons_iff
  inside _ _ := False.elim
  top_eq_iff := by
    intro x y
    constructor
    · rw [top_singletons, top_singletons]
      rintro rfl
      exact .refl x
    · intro hpath
      apply top_eq_of_eqvGen _ hpath
      exact fun _ _ hedge => hedge.elim

namespace Spans

variable {nodes : List NodeId} {edge : NodeId → NodeId → Prop} (h : f.Spans nodes edge)

include h

theorem congr {edge' : NodeId → NodeId → Prop} (hedge : ∀ x y, edge x y ↔ edge' x y) :
    f.Spans nodes edge' := by
  have heq : edge = edge' := funext fun x => funext fun y => propext (hedge x y)
  rw [← heq]
  exact h

theorem mem_iff_of_eqvGen {x y : NodeId} (hpath : EqvGen edge x y) : x ∈ nodes ↔ y ∈ nodes := by
  induction hpath with
  | rel x y hedge => exact iff_of_true (h.inside x y hedge).1 (h.inside x y hedge).2
  | refl => rfl
  | symm _ _ _ ih => exact ih.symm
  | trans _ _ _ _ _ ih ih' => exact ih.trans ih'

theorem top_mem {id : NodeId} (hid : id ∈ nodes) : f.top id ∈ nodes := by
  rw [h.mem_iff_of_eqvGen ((h.top_eq_iff (f.top id) id).mp (f.top_top id))]
  exact hid

theorem join {a b : NodeId} (ha : a ∈ nodes) (hb : b ∈ nodes) :
    (f.join a b).Spans nodes fun x y => edge x y ∨ x = a ∧ y = b where
  mem_iff id := by
    rw [mem_join_iff, h.mem_iff]
    · rw [h.mem_iff]
      exact h.top_mem ha
    · rw [h.mem_iff]
      exact h.top_mem hb
  inside := by
    rintro x y (hedge | ⟨rfl, rfl⟩)
    · exact h.inside x y hedge
    · exact ⟨ha, hb⟩
  top_eq_iff := by
    have hold : ∀ {x y}, EqvGen edge x y → EqvGen (fun x y => edge x y ∨ x = a ∧ y = b) x y :=
      fun hpath => EqvGen.mono (fun _ _ hedge => .inl hedge) _ _ hpath
    have hnew : EqvGen (fun x y => edge x y ∨ x = a ∧ y = b) a b := .rel a b (.inr ⟨rfl, rfl⟩)
    intro x y
    constructor
    · rw [top_join_eq_iff]
      simp only [h.top_eq_iff]
      rintro (hxy | ⟨hx, hy⟩ | ⟨hx, hy⟩)
      · exact hold hxy
      · exact (hold hx).trans _ _ _ (hnew.trans _ _ _ ((hold hy).symm _ _))
      · exact (hold hx).trans _ _ _ ((hnew.symm _ _).trans _ _ _ ((hold hy).symm _ _))
    · intro hpath
      apply top_eq_of_eqvGen _ hpath
      intro x y hedge
      rw [top_join_eq_iff]
      rcases hedge with hedge | ⟨rfl, rfl⟩
      · exact .inl ((h.top_eq_iff x y).mpr (.rel x y hedge))
      · exact .inr (.inl ⟨rfl, rfl⟩)

theorem foldl_join {a : NodeId} (ha : a ∈ nodes) (ids : List NodeId) :
    (ids.foldl (fun f next => if next ∈ f then f.join a next else f) f).Spans nodes
      fun x y => edge x y ∨ x = a ∧ y ∈ nodes ∧ y ∈ ids := by
  induction ids generalizing f edge with
  | nil =>
    apply h.congr
    simp
  | cons next ids ih =>
    rw [List.foldl_cons]
    split
    · next hnext =>
      rw [h.mem_iff] at hnext
      apply (ih (h.join ha hnext)).congr
      intro x y
      rw [List.mem_cons]
      grind
    · next hnext =>
      rw [h.mem_iff] at hnext
      apply (ih h).congr
      intro x y
      rw [List.mem_cons]
      grind

end Spans

/-! ### Groups -/

def treeOf (f : Forest) (ids : List NodeId) (root : NodeId) : List NodeId :=
  ids.filter fun id => f.top id = root

theorem mem_treeOf_iff {ids : List NodeId} {root id : NodeId} :
    id ∈ f.treeOf ids root ↔ id ∈ ids ∧ f.top id = root := by
  rw [treeOf, List.mem_filter, decide_eq_true_eq]

section Group

variable {groups : Std.ExtTreeMap NodeId (List NodeId)} {ids : List NodeId} {root : NodeId}

theorem mem_group_iff :
    root ∈ f.group groups ids ↔ root ∈ groups ∨ ∃ id ∈ ids, f.top id = root := by
  induction ids generalizing f groups with
  | nil => simp [group]
  | cons id ids ih =>
    obtain ⟨hroot, htop, -⟩ := f.root_spec id
    rw [group, ih, htop, hroot, Std.ExtTreeMap.mem_insert, Std.LawfulEqCmp.compare_eq_iff_eq]
    simp only [List.mem_cons]
    grind

theorem getD_group :
    (f.group groups ids).getD root [] = groups.getD root [] ++ f.treeOf ids root := by
  unfold treeOf
  induction ids generalizing f groups with
  | nil => simp [group]
  | cons id ids ih =>
    obtain ⟨hroot, htop, -⟩ := f.root_spec id
    rw [group, ih, htop, hroot, Std.ExtTreeMap.getD_insert, List.filter_cons]
    simp only [Std.LawfulEqCmp.compare_eq_iff_eq, decide_eq_true_eq]
    split
    · next heq =>
      subst heq
      simp
    · rfl

theorem mem_toList_group_iff {tree : List NodeId} :
    (root, tree) ∈ (f.group ∅ ids).toList ↔
      (∃ id ∈ ids, f.top id = root) ∧ tree = f.treeOf ids root := by
  have hlist : ∀ tree, (f.group ∅ ids)[root]? = some tree → tree = f.treeOf ids root := by
    intro tree htree
    have hgetD := @getD_group f ∅ ids root
    rw [Std.ExtTreeMap.getD_eq_getD_getElem?, htree, Std.ExtTreeMap.getD_empty] at hgetD
    exact hgetD
  have hmem : root ∈ f.group ∅ ids ↔ ∃ id ∈ ids, f.top id = root := by
    rw [mem_group_iff]
    apply or_iff_right
    exact Std.ExtTreeMap.not_mem_empty
  rw [Std.ExtTreeMap.mem_iff_isSome_getElem?, Option.isSome_iff_exists] at hmem
  rw [Std.ExtTreeMap.mem_toList_iff_getElem?_eq_some, ← hmem]
  constructor
  · intro htree
    exact ⟨⟨tree, htree⟩, hlist tree htree⟩
  · rintro ⟨⟨tree', htree'⟩, rfl⟩
    rw [htree', hlist tree' htree']

theorem mem_trees_iff {tree : List NodeId} :
    tree ∈ (f.group ∅ ids).toList.map Prod.snd ↔ ∃ id ∈ ids, tree = f.treeOf ids (f.top id) := by
  simp only [List.mem_map, Prod.exists, exists_eq_right, mem_toList_group_iff]
  constructor
  · rintro ⟨root, ⟨id, hid, rfl⟩, htree⟩
    exact ⟨id, hid, htree⟩
  · rintro ⟨id, hid, htree⟩
    exact ⟨f.top id, ⟨id, hid, rfl⟩, htree⟩

theorem trees_disjoint : ((f.group ∅ ids).toList.map Prod.snd).Pairwise List.Disjoint := by
  rw [List.pairwise_map]
  apply (f.group ∅ ids).distinct_keys_toList.imp_of_mem
  rintro ⟨root, tree⟩ ⟨root', tree'⟩ htree htree' hne id hid hid'
  -- A node has one root only.
  rw [(mem_toList_group_iff.mp htree).2, mem_treeOf_iff] at hid
  rw [(mem_toList_group_iff.mp htree').2, mem_treeOf_iff] at hid'
  apply hne
  rw [Std.LawfulEqCmp.compare_eq_iff_eq]
  exact hid.2.symm.trans hid'.2

end Group

theorem head?_of_ascending {ids : List NodeId}
    (hascending : ids.Pairwise fun id id' => id.index < id'.index) {first : NodeId}
    (hfirst : first ∈ ids) (hleast : ∀ id ∈ ids, first.index ≤ id.index) :
    ids.head? = some first := by
  cases ids with
  | nil => cases hfirst
  | cons id ids =>
    rcases List.mem_cons.mp hfirst with rfl | hrest
    · rfl
    · have hlt := (List.pairwise_cons.mp hascending).1 first hrest
      have hle := hleast id List.mem_cons_self
      omega

namespace Spans

variable {nodes : List NodeId} {edge : NodeId → NodeId → Prop} (h : f.Spans nodes edge)
  (hascending : nodes.Pairwise fun id id' => id.index < id'.index)

include h hascending

theorem head?_treeOf {id : NodeId} (hid : id ∈ nodes) :
    (f.treeOf nodes (f.top id)).head? = some (f.top id) := by
  apply head?_of_ascending (hascending.filter _)
  · rw [← treeOf, mem_treeOf_iff]
    exact ⟨h.top_mem hid, f.top_top id⟩
  · intro id' hid'
    rw [← treeOf, mem_treeOf_iff] at hid'
    rw [← hid'.2]
    exact f.top_le id'

theorem trees_ordered : ((f.group ∅ nodes).toList.map Prod.snd).Pairwise fun tree tree' =>
    ∀ first ∈ tree.head?, ∀ first' ∈ tree'.head?, first.index < first'.index := by
  rw [List.pairwise_map]
  apply (f.group ∅ nodes).ordered_keys_toList.imp_of_mem
  rintro ⟨root, tree⟩ ⟨root', tree'⟩ htree htree' hlt first hfirst first' hfirst'
  obtain ⟨⟨id, hid, rfl⟩, rfl⟩ := mem_toList_group_iff.mp htree
  obtain ⟨⟨id', hid', rfl⟩, rfl⟩ := mem_toList_group_iff.mp htree'
  rw [h.head?_treeOf hascending hid] at hfirst
  rw [h.head?_treeOf hascending hid'] at hfirst'
  cases hfirst
  cases hfirst'
  exact Nat.compare_eq_lt.mp hlt

end Spans

end OpGraph.Forest
