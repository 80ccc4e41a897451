import OpGraph.Pass.Basic
import OpGraph.Proofs.Graph.Draft
import OpGraph.Proofs.Graph.Validation

/-!
The one way in which rules change a graph: a node is taken out and everything that read its output
reads another arg, which was there before, is the output of one new node or is a new initializer.
-/

namespace OpGraph

namespace Graph

/-- Where the arg that takes over gets its value from. -/
inductive Supply where
  /-- It is there already. -/
  | survivor
  | node (node : Node)
  | initializer (tensor : Tensor)

namespace Supply

def node? : Supply → NodeId → Option Node
  | node n, id => if id = n.id then some n else none
  | _, _ => none

def addTo (given : Std.ExtTreeMap ArgId Tensor) (new : ArgId) : Supply → Std.ExtTreeMap ArgId Tensor
  | initializer tensor => given.insert new tensor
  | _ => given

def args (new : ArgId) : Supply → List ArgId
  | survivor => [new]
  | node n => n.presentInputs
  | initializer _ => []

def Fresh (g : Graph) (new : ArgId) : Supply → Prop
  | survivor => True
  | node n => g.arg? new = none ∧ g.node? n.id = none ∧ n.outputs = [some new]
  | initializer _ => g.arg? new = none

def Fits (g : Graph) (old new : ArgId) : Supply → Prop
  | survivor => g.hasSource new = true
  | node n => g.arg? new = none ∧ g.node? n.id = none ∧ n.outputs = [some new] ∧
    ∀ a ∈ n.presentInputs, a ≠ old ∧ g.hasSource a = true
  | initializer _ => g.arg? new = none

variable {g : Graph} {old new : ArgId} {supply : Supply}

theorem Fits.fresh (hfits : supply.Fits g old new) : supply.Fresh g new := by
  cases supply with
  | survivor => trivial
  | node n => exact ⟨hfits.1, hfits.2.1, hfits.2.2.1⟩
  | initializer _ => exact hfits

theorem Fresh.fits (hfresh : supply.Fresh g new)
    (hargs : ∀ a ∈ supply.args new, a ≠ old ∧ g.hasSource a = true) : supply.Fits g old new := by
  cases supply with
  | survivor => exact (hargs new (List.mem_singleton_self _)).2
  | node n => exact ⟨hfresh.1, hfresh.2.1, hfresh.2.2, hargs⟩
  | initializer _ => exact hfresh

end Supply

/-- The node `root` is gone, and `new` stands for its output `old`. -/
structure Rewired (g : Graph) (root : NodeId) (old new : ArgId) (supply : Supply) (g' : Graph) :
    Prop where
  indexed : g'.Indexed
  distinct : old ≠ new
  produced : g.producer? old = some root
  nodes : ∀ id, g'.node? id = if id = root then none else
    ((g.node? id).or (supply.node? id)).map fun node => node.redirect old new
  inputs : g'.inputs = g.inputs
  outputs : g'.outputs = g.outputs.map fun a => if a = old then new else a
  initializers : g'.initializers = supply.addTo g.initializers new

variable {g g' : Graph}

theorem Node.input?_redirect (node : Node) (old new : ArgId) (slot : Nat) :
    (node.redirect old new).input? slot =
      (node.input? slot).map fun a => if a = old then new else a := by
  rw [Node.input?, Node.redirect, List.getElem?_map, Node.input?]
  cases node.inputs[slot]? with
  | none => rfl
  | some slot =>
    cases slot with
    | none => rfl
    | some a =>
      by_cases ha : a = old
      · simp [redirectSlot, ha]
      · simp [redirectSlot, ha]

theorem Node.mem_presentInputs_redirect {node : Node} {old new a : ArgId}
    (ha : a ∈ (node.redirect old new).presentInputs) :
    ∃ b ∈ node.presentInputs, a = if b = old then new else b := by
  obtain ⟨slot, hslot⟩ := Node.mem_presentInputs_iff.mp ha
  rw [Node.input?_redirect, Option.map_eq_some_iff] at hslot
  obtain ⟨b, hb, rfl⟩ := hslot
  exact ⟨b, Node.mem_presentInputs_iff.mpr ⟨slot, hb⟩, rfl⟩

theorem hasSource_live (h : g.Indexed) {a : ArgId} (ha : g.hasSource a = true) :
    (g.arg? a).isSome := by
  rcases hasSource_iff.mp ha with ⟨id, hid⟩ | hin | hinit
  · obtain ⟨node, hnode, hmem⟩ := h.producer?_eq_some_iff.mp hid
    exact h.produces_live id node a hnode hmem
  · exact h.inputs_live a hin
  · exact h.initializers_live a hinit

theorem rewired_of_steps {g₂ g₃ : Graph} {root : NodeId} {node : Node} {old new : ArgId}
    {supply : Supply} (h₂ : g₂.Indexed)
    (hnodes : ∀ id, g₂.node? id = (g.node? id).or (supply.node? id))
    (hinputs : g₂.inputs = g.inputs) (houtputs : g₂.outputs = g.outputs)
    (hinitializers : g₂.initializers = supply.addTo g.initializers new)
    (hproduced : g.producer? old = some root) (hne : old ≠ new)
    (hreplace : g₂.replaceAllUses old new = .ok g₃)
    (hremove : g₃.removeNode root = .ok (node, g')) : Rewired g root old new supply g' := by
  obtain ⟨-, -, ⟨heq, -⟩ | ⟨-, h₃, hreplaced⟩⟩ := replaceAllUses_eq_ok h₂ hreplace
  · exact absurd heq hne
  · obtain ⟨hnode, hid, rfl⟩ := removeNode_eq_ok h₃ hremove
    refine ⟨h₃.dropNode (hid ▸ hnode), hne, hproduced, ?_, ?_, ?_, ?_⟩
    · intro id
      rw [node?_dropNode, hid, hreplaced.nodes, hnodes]
    · exact hreplaced.inputs.trans hinputs
    · exact hreplaced.outputs.trans (by rw [houtputs])
    · exact hreplaced.initializers.trans hinitializers

namespace Rewired

variable {root : NodeId} {old new : ArgId} {supply : Supply} (h : g.Indexed)
  (hr : Rewired g root old new supply g')

include hr

theorem node?_of_ne {id : NodeId} (hid : id ≠ root) {node : Node} (hnode : g.node? id = some node) :
    g'.node? id = some (node.redirect old new) := by
  rw [hr.nodes, if_neg hid, hnode]
  rfl

theorem node?_cases {id : NodeId} {node' : Node} (hnode' : g'.node? id = some node') :
    id ≠ root ∧ ((∃ node, g.node? id = some node ∧ node' = node.redirect old new) ∨
      ∃ node, supply = .node node ∧ id = node.id ∧ node' = node.redirect old new) := by
  rw [hr.nodes] at hnode'
  split at hnode'
  · cases hnode'
  · next hid =>
    refine ⟨hid, ?_⟩
    cases hnode : g.node? id with
    | some node =>
      rw [hnode] at hnode'
      exact .inl ⟨node, rfl, (Option.some.inj hnode').symm⟩
    | none =>
      rw [hnode] at hnode'
      cases supply with
      | survivor => cases hnode'
      | initializer _ => cases hnode'
      | node node =>
        have hnode' : (if id = node.id then some node else none).map
          (fun node => node.redirect old new) = some node' := hnode'
        split at hnode'
        · next heq => exact .inr ⟨node, rfl, heq, (Option.some.inj hnode').symm⟩
        · cases hnode'

theorem mem_initializers {a : ArgId} (ha : a ∈ g.initializers) : a ∈ g'.initializers := by
  rw [hr.initializers]
  match supply with
  | .survivor => exact ha
  | .node _ => exact ha
  | .initializer _ => exact Std.ExtTreeMap.mem_insert.mpr (.inr ha)

include h

theorem hasSource_of_ne (hsingle : ∀ a, g.producer? a = some root → a = old) {a : ArgId}
    (hne : a ≠ old) (ha : g.hasSource a = true) : g'.hasSource a = true := by
  rw [hasSource_iff] at ha ⊢
  rcases ha with ⟨id, hid⟩ | hin | hinit
  · left
    have hroot : id ≠ root := by
      rintro rfl
      exact hne (hsingle a hid)
    obtain ⟨node, hnode, hmem⟩ := h.producer?_eq_some_iff.mp hid
    exact ⟨id, hr.indexed.producer?_eq_some_iff.mpr ⟨_, hr.node?_of_ne hroot hnode, hmem⟩⟩
  · rw [hr.inputs]
    exact .inr (.inl hin)
  · exact .inr (.inr (hr.mem_initializers hinit))

theorem node?_supply {n : Node} (hsupply : supply = .node n) (hfresh : supply.Fresh g new) :
    g'.node? n.id = some (n.redirect old new) ∧ new ∈ (n.redirect old new).presentOutputs := by
  subst hsupply
  obtain ⟨-, hid, houtputs⟩ := hfresh
  constructor
  · have hroot : n.id ≠ root := by
      rintro hroot
      obtain ⟨node, hnode, -⟩ := h.producer?_eq_some_iff.mp hr.produced
      rw [← hroot, hid] at hnode
      cases hnode
    rw [hr.nodes, if_neg hroot, hid]
    simp [Supply.node?]
  · rw [Node.presentOutputs, mem_present_iff, Node.redirect, houtputs]
    exact List.mem_singleton_self _

theorem hasSource_new (hsingle : ∀ a, g.producer? a = some root → a = old)
    (hfits : supply.Fits g old new) : g'.hasSource new = true := by
  cases supply with
  | survivor => exact hr.hasSource_of_ne h hsingle (Ne.symm hr.distinct) hfits
  | node n =>
    obtain ⟨hnode, hmem⟩ := hr.node?_supply h rfl hfits.fresh
    rw [hasSource_iff]
    exact .inl ⟨n.id, hr.indexed.producer?_eq_some_iff.mpr ⟨_, hnode, hmem⟩⟩
  | initializer tensor =>
    rw [hasSource_iff, hr.initializers]
    exact .inr (.inr Std.ExtTreeMap.mem_insert_self)

theorem sourced (hsingle : ∀ a, g.producer? a = some root → a = old)
    (hfits : supply.Fits g old new) (hsourced : g.Sourced) : g'.Sourced := by
  -- What a node reads is what it read before, with `new` for `old`.
  have hread : ∀ (node : Node) a, (∀ b ∈ node.presentInputs, b ≠ old → g.hasSource b = true) →
      a ∈ (node.redirect old new).presentInputs → g'.hasSource a = true := by
    intro node a hnode ha
    obtain ⟨b, hb, rfl⟩ := Node.mem_presentInputs_redirect ha
    split
    · exact hr.hasSource_new h hsingle hfits
    · next hne => exact hr.hasSource_of_ne h hsingle hne (hnode b hb hne)
  intro id node' a hnode' ha
  obtain ⟨-, ⟨node, hnode, rfl⟩ | ⟨node, rfl, -, rfl⟩⟩ := hr.node?_cases hnode'
  · exact hread node a (fun b hb _ => hsourced id node b hnode hb) ha
  · exact hread node a (fun b hb _ => (hfits.2.2.2 b hb).2) ha

omit h in
theorem consistent (hfresh : supply.Fresh g new) (hc : g.Consistent) : g'.Consistent := by
  refine ⟨hr.indexed, ?_⟩
  intro id node' hnode'
  obtain ⟨-, ⟨node, hnode, rfl⟩ | ⟨node, rfl, -, rfl⟩⟩ := hr.node?_cases hnode'
  · exact hc.outputs_nodup id node hnode
  · rw [Node.presentOutputs, Node.redirect, hfresh.2.2]
    exact List.nodup_singleton new

end Rewired

/-! ### The rewrites -/

section

variable (h : g.Indexed)

include h

theorem bypass_eq_some {root : NodeId} {old survivor : ArgId}
    (hproduced : g.producer? old = some root) (hne : old ≠ survivor)
    (hrun : g.bypass root old survivor = .ok (true, g')) :
    Rewired g root old survivor .survivor g' := by
  rw [bypass] at hrun
  split at hrun
  · cases hrun
  · simp only [bind_eq_ok_iff, pure_eq_ok_iff, Prod.mk.injEq, true_and] at hrun
    obtain ⟨g₃, hreplace, ⟨node, g₄⟩, hremove, rfl⟩ := hrun
    refine rewired_of_steps h ?_ rfl rfl rfl hproduced hne hreplace hremove
    intro id
    exact Option.or_none.symm

theorem nextArg_ne_of_producer? {a : ArgId} {id : NodeId} (ha : g.producer? a = some id) :
    a ≠ g.nextArg := by
  rintro rfl
  obtain ⟨node, hnode, hmem⟩ := h.producer?_eq_some_iff.mp ha
  have hlive := h.produces_live id node _ hnode hmem
  rw [arg?_nextArg] at hlive
  cases hlive

theorem supplant_eq_some {root : NodeId} {old : ArgId} {draft : Draft}
    (hproduced : g.producer? old = some root) (houtputs : draft.outputs = [])
    (hrun : g.supplant root old draft = .ok (true, g')) :
    ∃ name, Rewired g root old g.nextArg (.node (draft.nodeIn g name)) g' := by
  rw [supplant, bind_eq_ok_iff] at hrun
  obtain ⟨⟨⟨id, outputs⟩, g₂⟩, hbuild, hrun⟩ := hrun
  obtain ⟨rfl, argName, type, name, spec, log, hname, hadmits, hspec, rfl⟩ :=
    Draft.build_eq_ok houtputs hbuild
  simp only [List.head?_cons, Option.join_some, bind_eq_ok_iff, pure_eq_ok_iff, Prod.mk.injEq,
    true_and] at hrun
  obtain ⟨g₃, hreplace, ⟨node, g₄⟩, hremove, rfl⟩ := hrun
  refine ⟨name, rewired_of_steps (((h.pushArg hname type).pushNode hadmits).setLog log)
    ?_ rfl rfl rfl hproduced (nextArg_ne_of_producer? h hproduced) hreplace hremove⟩
  intro id
  have hpush := node?_pushNode (g := g.pushArg argName type) name spec id
  rw [Supply.node?, hspec]
  by_cases hid : id = g.nextNode
  · subst hid
    rw [node?_nextNode, Option.none_or, if_pos rfl]
    exact hpush.trans (if_pos rfl)
  · rw [if_neg hid, Option.or_none]
    exact hpush.trans (if_neg hid)

/-! Rewrites with live handles go through. -/

theorem redirect_succeeds {root : NodeId} {node : Node} {old new : ArgId}
    (hnode : g.node? root = some node) (hold : (g.arg? old).isSome) (hnew : (g.arg? new).isSome) :
    ∃ g₁ removed g', g.replaceAllUses old new = .ok g₁ ∧
      g₁.removeNode root = .ok (removed, g') := by
  by_cases heq : old = new
  · subst heq
    refine ⟨g, node, _, ?_, removeNode_succeeds h hnode⟩
    rw [replaceAllUses, if_neg (by simp [Option.isNone_eq_false_iff.mpr hold]), if_pos rfl]
  · obtain ⟨g₁, hreplace, h₁, hreplaced⟩ := replaceAllUses_spec h hold hnew heq
    have hnode₁ : g₁.node? root = some (node.redirect old new) := by
      rw [hreplaced.nodes, hnode, Option.map_some]
    exact ⟨g₁, _, _, hreplace, removeNode_succeeds h₁ hnode₁⟩

theorem bypass_succeeds {root : NodeId} {node : Node} {old survivor : ArgId}
    (hnode : g.node? root = some node) (hold : (g.arg? old).isSome)
    (hsurvivor : (g.arg? survivor).isSome) : ∃ result, g.bypass root old survivor = .ok result := by
  rw [bypass]
  split
  · exact ⟨_, rfl⟩
  · obtain ⟨g₁, removed, g', hreplace, hremove⟩ := redirect_succeeds h hnode hold hsurvivor
    rw [hreplace, ok_bind, hremove, ok_bind]
    exact ⟨_, rfl⟩

theorem supplant_succeeds {root : NodeId} {node : Node} {old : ArgId} {draft : Draft}
    (hnode : g.node? root = some node) (hold : (g.arg? old).isSome) (hdraft : draft.Buildable g) :
    ∃ result, g.supplant root old draft = .ok result := by
  obtain ⟨⟨⟨id, outputs⟩, g₂⟩, hbuild⟩ := Draft.build_succeeds h hdraft
  have hbuilt := hbuild
  obtain ⟨rfl, argName, type, name, spec, log, hname, hadmits, -, rfl⟩ :=
    Draft.build_eq_ok hdraft.outputs hbuilt
  have hnode₂ : ((g.pushArg argName type).pushNode name spec).node? root = some node := by
    rw [node?_pushNode, if_neg]
    · exact hnode
    · rintro rfl
      cases hnode.symm.trans node?_nextNode
  obtain ⟨g₃, removed, g', hreplace, hremove⟩ :=
    redirect_succeeds (((h.pushArg hname type).pushNode hadmits).setLog log) hnode₂
      (live_pushArg (.inr hold) argName type) (live_pushArg (.inl rfl) argName type)
  rw [supplant, hbuild, ok_bind]
  simp only [List.head?_cons, Option.join_some, hreplace, hremove, ok_bind]
  exact ⟨_, rfl⟩

theorem rewired_of_initializer {g₂ g₃ : Graph} {root : NodeId} {node : Node} {old new : ArgId}
    {name : String} {tensor : Tensor} {log : Log} (hproduced : g.producer? old = some root)
    (hdeclare : addInitializer name tensor g = .ok new g₂)
    (hreplace : { g₂ with log }.replaceAllUses old new = .ok g₃)
    (hremove : g₃.removeNode root = .ok (node, g')) :
    new = g.nextArg ∧ Rewired g root old new (.initializer tensor) g' := by
  obtain ⟨failure, heq⟩ | ⟨-, heq⟩ := addInitializer_cases name tensor g
  · rw [heq] at hdeclare
    cases hdeclare
  · rw [heq] at hdeclare
    cases hdeclare
    have hdeclared :=
      evolves_addInitializer h (show settle (addInitializer name tensor) g = .ok _ by
      rw [settle, heq])
    refine ⟨rfl, rewired_of_steps (hdeclared.indexed.setLog log) ?_ rfl rfl rfl hproduced
      (nextArg_ne_of_producer? h hproduced) hreplace hremove⟩
    intro id
    exact Option.or_none.symm

end

end Graph

end OpGraph
