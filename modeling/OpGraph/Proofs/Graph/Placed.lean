import OpGraph.Proofs.Graph.Draft
import OpGraph.Proofs.Graph.Validation

/-!
Edits of args, and the drafts whose outputs they make. An edit that adds args or changes what is
known of them leaves nodes, graph outputs and log alone. Committing a draft makes the args of its
output slots in this way, then adds the node and records the anchor on the first output.
-/

namespace OpGraph

namespace Graph

variable {g g' : Graph}

structure SameNodes (g g' : Graph) : Prop where
  nodes : g'.nodes = g.nodes
  producers : g'.producers = g.producers
  outputs : g'.outputs = g.outputs
  log : g'.log = g.log

namespace SameNodes

theorem refl (g : Graph) : SameNodes g g := ⟨rfl, rfl, rfl, rfl⟩

theorem trans {g₁ g₂ g₃ : Graph} (h : SameNodes g₁ g₂) (h' : SameNodes g₂ g₃) :
    SameNodes g₁ g₃ where
  nodes := h'.nodes.trans h.nodes
  producers := h'.producers.trans h.producers
  outputs := h'.outputs.trans h.outputs
  log := h'.log.trans h.log

theorem node?_eq (h : SameNodes g g') (id : NodeId) : g'.node? id = g.node? id := by
  rw [node?, h.nodes, node?]

theorem producer?_eq (h : SameNodes g g') (a : ArgId) : g'.producer? a = g.producer? a := by
  rw [producer?, h.producers, producer?]

end SameNodes

theorem settle_cases {α : Type} {step : Edit GraphError α} (hrun : settle step g = .ok g') :
    (∃ a, step g = .ok a g') ∨ ∃ e, step g = .error (.error e) g' := by
  rw [settle] at hrun
  split at hrun
  · next a _ heq =>
    cases hrun
    exact .inl ⟨a, heq⟩
  · next e _ heq =>
    cases hrun
    exact .inr ⟨e, heq⟩
  · cases hrun

theorem sameNodes_newArg {name : String} {type : TensorType}
    (hrun : settle (newArg name type) g = .ok g') : SameNodes g g' := by
  obtain ⟨a, heq⟩ | ⟨e, heq⟩ := settle_cases hrun <;> rw [newArg] at heq <;> split at heq <;>
    cases heq <;> exact ⟨rfl, rfl, rfl, rfl⟩

theorem sameNodes_addInput {name : String} {type : TensorType}
    (hrun : settle (addInput name type) g = .ok g') : SameNodes g g' := by
  obtain ⟨e, heq⟩ | ⟨-, heq⟩ := addInput_cases name type g <;> rw [settle, heq] at hrun <;>
    cases hrun <;> exact ⟨rfl, rfl, rfl, rfl⟩

theorem sameNodes_addInitializer {name : String} {tensor : Tensor}
    (hrun : settle (addInitializer name tensor) g = .ok g') : SameNodes g g' := by
  obtain ⟨failure, heq⟩ | ⟨-, heq⟩ := addInitializer_cases name tensor g
  · rw [settle, heq] at hrun
    cases failure <;> cases hrun
    exact .refl g
  · rw [settle, heq] at hrun
    cases hrun
    exact ⟨rfl, rfl, rfl, rfl⟩

theorem sameNodes_setArgType {a : ArgId} {type : TensorType} (hrun : g.setArgType a type = .ok g') :
    SameNodes g g' := by
  simp only [setArgType, bind_eq_ok_iff, pure_eq_ok_iff] at hrun
  obtain ⟨arg, -, rfl⟩ := hrun
  exact ⟨rfl, rfl, rfl, rfl⟩

theorem sameNodes_setInitializer {a : ArgId} {tensor : Tensor}
    (hrun : g.setInitializer a tensor = .ok g') : SameNodes g g' := by
  simp only [setInitializer, bind_eq_ok_iff] at hrun
  obtain ⟨arg, -, hrun⟩ := hrun
  split at hrun
  · cases hrun
  · simp only [bind_eq_ok_iff, pure_eq_ok_iff] at hrun
    obtain ⟨g₁, hset, rfl⟩ := hrun
    exact (sameNodes_setArgType hset).trans ⟨rfl, rfl, rfl, rfl⟩

theorem sameNodes_resolve (h : g.Indexed) (hrun : settle resolve g = .ok g') : SameNodes g g' := by
  obtain ⟨_, heq⟩ | ⟨e, heq⟩ := settle_cases hrun
  · rw [(h.retyped_of_resolve heq).2.rest]
    exact ⟨rfl, rfl, rfl, rfl⟩
  · rw [resolve_eq_error heq]
    exact .refl g

end Graph

namespace Draft

open OpGraph.Graph

variable {d : Draft} {g g' : Graph}

/-- The output slots of the node; a draft that gives none asks for one new arg. -/
def slots (d : Draft) : List OutputSlot :=
  if d.outputs.isEmpty then [.fresh none] else d.outputs

theorem placeOutput_eq_ok (h : g.Indexed) {name : String} {primary : TensorType} {slot : OutputSlot}
    {i : Nat} {out : Option ArgId} (hrun : d.placeOutput name primary g slot i = .ok (out, g')) :
    g'.Indexed ∧ SameNodes g g' ∧ ∀ given, slot = .fresh given → out = some g.nextArg := by
  cases slot with
  | absent =>
    cases hrun
    exact ⟨h, .refl g, fun given heq => by cases heq⟩
  | reuse arg =>
    rw [placeOutput] at hrun
    split at hrun
    · simp only [bind_eq_ok_iff, pure_eq_ok_iff, Prod.mk.injEq] at hrun
      obtain ⟨g₁, hset, -, rfl⟩ := hrun
      obtain ⟨-, -, -, hev⟩ := evolves_setArgType h hset
      exact ⟨hev.indexed, sameNodes_setArgType hset, fun given heq => by cases heq⟩
    · cases hrun
      exact ⟨h, .refl g, fun given heq => by cases heq⟩
  | fresh given =>
    simp only [placeOutput] at hrun
    split at hrun
    · next hnew =>
      cases hrun
      rw [newArg] at hnew
      split at hnew
      · cases hnew
      · next hname =>
        cases hnew
        exact ⟨h.pushArg hname _, ⟨rfl, rfl, rfl, rfl⟩, fun _ _ => rfl⟩
    · cases hrun
    · cases hrun

theorem placeOutputs_eq_ok {name : String} {primary : TensorType} (slots : List (OutputSlot × Nat))
    (h : g.Indexed) {outputs : List (Option ArgId)}
    (hrun : d.placeOutputs name primary slots g = .ok (outputs, g')) :
    g'.Indexed ∧ SameNodes g g' ∧ ∀ given i, slots.head? = some (.fresh given, i) →
      outputs.head? = some (some g.nextArg) := by
  induction slots generalizing g outputs with
  | nil =>
    cases hrun
    exact ⟨h, .refl _, nofun⟩
  | cons entry rest ih =>
    obtain ⟨slot, i⟩ := entry
    simp only [placeOutputs, bind_eq_ok_iff, pure_eq_ok_iff, Prod.mk.injEq] at hrun
    obtain ⟨⟨out, g₁⟩, hplace, ⟨outs, g₂⟩, hrest, rfl, rfl⟩ := hrun
    obtain ⟨hindexed, hsame, hfresh⟩ := placeOutput_eq_ok h hplace
    obtain ⟨hindexed', hsame', -⟩ := ih hindexed hrest
    refine ⟨hindexed', hsame.trans hsame', ?_⟩
    intro given j hhead
    cases hhead
    exact congrArg some (hfresh given rfl)

theorem live_of_check {done : Unit} (hcheck : d.check g = .ok done) {old : ArgId} {kind : Anchor}
    (hanchor : d.anchor = some (old, kind)) : (g.arg? old).isSome := by
  rw [check] at hcheck
  split at hcheck
  · cases hcheck
  · simp only [bind_eq_ok_iff] at hcheck
    obtain ⟨-, -, -, -, hcheck⟩ := hcheck
    simp only [checkAnchor, hanchor] at hcheck
    split at hcheck
    · cases hcheck
    · next arg harg => simp [harg]

theorem build_cases (h : g.Indexed) {id : NodeId} {outputs : List (Option ArgId)}
    (hrun : d.build g = .ok ((id, outputs), g')) :
    ∃ g₁ name spec, g₁.Indexed ∧ SameNodes g g₁ ∧ g₁.Admits name spec ∧ spec.outputs = outputs ∧
      spec.attrs = d.attrs ∧ id = g₁.nextNode ∧
      d.recordAnchor (g₁.pushNode name spec) outputs = .ok g' ∧
      (∀ old kind, d.anchor = some (old, kind) → (g.arg? old).isSome) ∧
      ∀ given, d.slots.head? = some (.fresh given) → outputs.head? = some (some g.nextArg) := by
  simp only [build, bind_eq_ok_iff] at hrun
  obtain ⟨_, hcheck, type, -, ⟨outputs', g₁⟩, hplace, hrun⟩ := hrun
  generalize d.name.getD (g.freshNodeName (d.pass ++ "/" ++ d.key.opType)) = given at hplace hrun
  obtain ⟨hindexed, hsame, hfresh⟩ := placeOutputs_eq_ok _ h hplace
  obtain ⟨failure, heq⟩ | ⟨name, hadmits, heq, -⟩ :=
    addNode_cases ⟨given, d.key, d.inputs, outputs', d.attrs⟩ g₁
  · simp only [heq] at hrun
    cases failure <;> cases hrun
  · simp only [heq, bind_eq_ok_iff, pure_eq_ok_iff, Prod.mk.injEq] at hrun
    obtain ⟨g₂, hrecord, ⟨rfl, rfl⟩, rfl⟩ := hrun
    refine ⟨g₁, name, _, hindexed, hsame, hadmits, rfl, rfl, rfl, hrecord,
      fun _ _ hanchor => live_of_check hcheck hanchor, ?_⟩
    intro argName hhead
    apply hfresh argName 0
    change d.slots.zipIdx.head? = _
    rw [List.head?_zipIdx, hhead]
    rfl

end Draft

end OpGraph
