import OpGraph.Graph.Draft
import OpGraph.Proofs.FreshName
import OpGraph.Proofs.Graph.Mutations

/-!
Committing a draft that leaves its outputs open: one new arg and one new node that produces it.
-/

namespace OpGraph

theorem Graph.live_pushArg {g : Graph} {a : ArgId} (ha : a = g.nextArg ∨ (g.arg? a).isSome)
    (name : String) (type : TensorType) : ((g.pushArg name type).arg? a).isSome := by
  rw [arg?_pushArg]
  split
  · rfl
  · next hne => exact ha.resolve_left hne

namespace Draft

variable {d : Draft} {g g' : Graph}

theorem captureFixPoint_eq_ok {old : ArgId} (hrun : d.captureFixPoint g old = .ok g') :
    ∃ log, g' = { g with log } := by
  rw [captureFixPoint] at hrun
  split at hrun
  · exact ⟨g.log, (Except.ok.inj hrun).symm⟩
  · split at hrun
    · rw [bind_eq_ok_iff] at hrun
      obtain ⟨node, -, hrun⟩ := hrun
      split at hrun
      · exact ⟨_, (Except.ok.inj hrun).symm⟩
      · exact ⟨g.log, (Except.ok.inj hrun).symm⟩
    · exact ⟨g.log, (Except.ok.inj hrun).symm⟩

theorem recordAnchor_eq_ok {outputs : List (Option ArgId)}
    (hrun : d.recordAnchor g outputs = .ok g') : ∃ log, g' = { g with log } := by
  rw [recordAnchor] at hrun
  split at hrun
  · rw [bind_eq_ok_iff] at hrun
    obtain ⟨g₁, hcapture, hrun⟩ := hrun
    obtain ⟨log, rfl⟩ := captureFixPoint_eq_ok hcapture
    exact ⟨_, (Except.ok.inj hrun).symm⟩
  · exact ⟨g.log, (Except.ok.inj hrun).symm⟩

theorem placeOutputs_fresh (name : String) (primary : TensorType) (g : Graph) :
    d.placeOutputs name primary [(.fresh none, 0)] g = .ok ([some g.nextArg],
      g.pushArg (g.freshArgName (name ++ ":" ++ toString 0)) primary) := by
  have hname := freshName_not_mem g.argNames (name ++ ":" ++ toString 0)
  have hplace : d.placeOutput name primary g (.fresh none) 0 = .ok (some g.nextArg,
      g.pushArg (g.freshArgName (name ++ ":" ++ toString 0)) primary) := by
    simp only [placeOutput, Graph.newArg, Option.getD_none, Graph.freshArgName, if_neg hname,
      if_true]
  rw [placeOutputs, hplace]
  rfl

def nodeIn (d : Draft) (g : Graph) (name : String) : Node :=
  ⟨g.nextNode, name, d.key, d.inputs, [some g.nextArg], d.attrs⟩

theorem build_eq_ok (houtputs : d.outputs = []) {id : NodeId} {outputs : List (Option ArgId)}
    (hrun : d.build g = .ok ((id, outputs), g')) :
    outputs = [some g.nextArg] ∧ ∃ argName type name spec log, argName ∉ g.argNames ∧
      (g.pushArg argName type).Admits name spec ∧
      d.nodeIn g name = ⟨g.nextNode, name, spec.key, spec.inputs, spec.outputs, spec.attrs⟩ ∧
      g' = { (g.pushArg argName type).pushNode name spec with log } := by
  simp only [build, houtputs, List.isEmpty_nil, if_true, bind_eq_ok_iff] at hrun
  obtain ⟨-, -, type, -, ⟨outputs', g₁⟩, hplace, hrun⟩ := hrun
  generalize d.name.getD (g.freshNodeName (d.pass ++ "/" ++ d.key.opType)) = given at hplace hrun
  rw [List.zipIdx_singleton, placeOutputs_fresh] at hplace
  cases hplace
  obtain ⟨failure, heq⟩ | ⟨name, hadmits, heq, -⟩ := Graph.addNode_cases
    ⟨given, d.key, d.inputs, [some g.nextArg], d.attrs⟩
    (g.pushArg (g.freshArgName (given ++ ":" ++ toString 0)) type)
  · simp only [heq] at hrun
    cases failure <;> cases hrun
  · simp only [heq, bind_eq_ok_iff, pure_eq_ok_iff, Prod.mk.injEq] at hrun
    obtain ⟨g₂, hrecord, ⟨-, rfl⟩, rfl⟩ := hrun
    obtain ⟨log, rfl⟩ := recordAnchor_eq_ok hrecord
    exact ⟨rfl, _, type, name, _, log, freshName_not_mem _ _, hadmits, rfl, rfl⟩

/-! ### Drafts that can be committed -/

structure Buildable (d : Draft) (g : Graph) : Prop where
  opType : d.key.opType ≠ ""
  arity : d.checkArity = .ok ()
  inputs : ∀ a ∈ present d.inputs, (g.arg? a).isSome
  anchor : ∀ old kind, d.anchor = some (old, kind) →
    (g.arg? old).isSome ∧ ∀ order, kind ≠ .transpose order
  name : d.name = none
  outputs : d.outputs = []
  shape : d.shape = none

namespace Buildable

variable (hd : d.Buildable g)

include hd

theorem checkInputs_eq : d.checkInputs g = .ok () := by
  have hnone : (present d.inputs).find? (fun arg => (g.arg? arg).isNone) = none := by
    rw [List.find?_eq_none]
    intro a ha
    simpa [Option.isSome_iff_ne_none] using hd.inputs a ha
  rw [checkInputs, hnone]

theorem checkAnchor_eq : d.checkAnchor g = .ok () := by
  rw [checkAnchor]
  cases hanchor : d.anchor with
  | none => rfl
  | some anchor =>
    obtain ⟨old, kind⟩ := anchor
    obtain ⟨hlive, hkind⟩ := hd.anchor old kind hanchor
    obtain ⟨arg, harg⟩ := Option.isSome_iff_exists.mp hlive
    simp only [harg]

theorem check_eq : d.check g = .ok () := by
  rw [check, if_neg hd.opType, hd.arity, hd.checkInputs_eq, hd.checkAnchor_eq]
  rfl

theorem primaryType_succeeds : ∃ type, d.primaryType g = .ok type := by
  have hanchored : ∃ type, d.anchoredType? g = .ok type := by
    rw [anchoredType?]
    split
    · exact ⟨_, rfl⟩
    · next old kind hanchor =>
      obtain ⟨arg, harg⟩ := Option.isSome_iff_exists.mp (hd.anchor old kind hanchor).1
      rw [Graph.arg_eq_ok_iff.mpr harg]
      exact ⟨_, rfl⟩
  have hinput : ∃ type, d.inputType? g = .ok type := by
    rw [inputType?]
    split
    · exact ⟨_, rfl⟩
    · next a ha =>
      have hmem : a ∈ present d.inputs := by
        rw [Option.join_eq_some_iff] at ha
        exact mem_present_iff.mpr (List.mem_of_head? ha)
      obtain ⟨arg, harg⟩ := Option.isSome_iff_exists.mp (hd.inputs a hmem)
      rw [Graph.arg_eq_ok_iff.mpr harg]
      exact ⟨_, rfl⟩
  apply bind_succeeds hanchored
  intro anchored _
  apply bind_succeeds hinput
  intro input _
  rw [hd.shape]
  exact ⟨_, rfl⟩

theorem admits (h : g.Indexed) (argName : String) (type : TensorType) {name : String}
    (hname : name ∉ g.nodeNames) (label : String) :
    (g.pushArg argName type).Admits name ⟨label, d.key, d.inputs, [some g.nextArg], d.attrs⟩ where
  name_free := hname
  inputs_live a ha := Graph.live_pushArg (.inr (hd.inputs a ha)) argName type
  outputs_live a ha := by
    cases List.mem_singleton.mp ha
    exact Graph.live_pushArg (.inl rfl) argName type
  outputs_free a ha := by
    cases List.mem_singleton.mp ha
    have hgone : ¬ (g.arg? g.nextArg).isSome := by simp [Graph.arg?_nextArg]
    exact ⟨Graph.producers_nextArg h, fun hin => hgone (h.inputs_live _ hin),
      fun hinit => hgone (h.initializers_live _ hinit)⟩

end Buildable

theorem recordAnchor_succeeds (h : g.Indexed) (outputs : List (Option ArgId)) :
    ∃ g', d.recordAnchor g outputs = .ok g' := by
  have hcapture : ∀ old, ∃ g', d.captureFixPoint g old = .ok g' := by
    intro old
    rw [captureFixPoint]
    split
    · exact ⟨_, rfl⟩
    · split
      · next producer hproducer =>
        obtain ⟨node, hnode, -⟩ := h.producer?_eq_some_iff.mp hproducer
        rw [Graph.node_eq_ok_iff.mpr hnode, ok_bind]
        split
        · exact ⟨_, rfl⟩
        · exact ⟨_, rfl⟩
      · exact ⟨_, rfl⟩
  rw [recordAnchor]
  split
  · next old kind out _ _ =>
    obtain ⟨g', hg'⟩ := hcapture old
    rw [hg']
    exact ⟨_, rfl⟩
  · exact ⟨_, rfl⟩

theorem build_succeeds (h : g.Indexed) (hd : d.Buildable g) : ∃ result, d.build g = .ok result := by
  obtain ⟨type, htype⟩ := hd.primaryType_succeeds
  have hfresh := freshName_not_mem g.nodeNames (d.pass ++ "/" ++ d.key.opType)
  simp only [build, hd.check_eq, htype, hd.outputs, hd.name, ok_bind, List.isEmpty_nil, if_true,
    List.zipIdx_singleton, placeOutputs_fresh, Option.getD_none]
  change g.freshNodeName (d.pass ++ "/" ++ d.key.opType) ∉ _ at hfresh
  generalize g.freshNodeName (d.pass ++ "/" ++ d.key.opType) = label at hfresh ⊢
  have hargName := freshName_not_mem g.argNames (label ++ ":" ++ toString 0)
  change g.freshArgName (label ++ ":" ++ toString 0) ∉ _ at hargName
  generalize g.freshArgName (label ++ ":" ++ toString 0) = argName at hargName ⊢
  have hname : (if label = "" then (g.pushArg argName type).freshNodeName d.key.opType else label) ∉
      g.nodeNames := by
    split
    · exact freshName_not_mem g.nodeNames d.key.opType
    · exact hfresh
  have hadmits := hd.admits h argName type hname label
  obtain ⟨g', hrecord⟩ :=
    recordAnchor_succeeds (d := d) ((h.pushArg hargName type).pushNode hadmits) [some g.nextArg]
  simp only [Graph.addNode_succeeds hadmits rfl, hrecord]
  exact ⟨_, rfl⟩

end Draft

end OpGraph
