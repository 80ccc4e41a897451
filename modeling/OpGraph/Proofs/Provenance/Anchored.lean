import OpGraph.Proofs.Graph.Placed
import OpGraph.Proofs.Graph.Pruned
import OpGraph.Proofs.Model.RoundTrip
import OpGraph.Proofs.Provenance.Chain

/-!
Fix-points of anchored tensors. A tensor can have a fix-point in two places: as an attribute of its
producer and in the log. Asked for its fix-point, the graph prefers the attribute; anchoring a node
to the tensor takes over what the log says, and the attribute only if the log says nothing. So the
first output of the new node has the fix-point of the anchored tensor exactly if the two places do
not contradict each other. What it got stays with it, whatever happens to the producer of the
tensor.
-/

namespace OpGraph

namespace Graph

variable {g g' : Graph} {a : ArgId}

/-- The fix-point that the producer of an arg has as an attribute. -/
def heldFixPoint? (g : Graph) (a : ArgId) : Option Int64 :=
  (g.producer? a).bind fun id => (g.node? id).bind fun node => node.attrInt? fixPointAttr

/-- All nodes are nodes of the first graph, but for what they read. -/
def NodesFrom (g g' : Graph) : Prop :=
  ∀ id node, g'.node? id = some node → ∃ inputs, g.node? id = some { node with inputs }

theorem NodesFrom.of_subset (hsub : ∀ id node, g'.node? id = some node → g.node? id = some node) :
    NodesFrom g g' :=
  fun id node hnode => ⟨node.inputs, hsub id node hnode⟩

def withoutProducer (g : Graph) (a : ArgId) : Except Fault Graph :=
  match g.producer? a with
  | none => .ok g
  | some id => Prod.snd <$> g.removeNode id

theorem heldFixPoint?_of_producer?_eq_none (hproducer : g.producer? a = none) :
    g.heldFixPoint? a = none := by
  rw [heldFixPoint?, hproducer, Option.bind_none]

theorem SameNodes.heldFixPoint?_eq (h : SameNodes g g') (a : ArgId) :
    g'.heldFixPoint? a = g.heldFixPoint? a := by
  simp only [heldFixPoint?, h.producer?_eq, h.node?_eq]

namespace Indexed

variable (h : g.Indexed)

include h

theorem fixPoint?_eq (a : ArgId) :
    g.fixPoint? a = .ok (g.heldFixPoint? a <|> g.log.fixPoint? a) := by
  rw [fixPoint?, heldFixPoint?]
  cases hproducer : g.producer? a with
  | none => rfl
  | some id =>
    obtain ⟨node, hnode, -⟩ := h.producer?_eq_some_iff.mp hproducer
    simp only [node_eq_ok_iff.mpr hnode, Option.bind_some, hnode]
    rfl

theorem heldFixPoint?_of_mem {id : NodeId} {node : Node} (hnode : g.node? id = some node)
    (ha : a ∈ node.presentOutputs) : g.heldFixPoint? a = node.attrInt? fixPointAttr := by
  rw [heldFixPoint?, h.producer?_eq_some_iff.mpr ⟨node, hnode, ha⟩, Option.bind_some, hnode,
    Option.bind_some]

theorem heldFixPoint?_eq_none (hnone : ∀ id node, g.node? id = some node →
    a ∈ node.presentOutputs → node.attrInt? fixPointAttr = none) : g.heldFixPoint? a = none := by
  rw [heldFixPoint?]
  cases hproducer : g.producer? a with
  | none => rfl
  | some id =>
    obtain ⟨node, hnode, ha⟩ := h.producer?_eq_some_iff.mp hproducer
    rw [Option.bind_some, hnode, Option.bind_some, hnone id node hnode ha]

theorem heldFixPoint?_of_nodesFrom (h' : g'.Indexed) (hfrom : NodesFrom g g')
    (hnone : g.heldFixPoint? a = none) : g'.heldFixPoint? a = none := by
  apply h'.heldFixPoint?_eq_none
  intro id node hnode ha
  obtain ⟨inputs, hbefore⟩ := hfrom id node hnode
  exact (h.heldFixPoint?_of_mem hbefore ha).symm.trans hnone

theorem heldFixPoint?_pushNode {name : String} {spec : NodeSpec} (hadmits : g.Admits name spec)
    (ha : a ∈ present spec.outputs → spec.attrs[fixPointAttr]?.bind Attr.int? = none) :
    (g.pushNode name spec).heldFixPoint? a = g.heldFixPoint? a := by
  have hpushed := h.pushNode hadmits
  cases hproducer : g.producer? a with
  | none =>
    rw [heldFixPoint?_of_producer?_eq_none hproducer]
    apply hpushed.heldFixPoint?_eq_none
    intro id node hnode hmem
    rw [node?_pushNode] at hnode
    split at hnode
    · cases hnode
      exact ha hmem
    · rw [h.producer?_eq_some_iff.mpr ⟨node, hnode, hmem⟩] at hproducer
      cases hproducer
  | some id =>
    obtain ⟨node, hnode, hmem⟩ := h.producer?_eq_some_iff.mp hproducer
    have hkept : (g.pushNode name spec).node? id = some node := by
      rw [node?_pushNode, if_neg]
      · exact hnode
      · rintro rfl
        rw [node?_nextNode] at hnode
        cases hnode
    rw [hpushed.heldFixPoint?_of_mem hkept hmem, h.heldFixPoint?_of_mem hnode hmem]

theorem withoutProducer_eq (a : ArgId) :
    ∃ ms g', g.withoutProducer a = .ok g' ∧ g.runAll ms = .ok g' ∧
      ∀ spec, Mutation.addNode spec ∉ ms := by
  rw [withoutProducer]
  cases hproducer : g.producer? a with
  | none => exact ⟨[], g, rfl, rfl, fun _ => List.not_mem_nil⟩
  | some id =>
    obtain ⟨node, hnode, -⟩ := h.producer?_eq_some_iff.mp hproducer
    refine ⟨[.removeNode id], g.dropNode node, ?_, ?_, by simp⟩
    · simp only [removeNode_succeeds h hnode]
      rfl
    · rw [runAll, List.foldlM_cons, Mutation.run, removeNode_succeeds h hnode]
      rfl

end Indexed

/-! ### What is left of the log -/

theorem log_removeDead {fuel removed removed' : Nat}
    (hrun : removeDead fuel removed g = .ok (removed', g')) : g'.log = g.log := by
  induction fuel generalizing removed g with
  | zero =>
    cases hrun
    rfl
  | succ fuel ih =>
    rw [removeDead] at hrun
    split at hrun
    · cases hrun
      rfl
    · rw [bind_eq_ok_iff] at hrun
      obtain ⟨g₁, hg₁, hrun⟩ := hrun
      refine (ih hrun).trans (foldlM_keeps (P := fun s => s.log = g.log) _ ?_ _ _ rfl hg₁)
      intro id _ s s' hs hstep
      simp only [map_eq_ok_iff, removeNode, bind_eq_ok_iff, pure_eq_ok_iff] at hstep
      obtain ⟨_, ⟨node, -, rfl⟩, rfl⟩ := hstep
      exact hs

theorem log_removeOrphans (g : Graph) : g.removeOrphans.log = g.log := by
  rw [removeOrphans]
  refine List.foldlRecOn (motive := fun (s : Graph) => s.log = g.log) _ _ rfl ?_
  intro s hs a _
  rw [removeArg]
  split
  · exact hs
  · exact hs

theorem log_collect {removed : Nat} (hrun : g.collect = .ok (removed, g')) :
    g'.log = g.log.retainReachable g'.argIds := by
  simp only [collect, bind_eq_ok_iff, pure_eq_ok_iff] at hrun
  obtain ⟨⟨count, g₁⟩, hdead, heq⟩ := hrun
  cases heq
  rw [pruneLog, log_removeOrphans, log_removeDead hdead]
  rfl

theorem Mutation.nodesFrom_log (h : g.Indexed) (m : Mutation) (hm : ∀ spec, m ≠ .addNode spec)
    (hrun : m.run g = .ok g') :
    NodesFrom g g' ∧ (g'.log = g.log ∨ g'.log = g.log.retainReachable g'.argIds) := by
  have hsame : SameNodes g g' →
      NodesFrom g g' ∧ (g'.log = g.log ∨ g'.log = g.log.retainReachable g'.argIds) :=
    fun hs => ⟨.of_subset fun id node hnode => hs.node?_eq id ▸ hnode, .inl hs.log⟩
  cases m with
  | newArg name type => exact hsame (sameNodes_newArg hrun)
  | addInput name type => exact hsame (sameNodes_addInput hrun)
  | addInitializer name tensor => exact hsame (sameNodes_addInitializer hrun)
  | setInitializer arg tensor => exact hsame (sameNodes_setInitializer hrun)
  | removeInitializer arg =>
    cases hrun
    exact hsame ⟨rfl, rfl, rfl, rfl⟩
  | addOutput arg =>
    simp only [Mutation.run, Graph.addOutput, bind_eq_ok_iff, pure_eq_ok_iff] at hrun
    obtain ⟨-, -, rfl⟩ := hrun
    refine ⟨.of_subset fun id node hnode => ?_, .inl ?_⟩
    · split at hnode <;> exact hnode
    · split <;> rfl
  | setArgType arg type => exact hsame (sameNodes_setArgType hrun)
  | addNode spec => exact absurd rfl (hm spec)
  | removeNode node =>
    obtain ⟨⟨removed, g'⟩, hremove, rfl⟩ := map_eq_ok_iff.mp hrun
    obtain ⟨-, -, rfl⟩ := removeNode_eq_ok h hremove
    refine ⟨.of_subset fun id node hnode => ?_, .inl rfl⟩
    rw [node?_dropNode] at hnode
    split at hnode
    · cases hnode
    · exact hnode
  | setInput node slot arg =>
    obtain ⟨read, hread, -, rfl⟩ := setInput_eq_ok hrun
    refine ⟨fun id node' hnode => ?_, .inl rfl⟩
    rw [node?_withInput hread] at hnode
    split at hnode
    · next heq =>
      cases hnode
      exact ⟨read.inputs, heq ▸ hread⟩
    · exact ⟨node'.inputs, hnode⟩
  | replaceAllUses old new =>
    obtain ⟨-, -, ⟨-, rfl⟩ | ⟨-, -, hreplaced⟩⟩ := replaceAllUses_eq_ok h hrun
    · exact hsame (.refl g')
    · refine ⟨fun id node hnode => ?_, .inl hreplaced.log⟩
      rw [hreplaced.nodes, Option.map_eq_some_iff] at hnode
      obtain ⟨before, hbefore, rfl⟩ := hnode
      exact ⟨before.inputs, hbefore⟩
  | resolve => exact hsame (sameNodes_resolve h hrun)
  | collect =>
    obtain ⟨⟨removed, g'⟩, hcollect, rfl⟩ := map_eq_ok_iff.mp hrun
    exact ⟨.of_subset (trimmed_collect h hcollect).nodes, .inr (log_collect hcollect)⟩

theorem fixPoint?_of_runAll (h : g.Indexed) (hnone : g.heldFixPoint? a = none)
    (hknown : a.index < g.args.size) {ms : List Mutation} (hms : ∀ spec, Mutation.addNode spec ∉ ms)
    (hrun : g.runAll ms = .ok g') (hlive : (g'.arg? a).isSome) :
    g'.fixPoint? a = g.fixPoint? a := by
  induction ms generalizing g with
  | nil =>
    cases hrun
    rfl
  | cons m ms ih =>
    rw [runAll, List.foldlM_cons, bind_eq_ok_iff] at hrun
    obtain ⟨s, hstep, hrest⟩ := hrun
    simp only [List.mem_cons, not_or] at hms
    have hev := m.evolves h hstep
    obtain ⟨hfrom, hlog⟩ := m.nodesFrom_log h (fun spec heq => (hms spec).1 heq.symm) hstep
    have hknown' := Nat.lt_of_lt_of_le hknown hev.args_grow
    have hnone' := h.heldFixPoint?_of_nodesFrom hev.indexed hfrom hnone
    rw [ih hev.indexed hnone' hknown' (fun spec => (hms spec).2) hrest, hev.indexed.fixPoint?_eq,
      h.fixPoint?_eq, hnone, hnone']
    rcases hlog with hlog | hlog
    · rw [hlog]
    · -- An arg that is live at the end has been live all the time.
      have hmid : (s.arg? a).isSome := by
        by_contra hgone
        rw [Option.not_isSome_iff_eq_none] at hgone
        rw [(evolves_runAll hev.indexed hrest).args_gone a hknown' hgone] at hlive
        cases hlive
      rw [hlog, Log.fixPoint?_retainReachable (hev.indexed.mem_argIds.mpr hmid)]

theorem fixPoint?_of_removal (h : g.Indexed) (hnone : g.heldFixPoint? a = none)
    (hknown : a.index < g.args.size) {ms : List Mutation} (hms : ∀ spec, Mutation.addNode spec ∉ ms)
    {g₁ : Graph} (hrun : g.runAll ms = .ok g₁) (old : ArgId) :
    ∃ g₂ removed g₃, g₁.withoutProducer old = .ok g₂ ∧ g₂.collect = .ok (removed, g₃) ∧
      ((g₃.arg? a).isSome → g₃.fixPoint? a = g.fixPoint? a) := by
  have hg₁ := (evolves_runAll h hrun).indexed
  obtain ⟨ms', g₂, hremoval, hremove, hms'⟩ := hg₁.withoutProducer_eq old
  obtain ⟨removed, g₃, hcollect, -⟩ := pruned_collect (evolves_runAll hg₁ hremove).indexed
  refine ⟨g₂, removed, g₃, hremoval, hcollect, fun hlive => ?_⟩
  have hall : g.runAll (ms ++ (ms' ++ [.collect])) = .ok g₃ := by
    rw [runAll] at hrun hremove ⊢
    rw [List.foldlM_append, hrun, ok_bind, List.foldlM_append, hremove, ok_bind, List.foldlM_cons,
      Mutation.run, hcollect]
    rfl
  refine fixPoint?_of_runAll h hnone hknown (fun spec => ?_) hall hlive
  simp [hms spec, hms' spec]

end Graph

/-! ### Recording an anchor -/

namespace Draft

open OpGraph.Graph

variable {d : Draft} {g g' : Graph} {old out : ArgId} {kind : Anchor}

theorem captureFixPoint_fixPoint? (h : g.Indexed) (hrun : d.captureFixPoint g old = .ok g') :
    g'.log.fixPoint? old = (g.log.fixPoint? old <|> g.heldFixPoint? old) ∧
      ∀ a, a ≠ old → g'.log.events a = g.log.events a := by
  rw [captureFixPoint] at hrun
  split at hrun
  · next hsome =>
    cases hrun
    obtain ⟨n, hn⟩ := Option.isSome_iff_exists.mp hsome
    rw [hn]
    exact ⟨rfl, fun _ _ => rfl⟩
  · next hnot =>
    have hnone : g.log.fixPoint? old = none := by simpa using hnot
    rw [hnone, heldFixPoint?]
    split at hrun
    · next id hproducer =>
      obtain ⟨node, hnode, -⟩ := h.producer?_eq_some_iff.mp hproducer
      rw [node_eq_ok_iff.mpr hnode, ok_bind] at hrun
      rw [hproducer, Option.bind_some, hnode, Option.bind_some]
      split at hrun
      · next n hn =>
        cases hrun
        refine ⟨by rw [Log.fixPoint?_annotate, hn]; rfl, fun a ha => ?_⟩
        rw [Log.annotate, Log.events_record, if_neg ha]
      · next hn =>
        cases hrun
        exact ⟨by rw [hnone, hn]; rfl, fun _ _ => rfl⟩
    · next hproducer =>
      cases hrun
      rw [Option.eq_none_iff_forall_ne_some.mpr hproducer]
      exact ⟨hnone, fun _ _ => rfl⟩

theorem recordAnchor_fixPoint? (h : g.Indexed) (hanchor : d.anchor = some (old, kind))
    (hkind : kind.fixPoint? = none) {outputs : List (Option ArgId)}
    (hout : outputs.head? = some (some out)) (hne : out ≠ old) (hnew : g.log.events out = [])
    (hrun : d.recordAnchor g outputs = .ok g') :
    g'.log.fixPoint? out = (g.log.fixPoint? old <|> g.heldFixPoint? old) := by
  simp only [recordAnchor, hanchor, hout, Option.join_some, bind_eq_ok_iff, pure_eq_ok_iff] at hrun
  obtain ⟨g₁, hcapture, rfl⟩ := hrun
  obtain ⟨hfix, hevents⟩ := captureFixPoint_fixPoint? h hcapture
  rw [← hfix]
  exact Log.fixPoint?_record ((hevents out hne).trans hnew) hkind d.pass

theorem build_fixPoint? (h : g.Indexed) (hanchor : d.anchor = some (old, kind))
    (hkind : kind.fixPoint? = none) {given : Option String}
    (hfresh : d.slots.head? = some (.fresh given)) (hnew : g.log.events g.nextArg = [])
    {id : NodeId} {outputs : List (Option ArgId)} (hrun : d.build g = .ok ((id, outputs), g'))
    (hold : some old ∈ outputs → d.attrs[fixPointAttr]?.bind Attr.int? = none) :
    g'.log.fixPoint? g.nextArg = (g.log.fixPoint? old <|> g.heldFixPoint? old) := by
  obtain ⟨gp, name, spec, hplaced, hsame, hadmits, houtputs, hattrs, -, hrecord, hlive, hhead⟩ :=
    build_cases h hrun
  have hne : g.nextArg ≠ old := by
    rintro rfl
    have hold := hlive _ _ hanchor
    rw [arg?_nextArg] at hold
    cases hold
  have hlog : (gp.pushNode name spec).log = g.log := hsame.log
  have hheld : (gp.pushNode name spec).heldFixPoint? old = g.heldFixPoint? old := by
    rw [hplaced.heldFixPoint?_pushNode hadmits, hsame.heldFixPoint?_eq]
    rw [mem_present_iff, houtputs, hattrs]
    exact hold
  rw [recordAnchor_fixPoint? (hplaced.pushNode hadmits) hanchor hkind (hhead given hfresh) hne
    (hlog ▸ hnew) hrecord, hheld, hlog]

theorem build_anchored (h : g.Indexed) (hanchor : d.anchor = some (old, kind))
    (hkind : ∀ n, kind ≠ .fixPoint n) (hattr : fixPointAttr ∉ d.attrs) {given : Option String}
    (hfresh : d.slots.head? = some (.fresh given)) (hnew : g.log.events g.nextArg = [])
    {id : NodeId} {outputs : List (Option ArgId)} (hrun : d.build g = .ok ((id, outputs), g')) :
    g'.Indexed ∧ outputs.head? = some (some g.nextArg) ∧ g.nextArg.index < g'.args.size ∧
      g'.heldFixPoint? g.nextArg = none ∧
      g'.log.fixPoint? g.nextArg = (g.log.fixPoint? old <|> g.heldFixPoint? old) := by
  have hkindless : kind.fixPoint? = none := by
    cases kind with
    | fixPoint n => exact absurd rfl (hkind n)
    | _ => rfl
  have hunheld : d.attrs[fixPointAttr]?.bind Attr.int? = none := by simp [hattr]
  have hfix := build_fixPoint? h hanchor hkindless hfresh hnew hrun fun _ => hunheld
  obtain ⟨gp, name, spec, hplaced, hsame, hadmits, houtputs, hattrs, -, hrecord, -, hhead⟩ :=
    build_cases h hrun
  have hout := hhead given hfresh
  have hpushed := hplaced.pushNode hadmits
  have hknown : g.nextArg.index < gp.args.size := by
    apply lt_size_of_join_isSome
    exact hadmits.outputs_live g.nextArg (mem_present_iff.mpr (houtputs ▸ List.mem_of_head? hout))
  have hnone : (gp.pushNode name spec).heldFixPoint? g.nextArg = none := by
    rw [hplaced.heldFixPoint?_pushNode hadmits (fun _ => hattrs ▸ hunheld), hsame.heldFixPoint?_eq]
    exact heldFixPoint?_of_producer?_eq_none (producers_nextArg h)
  obtain ⟨log, rfl⟩ := recordAnchor_eq_ok hrecord
  exact ⟨hpushed.setLog log, hout, hknown, hnone, hfix⟩

/--
The first output of a node that is anchored to a tensor has the fix-point which the log gives for
the tensor, or else that of the producer of the tensor. The graph gives the one of the producer
first, so the tensor and the output have the same fix-point exactly if the log and the producer do
not contradict each other. The output keeps its fix-point through all edits that add no node, and
then when the producer of the tensor is removed and the garbage collected.
-/
theorem fixPoint_of_anchored (h : g.Indexed) (hanchor : d.anchor = some (old, kind))
    (hkind : ∀ n, kind ≠ .fixPoint n) (hattr : fixPointAttr ∉ d.attrs) {given : Option String}
    (hfresh : d.slots.head? = some (.fresh given)) (hnew : g.log.events g.nextArg = [])
    {id : NodeId} {outputs : List (Option ArgId)} (hrun : d.build g = .ok ((id, outputs), g')) :
    outputs.head? = some (some g.nextArg) ∧
    g.fixPoint? old = .ok (g.heldFixPoint? old <|> g.log.fixPoint? old) ∧
    g'.fixPoint? g.nextArg = .ok (g.log.fixPoint? old <|> g.heldFixPoint? old) ∧
    (g'.fixPoint? g.nextArg = g.fixPoint? old ↔
      ∀ n m, g.heldFixPoint? old = some n → g.log.fixPoint? old = some m → n = m) ∧
    ∀ ms g₁, (∀ spec, Mutation.addNode spec ∉ ms) → g'.runAll ms = .ok g₁ →
      ∃ g₂ removed g₃, g₁.withoutProducer old = .ok g₂ ∧ g₂.collect = .ok (removed, g₃) ∧
        ((g₃.arg? g.nextArg).isSome → g₃.fixPoint? g.nextArg = g'.fixPoint? g.nextArg) := by
  obtain ⟨hg', hout, hknown, hnone, hfix⟩ := build_anchored h hanchor hkind hattr hfresh hnew hrun
  have hafter : g'.fixPoint? g.nextArg = .ok (g.log.fixPoint? old <|> g.heldFixPoint? old) := by
    rw [hg'.fixPoint?_eq, hnone, ← hfix]
    rfl
  refine ⟨hout, h.fixPoint?_eq old, hafter, ?_, ?_⟩
  · rw [hafter, h.fixPoint?_eq old]
    cases g.heldFixPoint? old <;> cases g.log.fixPoint? old <;> simp [eq_comm]
  · intro ms g₁ hms hedits
    exact fixPoint?_of_removal hg' hnone hknown hms hedits old

def quantized : List Mutation :=
  [.addInput "x" ⟨.float32, none⟩, .newArg "q" ⟨.float32, none⟩,
    .addNode ⟨"fix", .fix, [some ⟨0⟩], [some ⟨1⟩], (∅ : Attrs).insert fixPointAttr (.int 3)⟩]

def standIn (old : ArgId) : Draft :=
  (((new "rewrite").withOpType "Relu").withInputs [⟨0⟩]).anchorSame old

/-- The tensor is gone at the end, and its stand-in still has the fix-point of its producer. -/
theorem fixPoint_of_anchored_quantized : ∃ g g' g₁ g₂ removed g₃,
    (Graph.empty "chain").runAll quantized = .ok g ∧
    (standIn ⟨1⟩).build g = .ok ((⟨1⟩, [some ⟨2⟩]), g') ∧ g'.fixPoint? ⟨2⟩ = g.fixPoint? ⟨1⟩ ∧
    g'.runAll [.addOutput ⟨2⟩] = .ok g₁ ∧ g₁.withoutProducer ⟨1⟩ = .ok g₂ ∧
    g₂.collect = .ok (removed, g₃) ∧ g₃.arg? ⟨1⟩ = none ∧ g₃.fixPoint? ⟨2⟩ = .ok (some 3) := by
  have hchecks : ∃ g ∈ ((Graph.empty "chain").runAll quantized).toOption,
      g.nextArg = ⟨2⟩ ∧ g.log.events ⟨2⟩ = [] ∧ g.heldFixPoint? ⟨1⟩ = some 3 ∧
      g.log.fixPoint? ⟨1⟩ = none ∧
      ∃ built ∈ ((standIn ⟨1⟩).build g).toOption, built.1 = (⟨1⟩, [some ⟨2⟩]) ∧
      ∃ g₁ ∈ (built.2.runAll [.addOutput ⟨2⟩]).toOption,
      ∃ g₂ ∈ (g₁.withoutProducer ⟨1⟩).toOption, ∃ collected ∈ g₂.collect.toOption,
        (collected.2.arg? ⟨2⟩).isSome = true ∧ collected.2.arg? ⟨1⟩ = none := by decide +kernel
  obtain ⟨g, hg, hnext, hnew, hheld, hlog, ⟨built, g'⟩, hbuilt, rfl, g₁, hg₁, g₂, hg₂,
    ⟨removed, g₃⟩, hg₃, hlive, hgone⟩ := hchecks
  have hrun := eq_ok_of_mem_toOption hg
  have hbuild := eq_ok_of_mem_toOption hbuilt
  have hremoval := eq_ok_of_mem_toOption hg₂
  have hcollect := eq_ok_of_mem_toOption hg₃
  obtain ⟨-, -, hafter, hsame, hlater⟩ := fixPoint_of_anchored
    (Reachable.runAll (.empty "chain") hrun).indexed rfl (fun n heq => by cases heq)
    (Std.ExtTreeMap.not_mem_empty) rfl (by rw [hnext, hnew]) hbuild
  rw [hnext] at hafter hsame hlater
  rw [hheld, hlog] at hafter hsame
  obtain ⟨g₂', removed', g₃', hremoval', hcollect', hfix⟩ :=
    hlater [.addOutput ⟨2⟩] g₁ (by simp) (eq_ok_of_mem_toOption hg₁)
  cases hremoval.symm.trans hremoval'
  cases hcollect.symm.trans hcollect'
  exact ⟨g, g', g₁, g₂, removed, g₃, hrun, hbuild, hsame.mpr (fun n m _ heq => by cases heq),
    eq_ok_of_mem_toOption hg₁, hremoval, hcollect, hgone, (hfix hlive).trans hafter⟩

def requantized : Draft :=
  ((((new "requantize").withKey .fix).withInputs [⟨1⟩]).withAttr fixPointAttr (.int 5)).anchorSame
    ⟨1⟩

/--
A tensor is requantized from 3 to 5: with the anchor the new tensor has 3 in its history, and its
producer holds 5. The graph gives 5, but what is anchored to the new tensor next has 3.
-/
theorem fixPoint_lost_by_requantized : ∃ g g₁ g₂,
    (Graph.empty "chain").runAll quantized = .ok g ∧
    requantized.build g = .ok ((⟨1⟩, [some ⟨2⟩]), g₁) ∧ g₁.fixPoint? ⟨2⟩ = .ok (some 5) ∧
    (standIn ⟨2⟩).build g₁ = .ok ((⟨2⟩, [some ⟨3⟩]), g₂) ∧ g₂.fixPoint? ⟨3⟩ = .ok (some 3) := by
  have hchecks : ∃ g ∈ ((Graph.empty "chain").runAll quantized).toOption,
      ∃ first ∈ (requantized.build g).toOption, first.1 = (⟨1⟩, [some ⟨2⟩]) ∧
      some 5 ∈ (first.2.fixPoint? ⟨2⟩).toOption ∧
      ∃ second ∈ ((standIn ⟨2⟩).build first.2).toOption, second.1 = (⟨2⟩, [some ⟨3⟩]) ∧
        some 3 ∈ (second.2.fixPoint? ⟨3⟩).toOption := by decide +kernel
  obtain ⟨g, hg, ⟨first, g₁⟩, hfirst, rfl, hfive, ⟨second, g₂⟩, hsecond, rfl, hthree⟩ := hchecks
  exact ⟨g, g₁, g₂, eq_ok_of_mem_toOption hg, eq_ok_of_mem_toOption hfirst,
    eq_ok_of_mem_toOption hfive, eq_ok_of_mem_toOption hsecond, eq_ok_of_mem_toOption hthree⟩

end Draft

end OpGraph
