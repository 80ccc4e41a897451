import OpGraph.Proofs.Graph.LeastOrder

/-!
Filling in types. Every step fills in the first output of one node, and in a topological order a
node is visited when the type that it reads is final. So one sweep leaves nothing to fill in: it
only adds to what was known, and a second validation finds the graph as it should be.
-/

namespace OpGraph

structure TensorType.RefinedBy (t t' : TensorType) : Prop where
  elem : t'.elem = t.elem ∨ t.elem = .undefined
  shape : t'.shape = t.shape ∨ t.shape = none

namespace TensorType

theorem RefinedBy.refl (t : TensorType) : t.RefinedBy t := ⟨.inl rfl, .inl rfl⟩

theorem RefinedBy.trans {t₁ t₂ t₃ : TensorType} (h : t₁.RefinedBy t₂) (h' : t₂.RefinedBy t₃) :
    t₁.RefinedBy t₃ := by
  obtain ⟨helem, hshape⟩ := h
  obtain ⟨helem', hshape'⟩ := h'
  constructor
  · grind
  · grind

end TensorType

namespace Graph

variable {g g' : Graph} {id : NodeId} {node : Node} {order : List NodeId}

/-- The second graph is the first one with some unknown parts of types filled in. -/
structure RefinedBy (g g' : Graph) : Prop where
  rest : g' = { g with args := g'.args }
  size : g'.args.size = g.args.size
  args : ∀ a, Option.Rel (fun arg arg' : Arg => ∃ type, arg.type.RefinedBy type ∧
    arg' = { arg with type }) (g.arg? a) (g'.arg? a)

theorem RefinedBy.refl (g : Graph) : g.RefinedBy g where
  rest := rfl
  size := rfl
  args a := by
    cases g.arg? a with
    | none => exact .none
    | some arg => exact .some ⟨arg.type, .refl arg.type, rfl⟩

theorem RefinedBy.trans {g₁ g₂ g₃ : Graph} (h : g₁.RefinedBy g₂) (h' : g₂.RefinedBy g₃) :
    g₁.RefinedBy g₃ where
  rest := by rw [h'.rest, h.rest]
  size := h'.size.trans h.size
  args a := by
    have hfirst := h.args a
    have hsecond := h'.args a
    generalize g₁.arg? a = x₁, g₂.arg? a = x₂, g₃.arg? a = x₃ at hfirst hsecond ⊢
    cases hfirst with
    | none =>
      cases hsecond
      exact .none
    | some hfirst =>
      obtain ⟨type, htype, rfl⟩ := hfirst
      cases hsecond with
      | some hsecond =>
        obtain ⟨type', htype', rfl⟩ := hsecond
        exact .some ⟨type', htype.trans htype', rfl⟩

theorem RefinedBy.retyped (h : g.RefinedBy g') : Retyped g g' where
  rest := h.rest
  names a := by
    have hrel := h.args a
    generalize g.arg? a = x, g'.arg? a = x' at hrel ⊢
    cases hrel with
    | none => rfl
    | some hrel =>
      obtain ⟨type, -, rfl⟩ := hrel
      rfl

theorem Indexed.refinedBy_putArg (h : g.Indexed) {arg : Arg} {out : ArgId}
    (harg : g.arg? out = some arg) {type : TensorType} (htype : arg.type.RefinedBy type) :
    g.RefinedBy (g.putArg ⟨out, arg.name, type⟩) where
  rest := rfl
  size := Array.size_setIfInBounds
  args a := by
    rw [arg?_putArg ⟨out, arg.name, type⟩ (by simp [harg])]
    split
    · next heq =>
      obtain rfl : a = out := heq
      rw [harg]
      exact .some ⟨type, htype, by rw [h.arg_id a arg harg]⟩
    · exact (RefinedBy.refl g).args a

/-! ### One step -/

def improve (current : TensorType) (derived : Option TensorType) : TensorType :=
  derived.elim current (fillType current)

theorem improve_of_known {current : TensorType}
    (h : current.elem ≠ .undefined ∧ current.shape.isSome = true) (derived : Option TensorType) :
    improve current derived = current := by
  cases derived with
  | none => rfl
  | some derived =>
    obtain ⟨elem, shape⟩ := current
    cases shape with
    | none => cases h.2
    | some dims => simp [improve, fillType, h.1]

theorem refinedBy_improve (current : TensorType) (derived : Option TensorType) :
    current.RefinedBy (improve current derived) := by
  cases derived with
  | none => exact .refl current
  | some derived =>
    constructor
    · change (if _ then _ else _) = _ ∨ _
      split
      · next helem => exact .inr helem
      · exact .inl rfl
    · change (current.shape <|> _) = _ ∨ _
      cases current.shape with
      | none => exact .inr rfl
      | some dims => exact .inl rfl

theorem improve_improve (current : TensorType) (derived : Option TensorType) :
    improve (improve current derived) derived = improve current derived := by
  cases derived with
  | none => rfl
  | some derived =>
    obtain ⟨elem, shape⟩ := current
    simp only [improve, Option.elim, fillType, TensorType.mk.injEq]
    constructor
    · split <;> simp_all
    · cases shape <;> simp

theorem known_of_improve {current derived : TensorType}
    (h : improve current (some derived) = current) :
    (derived.elem ≠ .undefined → current.elem ≠ .undefined) ∧
    (derived.shape.isSome → current.shape.isSome) := by
  constructor
  · intro hknown hundefined
    have helem := congrArg TensorType.elem h
    simp only [improve, Option.elim, fillType, hundefined, if_true] at helem
    exact hknown helem
  · intro hknown
    have hshape : (current.shape <|> derived.shape) = current.shape := congrArg TensorType.shape h
    cases hcurrent : current.shape with
    | none =>
      rw [hcurrent] at hshape
      change derived.shape = none at hshape
      rw [hshape] at hknown
      cases hknown
    | some dims => rfl

def inferStep (g : Graph) (id : NodeId) : Except Fault Graph := do
  match ← g.inferType? id with
  | some (out, type) => g.setArgType out type
  | none => return g

theorem inferAll_eq (g : Graph) (order : List NodeId) :
    g.inferAll order = order.foldlM inferStep g :=
  rfl

structure Derives (g : Graph) (node : Node) (first out : ArgId) (input output : Arg)
    (derived : Option TensorType) : Prop where
  reads : node.input? 0 = some first
  gives : node.output? 0 = some out
  input_eq : g.arg? first = some input
  output_eq : g.arg? out = some output
  derived_eq : g.derivedType? node input.type = .ok derived

theorem Derives.inferType?_eq {first out : ArgId} {input output : Arg}
    {derived : Option TensorType} (h : g.Derives node first out input output derived)
    (hnode : g.node? id = some node) :
    g.inferType? id = .ok (if improve output.type derived = output.type then none else
      some (out, improve output.type derived)) := by
  rw [inferType?, node_eq_ok_iff.mpr hnode]
  simp only [ok_bind, h.gives, h.reads, arg_eq_ok_iff.mpr h.output_eq, arg_eq_ok_iff.mpr h.input_eq,
    h.derived_eq]
  split
  · next hknown =>
    rw [if_pos (improve_of_known hknown derived)]
    rfl
  · cases derived with
    | none =>
      rw [if_pos (show improve output.type none = output.type from rfl)]
      rfl
    | some derived => rfl

theorem Indexed.live_output (h : g.Indexed) (hnode : g.node? id = some node) {out : ArgId}
    (hout : node.output? 0 = some out) : ∃ arg, g.arg? out = some arg :=
  Option.isSome_iff_exists.mp
    (h.produces_live id node out hnode (Node.mem_presentOutputs_iff.mpr ⟨0, hout⟩))

theorem Indexed.derives_or_missing (h : g.Indexed) (hnode : g.node? id = some node) :
    (∃ first out input output derived, g.Derives node first out input output derived) ∨
      node.output? 0 = none ∨ node.input? 0 = none := by
  cases hout : node.output? 0 with
  | none => exact .inr (.inl rfl)
  | some out =>
    cases hfirst : node.input? 0 with
    | none => exact .inr (.inr rfl)
    | some first =>
      obtain ⟨output, houtput⟩ := h.live_output hnode hout
      obtain ⟨input, hinput⟩ := Option.isSome_iff_exists.mp
        (h.reads_live id node first hnode (Node.mem_presentInputs_iff.mpr ⟨0, hfirst⟩))
      obtain ⟨derived, hderived⟩ := h.derivedType?_succeeds node input.type
      exact .inl ⟨first, out, input, output, derived, hfirst, hout, hinput, houtput, hderived⟩

theorem Indexed.inferType?_of_missing (h : g.Indexed) (hnode : g.node? id = some node)
    (hmissing : node.output? 0 = none ∨ node.input? 0 = none) : g.inferType? id = .ok none := by
  rw [inferType?, node_eq_ok_iff.mpr hnode]
  cases hout : node.output? 0 with
  | none => simp only [ok_bind, hout]; rfl
  | some out =>
    have hfirst : node.input? 0 = none := by simpa [hout] using hmissing
    obtain ⟨arg, harg⟩ := h.live_output hnode hout
    simp only [ok_bind, hout, hfirst, arg_eq_ok_iff.mpr harg]
    split <;> rfl

theorem RefinedBy.derivedType? (hr : g.RefinedBy g') : g'.derivedType? = g.derivedType? := by
  rw [hr.rest]
  rfl

theorem RefinedBy.inferType?_congr (hr : g.RefinedBy g') (h : g.Indexed) (h' : g'.Indexed)
    (hnode : g.node? id = some node)
    (hsame : ∀ a, node.output? 0 = some a ∨ node.input? 0 = some a → g'.arg? a = g.arg? a) :
    g'.inferType? id = g.inferType? id := by
  have hnode' : g'.node? id = some node := by rw [hr.retyped.node?, hnode]
  rcases h.derives_or_missing hnode with ⟨first, out, input, output, derived, hd⟩ | hmissing
  · have hd' : g'.Derives node first out input output derived :=
      { reads := hd.reads
        gives := hd.gives
        input_eq := by rw [hsame first (.inr hd.reads), hd.input_eq]
        output_eq := by rw [hsame out (.inl hd.gives), hd.output_eq]
        derived_eq := by rw [hr.derivedType?, hd.derived_eq] }
    rw [hd'.inferType?_eq hnode', hd.inferType?_eq hnode]
  · rw [h.inferType?_of_missing hnode hmissing, h'.inferType?_of_missing hnode' hmissing]

structure FilledAt (g g' : Graph) (id : NodeId) (node : Node) : Prop where
  indexed : g'.Indexed
  refined : g.RefinedBy g'
  frame : ∀ a, node.output? 0 ≠ some a → g'.arg? a = g.arg? a
  settled : g'.inferType? id = .ok none

theorem Indexed.inferStep_of_settled (h : g.Indexed) (hnone : g.inferType? id = .ok none) :
    g.inferStep id = .ok g ∧ FilledAt g g id node := by
  refine ⟨?_, h, .refl g, fun _ _ => rfl, hnone⟩
  rw [inferStep, hnone]
  rfl

theorem Indexed.inferStep_succeeds (h : g.Indexed) (hnode : g.node? id = some node)
    (hself : ∀ a, node.input? 0 = some a → node.output? 0 ≠ some a) :
    ∃ g', g.inferStep id = .ok g' ∧ FilledAt g g' id node := by
  rcases h.derives_or_missing hnode with ⟨first, out, input, output, derived, hd⟩ | hmissing
  · have hinfer := hd.inferType?_eq hnode
    by_cases hsame : improve output.type derived = output.type
    · rw [if_pos hsame] at hinfer
      exact ⟨g, h.inferStep_of_settled hinfer⟩
    · rw [if_neg hsame] at hinfer
      generalize hfilled : g.putArg ⟨out, output.name, improve output.type derived⟩ = g'
      have hrefined : g.RefinedBy g' :=
        hfilled ▸ h.refinedBy_putArg hd.output_eq (refinedBy_improve output.type derived)
      have hargs : ∀ a, g'.arg? a =
          if a = out then some ⟨out, output.name, improve output.type derived⟩ else g.arg? a := by
        rw [← hfilled]
        exact arg?_putArg _ (by simp [hd.output_eq])
      refine ⟨g', ?_, hfilled ▸ h.putArg hd.output_eq rfl, hrefined, ?_, ?_⟩
      · rw [inferStep, hinfer, ok_bind, ← hfilled]
        change g.setArgType out _ = _
        rw [setArgType, arg_eq_ok_iff.mpr hd.output_eq]
        rfl
      · intro a ha
        rw [hargs, if_neg]
        rintro rfl
        exact ha hd.gives
      · -- The input is another arg, so the same type is derived for the output once more.
        have hne : first ≠ out := fun heq => hself first hd.reads (by rw [hd.gives, heq])
        have hagain : g'.Derives node first out input
            ⟨out, output.name, improve output.type derived⟩ derived :=
          { reads := hd.reads
            gives := hd.gives
            input_eq := by rw [hargs, if_neg hne, hd.input_eq]
            output_eq := by rw [hargs, if_pos rfl]
            derived_eq := by rw [hrefined.derivedType?, hd.derived_eq] }
        have hnode' : g'.node? id = some node := by rw [hrefined.retyped.node?, hnode]
        rw [hagain.inferType?_eq hnode', if_pos (improve_improve output.type derived)]
  · exact ⟨g, h.inferStep_of_settled (h.inferType?_of_missing hnode hmissing)⟩

/-! ### A sweep -/

theorem inferAll_of_settled (hsettled : ∀ id ∈ order, g.inferType? id = .ok none) :
    g.inferAll order = .ok g := by
  rw [inferAll_eq]
  induction order with
  | nil => rfl
  | cons id order ih =>
    rw [List.forall_mem_cons] at hsettled
    rw [List.foldlM_cons, inferStep, hsettled.1]
    exact ih hsettled.2

theorem IsOrder.not_mem_done {done rest : List NodeId} (horder : g.IsOrder order)
    (heq : order = done ++ id :: rest) : id ∉ done := by
  have hnodup := horder.nodup
  rw [heq, List.nodup_append] at hnodup
  exact fun hmem => hnodup.2.2 id hmem id List.mem_cons_self rfl

section

variable (h : g.Indexed) (horder : g.IsOrder order) {done rest : List NodeId}
  (heq : order = done ++ id :: rest) (hnode : g.node? id = some node)

include h horder heq hnode

theorem IsOrder.input_ne {id' : NodeId} {node' : Node} (hid' : id' ∈ done ++ [id])
    (hnode' : g.node? id' = some node') {a : ArgId} (hout : node.output? 0 = some a) :
    node'.input? 0 ≠ some a := by
  intro hfirst
  have hproducer : g.producer? a = some id :=
    h.producer?_eq_some_iff.mpr ⟨node, hnode, Node.mem_presentOutputs_iff.mpr ⟨0, hout⟩⟩
  have hfeeds : g.Feeds id id' :=
    ⟨node', a, hnode', Node.mem_presentInputs_iff.mpr ⟨0, hfirst⟩, hproducer⟩
  have hsplit : order = (done ++ [id]) ++ rest := by rw [heq, List.append_assoc]; rfl
  have hlt :=
    horder.producersFirst.idxOf_lt (by rw [hsplit]; exact List.mem_append_left _ hid') hfeeds
  have hid : order.idxOf id = done.length := by
    rw [heq, List.idxOf_append_of_notMem (horder.not_mem_done heq)]
    simp
  have hle : order.idxOf id' < (done ++ [id]).length := by
    rw [hsplit, List.idxOf_append_of_mem hid']
    exact List.idxOf_lt_length_of_mem hid'
  rw [List.length_append, List.length_singleton] at hle
  omega

theorem IsOrder.output_ne {id' : NodeId} {node' : Node} (hid' : id' ∈ done)
    (hnode' : g.node? id' = some node') {a : ArgId} (hout : node.output? 0 = some a) :
    node'.output? 0 ≠ some a := by
  intro hout'
  have hsame := h.producer_unique hnode' (Node.mem_presentOutputs_iff.mpr ⟨0, hout'⟩) hnode
    (Node.mem_presentOutputs_iff.mpr ⟨0, hout⟩)
  exact horder.not_mem_done heq (hsame ▸ hid')

end

theorem Indexed.inferAll_settles (h : g.Indexed) (horder : g.IsOrder order) :
    ∃ g', g.inferAll order = .ok g' ∧ g'.Indexed ∧ g.RefinedBy g' ∧
      ∀ id ∈ order, g'.inferType? id = .ok none := by
  rw [inferAll_eq]
  refine foldlM_succeeds (P := fun done s => s.Indexed ∧ g.RefinedBy s ∧
    ∀ id ∈ done, s.inferType? id = .ok none) order ?_ g ⟨h, .refl g, by simp⟩
  rintro done id rest s heq ⟨hs, hrefined, hsettled⟩
  have hlive : ∀ id' ∈ order, ∃ node, g.node? id' = some node :=
    fun id' hid' => h.mem_nodeIds.mp ((horder.mem_iff id').mp hid')
  obtain ⟨node, hnode⟩ := hlive id (by rw [heq]; simp)
  have hnode_s : s.node? id = some node := by rw [hrefined.retyped.node?, hnode]
  obtain ⟨s', hstep, hfilled⟩ := hs.inferStep_succeeds hnode_s fun a hfirst hout =>
    horder.input_ne h heq hnode (by simp) hnode hout hfirst
  refine ⟨s', hstep, hfilled.indexed, hrefined.trans hfilled.refined, ?_⟩
  intro id' hid'
  rcases List.mem_append.mp hid' with hdone | hlast
  · -- The step does not touch what an earlier node reads or gives.
    obtain ⟨node', hnode'⟩ := hlive id' (by rw [heq]; exact List.mem_append_left _ hdone)
    have hnode_s' : s.node? id' = some node' := by rw [hrefined.retyped.node?, hnode']
    rw [hfilled.refined.inferType?_congr hs hfilled.indexed hnode_s', hsettled id' hdone]
    intro a ha
    apply hfilled.frame
    intro hout
    rcases ha with hout' | hfirst'
    · exact horder.output_ne h heq hnode hdone hnode' hout hout'
    · exact horder.input_ne h heq hnode hid' hnode' hout hfirst'
  · rw [List.mem_singleton.mp hlast]
    exact hfilled.settled

/-! ### Validation -/

def TypesCarried (g : Graph) : Prop :=
  ∀ id node first out input output, g.node? id = some node →
    (Signature.find? node.key).any Signature.preservesType = true →
    node.input? 0 = some first → node.output? 0 = some out →
    g.arg? first = some input → g.arg? out = some output →
    (input.type.elem ≠ .undefined → output.type.elem ≠ .undefined) ∧
    (input.type.shape.isSome → output.type.shape.isSome)

theorem typesCarried_of_settled
    (hsettled : ∀ id node, g.node? id = some node → g.inferType? id = .ok none) :
    g.TypesCarried := by
  intro id node first out input output hnode hpreserves hfirst hout hinput houtput
  have hderived : g.derivedType? node input.type = .ok (some input.type) := by
    rw [derivedType?, if_pos hpreserves]
  have hinfer := hsettled id node hnode
  have hd : g.Derives node first out input output (some input.type) :=
    ⟨hfirst, hout, hinput, houtput, hderived⟩
  rw [hd.inferType?_eq hnode] at hinfer
  apply known_of_improve
  by_contra hne
  rw [if_neg hne] at hinfer
  cases hinfer

theorem Consistent.resolve_of_settled (h : g.Consistent) (hsourced : g.Sourced)
    (hacyclic : g.Acyclic)
    (hsettled : ∀ id node, g.node? id = some node → g.inferType? id = .ok none) :
    resolve g = .ok () g := by
  obtain ⟨order, hfound⟩ := h.topologicalOrder_succeeds hacyclic
  have hinfer : g.inferAll order = .ok g := by
    apply inferAll_of_settled
    intro id hid
    obtain ⟨node, hnode⟩ := h.mem_nodeIds.mp (((h.topologicalOrder_spec hfound).2.1 id).mp hid)
    exact hsettled id node hnode
  rw [resolve, h.check_eq_ok_iff.mpr ⟨h, hsourced, hfound⟩]
  simp only [hinfer]

/--
Validation leaves a graph that it refuses as it was. In one that it accepts it fills in unknown
parts of types and changes nothing else, so that nodes that preserve types hand on what is known; to
validate the graph again changes nothing.
-/
theorem resolve_refines_once (h : g.Consistent) :
    (∃ e, resolve g = .error (.error e) g) ∨
    ∃ g', resolve g = .ok () g' ∧ g.RefinedBy g' ∧ g'.TypesCarried ∧ resolve g' = .ok () g' := by
  cases hcheck : g.check with
  | error failure =>
    have hrun : resolve g = .error failure g := by rw [resolve, hcheck]
    cases failure with
    | error e => exact .inl ⟨e, hrun⟩
    | fault f => exact absurd h (h.twiceBy_of_resolve hrun).2
  | ok order =>
    obtain ⟨-, hsourced, hfound⟩ := h.check_eq_ok_iff.mp hcheck
    have horder := (h.isLeastOrder_of_topologicalOrder hfound).1
    obtain ⟨g', hinfer, hindexed, hrefined, hsettled⟩ := h.inferAll_settles horder
    have hr := hrefined.retyped
    have hall : ∀ id node, g'.node? id = some node → g'.inferType? id = .ok none := by
      intro id node hnode
      rw [hr.node?] at hnode
      exact hsettled id ((horder.mem_iff id).mpr (h.mem_nodeIds.mpr ⟨node, hnode⟩))
    refine .inr ⟨g', ?_, hrefined, typesCarried_of_settled hall, ?_⟩
    · rw [resolve, hcheck]
      simp only [hinfer]
    · exact (hr.consistent hindexed h).resolve_of_settled (hr.sourced hsourced)
        (hr.acyclic (h.acyclic_of_topologicalOrder hfound)) hall

/-- A chain whose nodes stand in the wrong order, and a reshape to constant dimensions. -/
def untypedEdits : List Mutation :=
  [.addInput "x" ⟨.float32, some [2, 3, 4]⟩, .addInitializer "dims" ⟨[2], .int64 [6, 4]⟩,
    .newArg "a" ⟨.undefined, none⟩, .newArg "b" ⟨.undefined, none⟩, .newArg "c" ⟨.float16, none⟩,
    .newArg "d" ⟨.undefined, none⟩,
    .addNode ⟨"tail", .standard "Relu", [some ⟨3⟩], [some ⟨4⟩], ∅⟩,
    .addNode ⟨"turn", .standard "Transpose", [some ⟨2⟩], [some ⟨3⟩],
      (∅ : Attrs).insert "perm" (.ints [2, 0, 1])⟩,
    .addNode ⟨"head", .standard "Relu", [some ⟨0⟩], [some ⟨2⟩], ∅⟩,
    .addNode ⟨"flat", .standard "Reshape", [some ⟨0⟩, some ⟨1⟩], [some ⟨5⟩], ∅⟩]

theorem resolve_refines_once_untyped :
    ∃ g g' : Graph, (Graph.empty "untyped").runAll untypedEdits = .ok g ∧ g.Consistent ∧
      resolve g = .ok () g' ∧
      g'.liveArgs.map Arg.type =
        [⟨.float32, some [2, 3, 4]⟩, ⟨.int64, some [2]⟩, ⟨.float32, some [2, 3, 4]⟩,
          ⟨.float32, some [4, 2, 3]⟩, ⟨.float16, some [4, 2, 3]⟩, ⟨.float32, some [6, 4]⟩] ∧
      g.RefinedBy g' ∧ g'.TypesCarried ∧ resolve g' = .ok () g' := by
  have hrun : (do
      let g ← (Graph.empty "untyped").runAll untypedEdits
      let g' ← g.inferAll [⟨2⟩, ⟨1⟩, ⟨0⟩, ⟨3⟩]
      return (decide (∀ node ∈ g.liveNodes, node.presentOutputs.Nodup), g.check,
        g'.liveArgs.map Arg.type)) =
      .ok (true, .ok [⟨2⟩, ⟨1⟩, ⟨0⟩, ⟨3⟩],
        [⟨.float32, some [2, 3, 4]⟩, ⟨.int64, some [2]⟩, ⟨.float32, some [2, 3, 4]⟩,
          ⟨.float32, some [4, 2, 3]⟩, ⟨.float16, some [4, 2, 3]⟩, ⟨.float32, some [6, 4]⟩]) := rfl
  simp only [bind_eq_ok_iff, pure_eq_ok_iff, Prod.mk.injEq, decide_eq_true_eq] at hrun
  obtain ⟨g, hg, g₁, hinfer, hnodup, hcheck, htypes⟩ := hrun
  have hc := (Reachable.runAll (.empty "untyped") hg).indexed.consistent_iff.mpr hnodup
  have hresolve : resolve g = .ok () g₁ := by
    rw [resolve, hcheck]
    simp only [hinfer]
  rcases resolve_refines_once hc with ⟨e, hfail⟩ | ⟨g', hok, hrefined, hcarried, hagain⟩
  · cases hfail.symm.trans hresolve
  · cases hok.symm.trans hresolve
    exact ⟨g, g₁, hg, hc, hresolve, htypes, hrefined, hcarried, hagain⟩

end Graph

end OpGraph
