import OpGraph.Proofs.FreshName
import OpGraph.Proofs.Graph.Indexed

/-!
What the elementary edits do to the arenas, and that each of them keeps the representation invariant
under the checks that are made before it.
-/

namespace OpGraph

namespace Graph

section Arenas

variable {α : Type}

theorem join_push (xs : Array (Option α)) (x : Option α) (i : Nat) :
    (xs.push x)[i]?.join = if i = xs.size then x else xs[i]?.join := by
  rw [Array.getElem?_push]
  split <;> simp_all

theorem join_setIfInBounds (xs : Array (Option α)) (i j : Nat) (x : Option α) :
    (xs.setIfInBounds i x)[j]?.join = if i = j ∧ i < xs.size then x else xs[j]?.join := by
  rw [Array.getElem?_setIfInBounds]
  by_cases hij : i = j
  · subst hij
    by_cases hi : i < xs.size
    · simp [hi]
    · simp [hi]
  · simp [hij]

theorem lt_size_of_join_isSome {xs : Array (Option α)} {i : Nat} (h : (xs[i]?.join).isSome) :
    i < xs.size := by
  apply Classical.byContradiction
  intro hlt
  rw [Array.getElem?_eq_none (by omega)] at h
  cases h

end Arenas

variable {g : Graph}

theorem arg?_pushArg (name : String) (type : TensorType) (id : ArgId) :
    (g.pushArg name type).arg? id
      =
    if id = g.nextArg then some ⟨g.nextArg, name, type⟩ else g.arg? id := by
  rw [arg?, pushArg, join_push]
  simp only [Handle.ext_iff_index]
  rfl

theorem arg?_putArg (arg : Arg) (h : (g.arg? arg.id).isSome) (id : ArgId) :
    (g.putArg arg).arg? id = if id = arg.id then some arg else g.arg? id := by
  have hlt := lt_size_of_join_isSome h
  rw [arg?, putArg, join_setIfInBounds]
  simp only [hlt, and_true, Handle.ext_iff_index, eq_comm]
  rfl

theorem arg?_nextArg : g.arg? g.nextArg = none := by
  simp [arg?, nextArg]

theorem node?_pushNode (name : String) (spec : NodeSpec) (id : NodeId) :
    (g.pushNode name spec).node? id
      =
    if id = g.nextNode then
      some ⟨g.nextNode, name, spec.key, spec.inputs, spec.outputs, spec.attrs⟩
    else
      g.node? id := by
  rw [node?, pushNode, join_push]
  simp only [Handle.ext_iff_index]
  rfl

theorem node?_nextNode : g.node? g.nextNode = none := by
  simp [node?, nextNode]

theorem node?_dropNode (node : Node) (id : NodeId) :
    (g.dropNode node).node? id = if id = node.id then none else g.node? id := by
  rw [node?, dropNode, join_setIfInBounds]
  simp only [Handle.ext_iff_index]
  by_cases hid : id.index = node.id.index
  · rw [if_pos hid, hid]
    by_cases hlt : node.id.index < g.nodes.size
    · simp [hlt]
    · simp [hlt]
  · rw [if_neg hid, if_neg (fun heq => hid heq.1.symm)]
    rfl

/-! ### Args -/

theorem indexed_empty (name : String) : (Graph.empty name).Indexed where
  node_id := by simp [empty, node?]
  arg_id := by simp [empty, arg?]
  nodeNames_iff := by simp [empty, node?]
  argNames_iff := by simp [empty, arg?]
  producers_iff := by simp [empty, node?]
  consumers_tidy := tidy_empty
  consumers_count a id := by
    rw [readCount]
    simp [empty, node?, countIn_empty]
  reads_live := by simp [empty, node?]
  produces_live := by simp [empty, node?]
  inputs_live := by simp [empty]
  outputs_live := by simp [empty]
  initializers_live := by simp [empty]
  produced_internal := by simp [empty]

namespace Indexed

variable (h : g.Indexed)

include h

theorem of_args {args : Array (Option Arg)} {argNames : Std.ExtTreeMap String ArgId}
    (hid : ∀ id arg, { g with args, argNames }.arg? id = some arg → arg.id = id)
    (hnames : ∀ (name : String) id,
      argNames[name]? = some id ↔
        ∃ arg, { g with args, argNames }.arg? id = some arg ∧ arg.name = name)
    (hlive : ∀ a, (g.arg? a).isSome → ({ g with args, argNames }.arg? a).isSome) :
    { g with args, argNames }.Indexed where
  node_id := h.node_id
  arg_id := hid
  nodeNames_iff := h.nodeNames_iff
  argNames_iff := hnames
  producers_iff := h.producers_iff
  consumers_tidy := h.consumers_tidy
  consumers_count := h.consumers_count
  reads_live id node a hn ha := hlive a (h.reads_live id node a hn ha)
  produces_live id node a hn ha := hlive a (h.produces_live id node a hn ha)
  inputs_live a ha := hlive a (h.inputs_live a ha)
  outputs_live a ha := hlive a (h.outputs_live a ha)
  initializers_live a ha := hlive a (h.initializers_live a ha)
  produced_internal := h.produced_internal

theorem pushArg {name : String} (hname : name ∉ g.argNames) (type : TensorType) :
    (g.pushArg name type).Indexed := by
  apply h.of_args
  · intro id arg harg
    have harg := (arg?_pushArg name type id).symm.trans harg
    split at harg
    · next heq =>
      rw [heq, ← Option.some.inj harg]
    · exact h.arg_id id arg harg
  · intro name' id
    have harg := arg?_pushArg (g := g) name type id
    rw [Std.ExtTreeMap.getElem?_insert]
    change _ ↔ ∃ arg, (g.pushArg name type).arg? id = some arg ∧ arg.name = name'
    rw [harg]
    by_cases hn : name = name'
    · subst hn
      -- The new name belongs to the new arg and to no other.
      have hold : ∀ arg, g.arg? id = some arg → arg.name ≠ name := by
        intro arg harg heq
        apply hname
        rw [Std.ExtTreeMap.mem_iff_isSome_getElem?, (h.argNames_iff name id).mpr ⟨arg, harg, heq⟩]
        rfl
      by_cases hid : id = g.nextArg
      · simp [hid]
      · simp only [Std.ReflCmp.compare_self, ↓reduceIte, Option.some.injEq, hid]
        constructor
        · intro heq
          exact absurd heq.symm hid
        · rintro ⟨arg, harg, heq⟩
          exact absurd heq (hold arg harg)
    · simp only [Std.compare_eq_iff_eq, hn, ↓reduceIte, h.argNames_iff]
      by_cases hid : id = g.nextArg
      · simp [hid, arg?_nextArg, hn]
      · simp [hid]
  · intro a ha
    change ((g.pushArg name type).arg? a).isSome
    rw [arg?_pushArg]
    split
    · rfl
    · exact ha

theorem putArg {arg : Arg} (hlive : g.arg? arg.id = some arg') (hname : arg.name = arg'.name) :
    (g.putArg arg).Indexed := by
  have hput := arg?_putArg (g := g) arg (by simp [hlive])
  apply h.of_args
  · intro id arg'' harg
    have harg := (hput id).symm.trans harg
    split at harg
    · next heq => rw [heq, ← Option.some.inj harg]
    · exact h.arg_id id arg'' harg
  · intro name id
    rw [h.argNames_iff]
    change _ ↔ ∃ arg'', (g.putArg arg).arg? id = some arg'' ∧ arg''.name = name
    rw [hput]
    by_cases hid : id = arg.id
    · simp [hid, hlive, hname]
    · simp [hid]
  · intro a ha
    change ((g.putArg arg).arg? a).isSome
    rw [hput]
    split
    · rfl
    · exact ha

theorem addInput {id : ArgId} (hlive : (g.arg? id).isSome) (hprod : g.producers[id]? = none) :
    { g with inputs := g.inputs ++ [id] }.Indexed where
  node_id := h.node_id
  arg_id := h.arg_id
  nodeNames_iff := h.nodeNames_iff
  argNames_iff := h.argNames_iff
  producers_iff := h.producers_iff
  consumers_tidy := h.consumers_tidy
  consumers_count := h.consumers_count
  reads_live := h.reads_live
  produces_live := h.produces_live
  inputs_live a ha := by
    rw [List.mem_append, List.mem_singleton] at ha
    obtain ha | rfl := ha
    · exact h.inputs_live a ha
    · exact hlive
  outputs_live := h.outputs_live
  initializers_live := h.initializers_live
  produced_internal a id' hid' := by
    obtain ⟨hin, hinit⟩ := h.produced_internal a id' hid'
    refine ⟨?_, hinit⟩
    rw [List.mem_append, List.mem_singleton]
    rintro (ha | rfl)
    · exact hin ha
    · rw [hprod] at hid'
      cases hid'

theorem setOutputs {outputs : List ArgId} (hlive : ∀ a ∈ outputs, (g.arg? a).isSome) :
    { g with outputs }.Indexed where
  node_id := h.node_id
  arg_id := h.arg_id
  nodeNames_iff := h.nodeNames_iff
  argNames_iff := h.argNames_iff
  producers_iff := h.producers_iff
  consumers_tidy := h.consumers_tidy
  consumers_count := h.consumers_count
  reads_live := h.reads_live
  produces_live := h.produces_live
  inputs_live := h.inputs_live
  outputs_live := hlive
  initializers_live := h.initializers_live
  produced_internal := h.produced_internal

theorem setInitializers {initializers : Std.ExtTreeMap ArgId Tensor}
    (hlive : ∀ a ∈ initializers, (g.arg? a).isSome)
    (hprod : ∀ a ∈ initializers, g.producers[a]? = none) : { g with initializers }.Indexed where
  node_id := h.node_id
  arg_id := h.arg_id
  nodeNames_iff := h.nodeNames_iff
  argNames_iff := h.argNames_iff
  producers_iff := h.producers_iff
  consumers_tidy := h.consumers_tidy
  consumers_count := h.consumers_count
  reads_live := h.reads_live
  produces_live := h.produces_live
  inputs_live := h.inputs_live
  outputs_live := h.outputs_live
  initializers_live := hlive
  produced_internal a id hid := by
    refine ⟨(h.produced_internal a id hid).1, ?_⟩
    intro ha
    rw [hprod a ha] at hid
    cases hid

theorem setLog (log : Log) : { g with log }.Indexed where
  node_id := h.node_id
  arg_id := h.arg_id
  nodeNames_iff := h.nodeNames_iff
  argNames_iff := h.argNames_iff
  producers_iff := h.producers_iff
  consumers_tidy := h.consumers_tidy
  consumers_count := h.consumers_count
  reads_live := h.reads_live
  produces_live := h.produces_live
  inputs_live := h.inputs_live
  outputs_live := h.outputs_live
  initializers_live := h.initializers_live
  produced_internal := h.produced_internal

theorem rename {id : ArgId} {arg : Arg} {name : String} (harg : g.arg? id = some arg)
    (hname : name ∉ g.argNames) :
    { g.putArg ⟨id, name, arg.type⟩ with
      argNames := (g.argNames.erase arg.name).insert name id }.Indexed := by
  have hput := arg?_putArg (g := g) ⟨id, name, arg.type⟩ (by simp [harg])
  apply h.of_args
  · intro id' arg' harg'
    have harg' := (hput id').symm.trans harg'
    split at harg'
    · next heq => rw [heq, ← Option.some.inj harg']
    · exact h.arg_id id' arg' harg'
  · intro name' id'
    change _ ↔ ∃ arg', (g.putArg ⟨id, name, arg.type⟩).arg? id' = some arg' ∧ arg'.name = name'
    rw [hput, Std.ExtTreeMap.getElem?_insert, Std.ExtTreeMap.getElem?_erase]
    simp only [Std.compare_eq_iff_eq]
    have hfree : ∀ id' arg', g.arg? id' = some arg' → arg'.name ≠ name := by
      intro id' arg' harg' heq
      apply hname
      rw [Std.ExtTreeMap.mem_iff_isSome_getElem?, (h.argNames_iff name id').mpr ⟨arg', harg', heq⟩]
      rfl
    by_cases hid : id' = id
    · subst hid
      simp only [↓reduceIte, Option.some.injEq]
      constructor
      · intro hget
        split at hget
        · next heq => exact ⟨_, rfl, heq⟩
        · split at hget
          · cases hget
          · next hne =>
            obtain ⟨arg', harg', heq⟩ := (h.argNames_iff name' id').mp hget
            rw [harg] at harg'
            exact absurd (by rw [Option.some.inj harg', heq]) hne
      · rintro ⟨_, rfl, heq⟩
        rw [if_pos heq]
    · simp only [hid, ↓reduceIte]
      rw [← h.argNames_iff]
      split
      · next heq =>
        subst heq
        constructor
        · intro hget
          exact absurd (Option.some.inj hget).symm hid
        · intro hget
          obtain ⟨arg', harg', heq⟩ := (h.argNames_iff name id').mp hget
          exact absurd heq (hfree id' arg' harg')
      · split
        · next heq =>
          subst heq
          simp only [reduceCtorEq, false_iff]
          intro hget
          rw [(h.argNames_iff arg.name id).mpr ⟨arg, harg, rfl⟩] at hget
          exact hid (Option.some.inj hget).symm
        · rfl
  · intro a ha
    change ((g.putArg ⟨id, name, arg.type⟩).arg? a).isSome
    rw [hput]
    split
    · rfl
    · exact ha

end Indexed

theorem arg?_removeArg (a id : ArgId) :
    (g.removeArg a).arg? id = if id = a then none else g.arg? id := by
  rw [removeArg]
  cases ha : g.arg? a with
  | none =>
    by_cases hid : id = a
    · simp [hid, ha]
    · simp [hid]
  | some arg =>
    change (g.args.setIfInBounds a.index none)[id.index]?.join = _
    have hlt : a.index < g.args.size := lt_size_of_join_isSome (Option.isSome_of_eq_some ha)
    rw [join_setIfInBounds]
    simp only [hlt, and_true, Handle.ext_iff_index, eq_comm]
    rfl

namespace Indexed

variable (h : g.Indexed)

include h

theorem removeArg {a : ArgId} (hprod : g.producers[a]? = none) (hreads : ∀ id, g.readCount a id = 0)
    (hin : a ∉ g.inputs) (hout : a ∉ g.outputs) : (g.removeArg a).Indexed := by
  cases ha : g.arg? a with
  | none =>
    rw [Graph.removeArg, ha]
    exact h
  | some arg =>
    have harg? := arg?_removeArg (g := g) a
    have hproducers : g.producers.erase a = g.producers := by
      apply Std.ExtTreeMap.ext_getElem?
      intro b
      rw [Std.ExtTreeMap.getElem?_erase]
      split
      · next hab => rw [← Std.compare_eq_iff_eq.mp hab, hprod]
      · rfl
    have hconsumers : g.consumers.erase a = g.consumers := by
      apply Tidy.ext (h.consumers_tidy.erase a) h.consumers_tidy
      intro b id
      rw [countIn_erase]
      split
      · next hab => rw [← hab, h.consumers_count, hreads]
      · rfl
    have heq : g.removeArg a = { g with
        args := g.args.setIfInBounds a.index none
        argNames := g.argNames.erase arg.name
        initializers := g.initializers.erase a } := by
      rw [Graph.removeArg, ha]
      simp only [hproducers, hconsumers]
    have hlive : ∀ b, (g.arg? b).isSome → b ≠ a → ((g.removeArg a).arg? b).isSome := by
      intro b hb hne
      rw [harg?, if_neg hne]
      exact hb
    have hnodes : ∀ id, (g.removeArg a).node? id = g.node? id := by
      intro id
      rw [heq]
      rfl
    constructor
    case node_id =>
      intro id node hn
      exact h.node_id id node (hnodes id ▸ hn)
    case arg_id =>
      intro id arg' harg'
      rw [harg?] at harg'
      split at harg'
      · cases harg'
      · exact h.arg_id id arg' harg'
    case nodeNames_iff =>
      intro name id
      rw [hnodes, heq]
      exact h.nodeNames_iff name id
    case argNames_iff =>
      intro name id
      rw [harg?]
      have : (g.removeArg a).argNames = g.argNames.erase arg.name := by rw [heq]
      rw [this, Std.ExtTreeMap.getElem?_erase]
      simp only [Std.compare_eq_iff_eq]
      by_cases hid : id = a
      · subst hid
        simp only [↓reduceIte, reduceCtorEq, false_and, exists_false, iff_false]
        intro hget
        split at hget
        · cases hget
        · next hne =>
          obtain ⟨arg', harg', hname⟩ := (h.argNames_iff name id).mp hget
          rw [ha] at harg'
          exact hne (by rw [Option.some.inj harg', hname])
      · simp only [hid, ↓reduceIte]
        rw [← h.argNames_iff]
        split
        · next hname =>
          subst hname
          simp only [reduceCtorEq, false_iff]
          intro hget
          rw [(h.argNames_iff arg.name a).mpr ⟨arg, ha, rfl⟩] at hget
          exact hid (Option.some.inj hget).symm
        · rfl
    case producers_iff =>
      intro b id
      have : (g.removeArg a).producers = g.producers := by rw [heq]
      rw [hnodes, this]
      exact h.producers_iff b id
    case consumers_tidy =>
      have : (g.removeArg a).consumers = g.consumers := by rw [heq]
      rw [this]
      exact h.consumers_tidy
    case consumers_count =>
      intro b id
      have : (g.removeArg a).consumers = g.consumers := by rw [heq]
      rw [this, readCount, hnodes]
      exact h.consumers_count b id
    case reads_live =>
      intro id node b hn hb
      rw [hnodes] at hn
      apply hlive b (h.reads_live id node b hn hb)
      rintro rfl
      have := readCount_pos_iff.mpr ⟨node, hn, hb⟩
      rw [hreads] at this
      omega
    case produces_live =>
      intro id node b hn hb
      rw [hnodes] at hn
      apply hlive b (h.produces_live id node b hn hb)
      rintro rfl
      rw [(h.producers_iff b id).mpr ⟨node, hn, hb⟩] at hprod
      cases hprod
    case inputs_live =>
      intro b hb
      have hb : b ∈ g.inputs := by simpa only [heq] using hb
      exact hlive b (h.inputs_live b hb) (fun hab => hin (hab ▸ hb))
    case outputs_live =>
      intro b hb
      have hb : b ∈ g.outputs := by simpa only [heq] using hb
      exact hlive b (h.outputs_live b hb) (fun hab => hout (hab ▸ hb))
    case initializers_live =>
      intro b hb
      have hb : b ∈ g.initializers.erase a := by simpa only [heq] using hb
      rw [Std.ExtTreeMap.mem_erase] at hb
      exact hlive b (h.initializers_live b hb.2) (fun hab => hb.1 (by simp [hab]))
    case produced_internal =>
      intro b id hid
      have : (g.removeArg a).producers = g.producers := by rw [heq]
      rw [this] at hid
      obtain ⟨hbin, hbinit⟩ := h.produced_internal b id hid
      constructor
      · rw [heq]
        exact hbin
      · rw [heq]
        exact fun hb => hbinit (Std.ExtTreeMap.mem_of_mem_erase hb)

end Indexed

end Graph

end OpGraph
