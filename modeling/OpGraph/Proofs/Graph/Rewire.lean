import OpGraph.Proofs.Graph.NodeEdits
import OpGraph.Proofs.Sequence

/-!
Letting slots read other args. One slot is changed by `setInput`; `replaceAllUses` changes all slots
that read an arg, and hands a graph output over to another arg under the same name.
-/

namespace OpGraph

theorem count_present (slots : List (Option ArgId)) (a : ArgId) :
    (present slots).count a = slots.count (some a) := by
  rw [present, List.count_filterMap, List.count_eq_countP]

namespace Graph

/-! ### One slot -/

theorem length_setSlot (slots : List (Option ArgId)) (slot : Nat) :
    slot < (slots ++ List.replicate (slot + 1 - slots.length) none).length := by
  rw [List.length_append, List.length_replicate]
  omega

theorem getElem?_pad (slots : List (Option ArgId)) (n slot : Nat) :
    ((slots ++ List.replicate n none)[slot]?).join = (slots[slot]?).join := by
  rw [List.getElem?_append]
  split
  · rfl
  · next hlt =>
    rw [List.getElem?_replicate, List.getElem?_eq_none (by omega)]
    split <;> rfl

theorem count_setSlot (slots : List (Option ArgId)) (slot : Nat) (arg : Option ArgId) (a : ArgId) :
    (present (setSlot slots slot arg)).count a
      =
    (present slots).count a - (if slots[slot]?.join = some a then 1 else 0)
      + (if arg = some a then 1 else 0) := by
  have hlt := length_setSlot slots slot
  have hpad := getElem?_pad slots (slot + 1 - slots.length) slot
  rw [List.getElem?_eq_getElem hlt, Option.join_some] at hpad
  rw [count_present, count_present, setSlot, List.count_set hlt, hpad, List.count_append,
    List.count_replicate]
  simp

theorem mem_present_setSlot {slots : List (Option ArgId)} {slot : Nat} {arg : Option ArgId}
    {a : ArgId} (h : a ∈ present (setSlot slots slot arg)) : a ∈ present slots ∨ arg = some a := by
  rw [mem_present_iff, setSlot] at h
  obtain h | h := List.mem_or_eq_of_mem_set h
  · rw [List.mem_append, List.mem_replicate] at h
    exact .inl (by simpa [mem_present_iff] using h)
  · exact .inr h.symm

theorem setSlot_of_lt {slots : List (Option ArgId)} {slot : Nat} (h : slot < slots.length)
    (arg : Option ArgId) : setSlot slots slot arg = slots.set slot arg := by
  rw [setSlot, show slot + 1 - slots.length = 0 by omega]
  simp

variable {g : Graph}

theorem node?_withInput {id : NodeId} {node : Node} (hn : g.node? id = some node) (slot : Nat)
    (arg : Option ArgId) (id' : NodeId) :
    (g.withInput id node slot arg).node? id'
      =
    if id' = id then some { node with inputs := setSlot node.inputs slot arg }
    else g.node? id' := by
  have hlt : id.index < g.nodes.size := lt_size_of_join_isSome (Option.isSome_of_eq_some hn)
  change (g.nodes.setIfInBounds id.index _)[id'.index]?.join = _
  rw [join_setIfInBounds]
  simp only [hlt, and_true, Handle.ext_iff_index, eq_comm]
  rfl

theorem readCount_withInput {id : NodeId} {node : Node} (hn : g.node? id = some node) (slot : Nat)
    (arg : Option ArgId) (a : ArgId) (id' : NodeId) :
    (g.withInput id node slot arg).readCount a id'
      =
    g.readCount a id' - (if node.input? slot = some a ∧ id = id' then 1 else 0)
      + (if arg = some a ∧ id = id' then 1 else 0) := by
  rw [readCount, node?_withInput hn]
  by_cases hid : id' = id
  · subst hid
    rw [readCount_of_node? hn]
    simp only [↓reduceIte, and_true]
    exact count_setSlot node.inputs slot arg a
  · simp [hid, Ne.symm hid, readCount]

theorem dropSlot_spec {c : Std.ExtTreeMap ArgId Uses} (h : Tidy c) (id : NodeId)
    (slot : Option ArgId) :
    Tidy (dropSlot c id slot) ∧
    ∀ a id', countIn (dropSlot c id slot) a id'
      =
    countIn c a id' - if slot = some a ∧ id = id' then 1 else 0 := by
  cases slot with
  | none => simp [dropSlot, h]
  | some b =>
    refine ⟨h.dropUse b id, ?_⟩
    intro a id'
    rw [dropSlot, countIn_dropUse h]
    simp

theorem addSlot_spec {c : Std.ExtTreeMap ArgId Uses} (h : Tidy c) (id : NodeId)
    (slot : Option ArgId) :
    Tidy (addSlot c id slot) ∧
    ∀ a id', countIn (addSlot c id slot) a id'
      =
    countIn c a id' + if slot = some a ∧ id = id' then 1 else 0 := by
  cases slot with
  | none => simp [addSlot, h]
  | some b =>
    refine ⟨h.addUse b id, ?_⟩
    intro a id'
    rw [addSlot, countIn_addUse]
    simp

theorem consumers_withInput (h : Tidy g.consumers) (id : NodeId) (node : Node) (slot : Nat)
    (arg : Option ArgId) :
    Tidy (g.withInput id node slot arg).consumers ∧
    ∀ a id', countIn (g.withInput id node slot arg).consumers a id'
      =
    countIn g.consumers a id' - (if node.input? slot = some a ∧ id = id' then 1 else 0)
      + (if arg = some a ∧ id = id' then 1 else 0) := by
  obtain ⟨hdrop, hdropped⟩ := dropSlot_spec h id (node.input? slot)
  obtain ⟨hadd, hadded⟩ := addSlot_spec hdrop id arg
  refine ⟨hadd, ?_⟩
  intro a id'
  rw [withInput, hadded, hdropped]

theorem Indexed.withInput (h : g.Indexed) {id : NodeId} {node : Node} (hn : g.node? id = some node)
    (slot : Nat) {arg : Option ArgId} (harg : ∀ a, arg = some a → (g.arg? a).isSome) :
    (g.withInput id node slot arg).Indexed := by
  have hnode? := node?_withInput hn slot arg
  obtain ⟨htidy, hcount⟩ := consumers_withInput h.consumers_tidy id node slot arg
  -- Apart from its inputs, every node is what it was.
  have hback : ∀ id' node', (g.withInput id node slot arg).node? id' = some node' →
      ∃ before, g.node? id' = some before ∧ node'.id = before.id ∧ node'.name = before.name ∧
        node'.presentOutputs = before.presentOutputs := by
    intro id' node' hn'
    rw [hnode?] at hn'
    split at hn'
    · next heq =>
      rw [← Option.some.inj hn', heq]
      exact ⟨node, hn, rfl, rfl, rfl⟩
    · exact ⟨node', hn', rfl, rfl, rfl⟩
  have hforth : ∀ id' before, g.node? id' = some before →
      ∃ node', (g.withInput id node slot arg).node? id' = some node' ∧
        node'.name = before.name ∧ node'.presentOutputs = before.presentOutputs := by
    intro id' before hbefore
    rw [hnode?]
    split
    · next heq =>
      rw [heq, hn] at hbefore
      rw [← Option.some.inj hbefore]
      exact ⟨_, rfl, rfl, rfl⟩
    · exact ⟨before, hbefore, rfl, rfl⟩
  constructor
  case node_id =>
    intro id' node' hn'
    obtain ⟨before, hbefore, hid, -, -⟩ := hback id' node' hn'
    rw [hid]
    exact h.node_id id' before hbefore
  case arg_id => exact h.arg_id
  case nodeNames_iff =>
    intro name id'
    refine (h.nodeNames_iff name id').trans ⟨?_, ?_⟩
    · rintro ⟨before, hbefore, hname⟩
      obtain ⟨node', hn', hname', -⟩ := hforth id' before hbefore
      exact ⟨node', hn', hname'.trans hname⟩
    · rintro ⟨node', hn', hname⟩
      obtain ⟨before, hbefore, -, hname', -⟩ := hback id' node' hn'
      exact ⟨before, hbefore, hname'.symm.trans hname⟩
  case argNames_iff => exact h.argNames_iff
  case producers_iff =>
    intro a id'
    refine (h.producers_iff a id').trans ⟨?_, ?_⟩
    · rintro ⟨before, hbefore, ha⟩
      obtain ⟨node', hn', -, houts⟩ := hforth id' before hbefore
      exact ⟨node', hn', houts ▸ ha⟩
    · rintro ⟨node', hn', ha⟩
      obtain ⟨before, hbefore, -, -, houts⟩ := hback id' node' hn'
      exact ⟨before, hbefore, houts ▸ ha⟩
  case consumers_tidy => exact htidy
  case consumers_count =>
    intro a id'
    rw [hcount, readCount_withInput hn, h.consumers_count]
  case reads_live =>
    intro id' node' a hn' ha
    rw [hnode?] at hn'
    split at hn'
    · rw [← Option.some.inj hn'] at ha
      obtain ha | ha := mem_present_setSlot ha
      · exact h.reads_live id node a hn ha
      · exact harg a ha
    · exact h.reads_live id' node' a hn' ha
  case produces_live =>
    intro id' node' a hn' ha
    obtain ⟨before, hbefore, -, -, houts⟩ := hback id' node' hn'
    exact h.produces_live id' before a hbefore (houts ▸ ha)
  case inputs_live => exact h.inputs_live
  case outputs_live => exact h.outputs_live
  case initializers_live => exact h.initializers_live
  case produced_internal => exact h.produced_internal

theorem checkSlotArg_eq_ok_iff {arg : Option ArgId} :
    g.checkSlotArg arg = .ok () ↔ ∀ a, arg = some a → (g.arg? a).isSome := by
  cases arg with
  | none => simp [checkSlotArg]
  | some a =>
    rw [checkSlotArg, Graph.arg]
    cases ha : g.arg? a <;> simp [discard, Functor.mapConst, Except.map, ha]

theorem setInput_eq_ok {g' : Graph} {id : NodeId} {slot : Nat} {arg : Option ArgId}
    (h : g.setInput id slot arg = .ok g') :
    ∃ node, g.node? id = some node ∧ (∀ a, arg = some a → (g.arg? a).isSome) ∧
      g' = g.withInput id node slot arg := by
  simp only [setInput, bind_eq_ok_iff, pure_eq_ok_iff] at h
  obtain ⟨_, harg, node, hnode, _, _, rfl⟩ := h
  rw [placedNode] at hnode
  split at hnode
  · cases hnode
  · exact ⟨node, node_eq_ok_iff.mp hnode, checkSlotArg_eq_ok_iff.mp harg, rfl⟩

theorem setInput_of_lt {id : NodeId} {node : Node} (hn : g.node? id = some node) {slot : Nat}
    (hslot : slot < node.inputs.length) {arg : Option ArgId}
    (harg : ∀ a, arg = some a → (g.arg? a).isSome) :
    g.setInput id slot arg = .ok (g.withInput id node slot arg) := by
  have hlt : id.index < g.nodes.size := lt_size_of_join_isSome (Option.isSome_of_eq_some hn)
  have hplaced : g.placedNode id = .ok node := by
    rw [placedNode, if_neg (by omega)]
    exact node_eq_ok_iff.mpr hn
  simp only [setInput, bind_eq_ok_iff, pure_eq_ok_iff]
  refine ⟨(), checkSlotArg_eq_ok_iff.mpr harg, node, hplaced, (), ?_, rfl⟩
  rw [checkSlot, if_neg (by omega)]

/-! ### All slots that read an arg -/

def redirectSlot (old new : ArgId) (slot : Option ArgId) : Option ArgId :=
  if slot = some old then some new else slot

end Graph

def Node.redirect (node : Node) (old new : ArgId) : Node :=
  { node with inputs := node.inputs.map (Graph.redirectSlot old new) }

namespace Graph

theorem mem_slotsOf_iff {slots : List (Option ArgId)} {arg : ArgId} {i : Nat} :
    i ∈ slotsOf slots arg ↔ slots[i]? = some (some arg) := by
  simp only [slotsOf, List.mem_filterMap, Prod.exists, List.mem_zipIdx_iff_getElem?]
  constructor
  · rintro ⟨a, j, hj, hif⟩
    split at hif
    · next ha =>
      rw [← Option.some.inj hif, ← ha]
      exact hj
    · cases hif
  · intro h
    exact ⟨some arg, i, h, by simp⟩

theorem getElem?_foldl_set (is : List Nat) (slots : List (Option ArgId)) (x : Option ArgId)
    (i : Nat) (his : ∀ j ∈ is, j < slots.length) :
    (is.foldl (fun s j => s.set j x) slots)[i]? = if i ∈ is then some x else slots[i]? := by
  induction is generalizing slots with
  | nil => simp
  | cons j is ih =>
    have hj := his j List.mem_cons_self
    rw [List.foldl_cons, ih]
    · rw [List.getElem?_set]
      by_cases hi : i ∈ is
      · simp [hi]
      · by_cases hij : j = i
        · subst hij
          simp [hj]
        · simp [hi, hij, Ne.symm hij]
    · intro k hk
      rw [List.length_set]
      exact his k (List.mem_cons_of_mem j hk)

theorem length_foldl_set (is : List Nat) (slots : List (Option ArgId)) (x : Option ArgId) :
    (is.foldl (fun s j => s.set j x) slots).length = slots.length := by
  induction is generalizing slots with
  | nil => rfl
  | cons j is ih => rw [List.foldl_cons, ih, List.length_set]

theorem lt_of_mem_slotsOf {slots : List (Option ArgId)} {arg : ArgId} {i : Nat}
    (h : i ∈ slotsOf slots arg) : i < slots.length :=
  (List.getElem?_eq_some_iff.mp (mem_slotsOf_iff.mp h)).1

theorem foldl_set_slotsOf (slots : List (Option ArgId)) (old new : ArgId) :
    (slotsOf slots old).foldl (fun s j => s.set j (some new)) slots
      =
    slots.map (redirectSlot old new) := by
  apply List.ext_getElem?
  intro i
  rw [getElem?_foldl_set _ _ _ _ (fun j hj => lt_of_mem_slotsOf hj), List.getElem?_map]
  cases hi : slots[i]? with
  | none => simp [mem_slotsOf_iff, hi]
  | some slot =>
    by_cases hslot : slot = some old
    · simp [mem_slotsOf_iff, hi, hslot, redirectSlot]
    · simp [mem_slotsOf_iff, hi, hslot, redirectSlot]

structure SameFrame (g g' : Graph) : Prop where
  name : g'.name = g.name
  args : g'.args = g.args
  nodeNames : g'.nodeNames = g.nodeNames
  argNames : g'.argNames = g.argNames
  producers : g'.producers = g.producers
  inputs : g'.inputs = g.inputs
  outputs : g'.outputs = g.outputs
  initializers : g'.initializers = g.initializers
  log : g'.log = g.log
  size : g'.nodes.size = g.nodes.size

namespace SameFrame

theorem refl (g : Graph) : SameFrame g g :=
  ⟨rfl, rfl, rfl, rfl, rfl, rfl, rfl, rfl, rfl, rfl⟩

theorem trans {g₁ g₂ g₃ : Graph} (h : SameFrame g₁ g₂) (h' : SameFrame g₂ g₃) :
    SameFrame g₁ g₃ where
  name := h'.name.trans h.name
  args := h'.args.trans h.args
  nodeNames := h'.nodeNames.trans h.nodeNames
  argNames := h'.argNames.trans h.argNames
  producers := h'.producers.trans h.producers
  inputs := h'.inputs.trans h.inputs
  outputs := h'.outputs.trans h.outputs
  initializers := h'.initializers.trans h.initializers
  log := h'.log.trans h.log
  size := h'.size.trans h.size

theorem arg? {g g' : Graph} (h : SameFrame g g') (a : ArgId) : g'.arg? a = g.arg? a := by
  rw [Graph.arg?, Graph.arg?, h.args]

end SameFrame

theorem sameFrame_withInput (g : Graph) (id : NodeId) (node : Node) (slot : Nat)
    (arg : Option ArgId) : SameFrame g (g.withInput id node slot arg) :=
  ⟨rfl, rfl, rfl, rfl, rfl, rfl, rfl, rfl, rfl, Array.size_setIfInBounds⟩

variable {g : Graph}

theorem redirectNode_spec (h : g.Indexed) {user : NodeId} {node : Node}
    (hn : g.node? user = some node) (old : ArgId) {new : ArgId} (hnew : (g.arg? new).isSome) :
    ∃ g', g.redirectNode old new user = .ok g' ∧ g'.Indexed ∧ SameFrame g g' ∧
      ∀ id, g'.node? id = if id = user then some (node.redirect old new) else g.node? id := by
  -- After some of the slots, the node reads `new` in those.
  let after (done : List Nat) : Node :=
    { node with inputs := done.foldl (fun s j => s.set j (some new)) node.inputs }
  have hrun := foldlM_succeeds (f := fun g slot => g.setInput user slot (some new))
    (P := fun done s => s.Indexed ∧ SameFrame g s ∧
      ∀ id, s.node? id = if id = user then some (after done) else g.node? id)
    (slotsOf node.inputs old) ?_ g ⟨h, .refl g, ?_⟩
  · obtain ⟨g', hg', hindexed, hframe, hnodes⟩ := hrun
    refine ⟨g', ?_, hindexed, hframe, ?_⟩
    · rw [redirectNode, bind_eq_ok_iff]
      exact ⟨node, node_eq_ok_iff.mpr hn, hg'⟩
    · intro id
      rw [hnodes, Node.redirect, ← foldl_set_slotsOf]
  · rintro done slot rest s hslots ⟨hs, hframe, hnodes⟩
    have hslot : slot ∈ slotsOf node.inputs old := by simp [hslots]
    have hlt : slot < (after done).inputs.length := by
      rw [length_foldl_set]
      exact lt_of_mem_slotsOf hslot
    have huser : s.node? user = some (after done) := by simp [hnodes]
    have hnew' : ∀ a, some new = some a → (s.arg? a).isSome := by
      rintro _ ⟨⟩
      rwa [hframe.arg?]
    refine ⟨_, setInput_of_lt huser hlt hnew', hs.withInput huser slot hnew', ?_, ?_⟩
    · exact hframe.trans (sameFrame_withInput s user (after done) slot (some new))
    · intro id
      rw [node?_withInput huser, setSlot_of_lt hlt, hnodes]
      by_cases hid : id = user
      · simp [hid, after]
      · simp [hid]
  · intro id
    by_cases hid : id = user
    · simp [hid, hn, after]
    · simp [hid]

theorem redirect_of_not_mem {node : Node} {old new : ArgId} (h : old ∉ node.presentInputs) :
    node.redirect old new = node := by
  have hslots : ∀ slot ∈ node.inputs, redirectSlot old new slot = id slot := by
    intro slot hslot
    rw [redirectSlot, if_neg, id]
    rintro rfl
    exact h (mem_present_iff.mpr hslot)
  rw [Node.redirect, List.map_congr_left hslots, List.map_id]

theorem redirectAll_spec (h : g.Indexed) (old : ArgId) {new : ArgId} (hnew : (g.arg? new).isSome) :
    ∃ g', g.redirectAll old new = .ok g' ∧ g'.Indexed ∧ SameFrame g g' ∧
      ∀ id, g'.node? id = (g.node? id).map fun node => node.redirect old new := by
  have hrun := foldlM_succeeds (f := fun g user => g.redirectNode old new user)
    (P := fun done s => s.Indexed ∧ SameFrame g s ∧ ∀ id, s.node? id =
      if id ∈ done then (g.node? id).map fun node => node.redirect old new else g.node? id)
    (g.consumersOf old) ?_ g ⟨h, .refl g, by simp⟩
  · obtain ⟨g', hg', hindexed, hframe, hnodes⟩ := hrun
    refine ⟨g', hg', hindexed, hframe, ?_⟩
    intro id
    rw [hnodes]
    split
    · rfl
    · next hid =>
      cases hn : g.node? id with
      | none => rfl
      | some node =>
        rw [Option.map_some, redirect_of_not_mem]
        exact fun hread => hid (h.mem_consumersOf_iff.mpr ⟨node, hn, hread⟩)
  · rintro done user rest s husers ⟨hs, hframe, hnodes⟩
    have hnodup := nodup_consumersOf g old
    rw [husers] at hnodup
    have hfresh : user ∉ done := by
      intro hdone
      exact (List.nodup_append.mp hnodup).2.2 user hdone user List.mem_cons_self rfl
    have huser : user ∈ g.consumersOf old := by simp [husers]
    obtain ⟨node, hn, -⟩ := h.mem_consumersOf_iff.mp huser
    have hn' : s.node? user = some node := by rw [hnodes, if_neg hfresh, hn]
    obtain ⟨s', hs', hindexed, hframe', hnodes'⟩ :=
      redirectNode_spec hs hn' old (by rwa [hframe.arg?])
    refine ⟨s', hs', hindexed, hframe.trans hframe', ?_⟩
    intro id
    rw [hnodes', hnodes]
    by_cases hid : id = user
    · simp [hid, hn]
    · simp [hid]

/-! ### Handing an output over -/

structure TakesName (g : Graph) (old new : ArgId) : Prop where
  old_output : old ∈ g.outputs
  not_output : new ∉ g.outputs
  not_input : new ∉ g.inputs
  not_initializer : new ∉ g.initializers

structure Replaced (g g' : Graph) (old new : ArgId) : Prop where
  nodes : ∀ id, g'.node? id = (g.node? id).map fun node => node.redirect old new
  nodes_size : g'.nodes.size = g.nodes.size
  args_size : g'.args.size = g.args.size
  name : g'.name = g.name
  nodeNames : g'.nodeNames = g.nodeNames
  producers : g'.producers = g.producers
  inputs : g'.inputs = g.inputs
  outputs : g'.outputs = g.outputs.map fun a => if a = old then new else a
  initializers : g'.initializers = g.initializers
  log : g'.log = g.log
  args_kept : ¬TakesName g old new → ∀ a, g'.arg? a = g.arg? a
  args_renamed : TakesName g old new → ∃ spare oldArg newArg,
    g.arg? old = some oldArg ∧ g.arg? new = some newArg ∧ spare ∉ g.argNames ∧
    ∀ a, g'.arg? a =
      if a = new then some ⟨new, oldArg.name, newArg.type⟩
      else if a = old then some ⟨old, spare, oldArg.type⟩
      else g.arg? a

theorem renameArg_eq {id : ArgId} {arg : Arg} (ha : g.arg? id = some arg) (name : String) :
    g.renameArg id name = .ok { g.putArg ⟨id, name, arg.type⟩ with
      argNames := (g.argNames.erase arg.name).insert name id } := by
  rw [renameArg, arg_eq_ok_iff.mpr ha]
  rfl

theorem takeOverName_spec (h : g.Indexed) {old new : ArgId} {oldArg newArg : Arg}
    (hold : g.arg? old = some oldArg) (hnew : g.arg? new = some newArg) (hne : old ≠ new) :
    ∃ g' spare, g.takeOverName old new = .ok g' ∧ g'.Indexed ∧ spare ∉ g.argNames ∧
      (∀ a, g'.arg? a =
        if a = new then some ⟨new, oldArg.name, newArg.type⟩
        else if a = old then some ⟨old, spare, oldArg.type⟩
        else g.arg? a) ∧
      g' = { g with args := g'.args, argNames := g'.argNames } ∧ g'.args.size = g.args.size := by
  have hspare := freshName_not_mem g.argNames (oldArg.name ++ "_replaced")
  have hrename := renameArg_eq hold (freshName g.argNames (oldArg.name ++ "_replaced"))
  have h₁ := h.rename hold hspare
  have hput := arg?_putArg (g := g)
    ⟨old, freshName g.argNames (oldArg.name ++ "_replaced"), oldArg.type⟩ (by simp [hold])
  revert hspare hrename h₁ hput
  generalize hs : freshName g.argNames (oldArg.name ++ "_replaced") = spare
  intro hspare hrename h₁ hput
  generalize hg₁ : { g.putArg ⟨old, spare, oldArg.type⟩ with
    argNames := (g.argNames.erase oldArg.name).insert spare old } = g₁ at hrename h₁
  have harg₁ : ∀ a, g₁.arg? a = if a = old then some ⟨old, spare, oldArg.type⟩ else g.arg? a := by
    rw [← hg₁]
    exact hput
  have hnew₁ : g₁.arg? new = some newArg := by rw [harg₁, if_neg (Ne.symm hne), hnew]
  have hmem : oldArg.name ∈ g.argNames := by
    rw [Std.ExtTreeMap.mem_iff_isSome_getElem?, (h.argNames_iff oldArg.name old).mpr ⟨_, hold, rfl⟩]
    rfl
  -- The name of `old` is free once `old` has another one.
  have hfree : oldArg.name ∉ g₁.argNames := by
    rw [Std.ExtTreeMap.mem_iff_isSome_getElem?, Option.isSome_iff_exists]
    rintro ⟨a, ha⟩
    obtain ⟨arg, harg, hname⟩ := (h₁.argNames_iff oldArg.name a).mp ha
    rw [harg₁] at harg
    split at harg
    · rw [← Option.some.inj harg] at hname
      have hname : spare = oldArg.name := hname
      exact hspare (hname ▸ hmem)
    · next ha => exact ha (h.argName_unique harg hold hname)
  refine ⟨_, spare, ?_, h₁.rename hnew₁ hfree, hspare, ?_, ?_, ?_⟩
  · simp only [takeOverName, bind_eq_ok_iff]
    refine ⟨oldArg, arg_eq_ok_iff.mpr hold, g₁, ?_, renameArg_eq hnew₁ oldArg.name⟩
    rw [freshArgName, hs]
    exact hrename
  · intro a
    refine (arg?_putArg (g := g₁) ⟨new, oldArg.name, newArg.type⟩ (by simp [hnew₁]) a).trans ?_
    rw [harg₁]
  · rw [← hg₁]
    rfl
  · change (g₁.args.setIfInBounds _ _).size = _
    rw [Array.size_setIfInBounds, ← hg₁]
    exact Array.size_setIfInBounds

theorem isOutput_iff {a : ArgId} : g.isOutput a = true ↔ a ∈ g.outputs := by
  rw [isOutput, List.contains_iff_mem]

theorem isInput_iff {a : ArgId} : g.isInput a = true ↔ a ∈ g.inputs := by
  rw [isInput, List.contains_iff_mem]

theorem isInitializer_iff {a : ArgId} : g.isInitializer a = true ↔ a ∈ g.initializers := by
  rw [isInitializer, Std.ExtTreeMap.contains_iff_mem]

theorem map_swap_of_not_mem {outputs : List ArgId} {old : ArgId} (h : old ∉ outputs) (new : ArgId) :
    (outputs.map fun a => if a = old then new else a) = outputs := by
  have hsame : ∀ a ∈ outputs, (if a = old then new else a) = id a := by
    intro a ha
    rw [if_neg, id]
    rintro rfl
    exact h ha
  rw [List.map_congr_left hsame, List.map_id]

theorem replaced_of_frame {g₁ g' : Graph} {old new : ArgId} (hframe : SameFrame g g₁)
    (hnodes : ∀ id, g₁.node? id = (g.node? id).map fun node => node.redirect old new)
    (heq : g' = { g₁ with outputs := g'.outputs, args := g'.args, argNames := g'.argNames })
    (hsize : g'.args.size = g₁.args.size)
    (houtputs : g'.outputs = g.outputs.map fun a => if a = old then new else a)
    (hkept : ¬TakesName g old new → ∀ a, g'.arg? a = g.arg? a)
    (hrenamed : TakesName g old new → ∃ spare oldArg newArg,
      g.arg? old = some oldArg ∧ g.arg? new = some newArg ∧ spare ∉ g.argNames ∧
      ∀ a, g'.arg? a =
        if a = new then some ⟨new, oldArg.name, newArg.type⟩
        else if a = old then some ⟨old, spare, oldArg.type⟩
        else g.arg? a) : Replaced g g' old new where
  nodes id := by
    rw [heq]
    exact hnodes id
  nodes_size := by
    rw [heq]
    exact hframe.size
  args_size := by rw [hsize, hframe.args]
  name := by rw [heq, hframe.name]
  nodeNames := by rw [heq, hframe.nodeNames]
  producers := by rw [heq, hframe.producers]
  inputs := by rw [heq, hframe.inputs]
  outputs := houtputs
  initializers := by rw [heq, hframe.initializers]
  log := by rw [heq, hframe.log]
  args_kept := hkept
  args_renamed := hrenamed

theorem replaceAllUses_spec (h : g.Indexed) {old new : ArgId} (hold : (g.arg? old).isSome)
    (hnew : (g.arg? new).isSome) (hne : old ≠ new) :
    ∃ g', g.replaceAllUses old new = .ok g' ∧ g'.Indexed ∧ Replaced g g' old new := by
  obtain ⟨g₁, hg₁, h₁, hframe, hnodes⟩ := redirectAll_spec h old hnew
  -- The rest is `handOver`, on a graph that has the outputs and args of `g`.
  have hrun : ∀ g', g₁.handOver old new = .ok g' → g.replaceAllUses old new = .ok g' := by
    intro g' hg'
    have hlive : ((g.arg? old).isNone || (g.arg? new).isNone) = false := by
      simp [Option.isNone_eq_false_iff.mpr hold, Option.isNone_eq_false_iff.mpr hnew]
    rw [replaceAllUses, if_neg (by simp [hlive]), if_neg hne, bind_eq_ok_iff]
    exact ⟨g₁, hg₁, hg'⟩
  by_cases hout : old ∈ g.outputs
  · have hout₁ : g₁.isOutput old = true := by rwa [isOutput_iff, hframe.outputs]
    have hswapped : (g₁.outputs.map fun a => if a = old then new else a) =
        g.outputs.map fun a => if a = old then new else a := by rw [hframe.outputs]
    have hindexed : { g₁ with
        outputs := g₁.outputs.map fun a => if a = old then new else a }.Indexed := by
      apply h₁.setOutputs
      intro a ha
      obtain ⟨b, hb, rfl⟩ := List.mem_map.mp ha
      split
      · rwa [hframe.arg?]
      · exact h₁.outputs_live b hb
    have hknown_iff : (g₁.isOutput new || g₁.isInput new || g₁.isInitializer new) = true ↔
        ¬TakesName g old new := by
      rw [Bool.or_eq_true, Bool.or_eq_true, isOutput_iff, isInput_iff, isInitializer_iff,
        hframe.outputs, hframe.inputs, hframe.initializers]
      constructor
      · rintro ((hk | hk) | hk) ⟨-, hno, hni, hnt⟩
        · exact hno hk
        · exact hni hk
        · exact hnt hk
      · intro hkept
        refine Classical.byContradiction fun hno => ?_
        rw [not_or, not_or] at hno
        exact hkept ⟨hout, hno.1.1, hno.1.2, hno.2⟩
    by_cases hknown : (g₁.isOutput new || g₁.isInput new || g₁.isInitializer new) = true
    · have hkept := hknown_iff.mp hknown
      exact ⟨_, hrun _ (by rw [handOver, if_pos hout₁, if_pos hknown]), hindexed,
        replaced_of_frame hframe hnodes rfl rfl hswapped (fun _ => hframe.arg?)
          fun htakes => absurd htakes hkept⟩
    · have htakes : TakesName g old new :=
        Classical.byContradiction fun hkept => hknown (hknown_iff.mpr hkept)
      obtain ⟨oldArg, hold'⟩ := Option.isSome_iff_exists.mp hold
      obtain ⟨newArg, hnew'⟩ := Option.isSome_iff_exists.mp hnew
      obtain ⟨g', spare, hg', hindexed', hspare, hargs, heq, hsize⟩ := takeOverName_spec hindexed
        ((hframe.arg? old).trans hold') ((hframe.arg? new).trans hnew') hne
      refine ⟨g', hrun g' (by rw [handOver, if_pos hout₁, if_neg hknown, hg']), hindexed', ?_⟩
      have houtputs : g'.outputs = g₁.outputs.map fun a => if a = old then new else a := by rw [heq]
      refine replaced_of_frame hframe hnodes ?_ hsize (houtputs.trans hswapped)
        (fun hkept => absurd htakes hkept) fun _ => ⟨spare, oldArg, newArg, hold', hnew', ?_, ?_⟩
      · rw [houtputs]
        exact heq
      · rw [← hframe.argNames]
        exact hspare
      · intro a
        refine (hargs a).trans ?_
        split
        · rfl
        · split
          · rfl
          · exact hframe.arg? a
  · have hout₁ : ¬g₁.isOutput old = true := by rwa [isOutput_iff, hframe.outputs]
    refine ⟨g₁, hrun g₁ (by rw [handOver, if_neg hout₁]), h₁, ?_⟩
    exact replaced_of_frame hframe hnodes rfl rfl (by rw [hframe.outputs, map_swap_of_not_mem hout])
      (fun _ => hframe.arg?) fun htakes => absurd htakes.old_output hout

theorem Replaced.outputNames {g' : Graph} {old new : ArgId} (hr : Replaced g g' old new)
    (htakes : TakesName g old new) :
    (g'.outputs.map fun a => (g'.arg? a).map Arg.name)
      =
    g.outputs.map fun a => (g.arg? a).map Arg.name := by
  obtain ⟨spare, oldArg, newArg, hold, -, -, hargs⟩ := hr.args_renamed htakes
  rw [hr.outputs, List.map_map]
  apply List.map_congr_left
  intro a ha
  rw [Function.comp_apply]
  split
  · next heq => rw [hargs, if_pos rfl, heq, hold, Option.map_some, Option.map_some]
  · next hne =>
    have hnew : a ≠ new := by
      rintro rfl
      exact htakes.not_output ha
    rw [hargs, if_neg hnew, if_neg hne]

theorem replaceAllUses_eq_ok (h : g.Indexed) {g' : Graph} {old new : ArgId}
    (hrun : g.replaceAllUses old new = .ok g') :
    (g.arg? old).isSome ∧ (g.arg? new).isSome ∧
    (old = new ∧ g' = g ∨ old ≠ new ∧ g'.Indexed ∧ Replaced g g' old new) := by
  have hlive : (g.arg? old).isSome ∧ (g.arg? new).isSome := by
    rw [replaceAllUses] at hrun
    split at hrun
    · cases hrun
    · next hno => simpa [Option.isSome_iff_ne_none] using hno
  refine ⟨hlive.1, hlive.2, ?_⟩
  by_cases hne : old = new
  · refine .inl ⟨hne, ?_⟩
    rw [replaceAllUses] at hrun
    split at hrun
    · cases hrun
    · exact (Except.ok.inj hrun).symm
  · obtain ⟨g'', hg'', hindexed, hreplaced⟩ := replaceAllUses_spec h hlive.1 hlive.2 hne
    rw [hrun] at hg''
    rw [Except.ok.inj hg'']
    exact .inr ⟨hne, hindexed, hreplaced⟩

end Graph

end OpGraph
