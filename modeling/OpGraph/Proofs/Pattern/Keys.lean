import OpGraph.Proofs.Pattern.Traversal

/-!
The operators that a pattern can match. They are computed from the table alone, and a match never
escapes them: whatever the root accepts is produced by a node with one of its operators.
-/

namespace OpGraph.Pattern

variable {p : Pattern}

theorem mem_joinKeys_iff {keys more : List OpKey} {key : OpKey} :
    key ∈ joinKeys keys more ↔ key ∈ keys ∨ key ∈ more := by
  unfold joinKeys
  induction more generalizing keys with
  | nil => simp
  | cons k more ih =>
    rw [List.foldl_cons, ih, List.mem_cons]
    split
    · next hknown => grind
    · simp only [List.mem_append, List.mem_singleton, or_assoc]

theorem nodup_joinKeys {keys : List OpKey} (h : keys.Nodup) (more : List OpKey) :
    (joinKeys keys more).Nodup := by
  unfold joinKeys
  induction more generalizing keys with
  | nil => exact h
  | cons k more ih =>
    rw [List.foldl_cons]
    apply ih
    split
    · exact h
    · next hnew =>
      rw [List.contains_iff_mem] at hnew
      exact List.nodup_append.mpr ⟨h, List.nodup_singleton k, by grind⟩

section Lists

variable {keysAt : PatternId → Except Fault (Option (List OpKey))} {items : List PatternId}
  {found : List OpKey}

theorem alternativeKeys_eq_some {keys : List OpKey}
    (h : alternativeKeys keysAt items keys = .ok (some found)) :
    (keys.Nodup → found.Nodup) ∧ (∀ key ∈ keys, key ∈ found) ∧
      ∀ item ∈ items, ∃ more, keysAt item = .ok (some more) ∧ ∀ key ∈ more, key ∈ found := by
  induction items generalizing keys with
  | nil =>
    cases h
    exact ⟨id, fun _ hkey => hkey, by simp⟩
  | cons item rest ih =>
    rw [alternativeKeys, bind_eq_ok_iff] at h
    obtain ⟨more, hmore, h⟩ := h
    cases more with
    | none => cases h
    | some more =>
      obtain ⟨hnodup, hkept, hrest⟩ := ih h
      have hjoined : ∀ key, key ∈ keys ∨ key ∈ more → key ∈ found :=
        fun key hkey => hkept key (mem_joinKeys_iff.mpr hkey)
      refine ⟨fun hkeys => hnodup (nodup_joinKeys hkeys more), ?_, ?_⟩
      · exact fun key hkey => hjoined key (.inl hkey)
      · exact List.forall_mem_cons.mpr ⟨⟨more, hmore, fun key hkey => hjoined key (.inr hkey)⟩,
          hrest⟩

theorem firstKeys_eq_some (h : firstKeys keysAt items = .ok (some found)) :
    ∃ item ∈ items, keysAt item = .ok (some found) := by
  induction items with
  | nil => cases h
  | cons item rest ih =>
    rw [firstKeys, bind_eq_ok_iff] at h
    obtain ⟨keys, hkeys, h⟩ := h
    cases keys with
    | none =>
      obtain ⟨item', hitem', hfound⟩ := ih h
      exact ⟨item', List.mem_cons_of_mem _ hitem', hfound⟩
    | some keys =>
      cases h
      exact ⟨item, List.mem_cons_self, hkeys⟩

end Lists

theorem keysAt_eq_some {fuel : Nat} {id : PatternId} {keys : List OpKey}
    (h : p.keysAt (fuel + 1) id = .ok (some keys)) :
    ∃ kind, p.kinds[id.index]? = some kind ∧
      match kind with
      | .anyOf items => alternativeKeys (p.keysAt fuel) items [] = .ok (some keys)
      | .allOf items => firstKeys (p.keysAt fuel) items = .ok (some keys)
      | kind => ∃ key, kind.key? = some key ∧ keys = [key] := by
  rw [keysAt, bind_eq_ok_iff] at h
  obtain ⟨kind, hkind, h⟩ := h
  refine ⟨kind, kind_eq_ok_iff.mp hkind, ?_⟩
  cases kind with
  | anyOf items => exact h
  | allOf items => exact h
  | node key operands optional attrs =>
    cases h
    exact ⟨key, rfl, rfl⟩
  | commutable key lhs rhs =>
    cases h
    exact ⟨key, rfl, rfl⟩
  | _ => cases h

theorem nodup_keysAt {fuel : Nat} {id : PatternId} {keys : List OpKey}
    (h : p.keysAt fuel id = .ok (some keys)) : keys.Nodup := by
  induction fuel generalizing id keys with
  | zero => cases h
  | succ fuel ih =>
    obtain ⟨kind, -, hkeys⟩ := keysAt_eq_some h
    cases kind with
    | anyOf items => exact (alternativeKeys_eq_some hkeys).1 List.nodup_nil
    | allOf items =>
      obtain ⟨item, -, hitem⟩ := firstKeys_eq_some hkeys
      exact ih hitem
    | _ =>
      obtain ⟨key, -, rfl⟩ := hkeys
      exact List.nodup_singleton key

theorem exists_producer_of_accepts {g : Graph} {fuel : Nat} {id : PatternId} {keys : List OpKey}
    (h : p.keysAt fuel id = .ok (some keys)) {a : ArgId} (ha : p.Accepts g id a) :
    ∃ producer node, g.producer? a = some producer ∧ g.node? producer = some node ∧
      node.key ∈ keys := by
  induction fuel generalizing id keys with
  | zero => cases h
  | succ fuel ih =>
    obtain ⟨kind, hkind, hkeys⟩ := keysAt_eq_some h
    have htakes := (accepts_iff hkind).mp ha
    cases kind with
    | anyOf items =>
      -- One alternative accepts the arg, and the keys of all alternatives are there.
      obtain ⟨item, hitem, haccepts⟩ := htakes
      obtain ⟨more, hmore, hsub⟩ := (alternativeKeys_eq_some hkeys).2.2 item hitem
      obtain ⟨producer, node, hproducer, hnode, hkey⟩ := ih hmore haccepts
      exact ⟨producer, node, hproducer, hnode, hsub _ hkey⟩
    | allOf items =>
      -- Every item accepts the arg, so any one of them may give the keys.
      obtain ⟨item, hitem, hfound⟩ := firstKeys_eq_some hkeys
      exact ih hfound (htakes item hitem)
    | node key operands optional attrs =>
      obtain ⟨found, hfound, rfl⟩ := hkeys
      cases hfound
      obtain ⟨producer, node, hproducer, hnode, rfl, -⟩ := htakes
      exact ⟨producer, node, hproducer, hnode, List.mem_singleton.mpr rfl⟩
    | commutable key lhs rhs =>
      obtain ⟨found, hfound, rfl⟩ := hkeys
      cases hfound
      obtain ⟨producer, node, -, -, hproducer, hnode, rfl, -⟩ := htakes
      exact ⟨producer, node, hproducer, hnode, List.mem_singleton.mpr rfl⟩
    | wildcard | constant | graphInput =>
      obtain ⟨key, hkey, -⟩ := hkeys
      cases hkey

theorem key_mem_of_matchNode {g : Graph} (h : g.Indexed) (hp : p.Valid) {id : NodeId} {node : Node}
    (hnode : g.node? id = some node) {m : Match} (hrun : p.matchNode g id = .ok (some m))
    {keys : List OpKey} (hkeys : p.rootKeys = .ok (some keys)) : node.key ∈ keys := by
  obtain ⟨node', arg, hnode', harg, hm⟩ := matchNode_sound hp.wellFormed hrun
  cases hnode.symm.trans hnode'
  have haccepts : p.Accepts g p.root arg := accepts_of_isFor hp.wellFormed hm hm.root
  obtain ⟨producer, node', hproducer, hnode', hkey⟩ := exists_producer_of_accepts hkeys haccepts
  -- The arg is an output of the node, and no other node produces it.
  have hid : g.producer? arg = some id :=
    h.producer?_eq_some_iff.mpr ⟨node, hnode, Node.mem_presentOutputs_iff.mpr ⟨0, harg⟩⟩
  cases hid.symm.trans hproducer
  cases hnode.symm.trans hnode'
  exact hkey

theorem matchNode_succeeds {g : Graph} (h : g.Indexed) (hp : p.Valid) {id : NodeId} {node : Node}
    (hnode : g.node? id = some node) : ∃ outcome, p.matchNode g id = .ok outcome := by
  rw [matchNode, Graph.node_eq_ok_iff.mpr hnode, ok_bind]
  cases node.output? 0 with
  | none => exact ⟨none, rfl⟩
  | some arg =>
    obtain ⟨outcome, hrun, -⟩ := matchArg_settled h hp arg
    exact ⟨outcome, hrun⟩

end OpGraph.Pattern
