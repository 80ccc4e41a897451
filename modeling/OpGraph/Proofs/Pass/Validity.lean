import OpGraph.Proofs.Graph.Flow
import OpGraph.Proofs.Pass.Action
import OpGraph.Proofs.Pass.Meaning

/-!
A rule that is matched with its own pattern leaves a valid graph: what takes over from the output of
the replaced node lies below that node, so it has a source and does not depend on the output.
-/

namespace OpGraph

/-! ### Below the root -/

theorem PatternKind.Passes.reader {g : Graph} {a b : ArgId} {child : PatternId} {kind : PatternKind}
    (hkind : kind.descends = true) (h : kind.Passes g a child b) :
    kind.key?.isSome ∧ ∃ id node, g.producer? a = some id ∧ g.node? id = some node ∧
      b ∈ node.presentInputs := by
  cases kind with
  | wildcard => exact h.elim
  | constant => exact h.elim
  | graphInput => exact h.elim
  | node key operands optional attrs =>
    obtain ⟨id, node, slot, hproducer, hnode, -, hslot⟩ := h
    exact ⟨rfl, id, node, hproducer, hnode, Node.mem_presentInputs_iff.mpr ⟨slot, hslot⟩⟩
  | commutable key lhs rhs =>
    obtain ⟨id, node, hproducer, hnode, -, hmem⟩ := h
    exact ⟨rfl, id, node, hproducer, hnode, mem_present_iff.mpr hmem⟩
  | anyOf items => cases hkind
  | allOf items => cases hkind

theorem PatternKind.Holds.key {g : Graph} {σ : PatternId → Option ArgId} {a : ArgId}
    {kind : PatternKind} (h : kind.Holds g σ a) {key : OpKey} (hkey : kind.key? = some key) :
    ∃ id node, g.producer? a = some id ∧ g.node? id = some node ∧ node.key = key := by
  cases kind with
  | node key' operands optional attrs =>
    cases hkey
    obtain ⟨id, node, hproducer, hnode, hfits, -⟩ := h
    simp only [Pattern.fits, Bool.and_eq_true, beq_iff_eq] at hfits
    exact ⟨id, node, hproducer, hnode, hfits.1.1⟩
  | commutable key' lhs rhs =>
    cases hkey
    obtain ⟨id, node, b, c, hproducer, hnode, hkey, -⟩ := h
    exact ⟨id, node, hproducer, hnode, hkey⟩
  | wildcard => cases hkey
  | constant => cases hkey
  | graphInput => cases hkey
  | anyOf items => cases hkey
  | allOf items => cases hkey

namespace Match.IsFor

variable {m : Match} {p : Pattern} {g : Graph} {arg : ArgId} (hm : m.IsFor p g arg)

include hm

theorem bound_induction (hp : p.WellFormed) {P : PatternId → ArgId → Prop} (hroot : P p.root arg)
    (hstep : ∀ parent kind b id a, p.kinds[parent.index]? = some kind → m.arg? parent = some b →
      P parent b → kind.Passes g b id a → P id a) {id : PatternId} {a : ArgId}
    (ha : m.arg? id = some a) : P id a := by
  -- An entry gets its arg from one that comes later, so the induction runs from the end of the
  -- table.
  induction hn : p.size - id.index using Nat.strongRecOn generalizing id a with
  | ind n ih =>
    obtain ⟨rfl, rfl⟩ | ⟨parent, kind, b, hkind, hb, hpasses⟩ := hm.passed id a ha
    · exact hroot
    · have hlt := hp.child_lt hkind hpasses.mem_children
      have hsize : parent.index < p.size := (Array.getElem?_eq_some_iff.mp hkind).1
      exact hstep parent kind b id a hkind hb (ih (p.size - parent.index) (by omega) hb rfl) hpasses

theorem needs_of_bound (hp : p.WellFormed) (hkinds : ∀ kind ∈ p.kinds, kind.descends = true)
    {id : PatternId} {a : ArgId} (ha : m.arg? id = some a) :
    id = p.root ∧ a = arg ∨ Relation.TransGen g.Needs arg a := by
  refine hm.bound_induction hp (P := fun id a => id = p.root ∧ a = arg ∨
    Relation.TransGen g.Needs arg a) (.inl ⟨rfl, rfl⟩) ?_ ha
  intro parent kind b id a hkind hb hparent hpasses
  obtain ⟨-, hneeds⟩ := hpasses.reader (hkinds kind (Array.mem_of_getElem? hkind))
  right
  obtain ⟨-, rfl⟩ | habove := hparent
  · exact .single hneeds
  · exact habove.tail hneeds

end Match.IsFor

/-! ### One rewrite -/

namespace Graph

/-- The graph is valid but for cycles. -/
structure Wired (keys : List OpKey) (g : Graph) : Prop where
  consistent : g.Consistent
  sourced : g.Sourced
  single : g.SingleOutput keys

theorem Wired.ready {keys : List OpKey} {g : Graph} (h : g.Wired keys) {order : List NodeId}
    (horder : g.orderOrFault = .ok order) : g.Ready keys :=
  ⟨h.consistent, h.sourced, h.single, h.consistent.acyclic_of_orderOrFault horder⟩

theorem Ready.wired {keys : List OpKey} {g : Graph} (h : g.Ready keys) : g.Wired keys :=
  ⟨h.consistent, h.sourced, h.single⟩

theorem Rewrites.wired {keys : List OpKey} {g g' : Graph} (h : g.Wired keys) {root : NodeId}
    {node : Node} {old : ArgId} {args : List ArgId} (hproduced : g.producer? old = some root)
    (hnode : g.node? root = some node) (hkey : node.key ∈ keys)
    (hargs : ∀ a ∈ args, a ≠ old ∧ g.hasSource a = true) (hr : g.Rewrites root old args g') :
    g'.Wired keys := by
  have hindexed := h.consistent.toIndexed
  have hsingle : ∀ a, g.producer? a = some root → a = old := fun _ ha =>
    h.single.eq_of_producer? hindexed hproduced hnode hkey ha
  have hnot : old ∉ args := fun hmem => (hargs old hmem).1 rfl
  obtain ⟨new, supply, hrewired, hfresh, hsubset⟩ := hr.rewired hindexed hproduced hnot
  have hfits : supply.Fits g old new := hfresh.fits fun a ha => hargs a (hsubset ha)
  exact ⟨hrewired.consistent hfresh h.consistent, hrewired.sourced hindexed hsingle hfits h.sourced,
    hrewired.singleOutput hfits h.single⟩

end Graph

/-! ### One firing -/

namespace Match

variable {m : Match} {p : Pattern} {g : Graph} {arg : ArgId} {id : NodeId}

theorem exists_entry {α : Type} {f : Binding → Option α} {name : String} {a : α}
    (ha : (m.named? name).bind f = some a) : ∃ entry, m.pattern.find? name = some entry := by
  obtain ⟨binding, hbinding, -⟩ := Option.bind_eq_some_iff.mp ha
  obtain ⟨entry, hentry, -⟩ := Option.bind_eq_some_iff.mp hbinding
  exact ⟨entry, hentry⟩

theorem Offers.source (h : g.Indexed) (hm : m.IsFor p g arg) (hp : p.WellFormed)
    (hmatch : p.matchNode g id = .ok (some m)) {name : String} {a : ArgId}
    (ha : m.Offers g name a) :
    ∃ entry b, p.find? name = some entry ∧ m.arg? entry = some b ∧
      (a = b ∨ ∃ giver, g.producer? a = some giver ∧ g.producer? b = some giver) := by
  obtain ha | ⟨giver, node, hgiver, hnode, hout⟩ := ha
  · obtain ⟨entry, hentry⟩ := exists_entry ha
    rw [hm.pattern] at hentry
    exact ⟨entry, a, hentry, (hm.namedArg?_eq name hentry).symm.trans ha, .inl rfl⟩
  · obtain ⟨entry, hentry⟩ := exists_entry hgiver
    rw [hm.pattern] at hentry
    rw [hm.namedNode?_eq name hentry] at hgiver
    obtain ⟨b, hb⟩ := Pattern.exists_arg_of_node? hp hmatch hgiver
    refine ⟨entry, b, hentry, hb, .inr ⟨giver, ?_, (hm.node entry b hb).symm.trans hgiver⟩⟩
    exact h.producer?_eq_some_iff.mpr ⟨node, hnode, Node.mem_presentOutputs_iff.mpr ⟨0, hout⟩⟩

theorem Offers.below {keys : List OpKey} (hready : g.Ready keys) (hm : m.IsFor p g arg)
    (hmatch : p.matchNode g id = .ok (some m)) (hp : p.WellFormed)
    (hkinds : ∀ kind ∈ p.kinds, kind.descends = true) {name : String}
    (hname : p.find? name ≠ some p.root) {a : ArgId} (ha : m.Offers g name a) :
    a ≠ arg ∧ g.hasSource a = true := by
  obtain ⟨entry, b, hentry, hb, hsource⟩ := ha.source hready.consistent.toIndexed hm hp hmatch
  obtain ⟨rfl, -⟩ | hneeds := hm.needs_of_bound hp hkinds hb
  · exact absurd hentry hname
  · obtain rfl | ⟨giver, hgives, hproducer⟩ := hsource
    · exact ⟨hready.acyclic.ne_of_needs hneeds, hready.sourced.hasSource_of_needs hneeds⟩
    · refine ⟨?_, Graph.hasSource_iff.mpr (.inl ⟨giver, hgives⟩)⟩
      -- The node feeds the root, so it is not the node that gives the arg of the root.
      rintro rfl
      obtain ⟨target, htarget, hfeeds⟩ := Graph.feeds_of_needs hneeds hproducer
      cases hgives.symm.trans htarget
      exact hready.acyclic giver hfeeds

end Match

structure Pattern.Site (p : Pattern) (keys : List OpKey) (g : Graph) (m : Match) (id : NodeId)
    (old : ArgId) : Prop where
  matched : p.matchNode g id = .ok (some m)
  isFor : m.IsFor p g old
  gives : g.Gives (· ∈ keys) id old

theorem Pattern.Serves.site {p : Pattern} {root : String} {names : List String} {keys : List OpKey}
    (hserves : p.Serves root names keys) {g : Graph} (h : g.Indexed) {m : Match} {id root' : NodeId}
    {node : Node} {old : ArgId} (hmatch : p.matchNode g id = .ok (some m))
    (hroot' : m.namedNode? root = some root') (hnode : g.node? root' = some node)
    (hold : node.output? 0 = some old) : root' = id ∧ p.Site keys g m id old := by
  obtain ⟨hp, -, hroot, ⟨key, hkey, hrootKey⟩, -⟩ := hserves
  obtain ⟨offered, arg, hoffered, hout, hm⟩ := Pattern.matchNode_sound hp hmatch
  rw [hm.namedNode?_eq root hroot, hm.node _ _ hm.root] at hroot'
  have hid : g.producer? arg = some id := h.producer?_eq_some_iff.mpr
    ⟨offered, hoffered, Node.mem_presentOutputs_iff.mpr ⟨0, hout⟩⟩
  obtain rfl := Option.some.inj (hroot'.symm.trans hid)
  obtain rfl := Option.some.inj (hnode.symm.trans hoffered)
  obtain rfl := Option.some.inj (hold.symm.trans hout)
  obtain ⟨kind, hkind, hholds⟩ := hm.holds _ _ hm.root
  rw [hkind] at hrootKey
  obtain ⟨_, node', hproducer', hnode', hnodeKey⟩ := hholds.key hrootKey
  cases hroot'.symm.trans hproducer'
  cases hnode.symm.trans hnode'
  exact ⟨rfl, hmatch, hm, hroot', node, hnode, hnodeKey ▸ hkey⟩

namespace RuleSpec

variable {spec : RuleSpec} {pattern : Pattern} {g g' : Graph}

theorem exists_site {deed : Graph → NodeId → ArgId → List ArgId → Graph → Prop} {root : String}
    {names : List String} {keys : List OpKey} (hacts : RulePass.ActsBy deed spec.act root names)
    (hserves : pattern.Serves root names keys) (h : g.Indexed)
    (hfires : (spec.toRule pattern).Fires g g') :
    ∃ m id old args, pattern.Site keys g m id old ∧
      (∀ a ∈ args, ∃ name ∈ names, m.Offers g name a) ∧ deed g id old args g' := by
  obtain ⟨id, m, pass, counter, hmatch, hact⟩ := exists_deed_of_fires hfires
  obtain ⟨root', node, old, args, hroot', hnode, hold, hargs, hdeed⟩ :=
    hacts pass m g counter g' hact
  obtain ⟨rfl, hsite⟩ := hserves.site h hmatch hroot' hnode hold
  exact ⟨m, root', old, args, hsite, hargs, hdeed⟩

theorem wired_of_fires (hacts : spec.Acts) (hpattern : spec.pattern = .ok pattern)
    (hready : g.Ready replacedKeys) (hfires : (spec.toRule pattern).Fires g g') :
    g'.Wired replacedKeys := by
  obtain ⟨root, names, hactsOn, hserves⟩ := hacts
  have hserved := hserves pattern hpattern
  obtain ⟨m, id, old, args, hsite, hargs, hrewrites⟩ :=
    exists_site hactsOn hserved hready.consistent.toIndexed hfires
  obtain ⟨hp, hkinds, -, -, hnames⟩ := hserved
  obtain ⟨hproduced, node, hnode, hkey⟩ := hsite.gives
  refine hrewrites.wired hready.wired hproduced hnode hkey ?_
  intro a ha
  obtain ⟨name, hname, hoffers⟩ := hargs a ha
  exact hoffers.below hready hsite.isFor hsite.matched hp hkinds (hnames name hname)

end RuleSpec

end OpGraph
