import OpGraph.Proofs.Meaning.Laws
import OpGraph.Proofs.Pattern.Match

/-!
The place where a rule applies. A match tells which nodes stand there and what they read; if the arg
that takes over has the value of the one it replaces, the rewrite keeps the meaning of the graph.
-/

namespace OpGraph

namespace Match.IsFor

variable {m : Match} {p : Pattern} {g : Graph} {arg : ArgId} (hm : m.IsFor p g arg) {id : PatternId}
  {key : OpKey} {operands : List PatternId} {optional : List Bool} {attrs : List (String × Attr)}
  (hkind : p.kinds[id.index]? = some (.node key operands optional attrs)) {a : ArgId}
  (ha : m.arg? id = some a)

include hm hkind ha

theorem exists_arg (slot : Nat) {child : PatternId} (hslot : operands[slot]? = some child)
    (hrequired : optional[slot]? ≠ some true) : ∃ b, m.arg? child = some b := by
  obtain ⟨kind, hkind', hholds⟩ := hm.holds id a ha
  cases hkind.symm.trans hkind'
  obtain ⟨producer, node, -, -, -, hslots⟩ := hholds
  obtain ⟨-, hoptional⟩ | ⟨b, -, hb⟩ := hslots child slot hslot
  · exact absurd hoptional hrequired
  · exact ⟨b, hb⟩

theorem emits (hp : p.Linear) (args : List ArgId) (hargs : operands.map m.arg? = args.map some) :
    ∃ producer node, m.node? id = some producer ∧ g.Emits producer node key args a := by
  obtain ⟨kind, hkind', hholds⟩ := hm.holds id a ha
  cases hkind.symm.trans hkind'
  obtain ⟨producer, node, hproducer, hnode, hfits, -⟩ := hholds
  simp only [Pattern.fits, Bool.and_eq_true, beq_iff_eq, List.all_eq_true] at hfits
  obtain ⟨⟨hkey, -⟩, hrest⟩ := hfits
  refine ⟨producer, node, (hm.node id a ha).trans hproducer, hproducer, hnode, hkey, ?_⟩
  intro i
  have hget : (operands[i]?).map m.arg? = (args[i]?).map some := by
    rw [← List.getElem?_map, hargs, List.getElem?_map]
  cases hslot : operands[i]? with
  | some child =>
    rw [hslot] at hget
    cases hb : args[i]? with
    | none =>
      rw [hb] at hget
      cases hget
    | some b =>
      rw [hb] at hget
      obtain ⟨producer', node', hproducer', hnode', hinput⟩ :=
        hm.input?_of_linear hp hkind ha hslot (Option.some.inj hget)
      cases hproducer.symm.trans hproducer'
      cases hnode.symm.trans hnode'
      exact hinput
  | none =>
    rw [hslot] at hget
    cases hb : args[i]? with
    | some b =>
      rw [hb] at hget
      cases hget
    | none =>
      -- Past the operands of the pattern every slot is empty.
      have hle : operands.length ≤ i := List.getElem?_eq_none_iff.mp hslot
      rw [Node.input?, ← Nat.add_sub_cancel' hle, ← List.getElem?_drop]
      cases hin : (node.inputs.drop operands.length)[i - operands.length]? with
      | none => rfl
      | some slot =>
        have hnone := hrest slot (List.mem_of_getElem? hin)
        rw [Option.isNone_iff_eq_none] at hnone
        rw [hnone]
        rfl

omit hkind in
theorem emits_unary (hp : p.Linear) {child : PatternId}
    (hkind : p.kinds[id.index]? = some (.node key [child] [false] attrs)) :
    ∃ b producer node, m.arg? child = some b ∧ m.node? id = some producer ∧
      g.Emits producer node key [b] a := by
  obtain ⟨b, hb⟩ := hm.exists_arg hkind ha 0 rfl (by decide)
  obtain ⟨producer, node, hid, hemits⟩ := hm.emits hkind ha hp [b] (by simp [hb])
  exact ⟨b, producer, node, hb, hid, hemits⟩

end Match.IsFor

namespace Graph

variable {V : Type} {I : Interpretation V} {g : Graph}

/-! ### What an arg is computed from -/

def Needs (g : Graph) (a b : ArgId) : Prop :=
  ∃ id node, g.producer? a = some id ∧ g.node? id = some node ∧ b ∈ node.presentInputs

theorem Emits.node_eq {id : NodeId} {node : Node} {key : OpKey} {args : List ArgId} {a : ArgId}
    (ha : g.Emits id node key args a) : g.node id = .ok node :=
  node_eq_ok_iff.mpr ha.live

theorem Emits.needs {id : NodeId} {node : Node} {key : OpKey} {args : List ArgId} {a : ArgId}
    (ha : g.Emits id node key args a) {b : ArgId} (hb : b ∈ args) : g.Needs a b := by
  obtain ⟨i, hi⟩ := List.mem_iff_getElem?.mp hb
  exact ⟨id, node, ha.produced, ha.live, Node.mem_presentInputs_iff.mpr ⟨i, (ha.reads i).trans hi⟩⟩

theorem feeds_of_needs {a b : ArgId} (hneeds : Relation.TransGen g.Needs a b) {source : NodeId}
    (hb : g.producer? b = some source) :
    ∃ target, g.producer? a = some target ∧ Relation.TransGen g.Feeds source target := by
  induction hneeds generalizing source with
  | single hab =>
    obtain ⟨id, node, ha, hnode, hmem⟩ := hab
    exact ⟨id, ha, .single ⟨node, _, hnode, hmem, hb⟩⟩
  | tail _ hbc ih =>
    obtain ⟨id, node, hid, hnode, hmem⟩ := hbc
    obtain ⟨target, ha, hfeeds⟩ := ih hid
    exact ⟨target, ha, .head ⟨node, _, hnode, hmem, hb⟩ hfeeds⟩

theorem Acyclic.ne_of_needs (hacyclic : g.Acyclic) {a b : ArgId}
    (hneeds : Relation.TransGen g.Needs a b) : b ≠ a := by
  rintro rfl
  obtain ⟨c, ⟨id, node, hid, -, -⟩, -⟩ := Relation.TransGen.head'_iff.mp hneeds
  obtain ⟨target, htarget, hfeeds⟩ := feeds_of_needs hneeds hid
  cases hid.symm.trans htarget
  exact hacyclic id hfeeds

theorem Sourced.hasSource_of_needs (hsourced : g.Sourced) {a b : ArgId}
    (hneeds : Relation.TransGen g.Needs a b) : g.hasSource b = true := by
  obtain ⟨c, -, id, node, -, hnode, hmem⟩ := Relation.TransGen.tail'_iff.mp hneeds
  exact hsourced id node b hnode hmem

/-! ### Rewrites that keep the meaning -/

/-- What the rewrites below presuppose of a graph. -/
structure Ready (keys : List OpKey) (g : Graph) : Prop where
  consistent : g.Consistent
  sourced : g.Sourced
  single : g.SingleOutput keys
  acyclic : g.Acyclic

namespace Ready

variable {ρ : ArgId → V} {ν : ArgId → Option V} {keys : List OpKey} (hready : g.Ready keys)
  {id : NodeId} {node : Node} {key : OpKey} {a : ArgId}

include hready

theorem output?_zero {args : List ArgId} (ha : g.Emits id node key args a) (hkey : key ∈ keys) :
    node.output? 0 = some a :=
  hready.single.output?_zero hready.consistent.toIndexed ha.produced ha.live (by rwa [ha.operator])

theorem eq_of_produced {args : List ArgId} (ha : g.Emits id node key args a) (hkey : key ∈ keys)
    {b : ArgId} (hb : g.producer? b = some id) : b = a :=
  hready.single.eq_of_producer? hready.consistent.toIndexed ha.produced ha.live
    (by rwa [ha.operator]) hb

theorem exists_value (hν : g.Solution I ρ ν) {b : ArgId} (hneeds : g.Needs a b) :
    ∃ v, ν b = some v :=
  hν.exists_value hready.consistent.toIndexed (hready.sourced.hasSource_of_needs (.single hneeds))

theorem value_unary (hν : g.Solution I ρ ν) {b : ArgId} (ha : g.Emits id node key [b] a)
    (hkey : key ∈ keys) : ∃ v, ν b = some v ∧ ν a = some (I.apply key node.attrs [v]) := by
  obtain ⟨v, hv⟩ := hready.exists_value hν (ha.needs List.mem_cons_self)
  refine ⟨v, hv, hν.emitted hready.consistent.toIndexed hready.single ha hkey [v] ?_⟩
  rw [List.map_singleton, List.map_singleton, hv]

end Ready

section

variable {g' : Graph} {keys : List OpKey} (hready : g.Ready keys) {root : NodeId} {node : Node}
  {key : OpKey} {reads : List ArgId} {old : ArgId} (hroot : g.Emits root node key reads old)
  (hkey : key ∈ keys)

include hready hroot hkey

theorem preserves_of_bypass {survivor : ArgId} (hneeds : Relation.TransGen g.Needs old survivor)
    (hvalue : ∀ ρ ν, g.Solution I ρ ν → ν survivor = ν old)
    (hrun : g.bypass root old survivor = .ok (true, g')) : Preserves I g g' := by
  have hne := hready.acyclic.ne_of_needs hneeds
  exact .intro (bypass_eq_some hready.consistent.toIndexed hroot.produced (Ne.symm hne) hrun)
    (hready.sourced.hasSource_of_needs hneeds) (fun _ => hready.eq_of_produced hroot hkey) hvalue

theorem preserves_of_supplant {draft : Draft} (args : List ArgId)
    (hinputs : draft.inputs = args.map some) (houtputs : draft.outputs = [])
    (hneeds : ∀ a ∈ args, Relation.TransGen g.Needs old a)
    (hvalue : ∀ ρ ν, g.Solution I ρ ν → ∃ values, args.map ν = values.map some ∧
      ν old = some (I.apply draft.key draft.attrs values))
    (hrun : g.supplant root old draft = .ok (true, g')) : Preserves I g g' := by
  have hindexed := hready.consistent.toIndexed
  obtain ⟨name, hrewired⟩ := supplant_eq_some hindexed hroot.produced houtputs hrun
  have hget : ∀ i, (draft.nodeIn g name).input? i = args[i]? := by
    intro i
    rw [Node.input?, Draft.nodeIn, hinputs, List.getElem?_map]
    cases args[i]? <;> rfl
  refine .intro hrewired ⟨arg?_nextArg, node?_nextNode, rfl, ?_⟩
    (fun _ => hready.eq_of_produced hroot hkey) ?_
  · intro a ha
    obtain ⟨i, hi⟩ := Node.mem_presentInputs_iff.mp ha
    have hmem : a ∈ args := List.mem_of_getElem? ((hget i).symm.trans hi)
    exact ⟨hready.acyclic.ne_of_needs (hneeds a hmem),
      hready.sourced.hasSource_of_needs (hneeds a hmem)⟩
  · intro ρ ν hν
    obtain ⟨values, hvalues, hold⟩ := hvalue ρ ν hν
    rw [hold, Supply.value, Interpretation.apply]
    congr 3
    funext i
    rw [hget i]
    exact bind_getElem?_of_map hvalues i

theorem preserves_of_initializer {g₂ g₃ : Graph} {removed : Node} {new : ArgId} {name : String}
    {tensor : Tensor} {log : Log} (hdeclare : addInitializer name tensor g = .ok new g₂)
    (hreplace : { g₂ with log }.replaceAllUses old new = .ok g₃)
    (hremove : g₃.removeNode root = .ok (removed, g'))
    (hvalue : ∀ ρ ν, g.Solution I ρ ν → ν old = some (I.const tensor)) : Preserves I g g' := by
  obtain ⟨rfl, hrewired⟩ :=
    rewired_of_initializer hready.consistent.toIndexed hroot.produced hdeclare hreplace hremove
  exact .intro hrewired arg?_nextArg (fun _ => hready.eq_of_produced hroot hkey)
    fun ρ ν hν => (hvalue ρ ν hν).symm

end

end Graph

/-! ### One node upon another -/

def Pattern.stacked (inner outer : OpKey) : Pattern :=
  ⟨#[.wildcard, .node inner [⟨0⟩] [false] [], .node outer [⟨1⟩] [false] []],
    #[some "x", some "inner", some "outer"], ⟨2⟩⟩

structure Stacked (g : Graph) (inner outer : OpKey) (m : Match) where
  x : ArgId
  mid : ArgId
  out : ArgId
  innerId : NodeId
  innerNode : Node
  outerId : NodeId
  outerNode : Node
  named_x : m.namedArg? "x" = some x
  named_inner : m.namedNode? "inner" = some innerId
  named_outer : m.namedNode? "outer" = some outerId
  emits_mid : g.Emits innerId innerNode inner [x] mid
  emits_out : g.Emits outerId outerNode outer [mid] out

theorem exists_stacked {g : Graph} {inner outer : OpKey} {id : NodeId} {m : Match}
    (hmatch : (Pattern.stacked inner outer).matchNode g id = .ok (some m)) :
    Nonempty (Stacked g inner outer m) := by
  have hwellFormed : (Pattern.stacked inner outer).WellFormed := of_decide_eq_true rfl
  have hlinear : (Pattern.stacked inner outer).Linear := of_decide_eq_true rfl
  obtain ⟨-, out, -, -, hm⟩ := Pattern.matchNode_sound hwellFormed hmatch
  obtain ⟨mid, outerId, outerNode, hmid, houter, hout⟩ := hm.emits_unary hm.root hlinear rfl
  obtain ⟨x, innerId, innerNode, hx, hinner, hmid⟩ := hm.emits_unary hmid hlinear rfl
  exact ⟨x, mid, out, innerId, innerNode, outerId, outerNode, (hm.namedArg?_eq "x" rfl).trans hx,
    (hm.namedNode?_eq "inner" rfl).trans hinner, (hm.namedNode?_eq "outer" rfl).trans houter, hmid,
    hout⟩

namespace Stacked

variable {V : Type} {I : Interpretation V} {ρ : ArgId → V} {ν : ArgId → Option V} {g : Graph}
  {inner outer : OpKey} {m : Match} (s : Stacked g inner outer m)

theorem needs_mid : Relation.TransGen g.Needs s.out s.mid :=
  .single (s.emits_out.needs List.mem_cons_self)

theorem needs_x : Relation.TransGen g.Needs s.out s.x :=
  s.needs_mid.tail (s.emits_mid.needs List.mem_cons_self)

theorem value {keys : List OpKey} (hready : g.Ready keys) (hinner : inner ∈ keys)
    (houter : outer ∈ keys) (hν : g.Solution I ρ ν) :
    ∃ v, ν s.x = some v ∧ ν s.mid = some (I.apply inner s.innerNode.attrs [v]) ∧
      ν s.out = some (I.apply outer s.outerNode.attrs [I.apply inner s.innerNode.attrs [v]]) := by
  obtain ⟨v, hv, hmid⟩ := hready.value_unary hν s.emits_mid hinner
  obtain ⟨w, hw, hout⟩ := hready.value_unary hν s.emits_out houter
  cases hmid.symm.trans hw
  exact ⟨v, hv, hmid, hout⟩

end Stacked

theorem counted_eq_some {x : Except Fault (Bool × Graph)} {name counter : String} {g' : Graph}
    (hrun : (do return RulePass.counted name (← x)) = .ok (some counter, g')) :
    counter = name ∧ x = .ok (true, g') := by
  simp only [bind_eq_ok_iff, pure_eq_ok_iff, RulePass.counted, Prod.mk.injEq] at hrun
  obtain ⟨⟨done, g⟩, hx, hcounter, rfl⟩ := hrun
  cases done with
  | false => cases hcounter
  | true => exact ⟨(Option.some.inj hcounter).symm, hx⟩

theorem rewrite_of_counted {x : Except Fault (Bool × Graph)} {name counter : String} {g' : Graph}
    (hrun : (do return RulePass.counted name (← x)) = .ok (some counter, g')) :
    x = .ok (true, g') :=
  (counted_eq_some hrun).2

def RuleSpec.Sound {V : Type} (I : Interpretation V) (spec : RuleSpec) : Prop :=
  ∀ pattern, spec.pattern = .ok pattern → ∀ g id m pass counter g', g.Ready ruleKeys →
    pattern.matchNode g id = .ok (some m) → spec.act pass m g = .ok (some counter, g') →
    Graph.Preserves I g g'

end OpGraph
