import OpGraph.Pattern.Match
import OpGraph.Proofs.Graph.Pruned

/-!
A match looks at nothing but the nodes behind the one it starts from, so it is the same in graphs
that look alike from there. On a graph of which garbage was taken away, a pattern therefore binds
exactly what it binds on the whole graph.
-/

namespace OpGraph

structure Binding.Within (b : Binding) (g : Graph) : Prop where
  arg : ∀ a, b.arg = some a → g.Touches a
  node : ∀ id, b.node = some id → ∃ node, g.node? id = some node

def Bindings.Within (bound : Bindings) (g : Graph) : Prop :=
  ∀ (id : PatternId) b, bound[id]? = some b → b.Within g

theorem Bindings.Within.insert {bound : Bindings} {g : Graph} (hbound : bound.Within g)
    {b : Binding} (hb : b.Within g) (id : PatternId) : Bindings.Within (bound.insert id b) g := by
  intro k c hc
  rw [Std.ExtTreeMap.getElem?_insert] at hc
  split at hc
  · cases hc
    exact hb
  · exact hbound k c hc

theorem Graph.Indexed.within_produced {g : Graph} (h : g.Indexed) {a : ArgId} (ha : g.Touches a) :
    Binding.Within ⟨g.producer? a, some a⟩ g where
  arg b hb := by
    cases hb
    exact ha
  node id hid := by
    obtain ⟨node, hnode, -⟩ := h.producer?_eq_some_iff.mp hid
    exact ⟨node, hnode⟩

namespace Pattern

def Agree (W : Bindings → Prop) (x x' : Except Fault (Option Bindings)) : Prop :=
  x' = x ∧ ∀ bound, x = .ok (some bound) → W bound

section

variable {W : Bindings → Prop} {x x' : Except Fault (Option Bindings)}

theorem agree_none : Agree W (.ok none) (.ok none) :=
  ⟨rfl, fun _ hbound => by cases hbound⟩

theorem agree_error {f : Fault} : Agree W (.error f) (.error f) :=
  ⟨rfl, fun _ hbound => by cases hbound⟩

theorem agree_some {bound : Bindings} (hbound : W bound) :
    Agree W (.ok (some bound)) (.ok (some bound)) := by
  refine ⟨rfl, fun bound' heq => ?_⟩
  cases heq
  exact hbound

theorem agree_bind {f f' : Option Bindings → Except Fault (Option Bindings)} (hx : Agree W x x')
    (hnone : Agree W (f none) (f' none))
    (hsome : ∀ bound : Bindings, W bound → Agree W (f (some bound)) (f' (some bound))) :
    Agree W (x >>= f) (x' >>= f') := by
  obtain ⟨rfl, hbound⟩ := hx
  cases x' with
  | error f => exact agree_error
  | ok result =>
    cases result with
    | none => exact hnone
    | some bound => exact hsome bound (hbound bound rfl)

def Attempt.Agree (S : ArgId → Prop) (W : Bindings → Prop) (attempt attempt' : Attempt) : Prop :=
  ∀ id a (bound : Bindings), S a → W bound →
    Pattern.Agree W (attempt id a bound) (attempt' id a bound)

variable {S : ArgId → Prop} {attempt attempt' : Attempt}
  (hattempt : Attempt.Agree S W attempt attempt') {bound : Bindings} (hbound : W bound)

include hattempt hbound

theorem matchOperands_agree {node : Node} (hread : ∀ a ∈ node.presentInputs, S a)
    (optional : List Bool) (operands : List (PatternId × Nat)) :
    Agree W (matchOperands attempt node optional operands bound)
      (matchOperands attempt' node optional operands bound) := by
  induction operands generalizing bound with
  | nil => exact agree_some hbound
  | cons entry rest ih =>
    obtain ⟨operand, slot⟩ := entry
    rw [matchOperands, matchOperands]
    cases hinput : node.input? slot with
    | none =>
      cases optional[slot]? with
      | none => exact agree_error
      | some flag =>
        cases flag with
        | false => exact agree_none
        | true => exact ih hbound
    | some a =>
      have ha := hread a (Node.mem_presentInputs_iff.mpr ⟨slot, hinput⟩)
      exact agree_bind (hattempt operand a bound ha hbound) agree_none fun _ => ih

theorem matchPair_agree {first second : ArgId} (hfirst : S first) (hsecond : S second)
    (lhs rhs : PatternId) :
    Agree W (matchPair attempt lhs rhs first second bound)
      (matchPair attempt' lhs rhs first second bound) := by
  refine agree_bind (hattempt lhs first bound hfirst hbound) agree_none ?_
  exact fun bound₁ hbound₁ => hattempt rhs second bound₁ hsecond hbound₁

theorem matchAny_agree {a : ArgId} (ha : S a) (items : List PatternId) :
    Agree W (matchAny attempt a bound items) (matchAny attempt' a bound items) := by
  induction items with
  | nil => exact agree_none
  | cons item rest ih =>
    exact agree_bind (hattempt item a bound ha hbound) ih fun _ => agree_some

theorem matchAll_agree {a : ArgId} (ha : S a) (items : List PatternId) :
    Agree W (matchAll attempt a items bound) (matchAll attempt' a items bound) := by
  induction items generalizing bound with
  | nil => exact agree_some hbound
  | cons item rest ih =>
    exact agree_bind (hattempt item a bound ha hbound) agree_none fun _ => ih

end

section

variable {S : ArgId → Prop} {W : Bindings → Prop} {g g' : Graph} (halike : g.AlikeFrom S g')
  (hW : ∀ (bound : Bindings) id a, W bound → S a → W (bound.insert id ⟨g.producer? a, some a⟩))

include halike hW

theorem matchKind_agree {attempt attempt' : Attempt} (hattempt : Attempt.Agree S W attempt attempt')
    {a : ArgId} (ha : S a) {bound : Bindings} (hbound : W bound) (id : PatternId)
    (kind : PatternKind) :
    Agree W (matchKind g attempt id a bound kind) (matchKind g' attempt' id a bound kind) := by
  have hproducer := halike.producer?_eq a ha
  cases kind with
  | wildcard =>
    rw [matchKind, matchKind, hproducer]
    exact agree_some (hW bound id a hbound ha)
  | constant =>
    rw [matchKind, matchKind, hproducer, halike.isConstant_eq ha]
    cases g.isConstant a with
    | error f => exact agree_error
    | ok found =>
      cases found with
      | false => exact agree_none
      | true => exact agree_some (hW bound id a hbound ha)
  | graphInput =>
    rw [matchKind, matchKind, hproducer, halike.isInput_eq a ha]
    cases g.isInput a with
    | false => exact agree_none
    | true => exact agree_some (hW bound id a hbound ha)
  | node key operands optional attrs =>
    have hinsert := hW bound id a hbound ha
    rw [matchKind, matchKind, hproducer]
    cases hid : g.producer? a with
    | none => exact agree_none
    | some producer =>
      rw [hid] at hinsert
      dsimp only
      rw [halike.node_eq a producer ha hid]
      cases hnode : g.node producer with
      | error f => exact agree_error
      | ok node =>
        rw [ok_bind, ok_bind]
        cases fits node key operands.length attrs with
        | false => exact agree_none
        | true =>
          apply matchOperands_agree hattempt hinsert
          exact halike.reads a producer node ha hid (Graph.node_eq_ok_iff.mp hnode)
  | commutable key lhs rhs =>
    have hinsert := hW bound id a hbound ha
    rw [matchKind, matchKind, hproducer]
    cases hid : g.producer? a with
    | none => exact agree_none
    | some producer =>
      rw [hid] at hinsert
      dsimp only
      rw [halike.node_eq a producer ha hid]
      cases hnode : g.node producer with
      | error f => exact agree_error
      | ok node =>
        rw [ok_bind, ok_bind]
        split
        · next first second hinputs =>
          have hread : ∀ b, some b ∈ node.inputs → S b := fun b hb =>
            halike.reads a producer node ha hid (Graph.node_eq_ok_iff.mp hnode) b
              (mem_present_iff.mpr hb)
          have hfirst := hread first (by rw [hinputs]; simp)
          have hsecond := hread second (by rw [hinputs]; simp)
          split
          · apply agree_bind (matchPair_agree hattempt hinsert hfirst hsecond lhs rhs)
            · exact matchPair_agree hattempt hinsert hsecond hfirst lhs rhs
            · exact fun _ => agree_some
          · exact agree_none
        · exact agree_none
  | anyOf items =>
    rw [matchKind, matchKind, hproducer]
    refine agree_bind (matchAny_agree hattempt hbound ha items) agree_none ?_
    exact fun bound₁ hbound₁ => agree_some (hW bound₁ id a hbound₁ ha)
  | allOf items =>
    rw [matchKind, matchKind, hproducer]
    refine agree_bind (matchAll_agree hattempt hbound ha items) agree_none ?_
    exact fun bound₁ hbound₁ => agree_some (hW bound₁ id a hbound₁ ha)

theorem matchAt_agree (p : Pattern) (fuel : Nat) :
    Attempt.Agree S W (p.matchAt g fuel) (p.matchAt g' fuel) := by
  induction fuel with
  | zero =>
    intro id a bound _ _
    exact agree_error
  | succ fuel ih =>
    intro id a bound ha hbound
    rw [matchAt, matchAt]
    split
    · split
      · exact agree_some hbound
      · exact agree_none
    · cases p.kind id with
      | error f => exact agree_error
      | ok kind => exact matchKind_agree halike hW ih ha hbound id kind

end

theorem matchAt_congr {S : ArgId → Prop} {g g' : Graph} (halike : g.AlikeFrom S g') (p : Pattern)
    (fuel : Nat) : Attempt.Agree S (fun _ => True) (p.matchAt g fuel) (p.matchAt g' fuel) :=
  matchAt_agree halike (fun _ _ _ _ _ => trivial) p fuel

end Pattern

structure Match.Within (m : Match) (g : Graph) : Prop where
  arg : ∀ {name a}, m.namedArg? name = some a → g.Touches a
  node : ∀ {name id}, m.namedNode? name = some id → ∃ node, g.node? id = some node

namespace Pattern

theorem within_complete {p : Pattern} {g : Graph} {bound : Bindings} (hbound : bound.Within g) :
    (p.complete bound).Within g := by
  rw [complete]
  refine List.foldlRecOn (motive := fun bound => Bindings.Within bound g) _ _ hbound ?_
  intro bound hbound id _
  split
  · exact hbound
  · apply hbound.insert
    constructor
    · intro a ha
      cases ha
    · intro node hnode
      cases hnode

theorem matchNode_of_pruned {g g' : Graph} (h : g.Indexed) (hpruned : g.Pruned g') (p : Pattern)
    {id : NodeId} {node : Node} (hnode : g'.node? id = some node) :
    p.matchNode g' id = p.matchNode g id ∧
      ∀ m, p.matchNode g id = .ok (some m) → m.Within g' := by
  rw [matchNode, matchNode, ← hpruned.node_eq hnode, Graph.node_eq_ok_iff.mpr hnode]
  simp only [ok_bind]
  cases hout : node.output? 0 with
  | none => exact ⟨rfl, fun m hm => by cases hm⟩
  | some a =>
    have ha : g'.Touches a := ⟨id, node, hnode, .inr (Node.mem_presentOutputs_iff.mpr ⟨0, hout⟩)⟩
    have hinsert : ∀ (bound : Bindings) k b, bound.Within g' → g'.Touches b →
        Bindings.Within (bound.insert k ⟨g.producer? b, some b⟩) g' := by
      intro bound k b hbound hb
      rw [← hpruned.producer?_eq h hb]
      exact hbound.insert (hpruned.indexed.within_produced hb) k
    obtain ⟨heq, hwithin⟩ := matchAt_agree (hpruned.alikeFrom h) hinsert p (p.root.index + 1)
      p.root a ∅ ha (fun k b hb => by simp at hb)
    dsimp only
    rw [matchArg, matchArg, heq]
    refine ⟨rfl, fun m hm => ?_⟩
    rw [bind_eq_ok_iff] at hm
    obtain ⟨result, hresult, hm⟩ := hm
    cases result with
    | none => cases hm
    | some bound =>
      cases hm
      have hcomplete := within_complete (p := p) (hwithin bound hresult)
      constructor
      · intro name b hb
        simp only [Match.namedArg?, Match.named?, Option.bind_eq_some_iff] at hb
        obtain ⟨binding, ⟨k, -, hk⟩, hb⟩ := hb
        exact (hcomplete k binding hk).arg b hb
      · intro name producer hproducer
        simp only [Match.namedNode?, Match.named?, Option.bind_eq_some_iff] at hproducer
        obtain ⟨binding, ⟨k, -, hk⟩, hproducer⟩ := hproducer
        exact (hcomplete k binding hk).node producer hproducer

end Pattern

end OpGraph
