import OpGraph.Proofs.Graph.Order
import OpGraph.Proofs.Pattern.Accepts
import OpGraph.Proofs.Pattern.Locality

/-!
The order of the operands does not matter to a commutable root. Both orders are tried, and neither
attempt comes back to the node itself, so swapping its inputs swaps the attempts and nothing else.
-/

namespace OpGraph

open Relation

namespace Graph

def swapInputs (g : Graph) (id : NodeId) : Except Fault Graph := do
  let node ← g.node id
  let g ← g.setInput id 0 (node.input? 1)
  g.setInput id 1 (node.input? 0)

/-- The node is not behind the arg. -/
def Avoids (g : Graph) (id : NodeId) (a : ArgId) : Prop :=
  ∀ source, g.producer? a = some source → ¬ ReflTransGen g.Feeds id source

variable {g : Graph} {id : NodeId} {node : Node} (hnode : g.node? id = some node)

include hnode

theorem swapInputs_spec (h : g.Indexed) (htwo : node.inputs.length = 2) :
    ∃ g', g.swapInputs id = .ok g' ∧ g'.Indexed ∧ SameFrame g g' ∧ ∀ id', g'.node? id' =
      if id' = id then some { node with inputs := node.inputs.reverse } else g.node? id' := by
  obtain ⟨first, second, hinputs⟩ := List.length_eq_two.mp htwo
  have hfirst : node.input? 0 = first := by rw [Node.input?, hinputs]; rfl
  have hsecond : node.input? 1 = second := by rw [Node.input?, hinputs]; rfl
  have hlive : ∀ slot a, node.input? slot = some a → (g.arg? a).isSome := fun slot a ha =>
    h.reads_live id node a hnode (Node.mem_presentInputs_iff.mpr ⟨slot, ha⟩)
  -- After the first step both slots read the second arg.
  have hhalf := node?_withInput hnode 0 second
  rw [hinputs, show setSlot [first, second] 0 second = [second, second] from rfl] at hhalf
  have hhalfNode := (hhalf id).trans (if_pos rfl)
  have hhalfIndexed := h.withInput hnode 0 fun a ha => hlive 1 a (hsecond.trans ha)
  have hlive' : ∀ a, first = some a → ((g.withInput id node 0 second).arg? a).isSome := fun a ha =>
    hlive 0 a (hfirst.trans ha)
  refine ⟨_, ?_, hhalfIndexed.withInput hhalfNode 1 hlive',
    (sameFrame_withInput g id node 0 second).trans (sameFrame_withInput _ id _ 1 first), ?_⟩
  · rw [swapInputs, node_eq_ok_iff.mpr hnode, ok_bind, hfirst, hsecond,
      setInput_of_lt hnode (by omega) fun a ha => hlive 1 a (hsecond.trans ha), ok_bind]
    exact setInput_of_lt hhalfNode (by simp) hlive'
  · intro id'
    rw [node?_withInput hhalfNode, hhalf, hinputs]
    split
    · rfl
    · rfl

theorem Acyclic.avoids_of_mem_presentInputs (hacyclic : g.Acyclic) {a : ArgId}
    (ha : a ∈ node.presentInputs) : g.Avoids id a := by
  intro source hsource hpath
  exact hacyclic id (TransGen.tail' hpath ⟨node, a, hnode, ha, hsource⟩)

omit hnode in
theorem SameFrame.alikeFrom {g' : Graph} (hframe : SameFrame g g')
    (hnodes : ∀ id', id' ≠ id → g'.node? id' = g.node? id') : AlikeFrom (g.Avoids id) g g' where
  producer?_eq a _ := by rw [producer?, producer?, hframe.producers]
  isInput_eq a _ := by rw [isInput, isInput, hframe.inputs]
  initializers_eq a _ := by rw [hframe.initializers]
  node_eq a source ha hsource := by
    have hne : source ≠ id := by
      rintro rfl
      exact ha source hsource .refl
    rw [Graph.node, Graph.node, hnodes source hne]
  reads a source node ha hsource hnode b hb source' hsource' hpath :=
    ha source hsource (hpath.tail ⟨node, b, hnode, hb, hsource'⟩)

end Graph

namespace Pattern

variable {p : Pattern} {g : Graph} {key : OpKey} {lhs rhs : PatternId}

def matchRootPair (p : Pattern) (g : Graph) (lhs rhs : PatternId) (arg first second : ArgId) :
    Except Fault (Option Bindings) :=
  matchPair (p.matchAt g p.root.index) lhs rhs first second
    ((∅ : Bindings).insert p.root ⟨g.producer? arg, some arg⟩)

def Assigns (p : Pattern) (g : Graph) (lhs rhs : PatternId) (arg first second : ArgId) : Prop :=
  ∃ bound, p.matchRootPair g lhs rhs arg first second = .ok (some bound)

section

variable (hroot : p.kind p.root = .ok (.commutable key lhs rhs))

include hroot

theorem matchRootPair_succeeds (h : g.Indexed) (hp : p.Valid) (arg first second : ArgId) :
    ∃ outcome, p.matchRootPair g lhs rhs arg first second = .ok outcome := by
  have hproper := hp.kinds_proper p.root _ (kind_eq_ok_iff.mp hroot)
  have hattempt : Attempt.Settles p g (p.matchAt g p.root.index) [lhs, rhs] := by
    intro child hchild arg bound
    have hlt := hproper.children_lt child hchild
    exact matchAt_settled h hp hlt (hlt.trans hp.root_lt) arg bound
  obtain ⟨outcome, hrun, -⟩ := matchPair_settled hattempt first second
    ((∅ : Bindings).insert p.root ⟨g.producer? arg, some arg⟩)
  exact ⟨outcome, hrun⟩

variable {arg : ArgId} {id : NodeId} {node : Node} (hproducer : g.producer? arg = some id)
  (hnode : g.node? id = some node)

include hproducer hnode

theorem matchArg_commutable {first second : ArgId} {straight crossed : Option Bindings}
    (hinputs : node.inputs = [some first, some second])
    (hstraight : p.matchRootPair g lhs rhs arg first second = .ok straight)
    (hcrossed : p.matchRootPair g lhs rhs arg second first = .ok crossed) :
    p.matchArg g arg = .ok (if node.key = key then
      (straight <|> crossed).map fun bound => ⟨p, p.complete bound⟩ else none) := by
  rw [matchRootPair, hproducer] at hstraight hcrossed
  rw [matchArg, matchAt, Std.ExtTreeMap.getElem?_empty]
  simp only [hroot, ok_bind, matchKind, hproducer, Graph.node_eq_ok_iff.mpr hnode, hinputs]
  by_cases hkey : node.key = key
  · rw [if_pos hkey, if_pos hkey, hstraight, ok_bind]
    cases straight with
    | some bound => rfl
    | none =>
      dsimp only
      rw [hcrossed, ok_bind]
      cases crossed with
      | some bound => rfl
      | none => rfl
  · rw [if_neg hkey, if_neg hkey]
    rfl

theorem matchArg_commutable_of_ne (hinputs : ∀ a b, node.inputs ≠ [some a, some b]) :
    p.matchArg g arg = .ok none := by
  rw [matchArg, matchAt, Std.ExtTreeMap.getElem?_empty]
  simp only [hroot, ok_bind, matchKind, hproducer, Graph.node_eq_ok_iff.mpr hnode]
  rfl

end

theorem assigns_iff {arg first second : ArgId} {outcome : Option Bindings}
    (hrun : p.matchRootPair g lhs rhs arg first second = .ok outcome) :
    p.Assigns g lhs rhs arg first second ↔ outcome.isSome := by
  rw [Assigns, hrun, Option.isSome_iff_exists]
  simp

theorem matchRootPair_congr {id : NodeId} {g' : Graph} (halike : g.AlikeFrom (g.Avoids id) g')
    {arg first second : ArgId} (hproducer : g'.producer? arg = g.producer? arg)
    (hfirst : g.Avoids id first) (hsecond : g.Avoids id second) :
    p.matchRootPair g' lhs rhs arg first second = p.matchRootPair g lhs rhs arg first second := by
  rw [matchRootPair, matchRootPair, hproducer]
  exact (matchPair_agree (matchAt_congr halike p p.root.index) trivial hfirst hsecond lhs rhs).1

/--
A pattern with a commutable root matches an output of a node exactly if it matches it once the two
inputs of the node have changed places. Unless both orders of the operands match, so that the first
one wins, the two matches are the same.
-/
theorem commutable_matches_swapped (h : g.Indexed) (hacyclic : g.Acyclic) (hp : p.Obtained)
    (hroot : p.kind p.root = .ok (.commutable key lhs rhs)) {id : NodeId} {node : Node}
    (hnode : g.node? id = some node) (htwo : node.inputs.length = 2) {arg : ArgId}
    (harg : arg ∈ node.presentOutputs) :
    ∃ g' found found', g.swapInputs id = .ok g' ∧
      g'.node? id = some { node with inputs := node.inputs.reverse } ∧
      p.matchArg g arg = .ok found ∧ p.matchArg g' arg = .ok found' ∧
      found'.isSome = found.isSome ∧
      ∀ a b, node.inputs = [some a, some b] →
        (p.Assigns g' lhs rhs arg a b ↔ p.Assigns g lhs rhs arg a b) ∧
        (p.Assigns g' lhs rhs arg b a ↔ p.Assigns g lhs rhs arg b a) ∧
        (found.isSome ↔
          node.key = key ∧ (p.Assigns g lhs rhs arg a b ∨ p.Assigns g lhs rhs arg b a)) ∧
        (¬ (p.Assigns g lhs rhs arg a b ∧ p.Assigns g lhs rhs arg b a) → found' = found) := by
  obtain ⟨g', hswap, -, hframe, hnodes⟩ := Graph.swapInputs_spec hnode h htwo
  have hnode' := (hnodes id).trans (if_pos rfl)
  have hsame : g'.producer? arg = g.producer? arg := by
    rw [Graph.producer?, Graph.producer?, hframe.producers]
  have hproducer := h.producer?_eq_some_iff.mpr ⟨node, hnode, harg⟩
  have hproducer' := hsame.trans hproducer
  by_cases hboth : ∃ a b, node.inputs = [some a, some b]
  · obtain ⟨a, b, hinputs⟩ := hboth
    have halike := hframe.alikeFrom fun id' hne => (hnodes id').trans (if_neg hne)
    -- On a cycle the node would lie behind its own operand, which would see the slots change.
    have havoids : ∀ c, some c ∈ node.inputs → g.Avoids id c := fun c hc =>
      hacyclic.avoids_of_mem_presentInputs hnode (mem_present_iff.mpr hc)
    have ha := havoids a (by rw [hinputs]; simp)
    have hb := havoids b (by rw [hinputs]; simp)
    obtain ⟨straight, hstraight⟩ := matchRootPair_succeeds hroot h hp.valid arg a b
    obtain ⟨crossed, hcrossed⟩ := matchRootPair_succeeds hroot h hp.valid arg b a
    have hstraight' := (matchRootPair_congr halike hsame ha hb).trans hstraight
    have hcrossed' := (matchRootPair_congr halike hsame hb ha).trans hcrossed
    refine ⟨g', _, _, hswap, hnode', matchArg_commutable hroot hproducer hnode hinputs hstraight
      hcrossed, matchArg_commutable hroot hproducer' hnode' (congrArg List.reverse hinputs)
        hcrossed'
      hstraight', ?_, ?_⟩
    · dsimp only
      split
      · simp [Bool.or_comm]
      · rfl
    · intro a' b' hinputs'
      cases hinputs.symm.trans hinputs'
      rw [assigns_iff hstraight', assigns_iff hcrossed', assigns_iff hstraight,
        assigns_iff hcrossed]
      refine ⟨Iff.rfl, Iff.rfl, ?_, ?_⟩
      · by_cases hkey : node.key = key
        · simp [hkey]
        · simp [hkey]
      · intro hone
        cases straight with
        | none => cases crossed <;> rfl
        | some bound =>
          cases crossed with
          | none => rfl
          | some bound' => exact absurd ⟨rfl, rfl⟩ hone
  · have hne : ∀ a b, node.inputs ≠ [some a, some b] := fun a b hinputs => hboth ⟨a, b, hinputs⟩
    have hne' : ∀ a b, node.inputs.reverse ≠ [some a, some b] := by
      intro a b hinputs
      exact hne b a (List.reverse_eq_iff.mp hinputs)
    refine ⟨g', none, none, hswap, hnode', matchArg_commutable_of_ne hroot hproducer hnode hne,
      matchArg_commutable_of_ne hroot hproducer' hnode' hne', rfl, ?_⟩
    exact fun a b hinputs => absurd hinputs (hne a b)

def scoreEdits : List Graph.Mutation :=
  [.addInput "x" ⟨.float32, none⟩, .addInitializer "w" ⟨[1], .float32 [⟨0⟩]⟩,
    .newArg "r" ⟨.float32, none⟩, .newArg "y" ⟨.float32, none⟩,
    .addNode ⟨"relu", .standard "Relu", [some ⟨0⟩], [some ⟨2⟩], ∅⟩,
    .addNode ⟨"add", .standard "Add", [some ⟨2⟩, some ⟨1⟩], [some ⟨3⟩], ∅⟩, .addOutput ⟨3⟩]

def scoreCalls : List BuilderCall :=
  [.constant, .wildcard, .node (.standard "Relu") [(⟨1⟩, false)] [],
    .commutable (.standard "Add") ⟨0⟩ ⟨2⟩]

/-- The constant is asked for first. The second order matches, and after the swap the first one. -/
theorem commutable_matches_swapped_score :
    ∃ g b p g' m, (Graph.empty "score").runAll scoreEdits = .ok g ∧
      BuilderCall.runAll scoreCalls .empty = .ok b ∧ b.freeze ⟨3⟩ = .ok p ∧
      g.swapInputs ⟨1⟩ = .ok g' ∧ p.matchArg g ⟨3⟩ = .ok (some m) ∧
      p.matchArg g' ⟨3⟩ = .ok (some m) := by
  have hrun : ∃ g ∈ ((Graph.empty "score").runAll scoreEdits).toOption,
      (∀ node ∈ g.liveNodes, ∀ a ∈ node.presentInputs, ∀ source ∈ g.producer? a,
        source.index < node.id.index) ∧
      (∃ node ∈ g.node? ⟨1⟩, node.inputs = [some ⟨2⟩, some ⟨1⟩] ∧ ⟨3⟩ ∈ node.presentOutputs) ∧
      ∃ b ∈ (BuilderCall.runAll scoreCalls .empty).toOption,
      ∃ p ∈ (b.freeze ⟨3⟩).toOption,
      p.kind p.root = .ok (.commutable (.standard "Add") ⟨0⟩ ⟨2⟩) ∧
      (p.matchRootPair g ⟨0⟩ ⟨2⟩ ⟨3⟩ ⟨2⟩ ⟨1⟩).toOption.join.isNone ∧
      (p.matchArg g ⟨3⟩).toOption.join.isSome := by
    decide +kernel
  obtain ⟨g, hg, hascending, ⟨node, hnode, hinputs, harg⟩, b, hb, p, hp, hroot, hstraight,
    hmatch⟩ := hrun
  have h := (Graph.Reachable.runAll (.empty "score") (eq_ok_of_mem_toOption hg)).indexed
  have hobtained := Obtained.built (eq_ok_of_mem_toOption hb) (eq_ok_of_mem_toOption hp)
  obtain ⟨g', found, found', hswap, -, hfound, hfound', -, horders⟩ := commutable_matches_swapped h
    (h.acyclic_of_ascending hascending) hobtained hroot hnode (by rw [hinputs]; rfl) harg
  obtain ⟨-, -, -, hsame⟩ := horders ⟨2⟩ ⟨1⟩ hinputs
  obtain ⟨m, hm⟩ := Option.isSome_iff_exists.mp hmatch
  cases hfound.symm.trans (eq_ok_of_mem_toOption (Option.join_eq_some_iff.mp hm))
  rw [hsame ?_] at hfound'
  · exact ⟨g, b, p, g', m, eq_ok_of_mem_toOption hg, eq_ok_of_mem_toOption hb,
      eq_ok_of_mem_toOption hp, hswap, hfound, hfound'⟩
  · rintro ⟨⟨bound, hbound⟩, -⟩
    rw [hbound] at hstraight
    cases hstraight

end Pattern

end OpGraph
