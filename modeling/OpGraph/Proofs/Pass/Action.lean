import OpGraph.Pass.FixPoint
import OpGraph.Pass.Neutral
import OpGraph.Pass.Reshaping
import OpGraph.Pipeline
import OpGraph.Proofs.Pass.Site

/-!
What the rules of the passes do when they fire, whatever pattern they were matched with: each of
them replaces the first output of a named node, in one of three ways.
-/

namespace OpGraph

def Match.Offers (m : Match) (g : Graph) (name : String) (a : ArgId) : Prop :=
  m.namedArg? name = some a ∨
    ∃ id node, m.namedNode? name = some id ∧ g.node? id = some node ∧ node.output? 0 = some a

def Graph.shape? (g : Graph) (a : ArgId) : Option Dims :=
  (g.arg? a).bind fun arg => arg.type.shape

/-- The output `old` of a node is replaced by something that is, or reads, some other args. -/
inductive Graph.Rewrites (g : Graph) (root : NodeId) (old : ArgId) (args : List ArgId)
    (g' : Graph) : Prop where
  | bypass (survivor : ArgId) (hargs : args = [survivor])
    (hrun : g.bypass root old survivor = .ok (true, g'))
  | supplant (draft : Draft) (hinputs : draft.inputs = args.map some)
    (houtputs : draft.outputs = []) (hrun : g.supplant root old draft = .ok (true, g'))
  | initializer (name : String) (tensor : Tensor) (log : Log) (new : ArgId) (g₂ g₃ : Graph)
    (removed : Node) (houtput : old ∉ g.outputs)
    (hdeclare : Graph.addInitializer name tensor g = .ok new g₂)
    (hreplace : { g₂ with log }.replaceAllUses old new = .ok g₃)
    (hremove : g₃.removeNode root = .ok (removed, g'))

inductive Graph.Drops (g : Graph) (root : NodeId) (old : ArgId) (args : List ArgId)
    (g' : Graph) : Prop where
  | bypass (survivor : ArgId) (hargs : args = [survivor])
    (hrun : g.bypass root old survivor = .ok (true, g'))
  | initializer (name : String) (tensor : Tensor) (log : Log) (new : ArgId) (g₂ g₃ : Graph)
    (removed : Node) (houtput : old ∉ g.outputs)
    (hdeclare : Graph.addInitializer name tensor g = .ok new g₂)
    (hreplace : { g₂ with log }.replaceAllUses old new = .ok g₃)
    (hremove : g₃.removeNode root = .ok (removed, g'))

namespace Graph

variable {g g' : Graph} {root : NodeId} {old : ArgId} {args : List ArgId}

theorem Drops.rewrites (h : g.Drops root old args g') : g.Rewrites root old args g' := by
  cases h with
  | bypass survivor hargs hrun => exact .bypass survivor hargs hrun
  | initializer name tensor log new g₂ g₃ removed houtput hdeclare hreplace hremove =>
    exact .initializer name tensor log new g₂ g₃ removed houtput hdeclare hreplace hremove

section

variable (h : g.Indexed) (hproduced : g.producer? old = some root) (hargs : old ∉ args)

include h hproduced hargs

theorem Drops.rewired (hdrops : g.Drops root old args g') :
    ∃ new supply, Rewired g root old new supply g' ∧ supply.Fresh g new ∧ supply.args new ⊆ args ∧
      ∀ n, supply ≠ .node n := by
  cases hdrops with
  | bypass survivor heq hrun =>
    subst heq
    rw [List.mem_singleton] at hargs
    exact ⟨survivor, .survivor, bypass_eq_some h hproduced hargs hrun, trivial, fun _ => id,
      by simp⟩
  | initializer name tensor log new g₂ g₃ removed _ hdeclare hreplace hremove =>
    obtain ⟨rfl, hrewired⟩ := rewired_of_initializer h hproduced hdeclare hreplace hremove
    exact ⟨_, _, hrewired, arg?_nextArg, List.nil_subset args, by simp⟩

theorem Rewrites.rewired (hrewrites : g.Rewrites root old args g') :
    ∃ new supply, Rewired g root old new supply g' ∧ supply.Fresh g new ∧
      supply.args new ⊆ args := by
  have hdropped : g.Drops root old args g' → ∃ new supply, Rewired g root old new supply g' ∧
      supply.Fresh g new ∧ supply.args new ⊆ args := by
    intro hdrops
    obtain ⟨new, supply, hrewired, hfresh, hsubset, -⟩ := hdrops.rewired h hproduced hargs
    exact ⟨new, supply, hrewired, hfresh, hsubset⟩
  cases hrewrites with
  | bypass survivor heq hrun => exact hdropped (.bypass survivor heq hrun)
  | supplant draft hinputs houtputs hrun =>
    obtain ⟨name, hrewired⟩ := supplant_eq_some h hproduced houtputs hrun
    refine ⟨_, _, hrewired, ⟨arg?_nextArg, node?_nextNode, rfl⟩, ?_⟩
    intro a ha
    rw [Supply.args, Node.presentInputs, mem_present_iff, Draft.nodeIn, hinputs] at ha
    obtain ⟨b, hb, heq⟩ := List.mem_map.mp ha
    cases heq
    exact hb
  | initializer name tensor log new g₂ g₃ removed houtput hdeclare hreplace hremove =>
    exact hdropped
      (.initializer name tensor log new g₂ g₃ removed houtput hdeclare hreplace hremove)

end

end Graph

namespace RulePass

def ActsBy (deed : Graph → NodeId → ArgId → List ArgId → Graph → Prop) (act : Action)
    (root : String) (names : List String) : Prop :=
  ∀ pass m g counter g', act pass m g = .ok (some counter, g') →
    ∃ id node old args, m.namedNode? root = some id ∧ g.node? id = some node ∧
      node.output? 0 = some old ∧ (∀ a ∈ args, ∃ name ∈ names, m.Offers g name a) ∧
      deed g id old args g'

def ActsOn : Action → String → List String → Prop := ActsBy Graph.Rewrites

def DropsOn : Action → String → List String → Prop := ActsBy Graph.Drops

theorem DropsOn.actsOn {act : Action} {root : String} {names : List String}
    (hdrops : DropsOn act root names) : ActsOn act root names := by
  intro pass m g counter g' hrun
  obtain ⟨id, node, old, args, hid, hnode, hold, hargs, hdrop⟩ := hdrops pass m g counter g' hrun
  exact ⟨id, node, old, args, hid, hnode, hold, hargs, hdrop.rewrites⟩

variable {pass counter : String} {m : Match} {g g' : Graph}

theorem offers_singleton {name : String} {x : ArgId} (hx : m.namedArg? name = some x) :
    ∀ a ∈ [x], ∃ name' ∈ [name], m.Offers g name' a := by
  intro a ha
  rw [List.mem_singleton.mp ha]
  exact ⟨name, List.mem_singleton_self _, .inl hx⟩

/-! ### Nodes that hand on their input -/

theorem bypassIdentity_eq_some (hrun : Action.bypassIdentity pass m g = .ok (some counter, g')) :
    ∃ x id node old, m.namedArg? "x" = some x ∧ m.namedNode? "identity" = some id ∧
      g.node? id = some node ∧ node.output? 0 = some old ∧ counter = "identities_removed" ∧
      g.bypass id old x = .ok (true, g') := by
  unfold Action.bypassIdentity at hrun
  split at hrun
  · next x hx =>
    split at hrun
    · next id hid =>
      simp only [bind_eq_ok_iff, Graph.node_eq_ok_iff] at hrun
      obtain ⟨node, hnode, hrun⟩ := hrun
      split at hrun
      · next old hold => exact ⟨x, id, node, old, hx, hid, hnode, hold, counted_eq_some hrun⟩
      · cases hrun
    · cases hrun
  · cases hrun

theorem dropsOn_bypassIdentity : DropsOn Action.bypassIdentity "identity" ["x"] := by
  intro pass m g counter g' hrun
  obtain ⟨x, id, node, old, hx, hid, hnode, hold, -, hbypass⟩ := bypassIdentity_eq_some hrun
  exact ⟨id, node, old, [x], hid, hnode, hold, offers_singleton hx, .bypass x rfl hbypass⟩

theorem bypassAddZero_eq_some (hrun : Action.bypassAddZero pass m g = .ok (some counter, g')) :
    ∃ x zero id node old dims, m.namedArg? "x" = some x ∧ m.namedArg? "zero" = some zero ∧
      m.namedNode? "add" = some id ∧ g.isZero zero = .ok true ∧ g.node? id = some node ∧
      node.output? 0 = some old ∧ g.shape? x = some dims ∧ g.shape? old = some dims ∧
      counter = "zero_additions_removed" ∧ g.bypass id old x = .ok (true, g') := by
  unfold Action.bypassAddZero at hrun
  split at hrun
  · next x hx =>
    split at hrun
    · next zero hzero =>
      split at hrun
      · next id hid =>
        rw [bind_eq_ok_iff] at hrun
        obtain ⟨isZero, hisZero, hrun⟩ := hrun
        cases isZero with
        | false => cases hrun
        | true =>
          simp only [Bool.not_true, Bool.false_eq_true, if_false, bind_eq_ok_iff,
            Graph.node_eq_ok_iff] at hrun
          obtain ⟨node, hnode, hrun⟩ := hrun
          split at hrun
          · next old hold =>
            simp only [bind_eq_ok_iff, Graph.arg_eq_ok_iff] at hrun
            obtain ⟨source, hsource, target, htarget, hrun⟩ := hrun
            split at hrun
            · cases hrun
            · next hshape =>
              simp only [Bool.or_eq_true, Option.isNone_iff_eq_none, decide_eq_true_eq, not_or,
                Decidable.not_not] at hshape
              obtain ⟨dims, hdims⟩ := Option.ne_none_iff_exists'.mp hshape.1
              refine ⟨x, zero, id, node, old, dims, hx, hzero, hid, hisZero, hnode, hold, ?_, ?_,
                counted_eq_some hrun⟩
              · rw [Graph.shape?, hsource, Option.bind_some, hdims]
              · rw [Graph.shape?, htarget, Option.bind_some, ← hshape.2, hdims]
          · cases hrun
      · cases hrun
    · cases hrun
  · cases hrun

theorem dropsOn_bypassAddZero : DropsOn Action.bypassAddZero "add" ["x"] := by
  intro pass m g counter g' hrun
  obtain ⟨x, -, id, node, old, -, hx, -, hid, -, hnode, hold, -, -, -, hbypass⟩ :=
    bypassAddZero_eq_some hrun
  exact ⟨id, node, old, [x], hid, hnode, hold, offers_singleton hx, .bypass x rfl hbypass⟩

/-! ### Conversions -/

def fixDraft (pass : String) (x : ArgId) (n : Int64) (old : ArgId) (kind : Anchor) : Draft :=
  { (((Draft.new pass).withKey .fix).withInputs [x]).withAttr fixPointAttr (.int n) with
    anchor := some (old, kind) }

theorem pairToFix_eq_some (hrun : Action.pairToFix pass m g = .ok (some counter, g')) :
    ∃ x id node old n, m.namedArg? "x" = some x ∧ m.namedNode? "dequant" = some id ∧
      g.node? id = some node ∧ node.output? 0 = some old ∧ pairFixPoint? m g = .ok (some n) ∧
      counter = "qdq_pairs_converted" ∧
      g.supplant id old (fixDraft pass x n old (.fixPoint n)) = .ok (true, g') := by
  unfold Action.pairToFix at hrun
  split at hrun
  · next x hx =>
    split at hrun
    · next id hid =>
      rw [bind_eq_ok_iff] at hrun
      obtain ⟨fixPoint?, hpair, hrun⟩ := hrun
      split at hrun
      · next n =>
        simp only [bind_eq_ok_iff, Graph.node_eq_ok_iff] at hrun
        obtain ⟨node, hnode, hrun⟩ := hrun
        split at hrun
        · next old hold =>
          simp only [Draft.anchorRemark, ok_bind] at hrun
          exact ⟨x, id, node, old, n, hx, hid, hnode, hold, hpair, counted_eq_some hrun⟩
        · cases hrun
      · cases hrun
    · cases hrun
  · cases hrun

theorem actsOn_pairToFix : ActsOn Action.pairToFix "dequant" ["x"] := by
  intro pass m g counter g' hrun
  obtain ⟨x, id, node, old, n, hx, hid, hnode, hold, -, -, hsupplant⟩ := pairToFix_eq_some hrun
  exact ⟨id, node, old, [x], hid, hnode, hold, offers_singleton hx, .supplant _ rfl rfl hsupplant⟩

theorem conversions?_eq {c : Conversions} (hrun : conversions? m g = .ok (some c)) :
    m.namedArg? "x" = some c.x ∧ m.namedNode? "inner" = some c.inner ∧
      m.namedNode? "outer" = some c.outer ∧
      ∃ inner outer, g.node? c.inner = some inner ∧ g.node? c.outer = some outer ∧
        inner.attrInt? fixPointAttr = some c.fixPoint ∧
        outer.attrInt? fixPointAttr = some c.fixPoint := by
  unfold conversions? at hrun
  split at hrun
  · next x hx =>
    split at hrun
    · next innerId hinner =>
      split at hrun
      · next outerId houter =>
        simp only [bind_eq_ok_iff, Graph.node_eq_ok_iff] at hrun
        obtain ⟨inner, hinnerNode, hrun⟩ := hrun
        split at hrun
        · next n hn =>
          simp only [bind_eq_ok_iff, Graph.node_eq_ok_iff] at hrun
          obtain ⟨outer, houterNode, hrun⟩ := hrun
          split at hrun
          · next hsame =>
            cases hrun
            exact ⟨hx, hinner, houter, inner, outer, hinnerNode, houterNode, hn, hsame⟩
          · cases hrun
        · cases hrun
      · cases hrun
    · cases hrun
  · cases hrun

theorem conversions?_offers {c : Conversions} (hrun : conversions? m g = .ok (some c)) :
    m.namedArg? "x" = some c.x ∧ m.namedNode? "inner" = some c.inner ∧
      m.namedNode? "outer" = some c.outer := by
  obtain ⟨hx, hinner, houter, -⟩ := conversions?_eq hrun
  exact ⟨hx, hinner, houter⟩

theorem foldRoundTrip_eq_some (hrun : Action.foldRoundTrip pass m g = .ok (some counter, g')) :
    ∃ c node old, conversions? m g = .ok (some c) ∧ g.node? c.outer = some node ∧
      node.output? 0 = some old ∧ counter = "roundtrips_folded" ∧
      g.supplant c.outer old (fixDraft pass c.x c.fixPoint old .identity) = .ok (true, g') := by
  unfold Action.foldRoundTrip at hrun
  rw [bind_eq_ok_iff] at hrun
  obtain ⟨c?, hc, hrun⟩ := hrun
  split at hrun
  · next c =>
    simp only [bind_eq_ok_iff, Graph.node_eq_ok_iff] at hrun
    obtain ⟨node, hnode, hrun⟩ := hrun
    split at hrun
    · next old hold => exact ⟨c, node, old, hc, hnode, hold, counted_eq_some hrun⟩
    · cases hrun
  · cases hrun

theorem actsOn_foldRoundTrip : ActsOn Action.foldRoundTrip "outer" ["x"] := by
  intro pass m g counter g' hrun
  obtain ⟨c, node, old, hc, hnode, hold, -, hsupplant⟩ := foldRoundTrip_eq_some hrun
  obtain ⟨hx, -, houter⟩ := conversions?_offers hc
  exact ⟨c.outer, node, old, [c.x], houter, hnode, hold, offers_singleton hx,
    .supplant _ rfl rfl hsupplant⟩

theorem bypassToInput_eq_some (hrun : Action.bypassToInput pass m g = .ok (some counter, g')) :
    ∃ c node old, conversions? m g = .ok (some c) ∧ g.node? c.outer = some node ∧
      node.output? 0 = some old ∧ counter = "roundtrips_bypassed" ∧
      g.bypass c.outer old c.x = .ok (true, g') := by
  unfold Action.bypassToInput at hrun
  rw [bind_eq_ok_iff] at hrun
  obtain ⟨c?, hc, hrun⟩ := hrun
  split at hrun
  · next c =>
    simp only [bind_eq_ok_iff, Graph.node_eq_ok_iff] at hrun
    obtain ⟨node, hnode, hrun⟩ := hrun
    split at hrun
    · next old hold => exact ⟨c, node, old, hc, hnode, hold, counted_eq_some hrun⟩
    · cases hrun
  · cases hrun

theorem dropsOn_bypassToInput : DropsOn Action.bypassToInput "outer" ["x"] := by
  intro pass m g counter g' hrun
  obtain ⟨c, node, old, hc, hnode, hold, -, hbypass⟩ := bypassToInput_eq_some hrun
  obtain ⟨hx, -, houter⟩ := conversions?_offers hc
  exact ⟨c.outer, node, old, [c.x], houter, hnode, hold, offers_singleton hx,
    .bypass c.x rfl hbypass⟩

-- The survivor is not what the pattern bound to `inner` but the first output of that node.
theorem bypassToInner_eq_some (hrun : Action.bypassToInner pass m g = .ok (some counter, g')) :
    ∃ c inner survivor node old, conversions? m g = .ok (some c) ∧ g.node? c.inner = some inner ∧
      inner.output? 0 = some survivor ∧ g.node? c.outer = some node ∧ node.output? 0 = some old ∧
      counter = "double_fix_collapsed" ∧ g.bypass c.outer old survivor = .ok (true, g') := by
  unfold Action.bypassToInner at hrun
  rw [bind_eq_ok_iff] at hrun
  obtain ⟨c?, hc, hrun⟩ := hrun
  split at hrun
  · next c =>
    simp only [bind_eq_ok_iff, Graph.node_eq_ok_iff] at hrun
    obtain ⟨inner, hinner, hrun⟩ := hrun
    split at hrun
    · next survivor hsurvivor =>
      simp only [bind_eq_ok_iff, Graph.node_eq_ok_iff] at hrun
      obtain ⟨node, hnode, hrun⟩ := hrun
      split at hrun
      · next old hold =>
        exact ⟨c, inner, survivor, node, old, hc, hinner, hsurvivor, hnode, hold,
          counted_eq_some hrun⟩
      · cases hrun
    · cases hrun
  · cases hrun

theorem dropsOn_bypassToInner : DropsOn Action.bypassToInner "outer" ["inner"] := by
  intro pass m g counter g' hrun
  obtain ⟨c, inner, survivor, node, old, hc, hinner, hsurvivor, hnode, hold, -, hbypass⟩ :=
    bypassToInner_eq_some hrun
  obtain ⟨-, hnamed, houter⟩ := conversions?_offers hc
  refine ⟨c.outer, node, old, [survivor], houter, hnode, hold, ?_, .bypass survivor rfl hbypass⟩
  intro a ha
  rw [List.mem_singleton.mp ha]
  exact ⟨"inner", List.mem_singleton_self _, .inr ⟨c.inner, inner, hnamed, hinner, hsurvivor⟩⟩

/-! ### Constants -/

theorem foldConstant_eq_some (hrun : Action.foldConstant pass m g = .ok (some counter, g')) :
    ∃ id node n old name tensor new g₂ g₃ removed, m.namedNode? "quant" = some id ∧
      g.node? id = some node ∧ node.attrInt? fixPointAttr = some n ∧ node.output? 0 = some old ∧
      old ∉ g.outputs ∧ Graph.addInitializer name tensor g = .ok new g₂ ∧
      { g₂ with log := g₂.log.record new ⟨some old, .fixPoint n, pass⟩ }.replaceAllUses old new =
        .ok g₃ ∧
      g₃.removeNode id = .ok (removed, g') ∧ counter = "constants_folded" := by
  unfold Action.foldConstant at hrun
  split at hrun
  · split at hrun
    · next id hid =>
      simp only [bind_eq_ok_iff, Graph.node_eq_ok_iff] at hrun
      obtain ⟨node, hnode, hrun⟩ := hrun
      split at hrun
      · next n hn =>
        split at hrun
        · next old hold =>
          split at hrun
          · cases hrun
          · next houtput =>
            rw [Graph.isOutput_iff] at houtput
            rw [bind_eq_ok_iff] at hrun
            obtain ⟨tensor?, -, hrun⟩ := hrun
            split at hrun
            · rw [bind_eq_ok_iff] at hrun
              obtain ⟨arg, -, hrun⟩ := hrun
              split at hrun
              · cases hrun
              · split at hrun
                · cases hrun
                · cases hrun
                · next new g₂ hdeclare =>
                  simp only [bind_eq_ok_iff, pure_eq_ok_iff, Option.some.injEq,
                    Prod.mk.injEq] at hrun
                  obtain ⟨g₃, hreplace, ⟨removed, g₄⟩, hremove, hcounter, rfl⟩ := hrun
                  exact ⟨id, node, n, old, _, _, new, g₂, g₃, removed, hid, hnode, hn, hold,
                    houtput, hdeclare, hreplace, hremove, hcounter.symm⟩
            · cases hrun
        · cases hrun
      · cases hrun
    · cases hrun
  · cases hrun

theorem dropsOn_foldConstant : DropsOn Action.foldConstant "quant" [] := by
  intro pass m g counter g' hrun
  obtain ⟨id, node, n, old, name, tensor, new, g₂, g₃, removed, hid, hnode, -, hold, houtput,
    hdeclare, hreplace, hremove, -⟩ := foldConstant_eq_some hrun
  exact ⟨id, node, old, [], hid, hnode, hold, by simp,
    .initializer _ _ _ new g₂ g₃ removed houtput hdeclare hreplace hremove⟩

/-! ### Transposes and reshapes -/

def transposeDraft (pass : String) (x : ArgId) (order : List Int64) (old : ArgId) : Draft :=
  (((Draft.new pass).withOpType "Transpose").withInputs [x]).withAttr permAttr (.ints order)
    |>.anchorSame old

theorem mergeTransposes_eq_some (hrun : Action.mergeTransposes pass m g = .ok (some counter, g')) :
    ∃ x id node old, m.namedArg? "x" = some x ∧ m.namedNode? "outer" = some id ∧
      g.node? id = some node ∧ node.output? 0 = some old ∧
      (counter = "transposes_cancelled" ∧ g.bypass id old x = .ok (true, g') ∨
        ∃ order, counter = "transposes_merged" ∧
          g.supplant id old (transposeDraft pass x order old) = .ok (true, g')) := by
  unfold Action.mergeTransposes at hrun
  split at hrun
  · next x hx =>
    split at hrun
    · split at hrun
      · next id hid =>
        rw [bind_eq_ok_iff] at hrun
        obtain ⟨_, -, hrun⟩ := hrun
        split at hrun
        · simp only [bind_eq_ok_iff, Graph.node_eq_ok_iff] at hrun
          obtain ⟨_, -, hrun⟩ := hrun
          split at hrun
          · split at hrun
            · next order _ =>
              simp only [bind_eq_ok_iff, Graph.node_eq_ok_iff] at hrun
              obtain ⟨node, hnode, hrun⟩ := hrun
              split at hrun
              · next old hold =>
                refine ⟨x, id, node, old, hx, hid, hnode, hold, ?_⟩
                split at hrun
                · exact .inl (counted_eq_some hrun)
                · exact .inr ⟨order, counted_eq_some hrun⟩
              · cases hrun
            · cases hrun
          · cases hrun
        · cases hrun
      · cases hrun
    · cases hrun
  · cases hrun

theorem actsOn_mergeTransposes : ActsOn Action.mergeTransposes "outer" ["x"] := by
  intro pass m g counter g' hrun
  obtain ⟨x, id, node, old, hx, hid, hnode, hold, ⟨-, hbypass⟩ | ⟨order, -, hsupplant⟩⟩ :=
    mergeTransposes_eq_some hrun
  · exact ⟨id, node, old, [x], hid, hnode, hold, offers_singleton hx, .bypass x rfl hbypass⟩
  · exact ⟨id, node, old, [x], hid, hnode, hold, offers_singleton hx, .supplant _ rfl rfl hsupplant⟩

def reshapeDraft (pass : String) (x shape : ArgId) (attrs : Attrs) (old : ArgId) (dims : Dims) :
    Draft :=
  ({ (Draft.new pass).withOpType "Reshape" with attrs := attrs }.withInputs
    [x, shape]).anchorReshape old dims

theorem mergeReshapes_eq_some (hrun : Action.mergeReshapes pass m g = .ok (some counter, g')) :
    ∃ x shape id node old dims, m.namedArg? "x" = some x ∧ m.namedArg? "shape" = some shape ∧
      m.namedNode? "outer" = some id ∧ g.node? id = some node ∧ node.output? 0 = some old ∧
      counter = "reshapes_merged" ∧
      g.supplant id old (reshapeDraft pass x shape node.attrs old dims) = .ok (true, g') := by
  unfold Action.mergeReshapes at hrun
  split at hrun
  · next x hx =>
    split at hrun
    · next shape hshape =>
      split at hrun
      · next id hid =>
        simp only [bind_eq_ok_iff, Graph.node_eq_ok_iff] at hrun
        obtain ⟨node, hnode, hrun⟩ := hrun
        split at hrun
        · next old hold =>
          rw [bind_eq_ok_iff] at hrun
          obtain ⟨copies, -, hrun⟩ := hrun
          split at hrun
          · cases hrun
          · rw [bind_eq_ok_iff] at hrun
            obtain ⟨arg, -, hrun⟩ := hrun
            split at hrun
            · next dims _ =>
              rw [Draft.cloneAttrs, Graph.node_eq_ok_iff.mpr hnode, ok_bind] at hrun
              exact ⟨x, shape, id, node, old, dims, hx, hshape, hid, hnode, hold,
                counted_eq_some hrun⟩
            · cases hrun
        · cases hrun
      · cases hrun
    · cases hrun
  · cases hrun

theorem actsOn_mergeReshapes : ActsOn Action.mergeReshapes "outer" ["x", "shape"] := by
  intro pass m g counter g' hrun
  obtain ⟨x, shape, id, node, old, dims, hx, hshape, hid, hnode, hold, -, hsupplant⟩ :=
    mergeReshapes_eq_some hrun
  refine ⟨id, node, old, [x, shape], hid, hnode, hold, ?_, .supplant _ rfl rfl hsupplant⟩
  intro a ha
  rcases List.mem_cons.mp ha with rfl | ha
  · exact ⟨"x", by simp, .inl hx⟩
  · rw [List.mem_singleton.mp ha]
    exact ⟨"shape", by simp, .inl hshape⟩

end RulePass

/-! ### The patterns that go with the rules -/

def PatternKind.descends : PatternKind → Bool
  | anyOf _ | allOf _ => false
  | _ => true

/--
A match gives a rule the node it replaces under the name of the root, an operator of these, and
everything else from below the root.
-/
def Pattern.Serves (p : Pattern) (root : String) (names : List String) (keys : List OpKey) : Prop :=
  p.WellFormed ∧ (∀ kind ∈ p.kinds, kind.descends = true) ∧ p.find? root = some p.root ∧
    (∃ key ∈ keys, p.kinds[p.root.index]?.bind PatternKind.key? = some key) ∧
    ∀ name ∈ names, p.find? name ≠ some p.root

instance (p : Pattern) (root : String) (names : List String) (keys : List OpKey) :
    Decidable (p.Serves root names keys) :=
  inferInstanceAs (Decidable (_ ∧ _ ∧ _ ∧ _ ∧ _))

def replacedKeys : List OpKey :=
  [.standard "Identity", .standard "DequantizeLinear", .float2fix, .fix2float, .fix,
    .standard "Transpose", .standard "Reshape", .standard "Add"]

/-- What the rule does, and that its own pattern serves it. -/
def RuleSpec.Acts (spec : RuleSpec) : Prop :=
  ∃ root names, RulePass.ActsOn spec.act root names ∧
    ∀ pattern, spec.pattern = .ok pattern → pattern.Serves root names replacedKeys

namespace RuleSpec

theorem forall_pattern_of_all {spec : RuleSpec} {P : Pattern → Prop} [DecidablePred P]
    (hall : (spec.pattern.toOption.all fun pattern => decide (P pattern)) = true) :
    ∀ pattern, spec.pattern = .ok pattern → P pattern := by
  intro pattern hpattern
  rw [hpattern] at hall
  exact of_decide_eq_true hall

theorem serves_of_all {spec : RuleSpec} {root : String} {names : List String} {keys : List OpKey}
    (hall : (spec.pattern.toOption.all fun pattern =>
      decide (pattern.Serves root names keys)) = true) {pattern : Pattern}
    (hpattern : spec.pattern = .ok pattern) : pattern.Serves root names keys :=
  forall_pattern_of_all hall pattern hpattern

theorem acts_of_actsOn {spec : RuleSpec} {root : String} {names : List String}
    (hacts : RulePass.ActsOn spec.act root names)
    (hserves : (spec.pattern.toOption.all fun pattern =>
      decide (pattern.Serves root names replacedKeys)) = true) : spec.Acts :=
  ⟨root, names, hacts, fun _ => serves_of_all hserves⟩

theorem acts_of_builtin (b : Builtin) {p : RulePass} (hb : b.pass = .rules p) :
    ∀ spec ∈ p.rules, spec.Acts := by
  cases b with
  | removeIdentity =>
    cases hb
    simpa [RulePass.removeIdentity] using
      acts_of_actsOn RulePass.dropsOn_bypassIdentity.actsOn (by decide +kernel)
  | qdqToFix =>
    cases hb
    simpa [RulePass.qdqToFix] using acts_of_actsOn RulePass.actsOn_pairToFix (by decide +kernel)
  | fixCleanup =>
    cases hb
    simpa [RulePass.fixCleanup] using
      ⟨acts_of_actsOn RulePass.actsOn_foldRoundTrip (by decide +kernel),
        acts_of_actsOn RulePass.dropsOn_bypassToInput.actsOn (by decide +kernel),
        acts_of_actsOn RulePass.dropsOn_bypassToInner.actsOn (by decide +kernel)⟩
  | foldFixConstant =>
    cases hb
    simpa [RulePass.foldFixConstant] using
      acts_of_actsOn RulePass.dropsOn_foldConstant.actsOn (by decide +kernel)
  | mergeTranspose =>
    cases hb
    simpa [RulePass.mergeTranspose] using
      acts_of_actsOn RulePass.actsOn_mergeTransposes (by decide +kernel)
  | mergeReshape =>
    cases hb
    simpa [RulePass.mergeReshape] using
      acts_of_actsOn RulePass.actsOn_mergeReshapes (by decide +kernel)
  | foldAddZero =>
    cases hb
    simpa [RulePass.foldAddZero] using
      acts_of_actsOn RulePass.dropsOn_bypassAddZero.actsOn (by decide +kernel)
  | partition => cases hb

end RuleSpec

end OpGraph
