import OpGraph.Proofs.Pass.Action
import OpGraph.Proofs.Rule.Run

/-!
When the rules of the passes decline. The verdict on a match rests on what the graph says about the
args and nodes that the match offers. It is the same in every context, and on every graph that says
the same about them. A rule that declines has not touched the graph.
-/

namespace OpGraph

structure Match.SameView (m : Match) (g g' : Graph) : Prop where
  outputs : ∀ a, g'.isOutput a = g.isOutput a
  node : ∀ {name id}, m.namedNode? name = some id → g'.node id = g.node id
  arg : ∀ {name a}, m.Offers g name a → g'.arg a = g.arg a
  producer : ∀ {name a}, m.Offers g name a → g'.producer? a = g.producer? a
  value : ∀ {name a}, m.Offers g name a → g'.constantValue? a = g.constantValue? a

theorem Match.SameView.refl (m : Match) (g : Graph) : m.SameView g g :=
  ⟨fun _ => rfl, fun _ => rfl, fun _ => rfl, fun _ => rfl, fun _ => rfl⟩

theorem Match.offers_output {m : Match} {g : Graph} {name : String} {id : NodeId} {node : Node}
    {a : ArgId} (hid : m.namedNode? name = some id) (hnode : g.node id = .ok node)
    (ha : node.output? 0 = some a) : m.Offers g name a :=
  .inr ⟨id, node, hid, Graph.node_eq_ok_iff.mp hnode, ha⟩

/--
If the first says no, it leaves its graph alone, and the second says no and leaves its own alone.
-/
def Follows {α : Type} (no : α) (g g' : Graph) (x x' : Except Fault (α × Graph)) : Prop :=
  ∀ left, x = .ok (no, left) → left = g ∧ x' = .ok (no, g')

section

variable {α β : Type} {no : α} {g g' : Graph} {x x' : Except Fault (α × Graph)}

theorem follows_declined : Follows no g g' (.ok (no, g)) (.ok (no, g')) := by
  intro left hleft
  cases hleft
  exact ⟨rfl, rfl⟩

theorem follows_of_ne (hx : ∀ left, x ≠ .ok (no, left)) : Follows no g g' x x' :=
  fun left hleft => absurd hleft (hx left)

theorem follows_bind {y : Except Fault β} {f f' : β → Except Fault (α × Graph)}
    (hf : ∀ b, y = .ok b → Follows no g g' (f b) (f' b)) :
    Follows no g g' (y >>= f) (y >>= f') := by
  intro left hleft
  rw [bind_eq_ok_iff] at hleft
  obtain ⟨b, hb, hleft⟩ := hleft
  rw [hb, ok_bind]
  exact hf b hb left hleft

theorem follows_counted {x x' : Except Fault (Bool × Graph)} (hx : Follows false g g' x x')
    (counter : String) : Follows none g g' (do return RulePass.counted counter (← x))
      (do return RulePass.counted counter (← x')) := by
  intro left hleft
  simp only [bind_eq_ok_iff, pure_eq_ok_iff, RulePass.counted, Prod.mk.injEq] at hleft
  obtain ⟨⟨done, _⟩, hrun, hnone, rfl⟩ := hleft
  cases done with
  | true => cases hnone
  | false =>
    obtain ⟨rfl, hrun'⟩ := hx _ hrun
    rw [hrun']
    exact ⟨rfl, rfl⟩

end

namespace Graph

variable {g g' : Graph}

theorem bypass_follows (houtputs : ∀ a, g'.isOutput a = g.isOutput a) {survivor : ArgId}
    (hproducer : g'.producer? survivor = g.producer? survivor) (id : NodeId) (out : ArgId) :
    Follows false g g' (g.bypass id out survivor) (g'.bypass id out survivor) := by
  intro left hleft
  rw [bypass] at hleft ⊢
  rw [houtputs, houtputs, hproducer]
  split at hleft
  · next hkept =>
    cases hleft
    rw [if_pos hkept]
    exact ⟨rfl, rfl⟩
  · simp only [bind_eq_ok_iff, pure_eq_ok_iff] at hleft
    obtain ⟨_, -, _, -, hleft⟩ := hleft
    cases hleft

theorem supplant_ne_declined {draft : Draft} (houtputs : draft.outputs = []) (id : NodeId)
    (old : ArgId) (left : Graph) : g.supplant id old draft ≠ .ok (false, left) := by
  intro hleft
  rw [supplant, bind_eq_ok_iff] at hleft
  obtain ⟨⟨⟨new, outputs⟩, g₂⟩, hbuild, hleft⟩ := hleft
  obtain ⟨rfl, -⟩ := Draft.build_eq_ok houtputs hbuild
  simp only [List.head?_cons, Option.join_some, bind_eq_ok_iff, pure_eq_ok_iff] at hleft
  obtain ⟨_, -, _, -, hleft⟩ := hleft
  cases hleft

theorem supplant_follows {draft : Draft} (houtputs : draft.outputs = []) (id : NodeId) (old : ArgId)
    (x : Except Fault (Bool × Graph)) : Follows false g g' (g.supplant id old draft) x :=
  follows_of_ne (supplant_ne_declined houtputs id old)

end Graph

namespace RulePass

/--
The verdict on a match rests on what the graph says about what the match offers, and to decline
leaves the graph alone.
-/
def Local (act : Action) : Prop :=
  ∀ pass pass' m g g', m.SameView g g' → Follows none g g' (act pass m g) (act pass' m g')

theorem local_bypassIdentity : Local Action.bypassIdentity := by
  intro pass pass' m g g' hm
  unfold Action.bypassIdentity
  split
  · next x hx =>
    split
    · next id hid =>
      rw [hm.node hid]
      apply follows_bind
      intro node _
      split
      · next out _ =>
        exact follows_counted (Graph.bypass_follows hm.outputs (hm.producer (.inl hx)) id out) _
      · exact follows_declined
    · exact follows_declined
  · exact follows_declined

theorem local_bypassAddZero : Local Action.bypassAddZero := by
  intro pass pass' m g g' hm
  unfold Action.bypassAddZero
  split
  · next x hx =>
    split
    · next zero hzero =>
      split
      · next id hid =>
        have hisZero : g'.isZero zero = g.isZero zero := by
          rw [Graph.isZero, Graph.isZero, hm.value (.inl hzero)]
        rw [hisZero, hm.node hid]
        apply follows_bind
        intro isZero _
        split
        · exact follows_declined
        · apply follows_bind
          intro node hnode
          split
          · next out hout =>
            rw [hm.arg (.inl hx), hm.arg (Match.offers_output hid hnode hout)]
            apply follows_bind
            intro arg _
            apply follows_bind
            intro sum _
            dsimp only
            split
            · exact follows_declined
            · exact follows_counted
                (Graph.bypass_follows hm.outputs (hm.producer (.inl hx)) id out) _
          · exact follows_declined
      · exact follows_declined
    · exact follows_declined
  · exact follows_declined

/-! ### Fixed-point conversions -/

section

variable {m : Match} {g g' : Graph} (hm : m.SameView g g')

include hm

theorem namedScale?_eq_of_sameView (name : String) :
    namedScale? m g' name = namedScale? m g name := by
  unfold namedScale?
  split
  · rfl
  · next a ha => rw [hm.value (.inl ha)]

theorem isSignedZero_eq_of_sameView (name : String) :
    isSignedZero m g' name = isSignedZero m g name := by
  unfold isSignedZero
  split
  · rfl
  · next a ha => rw [Graph.isZero, Graph.isZero, hm.value (.inl ha)]

theorem pairFixPoint?_eq_of_sameView : pairFixPoint? m g' = pairFixPoint? m g := by
  unfold pairFixPoint?
  simp only [namedScale?_eq_of_sameView hm, isSignedZero_eq_of_sameView hm]

theorem conversions?_eq_of_sameView : conversions? m g' = conversions? m g := by
  unfold conversions?
  split
  · split
    · next inner hinner =>
      split
      · next outer houter => rw [hm.node hinner, hm.node houter]
      · rfl
    · rfl
  · rfl

end

theorem local_pairToFix : Local Action.pairToFix := by
  intro pass pass' m g g' hm
  unfold Action.pairToFix
  split
  · split
    · next id hid =>
      rw [pairFixPoint?_eq_of_sameView hm, hm.node hid]
      apply follows_bind
      intro fixPoint? _
      split
      · apply follows_bind
        intro node _
        split
        · next old _ =>
          simp only [Draft.anchorRemark, ok_bind]
          exact follows_counted (Graph.supplant_follows rfl id old _) _
        · exact follows_declined
      · exact follows_declined
    · exact follows_declined
  · exact follows_declined

theorem local_foldRoundTrip : Local Action.foldRoundTrip := by
  intro pass pass' m g g' hm
  unfold Action.foldRoundTrip
  rw [conversions?_eq_of_sameView hm]
  apply follows_bind
  intro c? hc
  split
  · next c =>
    rw [hm.node (conversions?_offers hc).2.2]
    apply follows_bind
    intro node _
    split
    · next old _ => exact follows_counted (Graph.supplant_follows rfl c.outer old _) _
    · exact follows_declined
  · exact follows_declined

theorem local_bypassToInput : Local Action.bypassToInput := by
  intro pass pass' m g g' hm
  unfold Action.bypassToInput
  rw [conversions?_eq_of_sameView hm]
  apply follows_bind
  intro c? hc
  split
  · next c =>
    obtain ⟨hx, -, houter⟩ := conversions?_offers hc
    rw [hm.node houter]
    apply follows_bind
    intro node _
    split
    · next out _ =>
      exact follows_counted (Graph.bypass_follows hm.outputs (hm.producer (.inl hx)) c.outer out) _
    · exact follows_declined
  · exact follows_declined

theorem local_bypassToInner : Local Action.bypassToInner := by
  intro pass pass' m g g' hm
  unfold Action.bypassToInner
  rw [conversions?_eq_of_sameView hm]
  apply follows_bind
  intro c? hc
  split
  · next c =>
    obtain ⟨-, hinner, houter⟩ := conversions?_offers hc
    rw [hm.node hinner, hm.node houter]
    apply follows_bind
    intro innerNode hinnerNode
    split
    · next survivor hsurvivor =>
      have hproducer := hm.producer (Match.offers_output hinner hinnerNode hsurvivor)
      apply follows_bind
      intro node _
      split
      · next out _ =>
        exact follows_counted (Graph.bypass_follows hm.outputs hproducer c.outer out) _
      · exact follows_declined
    · exact follows_declined
  · exact follows_declined

/-! ### Constants -/

theorem checkTensor_error {tensor : Tensor} {name : String} {e : GraphError}
    (hcheck : Graph.checkTensor name tensor = .error (.error e)) (name' : String) :
    ∃ e', Graph.checkTensor name' tensor = .error (.error e') := by
  simp only [Graph.checkTensor, Tensor.lengthError?] at hcheck ⊢
  cases hneeded : tensor.neededLength with
  | error o =>
    rw [hneeded] at hcheck
    cases hcheck
  | ok needed =>
    simp only [hneeded, ok_bind, pure, Except.pure] at hcheck ⊢
    by_cases hlength : tensor.length = needed
    · simp [hlength] at hcheck
    · rw [if_neg hlength]
      exact ⟨_, rfl⟩

/--
A tensor that is refused under a name that is free is refused everywhere, before anything is done.
-/
theorem addInitializer_error {g g₁ : Graph} {name : String} {tensor : Tensor} {e : GraphError}
    (hname : name ∉ g.argNames) (hrun : Graph.addInitializer name tensor g = .error (.error e) g₁) :
    g₁ = g ∧ ∀ name' g', ∃ e', Graph.addInitializer name' tensor g' = .error (.error e') g' := by
  cases hcheck : Graph.checkTensor name tensor with
  | error failure =>
    simp only [Graph.addInitializer, hcheck] at hrun
    cases hrun
    refine ⟨rfl, fun name' g' => ?_⟩
    obtain ⟨e', he'⟩ := checkTensor_error hcheck name'
    refine ⟨e', ?_⟩
    simp only [Graph.addInitializer, he']
    rfl
  | ok u =>
    simp only [Graph.addInitializer, hcheck] at hrun
    have hnew : Graph.newArg name tensor.type g = .ok _ _ := if_neg hname
    rw [stateful_bind_of_ok hnew] at hrun
    cases hrun

theorem local_foldConstant : Local Action.foldConstant := by
  intro pass pass' m g g' hm
  unfold Action.foldConstant
  split
  · next c hc =>
    split
    · next id hid =>
      rw [hm.node hid, hm.value (.inl hc), hm.arg (.inl hc)]
      apply follows_bind
      intro node _
      split
      · split
        · next out _ =>
          rw [hm.outputs]
          split
          · exact follows_declined
          · apply follows_bind
            intro tensor? _
            split
            · apply follows_bind
              intro arg _
              dsimp only
              split
              · exact follows_declined
              · intro left hleft
                split at hleft
                · cases hleft
                · next e g₁ hrefused =>
                  cases hleft
                  obtain ⟨rfl, hrefuses⟩ := addInitializer_error (freshName_not_mem _ _) hrefused
                  obtain ⟨e', he'⟩ := hrefuses (g'.freshArgName (arg.name ++ "_fix")) g'
                  rw [he']
                  exact ⟨rfl, rfl⟩
                · simp only [bind_eq_ok_iff, pure_eq_ok_iff] at hleft
                  obtain ⟨_, -, _, -, hleft⟩ := hleft
                  cases hleft
            · exact follows_declined
        · exact follows_declined
      · exact follows_declined
    · exact follows_declined
  · exact follows_declined

/-! ### Transposes and reshapes -/

theorem local_mergeTransposes : Local Action.mergeTransposes := by
  intro pass pass' m g g' hm
  unfold Action.mergeTransposes
  split
  · next x hx =>
    split
    · next inner hinner =>
      split
      · next id hid =>
        rw [hm.node hinner, hm.node hid]
        apply follows_bind
        intro innerNode _
        split
        · apply follows_bind
          intro node _
          split
          · split
            · apply follows_bind
              intro node _
              split
              · next old _ =>
                split
                · exact follows_counted
                    (Graph.bypass_follows hm.outputs (hm.producer (.inl hx)) id old) _
                · exact follows_counted (Graph.supplant_follows rfl id old _) _
              · exact follows_declined
            · exact follows_declined
          · exact follows_declined
        · exact follows_declined
      · exact follows_declined
    · exact follows_declined
  · exact follows_declined

theorem local_mergeReshapes : Local Action.mergeReshapes := by
  intro pass pass' m g g' hm
  unfold Action.mergeReshapes
  split
  · split
    · next shape hshape =>
      split
      · next id hid =>
        rw [hm.node hid]
        apply follows_bind
        intro node hnode
        split
        · next old hold =>
          simp only [copiesInputDims, hm.value (.inl hshape),
            hm.arg (Match.offers_output hid hnode hold), Draft.cloneAttrs, hm.node hid]
          apply follows_bind
          intro copies _
          split
          · exact follows_declined
          · apply follows_bind
            intro arg _
            split
            · rw [hnode, ok_bind, ok_bind]
              exact follows_counted (Graph.supplant_follows rfl id old _) _
            · exact follows_declined
        · exact follows_declined
      · exact follows_declined
    · exact follows_declined
  · exact follows_declined

theorem local_of_builtin (b : Builtin) {p : RulePass} (hb : b.pass = .rules p) :
    ∀ spec ∈ p.rules, Local spec.act := by
  cases b with
  | removeIdentity =>
    cases hb
    simpa [removeIdentity] using local_bypassIdentity
  | qdqToFix =>
    cases hb
    simpa [qdqToFix] using local_pairToFix
  | fixCleanup =>
    cases hb
    simpa [fixCleanup] using ⟨local_foldRoundTrip, local_bypassToInput, local_bypassToInner⟩
  | foldFixConstant =>
    cases hb
    simpa [foldFixConstant] using local_foldConstant
  | mergeTranspose =>
    cases hb
    simpa [mergeTranspose] using local_mergeTransposes
  | mergeReshape =>
    cases hb
    simpa [mergeReshape] using local_mergeReshapes
  | foldAddZero =>
    cases hb
    simpa [foldAddZero] using local_bypassAddZero
  | partition => cases hb

end RulePass

namespace RuleSpec

variable {spec : RuleSpec} {pattern : Pattern}

theorem action_eq_ok_iff {m : Match} {g g' : Graph} {ctx ctx' : PassContext} {fired : Bool} :
    (spec.toRule pattern).action m g ctx = .ok (fired, g', ctx') ↔
      ∃ deed, spec.act ctx.pass m g = .ok (deed, g') ∧ fired = deed.isSome ∧
        ctx' = deed.elim ctx ctx.bump := by
  simp only [toRule, bind_eq_ok_iff]
  constructor
  · rintro ⟨⟨deed, left⟩, hact, hrun⟩
    cases deed with
    | none =>
      cases hrun
      exact ⟨none, hact, rfl, rfl⟩
    | some counter =>
      cases hrun
      exact ⟨some counter, hact, rfl, rfl⟩
  · rintro ⟨deed, hact, rfl, rfl⟩
    refine ⟨(deed, g'), hact, ?_⟩
    cases deed with
    | none => rfl
    | some counter => rfl

theorem exists_deed_of_fires {g g' : Graph} (hfires : (spec.toRule pattern).Fires g g') :
    ∃ id m pass counter, pattern.matchNode g id = .ok (some m) ∧
      spec.act pass m g = .ok (some counter, g') := by
  obtain ⟨id, m, ctx, ctx', hmatch, hrun⟩ := hfires
  obtain ⟨deed, hact, hfired, -⟩ := action_eq_ok_iff.mp hrun
  obtain ⟨counter, rfl⟩ := Option.isSome_iff_exists.mp hfired.symm
  exact ⟨id, m, ctx.pass, counter, hmatch, hact⟩

section

variable (hlocal : RulePass.Local spec.act)

include hlocal

theorem action_eq_false_iff {m : Match} {g g' : Graph} {ctx ctx' : PassContext} :
    (spec.toRule pattern).action m g ctx = .ok (false, g', ctx') ↔
      spec.act ctx.pass m g = .ok (none, g) ∧ g' = g ∧ ctx' = ctx := by
  rw [action_eq_ok_iff]
  constructor
  · rintro ⟨deed, hact, hfired, rfl⟩
    obtain rfl := Option.isSome_eq_false_iff.mp hfired.symm |> Option.isNone_iff_eq_none.mp
    obtain ⟨rfl, -⟩ := hlocal ctx.pass ctx.pass m g g (.refl m g) g' hact
    exact ⟨hact, rfl, rfl⟩
  · rintro ⟨hact, rfl, rfl⟩
    exact ⟨none, hact, rfl, rfl⟩

theorem quiet_toRule : (spec.toRule pattern).Quiet :=
  fun _ _ _ _ _ hrun => ((action_eq_false_iff hlocal).mp hrun).2.1

end

end RuleSpec

end OpGraph
