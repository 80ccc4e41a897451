import OpGraph.Proofs.Pass.Cache
import OpGraph.Proofs.Pass.Meaning

/-!
What is known of a step of a pass whenever it returns, with an answer or with an error. A fault does
not return, so nothing is said of the workspace it leaves.
-/

namespace OpGraph

namespace PassM

variable {α β : Type}

/-- The answer of a step is as `Q` says and its error as `E` says. -/
structure Returns (x : PassM α) (w : Workspace) (Q : α → Workspace → Prop)
    (E : PassError → Workspace → Prop) : Prop where
  ok : ∀ a w', x w = .ok a w' → Q a w'
  error : ∀ e w', x w = .error (.error e) w' → E e w'

variable {w : Workspace} {Q Q' : α → Workspace → Prop} {E E' : PassError → Workspace → Prop}

theorem Returns.mono {x : PassM α} (hx : x.Returns w Q E) (hQ : ∀ a w', Q a w' → Q' a w')
    (hE : ∀ e w', E e w' → E' e w') : x.Returns w Q' E' :=
  ⟨fun a w' hrun => hQ a w' (hx.ok a w' hrun), fun e w' hrun => hE e w' (hx.error e w' hrun)⟩

theorem Returns.and {x : PassM α} (hx : x.Returns w Q E) (hx' : x.Returns w Q' E') :
    x.Returns w (fun a w' => Q a w' ∧ Q' a w') (fun e w' => E e w' ∧ E' e w') :=
  ⟨fun a w' hrun => ⟨hx.ok a w' hrun, hx'.ok a w' hrun⟩,
    fun e w' hrun => ⟨hx.error e w' hrun, hx'.error e w' hrun⟩⟩

theorem returns_pure {a : α} (ha : Q a w) : (pure a : PassM α).Returns w Q E := by
  constructor
  · intro a' w' hrun
    cases hrun
    exact ha
  · intro e w' hrun
    cases hrun

theorem returns_throw {error : PassError} (he : E error w) :
    (throw (.error error) : PassM α).Returns w Q E := by
  constructor
  · intro a' w' hrun
    cases hrun
  · intro e w' hrun
    cases hrun
    exact he

theorem returns_bind {x : PassM α} {f : α → PassM β} {R : β → Workspace → Prop}
    (hx : x.Returns w Q E) (hf : ∀ a w', Q a w' → (f a).Returns w' R E) :
    (x >>= f).Returns w R E := by
  constructor
  · intro b w' hrun
    obtain ⟨a, w₁, ha, hb⟩ := stateful_bind_eq_ok_iff.mp hrun
    exact (hf a w₁ (hx.ok a w₁ ha)).ok b w' hb
  · intro e w' hrun
    obtain he | ⟨a, w₁, ha, he⟩ := stateful_bind_eq_error_iff.mp hrun
    · exact hx.error e w' he
    · exact (hf a w₁ (hx.ok a w₁ ha)).error e w' he

theorem returns_orFault_bind {x : Except Fault α} {f : α → PassM β} {R : β → Workspace → Prop}
    (hx : ∀ a, x = .ok a → (f a).Returns w R E) : (orFault x >>= f).Returns w R E := by
  cases x with
  | ok a => exact hx a rfl
  | error fault =>
    constructor
    · intro b w' hrun
      cases hrun
    · intro e w' hrun
      cases hrun

theorem returns_get_bind {f : Workspace → PassM β} {R : β → Workspace → Prop}
    (hf : (f w).Returns w R E) : (get >>= f).Returns w R E :=
  ⟨hf.ok, hf.error⟩

theorem returns_set_bind {w' : Workspace} {f : PUnit → PassM β} {R : β → Workspace → Prop}
    (hf : (f ⟨⟩).Returns w' R E) : (set w' >>= f).Returns w R E :=
  ⟨hf.ok, hf.error⟩

theorem returns_edit {ε : Type} {onError : ε → PassError} {step : Edit ε α}
    (hok : ∀ a g, step w.graph = .ok a g → Q a { w with graph := g })
    (herror : ∀ e g, step w.graph = .error (.error e) g → E (onError e) { w with graph := g }) :
    (edit onError step).Returns w Q E := by
  constructor
  · intro a w' hrun
    unfold edit at hrun
    split at hrun
    · next a' g hstep =>
      cases hrun
      exact hok a g hstep
    · cases hrun
  · intro e w' hrun
    unfold edit at hrun
    split at hrun
    · cases hrun
    · next failure g hstep =>
      cases failure with
      | error e' =>
        cases hrun
        exact herror e' g hstep
      | fault fault => cases hrun

theorem returns_mapM {P : Workspace → Prop} {R : β → Prop} {f : α → PassM β} (l : List α)
    (hstep : ∀ a ∈ l, ∀ w, P w → (f a).Returns w (fun b w' => P w' ∧ R b) E) :
    ∀ w, P w → (l.mapM f).Returns w (fun bs w' => P w' ∧ ∀ b ∈ bs, R b) E := by
  induction l with
  | nil =>
    intro w hw
    exact returns_pure ⟨hw, by simp⟩
  | cons a l ih =>
    intro w hw
    rw [List.mapM_cons]
    apply returns_bind (hstep a List.mem_cons_self w hw)
    rintro b w₁ ⟨hw₁, hb⟩
    apply returns_bind (ih (fun a ha => hstep a (List.mem_cons_of_mem _ ha)) w₁ hw₁)
    rintro bs w₂ ⟨hw₂, hbs⟩
    exact returns_pure ⟨hw₂, List.forall_mem_cons.mpr ⟨hb, hbs⟩⟩

theorem returns_fetch {store : Store} {key : String} {compiled : Pattern} :
    (fetch store key compiled).Returns w (fun _ w' => w'.graph = w.graph)
      (fun e w' => w'.graph = w.graph ∧ e = .artifact) := by
  constructor
  · intro pattern w' hrun
    exact graph_of_fetch hrun
  · intro e w' hrun
    unfold fetch at hrun
    split at hrun
    · cases hrun
    · cases hrun
      exact ⟨rfl, rfl⟩

end PassM

namespace RulePass

variable {p : RulePass} {store : Store} {w : Workspace} {C : PatternCache → Storage → Prop}
  {Good : RuleSpec → Pattern → Prop}

theorem returns_compile
    (hfetch : ∀ spec ∈ p.rules, ∀ compiled, spec.pattern = .ok compiled →
      ∀ w, C w.cache w.storage → (PassM.fetch store (p.ruleKey spec) compiled).Returns w
        (fun pattern w' => C w'.cache w'.storage ∧ Good spec pattern)
        (fun _ w' => C w'.cache w'.storage))
    (hw : C w.cache w.storage) :
    (p.compile store).Returns w
      (fun rules w' => (C w'.cache w'.storage ∧ w'.graph = w.graph) ∧ ∀ rule ∈ rules,
        ∃ spec ∈ p.rules, ∃ pattern, Good spec pattern ∧ rule = spec.toRule pattern)
      (fun e w' => (C w'.cache w'.storage ∧ w'.graph = w.graph) ∧ e = .artifact) := by
  refine PassM.returns_mapM (P := fun w' => C w'.cache w'.storage ∧ w'.graph = w.graph) p.rules ?_ w
    ⟨hw, rfl⟩
  rintro spec hspec w₁ ⟨hw₁, hgraph⟩
  apply PassM.returns_orFault_bind
  intro compiled hcompiled
  have hfetched := (hfetch spec hspec compiled hcompiled w₁ hw₁).and PassM.returns_fetch
  apply PassM.returns_bind (hfetched.mono (fun _ _ => id) fun e w' ⟨hw', hsame, he⟩ =>
    ⟨⟨hw', hsame.trans hgraph⟩, he⟩)
  rintro pattern w' ⟨⟨hw', hgood⟩, hsame⟩
  exact PassM.returns_pure ⟨⟨hw', hsame.trans hgraph⟩, spec, hspec, pattern, hgood, rfl⟩

/-- What every firing keeps, the pass keeps; it ends with a graph that has an order. -/
theorem returns_run (p : RulePass) (store : Store) (budget : Nat)
    (C : PatternCache → Storage → Prop) (Good : RuleSpec → Pattern → Prop) (G : Graph → Prop)
    (hfetch : ∀ spec ∈ p.rules, ∀ compiled, spec.pattern = .ok compiled →
      ∀ w, C w.cache w.storage → (PassM.fetch store (p.ruleKey spec) compiled).Returns w
        (fun pattern w' => C w'.cache w'.storage ∧ Good spec pattern)
        (fun _ w' => C w'.cache w'.storage))
    (hlocal : ∀ spec ∈ p.rules, Local spec.act)
    (hstep : ∀ spec ∈ p.rules, ∀ pattern, Good spec pattern → ∀ g g' order, G g →
      g.orderOrFault = .ok order → (spec.toRule pattern).Fires g g' → G g')
    (hw : C w.cache w.storage) (hG : G w.graph) :
    (p.run store budget).Returns w
      (fun _ w' => C w'.cache w'.storage ∧ G w'.graph ∧ ∃ order, w'.graph.orderOrFault = .ok order)
      (fun e w' => (C w'.cache w'.storage ∧ w'.graph = w.graph) ∧ e = .artifact) := by
  apply PassM.returns_bind (returns_compile hfetch hw)
  rintro rules w₁ ⟨⟨hw₁, hgraph⟩, hrules⟩
  apply PassM.returns_orFault_bind
  intro chain hchain
  apply PassM.returns_get_bind
  apply PassM.returns_orFault_bind
  rintro ⟨stats, g, ctx⟩ happly
  apply PassM.returns_set_bind
  apply PassM.returns_pure
  refine ⟨hw₁, RuleChain.apply_keeps (RuleChain.within_ofRules hchain) ?_ ?_ (hgraph ▸ hG) happly⟩
  · intro rule hrule
    obtain ⟨spec, hspec, pattern, -, rfl⟩ := hrules rule hrule
    exact RuleSpec.quiet_toRule (hlocal spec hspec)
  · intro rule hrule
    obtain ⟨spec, hspec, pattern, hgood, rfl⟩ := hrules rule hrule
    exact hstep spec hspec pattern hgood

end RulePass

end OpGraph
