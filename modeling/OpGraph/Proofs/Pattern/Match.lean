import Mathlib.Data.List.Nodup
import Mathlib.Data.List.Pairwise
import OpGraph.Pattern.Match
import OpGraph.Proofs.Graph.Rewire

/-!
What a successful match says. Every bound entry is bound to an arg of its kind under the bindings of
the match, and every one but the root got its arg from an entry that refers to it.
-/

namespace OpGraph

def Bindings.arg? (bound : Bindings) (id : PatternId) : Option ArgId :=
  bound[id]?.bind Binding.arg

namespace PatternKind

/-- An entry of this kind fits the arg `a` when entries are bound as `σ` says. -/
def Holds (g : Graph) (σ : PatternId → Option ArgId) (a : ArgId) : PatternKind → Prop
  | wildcard => True
  | constant => ∃ tensor, g.constantValue? a = .ok (some tensor)
  | graphInput => a ∈ g.inputs
  | node key operands optional attrs =>
    ∃ id node, g.producer? a = some id ∧ g.node? id = some node ∧
    Pattern.fits node key operands.length attrs = true ∧
    ∀ operand slot, operands[slot]? = some operand →
      node.input? slot = none ∧ optional[slot]? = some true ∨
      ∃ b, node.input? slot = some b ∧ σ operand = some b
  | commutable key lhs rhs => ∃ id node b c, g.producer? a = some id ∧ g.node? id = some node ∧
    node.key = key ∧ node.inputs = [some b, some c] ∧
    (σ lhs = some b ∧ σ rhs = some c ∨ σ lhs = some c ∧ σ rhs = some b)
  | anyOf items => ∃ item ∈ items, σ item = some a
  | allOf items => ∀ item ∈ items, σ item = some a

/-- An entry of this kind that is bound to `a` passes `b` on to its child. -/
def Passes (g : Graph) (a : ArgId) : PatternKind → PatternId → ArgId → Prop
  | wildcard, _, _ | constant, _, _ | graphInput, _, _ => False
  | node _ operands _ _, child, b => ∃ id node slot, g.producer? a = some id ∧
    g.node? id = some node ∧ operands[slot]? = some child ∧ node.input? slot = some b
  | commutable _ lhs rhs, child, b => ∃ id node, g.producer? a = some id ∧ g.node? id = some node ∧
    (child = lhs ∨ child = rhs) ∧ some b ∈ node.inputs
  | anyOf items, child, b | allOf items, child, b => child ∈ items ∧ b = a

theorem Holds.mono {g : Graph} {σ σ' : PatternId → Option ArgId} {a : ArgId} {kind : PatternKind}
    (hsub : ∀ id b, σ id = some b → σ' id = some b) (h : kind.Holds g σ a) : kind.Holds g σ' a := by
  cases kind with
  | wildcard => trivial
  | constant => exact h
  | graphInput => exact h
  | node key operands optional attrs =>
    obtain ⟨id, node, hproducer, hnode, hfits, hslots⟩ := h
    refine ⟨id, node, hproducer, hnode, hfits, ?_⟩
    intro operand slot hoperand
    exact (hslots operand slot hoperand).imp_right fun ⟨b, hb, hbound⟩ => ⟨b, hb, hsub _ _ hbound⟩
  | commutable key lhs rhs =>
    obtain ⟨id, node, b, c, hproducer, hnode, hkey, hinputs, hbound⟩ := h
    refine ⟨id, node, b, c, hproducer, hnode, hkey, hinputs, ?_⟩
    exact hbound.imp (And.imp (hsub _ _) (hsub _ _)) (And.imp (hsub _ _) (hsub _ _))
  | anyOf items =>
    obtain ⟨item, hitem, hbound⟩ := h
    exact ⟨item, hitem, hsub _ _ hbound⟩
  | allOf items => exact fun item hitem => hsub _ _ (h item hitem)

end PatternKind

namespace Pattern

variable {p : Pattern} {g : Graph}

def WellFormed (p : Pattern) : Prop :=
  ∀ i < p.size, ∀ child ∈ p.childrenAt i, child.index < i

instance (p : Pattern) : Decidable p.WellFormed :=
  inferInstanceAs (Decidable (∀ i < p.size, ∀ child ∈ p.childrenAt i, child.index < i))

theorem kind_eq_ok_iff {id : PatternId} {kind : PatternKind} :
    p.kind id = .ok kind ↔ p.kinds[id.index]? = some kind := by
  rw [Pattern.kind]
  cases p.kinds[id.index]? <;> simp

theorem WellFormed.child_lt (hp : p.WellFormed) {id : PatternId} {kind : PatternKind}
    (hkind : p.kinds[id.index]? = some kind) {child : PatternId} (hchild : child ∈ kind.children) :
    child.index < id.index := by
  apply hp id.index (Array.getElem?_eq_some_iff.mp hkind).1
  rwa [childrenAt, hkind]

def Passed (p : Pattern) (g : Graph) (bound : Bindings) (id : PatternId) (a : ArgId) : Prop :=
  ∃ parent kind b, p.kinds[parent.index]? = some kind ∧ bound.arg? parent = some b ∧
    kind.Passes g b id a

/-- A binding that is there for a reason; entries in `given` got their args from outside. -/
structure Founded (p : Pattern) (g : Graph) (given : PatternId → ArgId → Prop) (bound : Bindings)
    (id : PatternId) (b : Binding) (a : ArgId) : Prop where
  binding : b = ⟨g.producer? a, some a⟩
  holds : ∃ kind, p.kinds[id.index]? = some kind ∧ kind.Holds g bound.arg? a
  passed : given id a ∨ p.Passed g bound id a

/-- Bindings are kept and new ones, all of them of entries before `n`, are founded. -/
structure Grows (p : Pattern) (g : Graph) (n : Nat) (given : PatternId → ArgId → Prop)
    (bound bound' : Bindings) : Prop where
  kept : ∀ (id : PatternId) b, bound[id]? = some b → bound'[id]? = some b
  fresh : ∀ (id : PatternId) b, bound'[id]? = some b → bound[id]? = none →
    id.index < n ∧ ∃ a, Founded p g given bound' id b a

theorem arg?_mono {bound bound' : Bindings}
    (h : ∀ (id : PatternId) b, bound[id]? = some b → bound'[id]? = some b) {id : PatternId}
    {a : ArgId} (ha : bound.arg? id = some a) : bound'.arg? id = some a := by
  rw [Bindings.arg?, Option.bind_eq_some_iff] at ha ⊢
  obtain ⟨b, hb, hba⟩ := ha
  exact ⟨b, h id b hb, hba⟩

theorem Founded.mono {given given' : PatternId → ArgId → Prop} {bound bound' : Bindings}
    (hkept : ∀ (id : PatternId) b, bound[id]? = some b → bound'[id]? = some b) {id : PatternId}
    {b : Binding} {a : ArgId} (hgiven : given id a → given' id a ∨ p.Passed g bound' id a)
    (h : Founded p g given bound id b a) : Founded p g given' bound' id b a where
  binding := h.binding
  holds := h.holds.imp fun _ hkind => ⟨hkind.1, hkind.2.mono fun _ _ => arg?_mono hkept⟩
  passed := by
    rcases h.passed with hpassed | ⟨parent, kind, c, hkind, hparent, hpasses⟩
    · exact hgiven hpassed
    · exact .inr ⟨parent, kind, c, hkind, arg?_mono hkept hparent, hpasses⟩

namespace Grows

variable {n : Nat} {given : PatternId → ArgId → Prop} {bound bound' : Bindings}

theorem refl : Grows p g n given bound bound where
  kept _ _ hb := hb
  fresh _ _ hb hnone := by
    rw [hnone] at hb
    cases hb

theorem trans {bound'' : Bindings} (h : Grows p g n given bound bound')
    (h' : Grows p g n given bound' bound'') : Grows p g n given bound bound'' where
  kept id b hb := h'.kept id b (h.kept id b hb)
  fresh id b hb hnone := by
    cases hmid : bound'[id]? with
    | none => exact h'.fresh id b hb hmid
    | some b' =>
      obtain rfl : b' = b := Option.some.inj ((h'.kept id b' hmid).symm.trans hb)
      obtain ⟨hlt, a, hfounded⟩ := h.fresh id b' hmid hnone
      exact ⟨hlt, a, hfounded.mono h'.kept .inl⟩

theorem mono {n' : Nat} {given' : PatternId → ArgId → Prop} (hn : n ≤ n')
    (hgiven : ∀ id a, given id a → given' id a) (h : Grows p g n given bound bound') :
    Grows p g n' given' bound bound' where
  kept := h.kept
  fresh id b hb hnone := by
    obtain ⟨hlt, a, hfounded⟩ := h.fresh id b hb hnone
    exact ⟨by omega, a, hfounded.mono (fun _ _ hb => hb) fun hpassed => .inl (hgiven id a hpassed)⟩

variable {id : PatternId} {arg : ArgId} {kind : PatternKind}

theorem of_insert (hkind : p.kinds[id.index]? = some kind) (hnone : bound[id]? = none)
    (h : Grows p g id.index (kind.Passes g arg)
      (bound.insert id ⟨g.producer? arg, some arg⟩) bound')
    (hholds : kind.Holds g bound'.arg? arg) :
    Grows p g (id.index + 1) (fun k a => k = id ∧ a = arg) bound bound' ∧
      bound'.arg? id = some arg := by
  have hid : bound'[id]? = some ⟨g.producer? arg, some arg⟩ :=
    h.kept id _ Std.ExtTreeMap.getElem?_insert_self
  have harg : bound'.arg? id = some arg := by
    rw [Bindings.arg?, hid]
    rfl
  have hother : ∀ {k : PatternId}, k ≠ id →
      (bound.insert id ⟨g.producer? arg, some arg⟩)[k]? = bound[k]? := by
    intro k hk
    rw [Std.ExtTreeMap.getElem?_insert, if_neg]
    exact fun heq => hk (Std.compare_eq_iff_eq.mp heq).symm
  refine ⟨⟨?_, ?_⟩, harg⟩
  · intro k b hb
    have hk : k ≠ id := by
      rintro rfl
      rw [hnone] at hb
      cases hb
    exact h.kept k b ((hother hk).trans hb)
  · intro k b hb hfree
    by_cases hk : k = id
    · subst hk
      rw [hid] at hb
      cases hb
      exact ⟨Nat.lt_succ_self _, arg, rfl, ⟨kind, hkind, hholds⟩, .inl ⟨rfl, rfl⟩⟩
    · obtain ⟨hlt, a, hfounded⟩ := h.fresh k b hb ((hother hk).trans hfree)
      refine ⟨by omega, a, hfounded.mono (fun _ _ hb => hb) ?_⟩
      exact fun hpasses => .inr ⟨id, kind, arg, hkind, harg, hpasses⟩

theorem insert (hkind : p.kinds[id.index]? = some kind) (hnone : bound[id]? = none)
    (h : Grows p g id.index (kind.Passes g arg) bound bound')
    (hholds : kind.Holds g bound'.arg? arg) :
    Grows p g (id.index + 1) (fun k a => k = id ∧ a = arg) bound
      (bound'.insert id ⟨g.producer? arg, some arg⟩) ∧
      Bindings.arg? (bound'.insert id ⟨g.producer? arg, some arg⟩) id = some arg := by
  -- The children come before the entry, so none of them has bound it.
  have hnone' : bound'[id]? = none := by
    cases hb : bound'[id]? with
    | none => rfl
    | some b => exact absurd (h.fresh id b hb hnone).1 (Nat.lt_irrefl _)
  have hid : (bound'.insert id ⟨g.producer? arg, some arg⟩)[id]? =
      some ⟨g.producer? arg, some arg⟩ := Std.ExtTreeMap.getElem?_insert_self
  have harg : Bindings.arg? (bound'.insert id ⟨g.producer? arg, some arg⟩) id = some arg := by
    rw [Bindings.arg?, hid]
    rfl
  have hkept : ∀ (k : PatternId) b, bound'[k]? = some b →
      (bound'.insert id ⟨g.producer? arg, some arg⟩)[k]? = some b := by
    intro k b hb
    rw [Std.ExtTreeMap.getElem?_insert, if_neg, hb]
    intro heq
    rw [← Std.compare_eq_iff_eq.mp heq, hnone'] at hb
    cases hb
  refine ⟨⟨fun k b hb => hkept k b (h.kept k b hb), ?_⟩, harg⟩
  intro k b hb hfree
  rw [Std.ExtTreeMap.getElem?_insert] at hb
  split at hb
  · next heq =>
    obtain rfl := Std.compare_eq_iff_eq.mp heq
    cases hb
    exact ⟨Nat.lt_succ_self _, arg, rfl, ⟨kind, hkind, hholds.mono fun _ _ => arg?_mono hkept⟩,
      .inl ⟨rfl, rfl⟩⟩
  · obtain ⟨hlt, a, hfounded⟩ := h.fresh k b hb hfree
    refine ⟨by omega, a, hfounded.mono hkept ?_⟩
    exact fun hpasses => .inr ⟨id, kind, arg, hkind, harg, hpasses⟩

end Grows

def Attempt.Sound (p : Pattern) (g : Graph) (attempt : Attempt) : Prop :=
  ∀ id arg bound bound', attempt id arg bound = .ok (some bound') →
    Grows p g (id.index + 1) (fun k a => k = id ∧ a = arg) bound bound' ∧ bound'.arg? id = some arg

section

variable {attempt : Attempt} (hattempt : Attempt.Sound p g attempt) {n : Nat}

include hattempt

theorem Attempt.Sound.child {given : PatternId → ArgId → Prop} {id : PatternId} {arg : ArgId}
    {bound bound' : Bindings} (hlt : id.index < n) (hgiven : given id arg)
    (hrun : attempt id arg bound = .ok (some bound')) :
    Grows p g n given bound bound' ∧ bound'.arg? id = some arg := by
  obtain ⟨hgrows, harg⟩ := hattempt id arg bound bound' hrun
  refine ⟨hgrows.mono hlt ?_, harg⟩
  rintro k a ⟨rfl, rfl⟩
  exact hgiven

variable (given : PatternId → ArgId → Prop)

theorem matchOperands_spec {node : Node} {optional : List Bool} {bound' : Bindings}
    (operands : List (PatternId × Nat))
    (hlt : ∀ operand slot, (operand, slot) ∈ operands → operand.index < n)
    (hgiven : ∀ operand slot b, (operand, slot) ∈ operands → node.input? slot = some b →
      given operand b) :
    ∀ bound, matchOperands attempt node optional operands bound = .ok (some bound') →
      Grows p g n given bound bound' ∧ ∀ operand slot, (operand, slot) ∈ operands →
        node.input? slot = none ∧ optional[slot]? = some true ∨
        ∃ b, node.input? slot = some b ∧ bound'.arg? operand = some b := by
  induction operands with
  | nil =>
    intro bound hrun
    cases hrun
    exact ⟨.refl, fun _ _ hmem => by cases hmem⟩
  | cons entry rest ih =>
    obtain ⟨operand, slot⟩ := entry
    intro bound hrun
    have ih := ih (fun o s hmem => hlt o s (List.mem_cons_of_mem _ hmem))
      (fun o s b hmem => hgiven o s b (List.mem_cons_of_mem _ hmem))
    rw [matchOperands] at hrun
    cases hinput : node.input? slot with
    | none =>
      rw [hinput] at hrun
      cases hoptional : optional[slot]? with
      | none =>
        rw [hoptional] at hrun
        cases hrun
      | some flag =>
        rw [hoptional] at hrun
        cases flag with
        | false => cases hrun
        | true =>
          obtain ⟨hgrows, hrest⟩ := ih bound hrun
          refine ⟨hgrows, ?_⟩
          intro o s hmem
          rcases List.mem_cons.mp hmem with heq | hmem
          · cases heq
            exact .inl ⟨hinput, hoptional⟩
          · exact hrest o s hmem
    | some b =>
      rw [hinput] at hrun
      simp only [bind_eq_ok_iff] at hrun
      obtain ⟨outcome, hfirst, hrun⟩ := hrun
      cases outcome with
      | none => cases hrun
      | some bound₁ =>
        obtain ⟨hgrows₁, harg⟩ := hattempt.child (hlt operand slot List.mem_cons_self)
          (hgiven operand slot b List.mem_cons_self hinput) hfirst
        obtain ⟨hgrows, hrest⟩ := ih bound₁ hrun
        refine ⟨hgrows₁.trans hgrows, ?_⟩
        intro o s hmem
        rcases List.mem_cons.mp hmem with heq | hmem
        · cases heq
          exact .inr ⟨b, hinput, arg?_mono hgrows.kept harg⟩
        · exact hrest o s hmem

theorem matchPair_spec {lhs rhs : PatternId} {first second : ArgId} {bound bound' : Bindings}
    (hlhs : lhs.index < n) (hrhs : rhs.index < n) (hfirst : given lhs first)
    (hsecond : given rhs second)
    (hrun : matchPair attempt lhs rhs first second bound = .ok (some bound')) :
    Grows p g n given bound bound' ∧ bound'.arg? lhs = some first ∧
      bound'.arg? rhs = some second := by
  simp only [matchPair, bind_eq_ok_iff] at hrun
  obtain ⟨outcome, hleft, hright⟩ := hrun
  cases outcome with
  | none => cases hright
  | some bound₁ =>
    obtain ⟨hgrows₁, harg₁⟩ := hattempt.child hlhs hfirst hleft
    obtain ⟨hgrows₂, harg₂⟩ := hattempt.child hrhs hsecond hright
    exact ⟨hgrows₁.trans hgrows₂, arg?_mono hgrows₂.kept harg₁, harg₂⟩

theorem matchAny_spec {arg : ArgId} {bound bound' : Bindings} (items : List PatternId)
    (hlt : ∀ item ∈ items, item.index < n) (hgiven : ∀ item ∈ items, given item arg)
    (hrun : matchAny attempt arg bound items = .ok (some bound')) :
    Grows p g n given bound bound' ∧ ∃ item ∈ items, bound'.arg? item = some arg := by
  induction items with
  | nil => cases hrun
  | cons item rest ih =>
    simp only [matchAny, bind_eq_ok_iff] at hrun
    obtain ⟨outcome, hfirst, hrun⟩ := hrun
    cases outcome with
    | none =>
      obtain ⟨hgrows, other, hother, harg⟩ := ih (fun i hi => hlt i (List.mem_cons_of_mem _ hi))
        (fun i hi => hgiven i (List.mem_cons_of_mem _ hi)) hrun
      exact ⟨hgrows, other, List.mem_cons_of_mem _ hother, harg⟩
    | some bound₁ =>
      cases hrun
      obtain ⟨hgrows, harg⟩ := hattempt.child (hlt item List.mem_cons_self)
        (hgiven item List.mem_cons_self) hfirst
      exact ⟨hgrows, item, List.mem_cons_self, harg⟩

theorem matchAll_spec {arg : ArgId} {bound' : Bindings} (items : List PatternId)
    (hlt : ∀ item ∈ items, item.index < n) (hgiven : ∀ item ∈ items, given item arg) :
    ∀ bound, matchAll attempt arg items bound = .ok (some bound') →
      Grows p g n given bound bound' ∧ ∀ item ∈ items, bound'.arg? item = some arg := by
  induction items with
  | nil =>
    intro bound hrun
    cases hrun
    exact ⟨.refl, fun _ hmem => by cases hmem⟩
  | cons item rest ih =>
    intro bound hrun
    simp only [matchAll, bind_eq_ok_iff] at hrun
    obtain ⟨outcome, hfirst, hrun⟩ := hrun
    cases outcome with
    | none => cases hrun
    | some bound₁ =>
      obtain ⟨hgrows₁, harg⟩ := hattempt.child (hlt item List.mem_cons_self)
        (hgiven item List.mem_cons_self) hfirst
      obtain ⟨hgrows, hrest⟩ := ih (fun i hi => hlt i (List.mem_cons_of_mem _ hi))
        (fun i hi => hgiven i (List.mem_cons_of_mem _ hi)) bound₁ hrun
      refine ⟨hgrows₁.trans hgrows, ?_⟩
      intro i hi
      rcases List.mem_cons.mp hi with rfl | hi
      · exact arg?_mono hgrows.kept harg
      · exact hrest i hi

end

theorem matchKind_spec {attempt : Attempt} (hattempt : Attempt.Sound p g attempt) {id : PatternId}
    {arg : ArgId} {bound bound' : Bindings} {kind : PatternKind}
    (hkind : p.kinds[id.index]? = some kind)
    (hlt : ∀ child ∈ kind.children, child.index < id.index) (hnone : bound[id]? = none)
    (hrun : matchKind g attempt id arg bound kind = .ok (some bound')) :
    Grows p g (id.index + 1) (fun k a => k = id ∧ a = arg) bound bound' ∧
      bound'.arg? id = some arg := by
  cases kind with
  | wildcard =>
    cases hrun
    exact Grows.insert hkind hnone .refl trivial
  | constant =>
    simp only [matchKind, bind_eq_ok_iff, pure_eq_ok_iff, Graph.isConstant, map_eq_ok_iff] at hrun
    obtain ⟨-, ⟨value, hvalue, rfl⟩, hrun⟩ := hrun
    cases value with
    | none => cases hrun
    | some tensor =>
      cases hrun
      exact Grows.insert hkind hnone .refl ⟨tensor, hvalue⟩
  | graphInput =>
    simp only [matchKind, pure_eq_ok_iff] at hrun
    split at hrun
    · next hinput =>
      cases hrun
      exact Grows.insert hkind hnone .refl (Graph.isInput_iff.mp hinput)
    · cases hrun
  | node key operands optional attrs =>
    rw [matchKind] at hrun
    cases hproducer : g.producer? arg with
    | none =>
      rw [hproducer] at hrun
      cases hrun
    | some producer =>
      simp only [hproducer, bind_eq_ok_iff, Graph.node_eq_ok_iff] at hrun
      obtain ⟨node, hnode, hrun⟩ := hrun
      split at hrun
      · next hfits =>
        rw [← hproducer] at hrun
        obtain ⟨hgrows, hslots⟩ := matchOperands_spec hattempt
          ((PatternKind.node key operands optional attrs).Passes g arg) operands.zipIdx
          (fun operand slot hmem => hlt operand (List.fst_mem_of_mem_zipIdx hmem))
          (fun operand slot b hmem hb => ⟨producer, node, slot, hproducer, hnode,
            List.mem_zipIdx_iff_getElem?.mp hmem, hb⟩) _ hrun
        refine Grows.of_insert hkind hnone hgrows ⟨producer, node, hproducer, hnode, hfits, ?_⟩
        intro operand slot hoperand
        exact hslots operand slot (List.mem_zipIdx_iff_getElem?.mpr hoperand)
      · cases hrun
  | commutable key lhs rhs =>
    rw [matchKind] at hrun
    cases hproducer : g.producer? arg with
    | none =>
      rw [hproducer] at hrun
      cases hrun
    | some producer =>
      simp only [hproducer, bind_eq_ok_iff, Graph.node_eq_ok_iff] at hrun
      obtain ⟨node, hnode, hrun⟩ := hrun
      split at hrun
      · next b c hinputs =>
        split at hrun
        · next hkey =>
          rw [bind_eq_ok_iff, ← hproducer] at hrun
          obtain ⟨outcome, hfirst, hrun⟩ := hrun
          have hleft : lhs.index < id.index := hlt lhs List.mem_cons_self
          have hright : rhs.index < id.index :=
            hlt rhs (List.mem_cons_of_mem _ List.mem_cons_self)
          let given := (PatternKind.commutable key lhs rhs).Passes g arg
          have hb : ∀ child, child = lhs ∨ child = rhs → given child b :=
            fun child hchild => ⟨producer, node, hproducer, hnode, hchild, by simp [hinputs]⟩
          have hc : ∀ child, child = lhs ∨ child = rhs → given child c :=
            fun child hchild => ⟨producer, node, hproducer, hnode, hchild, by simp [hinputs]⟩
          cases outcome with
          | some bound₁ =>
            cases hrun
            obtain ⟨hgrows, hb', hc'⟩ := matchPair_spec hattempt given hleft hright
              (hb lhs (.inl rfl)) (hc rhs (.inr rfl)) hfirst
            exact Grows.of_insert hkind hnone hgrows
              ⟨producer, node, b, c, hproducer, hnode, hkey, hinputs, .inl ⟨hb', hc'⟩⟩
          | none =>
            obtain ⟨hgrows, hc', hb'⟩ := matchPair_spec hattempt given hleft hright
              (hc lhs (.inl rfl)) (hb rhs (.inr rfl)) hrun
            exact Grows.of_insert hkind hnone hgrows
              ⟨producer, node, b, c, hproducer, hnode, hkey, hinputs, .inr ⟨hc', hb'⟩⟩
        · cases hrun
      · cases hrun
  | anyOf items =>
    simp only [matchKind, bind_eq_ok_iff] at hrun
    obtain ⟨outcome, hany, hrun⟩ := hrun
    cases outcome with
    | none => cases hrun
    | some bound₁ =>
      cases hrun
      obtain ⟨hgrows, hholds⟩ := matchAny_spec hattempt ((PatternKind.anyOf items).Passes g arg)
        items hlt (fun item hitem => ⟨hitem, rfl⟩) hany
      exact Grows.insert hkind hnone hgrows hholds
  | allOf items =>
    simp only [matchKind, bind_eq_ok_iff] at hrun
    obtain ⟨outcome, hall, hrun⟩ := hrun
    cases outcome with
    | none => cases hrun
    | some bound₁ =>
      cases hrun
      obtain ⟨hgrows, hholds⟩ := matchAll_spec hattempt ((PatternKind.allOf items).Passes g arg)
        items hlt (fun item hitem => ⟨hitem, rfl⟩) bound hall
      exact Grows.insert hkind hnone hgrows hholds

theorem matchAt_sound (hp : p.WellFormed) (fuel : Nat) : Attempt.Sound p g (p.matchAt g fuel) := by
  induction fuel with
  | zero =>
    intro id arg bound bound' hrun
    cases hrun
  | succ fuel ih =>
    intro id arg bound bound' hrun
    rw [matchAt] at hrun
    cases hb : bound[id]? with
    | some b =>
      -- An id that was met before matches the same arg again and binds nothing new.
      simp only [hb, pure_eq_ok_iff] at hrun
      split at hrun
      · next harg =>
        cases hrun
        refine ⟨.refl, ?_⟩
        rw [Bindings.arg?, hb]
        exact harg
      · cases hrun
    | none =>
      simp only [hb, bind_eq_ok_iff] at hrun
      obtain ⟨kind, hkind, hrun⟩ := hrun
      rw [kind_eq_ok_iff] at hkind
      exact matchKind_spec ih hkind (fun child hchild => hp.child_lt hkind hchild) hb hrun

/-! ### Whole matches -/

theorem getD_complete (bound : Bindings) (id : PatternId) :
    ((p.complete bound)[id]?).getD .unbound = (bound[id]?).getD .unbound := by
  rw [complete]
  generalize p.reachable = ids
  induction ids generalizing bound with
  | nil => rfl
  | cons k ids ih =>
    rw [List.foldl_cons, ih]
    split
    · rfl
    · next hk =>
      rw [Std.ExtTreeMap.getElem?_insert]
      split
      · next heq =>
        rw [← Std.compare_eq_iff_eq.mp heq, Std.ExtTreeMap.getElem?_eq_none hk]
        rfl
      · rfl

theorem bind_complete {β : Type} {f : Binding → Option β} (hf : f .unbound = none)
    (bound : Bindings) (id : PatternId) : (p.complete bound)[id]?.bind f = bound[id]?.bind f := by
  have hbind : ∀ b : Option Binding, b.bind f = f (b.getD .unbound) := by
    intro b
    cases b with
    | none => exact hf.symm
    | some b => rfl
  rw [hbind, hbind, getD_complete]

end Pattern

structure Match.IsFor (m : Match) (p : Pattern) (g : Graph) (arg : ArgId) : Prop where
  pattern : m.pattern = p
  root : m.arg? p.root = some arg
  node : ∀ id a, m.arg? id = some a → m.node? id = g.producer? a
  holds : ∀ id a, m.arg? id = some a → ∃ kind, p.kinds[id.index]? = some kind ∧
    kind.Holds g m.arg? a
  passed : ∀ id a, m.arg? id = some a → id = p.root ∧ a = arg ∨
    ∃ parent kind b, p.kinds[parent.index]? = some kind ∧ m.arg? parent = some b ∧
      kind.Passes g b id a

namespace Pattern

variable {p : Pattern} {g : Graph} (hp : p.WellFormed)

include hp

theorem matchArg_sound {arg : ArgId} {m : Match} (hrun : p.matchArg g arg = .ok (some m)) :
    m.IsFor p g arg := by
  simp only [matchArg, bind_eq_ok_iff] at hrun
  obtain ⟨outcome, hmatch, hrun⟩ := hrun
  cases outcome with
  | none => cases hrun
  | some bound =>
    cases hrun
    obtain ⟨hgrows, hroot⟩ := matchAt_sound hp _ _ _ _ _ hmatch
    have harg : (Match.mk p (p.complete bound)).arg? = bound.arg? :=
      funext (bind_complete rfl bound)
    have hfounded : ∀ id a, bound.arg? id = some a → ∃ b, bound[id]? = some b ∧
        Founded p g (fun k a => k = p.root ∧ a = arg) bound id b a := by
      intro id a ha
      rw [Bindings.arg?, Option.bind_eq_some_iff] at ha
      obtain ⟨b, hb, hba⟩ := ha
      obtain ⟨-, a', hfounded⟩ := hgrows.fresh id b hb Std.ExtTreeMap.getElem?_empty
      have hsame := hfounded.binding
      subst hsame
      cases hba
      exact ⟨_, hb, hfounded⟩
    refine ⟨rfl, ?_, ?_, ?_, ?_⟩
    · rw [harg, hroot]
    · intro id a ha
      rw [harg] at ha
      obtain ⟨b, hb, hf⟩ := hfounded id a ha
      rw [Match.node?, bind_complete rfl, hb, hf.binding]
      rfl
    · intro id a ha
      rw [harg] at ha ⊢
      obtain ⟨b, hb, hf⟩ := hfounded id a ha
      exact hf.holds
    · intro id a ha
      rw [harg] at ha ⊢
      obtain ⟨b, hb, hf⟩ := hfounded id a ha
      exact hf.passed

theorem matchNode_sound {id : NodeId} {m : Match} (hrun : p.matchNode g id = .ok (some m)) :
    ∃ node arg, g.node? id = some node ∧ node.output? 0 = some arg ∧ m.IsFor p g arg := by
  simp only [matchNode, bind_eq_ok_iff, Graph.node_eq_ok_iff] at hrun
  obtain ⟨node, hnode, hrun⟩ := hrun
  cases hout : node.output? 0 with
  | none =>
    rw [hout] at hrun
    cases hrun
  | some arg =>
    rw [hout] at hrun
    exact ⟨node, arg, hnode, hout, matchArg_sound hp hrun⟩

theorem exists_arg_of_node? {id : NodeId} {m : Match} (hrun : p.matchNode g id = .ok (some m))
    {entry : PatternId} {producer : NodeId} (hnode : m.node? entry = some producer) :
    ∃ a, m.arg? entry = some a := by
  simp only [matchNode, bind_eq_ok_iff] at hrun
  obtain ⟨node, -, hrun⟩ := hrun
  split at hrun
  · cases hrun
  · simp only [matchArg, bind_eq_ok_iff] at hrun
    obtain ⟨outcome, hmatch, hrun⟩ := hrun
    cases outcome with
    | none => cases hrun
    | some bound =>
      cases hrun
      obtain ⟨hgrows, -⟩ := matchAt_sound hp _ _ _ _ _ hmatch
      rw [Match.node?, bind_complete rfl, Option.bind_eq_some_iff] at hnode
      obtain ⟨b, hb, -⟩ := hnode
      obtain ⟨-, a, hfounded⟩ := hgrows.fresh entry b hb Std.ExtTreeMap.getElem?_empty
      refine ⟨a, ?_⟩
      rw [Match.arg?, bind_complete rfl, hb, hfounded.binding]
      rfl

end Pattern

/-! ### Patterns without sharing -/

def Pattern.Linear (p : Pattern) : Prop :=
  ((List.range p.size).flatMap p.childrenAt ++ [p.root]).Nodup

instance (p : Pattern) : Decidable p.Linear :=
  inferInstanceAs (Decidable (((List.range p.size).flatMap p.childrenAt ++ [p.root]).Nodup))

namespace Pattern.Linear

variable {p : Pattern} (hp : p.Linear) {id : PatternId} {kind : PatternKind}
  (hkind : p.kinds[id.index]? = some kind)

include hkind

theorem mem_flatMap {child : PatternId} (hchild : child ∈ kind.children) :
    child ∈ (List.range p.size).flatMap p.childrenAt := by
  rw [List.mem_flatMap]
  refine ⟨id.index, List.mem_range.mpr (Array.getElem?_eq_some_iff.mp hkind).1, ?_⟩
  rwa [childrenAt, hkind]

include hp

theorem nodup_children : kind.children.Nodup := by
  have hnodup := (List.nodup_append.mp hp).1
  have := (List.nodup_flatMap.mp hnodup).1 id.index
    (List.mem_range.mpr (Array.getElem?_eq_some_iff.mp hkind).1)
  rwa [childrenAt, hkind] at this

theorem child_ne_root {child : PatternId} (hchild : child ∈ kind.children) : child ≠ p.root := by
  rintro rfl
  exact (List.nodup_append.mp hp).2.2 _ (mem_flatMap hkind hchild) _ List.mem_cons_self rfl

theorem parent_unique {id' : PatternId} {kind' : PatternKind}
    (hkind' : p.kinds[id'.index]? = some kind') {child : PatternId} (hchild : child ∈ kind.children)
    (hchild' : child ∈ kind'.children) : id.index = id'.index := by
  by_contra hne
  have hnodup := (List.nodup_append.mp hp).1
  have : Std.Symm (Function.onFun List.Disjoint p.childrenAt) := ⟨fun _ _ hxy _ hx hy => hxy hy hx⟩
  have hdisjoint := (List.nodup_flatMap.mp hnodup).2.forall
    (List.mem_range.mpr (Array.getElem?_eq_some_iff.mp hkind).1)
    (List.mem_range.mpr (Array.getElem?_eq_some_iff.mp hkind').1) hne
  simp only [Function.onFun, childrenAt, hkind, hkind'] at hdisjoint
  exact hdisjoint hchild hchild'

end Pattern.Linear

theorem PatternKind.Passes.mem_children {g : Graph} {a b : ArgId} {child : PatternId}
    {kind : PatternKind} (h : kind.Passes g a child b) : child ∈ kind.children := by
  cases kind with
  | wildcard => exact h.elim
  | constant => exact h.elim
  | graphInput => exact h.elim
  | node key operands optional attrs =>
    obtain ⟨_, _, slot, _, _, hslot, _⟩ := h
    exact List.mem_of_getElem? hslot
  | commutable key lhs rhs =>
    obtain ⟨_, _, _, _, hchild, _⟩ := h
    rw [PatternKind.children, List.mem_cons, List.mem_singleton]
    exact hchild
  | anyOf items => exact h.1
  | allOf items => exact h.1

namespace Match.IsFor

variable {m : Match} {p : Pattern} {g : Graph} {arg : ArgId} (hm : m.IsFor p g arg)

include hm

theorem namedArg?_eq (name : String) {id : PatternId} (hname : p.find? name = some id) :
    m.namedArg? name = m.arg? id := by
  rw [namedArg?, named?, hm.pattern, hname]
  rfl

theorem namedNode?_eq (name : String) {id : PatternId} (hname : p.find? name = some id) :
    m.namedNode? name = m.node? id := by
  rw [namedNode?, named?, hm.pattern, hname]
  rfl

theorem input?_of_linear (hp : p.Linear) {id : PatternId} {key : OpKey} {operands : List PatternId}
    {optional : List Bool} {attrs : List (String × Attr)}
    (hkind : p.kinds[id.index]? = some (.node key operands optional attrs)) {a : ArgId}
    (ha : m.arg? id = some a) {slot : Nat} {child : PatternId}
    (hslot : operands[slot]? = some child) {b : ArgId} (hb : m.arg? child = some b) :
    ∃ producer node, g.producer? a = some producer ∧ g.node? producer = some node ∧
      node.input? slot = some b := by
  have hchild : child ∈ operands := List.mem_of_getElem? hslot
  obtain ⟨hroot, -⟩ | ⟨parent, kind, c, hparent, hc, hpasses⟩ := hm.passed child b hb
  · exact absurd hroot (hp.child_ne_root hkind hchild)
  · have hsame : id.index = parent.index :=
      hp.parent_unique hkind hparent hchild hpasses.mem_children
    obtain rfl : id = parent := congrArg Handle.mk hsame
    cases hkind.symm.trans hparent
    cases ha.symm.trans hc
    obtain ⟨producer, node, slot', hproducer, hnode, hslot', hinput⟩ := hpasses
    have hnodup : operands.Nodup := hp.nodup_children hkind
    obtain ⟨hlt, hget⟩ := List.getElem?_eq_some_iff.mp hslot
    obtain ⟨hlt', hget'⟩ := List.getElem?_eq_some_iff.mp hslot'
    obtain rfl : slot = slot' := (List.Nodup.getElem_inj_iff hnodup).mp (hget.trans hget'.symm)
    exact ⟨producer, node, hproducer, hnode, hinput⟩

end Match.IsFor

end OpGraph
