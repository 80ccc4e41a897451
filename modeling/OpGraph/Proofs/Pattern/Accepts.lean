import OpGraph.Proofs.Graph.Validation
import OpGraph.Proofs.Pattern.Binding

/-!
What a pattern accepts, said without bindings, and when the matcher finds it. A match is always
accepted. In a pattern without sharing the places of an entry have nothing in common, so that what
was bound at one of them cannot stand in the way at another, and everything accepted is matched.
-/

namespace OpGraph

open Relation

namespace Pattern

/-- An entry accepts an arg if its kind takes it with children that accept theirs. -/
inductive Accepts (p : Pattern) (g : Graph) : PatternId → ArgId → Prop where
  | intro {id : PatternId} {a : ArgId} {kind : PatternKind} {child : PatternId → ArgId → Prop}
    (hkind : p.kinds[id.index]? = some kind) (htakes : kind.Takes g child a)
    (hchild : ∀ c b, child c b → Accepts p g c b) : Accepts p g id a

variable {p : Pattern} {g : Graph}

theorem accepts_iff {id : PatternId} {a : ArgId} {kind : PatternKind}
    (hkind : p.kinds[id.index]? = some kind) :
    p.Accepts g id a ↔ kind.Takes g (p.Accepts g) a := by
  constructor
  · rintro ⟨hkind', htakes, hchild⟩
    cases hkind.symm.trans hkind'
    exact htakes.mono fun c _ => hchild c
  · exact fun htakes => .intro hkind htakes fun _ _ hc => hc

theorem accepts_of_isFor (hp : p.WellFormed) {m : Match} {arg : ArgId} (hm : m.IsFor p g arg)
    {id : PatternId} {a : ArgId} (ha : m.arg? id = some a) : p.Accepts g id a := by
  induction hn : id.index using Nat.strong_induction_on generalizing id a with
  | _ n ih =>
    obtain ⟨kind, hkind, hholds⟩ := hm.holds id a ha
    rw [accepts_iff hkind]
    refine hholds.takes.mono fun child hchild b hb => ?_
    exact ih child.index (hn ▸ hp.child_lt hkind hchild) hb rfl

/-! ### Steps of the matcher -/

/--
A step on top of some bindings ends and binds only what lies `below`. If it is `sure` to meet
nothing that was bound before, it succeeds exactly with what is `accepted`.
-/
def Settled (bound : Bindings) (below : PatternId → Prop) (sure accepted : Prop)
    (step : Except Fault (Option Bindings)) : Prop :=
  ∃ outcome, step = .ok outcome ∧
    (∀ bound', outcome = some bound' → ∀ k, ¬ below k → bound'[k]? = bound[k]?) ∧
    (sure → (∀ k, below k → bound[k]? = none) → (outcome.isSome ↔ accepted))

namespace Settled

variable {bound : Bindings} {below below' : PatternId → Prop} {sure sure' accepted accepted' : Prop}
  {x y : Except Fault (Option Bindings)}

theorem mono (hx : Settled bound below sure accepted x) (hbelow : ∀ k, below k → below' k)
    (hsure : sure' → sure) (haccepted : accepted ↔ accepted') :
    Settled bound below' sure' accepted' x := by
  obtain ⟨outcome, hrun, hkept, hexact⟩ := hx
  refine ⟨outcome, hrun, ?_, ?_⟩
  · exact fun bound' hb k hk => hkept bound' hb k (mt (hbelow k) hk)
  · intro hs hfree
    rw [hexact (hsure hs) fun k hk => hfree k (hbelow k hk), haccepted]

theorem fails (haccepted : sure → (∀ k, below k → bound[k]? = none) → ¬ accepted) :
    Settled bound below sure accepted (.ok none) := by
  refine ⟨none, rfl, nofun, ?_⟩
  exact fun hs hfree => iff_of_false Bool.false_ne_true (haccepted hs hfree)

theorem succeeds (haccepted : accepted) : Settled bound below sure accepted (.ok (some bound)) := by
  refine ⟨some bound, rfl, ?_, fun _ _ => iff_of_true rfl haccepted⟩
  rintro _ ⟨⟩ k -
  rfl

/-- One step after the other; the second one meets nothing that the first one has bound. -/
theorem bind {f : Bindings → Except Fault (Option Bindings)}
    (hx : Settled bound below sure accepted x)
    (hf : ∀ bound₁, Settled bound₁ below' sure' accepted' (f bound₁)) :
    Settled bound (fun k => below k ∨ below' k)
      (sure ∧ sure' ∧ ∀ k, below k → ¬ below' k) (accepted ∧ accepted')
      (do
        match ← x with
        | none => return none
        | some bound => f bound) := by
  obtain ⟨outcome, rfl, hkept, hexact⟩ := hx
  cases outcome with
  | none =>
    refine fails fun hs hfree ha => ?_
    exact Bool.noConfusion ((hexact hs.1 fun k hk => hfree k (.inl hk)).mpr ha.1)
  | some bound₁ =>
    obtain ⟨outcome, hrun, hkept', hexact'⟩ := hf bound₁
    refine ⟨outcome, hrun, ?_, ?_⟩
    · intro bound' hb k hk
      rw [hkept' bound' hb k fun h => hk (.inr h), hkept bound₁ rfl k fun h => hk (.inl h)]
    · rintro ⟨hs, hs', hapart⟩ hfree
      have ha : accepted := (hexact hs fun k hk => hfree k (.inl hk)).mp rfl
      rw [hexact' hs', and_iff_right ha]
      intro k hk
      rw [hkept bound₁ rfl k fun h => hapart k h hk]
      exact hfree k (.inr hk)

theorem orElse (hx : Settled bound below sure accepted x)
    (hy : Settled bound below' sure' accepted' y) :
    Settled bound (fun k => below k ∨ below' k) (sure ∧ sure') (accepted ∨ accepted')
      (do
        match ← x with
        | some bound => return some bound
        | none => y) := by
  obtain ⟨outcome, rfl, hkept, hexact⟩ := hx
  cases outcome with
  | some bound₁ =>
    refine ⟨some bound₁, rfl, ?_, ?_⟩
    · exact fun bound' hb k hk => hkept bound' hb k fun h => hk (.inl h)
    · intro hs hfree
      exact iff_of_true rfl (.inl ((hexact hs.1 fun k hk => hfree k (.inl hk)).mp rfl))
  | none =>
    obtain ⟨outcome, hrun, hkept', hexact'⟩ := hy
    refine ⟨outcome, hrun, ?_, ?_⟩
    · exact fun bound' hb k hk => hkept' bound' hb k fun h => hk (.inr h)
    · intro hs hfree
      have ha : ¬ accepted := by
        rw [← hexact hs.1 fun k hk => hfree k (.inl hk)]
        simp
      rw [hexact' hs.2 fun k hk => hfree k (.inr hk), or_iff_right ha]

theorem of_insert {id : PatternId} {b : Binding} (hbelow : ¬ below id)
    (hx : Settled (bound.insert id b) below sure accepted x) :
    Settled bound (fun k => k = id ∨ below k) sure accepted x := by
  have hother : ∀ k, k ≠ id → (bound.insert id b)[k]? = bound[k]? := by
    intro k hk
    rw [Std.ExtTreeMap.getElem?_insert, if_neg fun h => hk (Std.compare_eq_iff_eq.mp h).symm]
  obtain ⟨outcome, hrun, hkept, hexact⟩ := hx
  refine ⟨outcome, hrun, ?_, ?_⟩
  · intro bound' hb k hk
    rw [hkept bound' hb k fun h => hk (.inr h), hother k fun h => hk (.inl h)]
  · intro hs hfree
    apply hexact hs
    intro k hk
    rw [hother k fun h => hbelow (h ▸ hk)]
    exact hfree k (.inr hk)

theorem insert {id : PatternId} {b : Binding} (hx : Settled bound below sure accepted x) :
    Settled bound (fun k => k = id ∨ below k) sure accepted
      (do
        let some bound ← x | return none
        return some (bound.insert id b)) := by
  have hinsert : ∀ bound₁ : Bindings, Settled bound₁ (· = id) True True
      (.ok (some (bound₁.insert id b))) := by
    intro bound₁
    refine ⟨_, rfl, ?_, fun _ _ => iff_of_true rfl trivial⟩
    rintro _ ⟨⟩ k hk
    rw [Std.ExtTreeMap.getElem?_insert, if_neg fun h => hk (Std.compare_eq_iff_eq.mp h).symm]
  obtain ⟨outcome, rfl, hkept, hexact⟩ := hx
  cases outcome with
  | none =>
    refine fails fun hs hfree ha => ?_
    exact Bool.noConfusion ((hexact hs fun k hk => hfree k (.inr hk)).mpr ha)
  | some bound₁ =>
    obtain ⟨_, ⟨⟩, hkept', -⟩ := hinsert bound₁
    refine ⟨_, rfl, ?_, ?_⟩
    · intro bound' hb k hk
      rw [hkept' bound' hb k fun h => hk (.inl h), hkept bound₁ rfl k fun h => hk (.inr h)]
    · intro hs hfree
      exact iff_of_true rfl ((hexact hs fun k hk => hfree k (.inr hk)).mp rfl)

end Settled

def Apart (p : Pattern) (id id' : PatternId) : Prop :=
  ∀ k, p.Reaches id k → ¬ p.Reaches id' k

def Branching (p : Pattern) (id : PatternId) : Prop :=
  ∀ k, p.Reaches id k → (p.childrenAt k.index).Pairwise p.Apart

theorem reaches_iff {id k : PatternId} {kind : PatternKind}
    (hkind : p.kinds[id.index]? = some kind) :
    p.Reaches id k ↔ k = id ∨ ∃ child ∈ kind.children, p.Reaches child k := by
  simp only [Reaches, ReflTransGen.cases_head_iff (a := id), refers_iff hkind, eq_comm (a := id)]

def Independent (p : Pattern) (ids : List PatternId) : Prop :=
  (∀ id ∈ ids, p.Branching id) ∧ ids.Pairwise p.Apart

theorem Independent.cons {id : PatternId} {ids : List PatternId} (h : p.Independent (id :: ids)) :
    p.Branching id ∧ p.Independent ids ∧ ∀ k, p.Reaches id k → ¬ ∃ id' ∈ ids, p.Reaches id' k := by
  obtain ⟨hbranching, hapart⟩ := h
  rw [List.forall_mem_cons] at hbranching
  rw [List.pairwise_cons] at hapart
  refine ⟨hbranching.1, ⟨hbranching.2, hapart.2⟩, ?_⟩
  rintro k hk ⟨id', hid', hk'⟩
  exact hapart.1 id' hid' k hk hk'

theorem Branching.children {id : PatternId} (h : p.Branching id) {kind : PatternKind}
    (hkind : p.kinds[id.index]? = some kind) : p.Independent kind.children := by
  constructor
  · intro child hchild k hk
    exact h k ((reaches_iff hkind).mpr (.inr ⟨child, hchild, hk⟩))
  · have hpairwise := h id .refl
    rwa [childrenAt, hkind] at hpairwise

def Attempt.Settles (p : Pattern) (g : Graph) (attempt : Attempt) (ids : List PatternId) : Prop :=
  ∀ id ∈ ids, ∀ arg bound, Settled bound (p.Reaches id) (p.Branching id) (p.Accepts g id arg)
    (attempt id arg bound)

section Children

variable {attempt : Attempt}

theorem matchAny_settled {items : List PatternId} (hattempt : attempt.Settles p g items)
    (arg : ArgId) (bound : Bindings) :
    Settled bound (fun k => ∃ item ∈ items, p.Reaches item k)
      (∀ item ∈ items, p.Branching item) (∃ item ∈ items, p.Accepts g item arg)
      (matchAny attempt arg bound items) := by
  induction items with
  | nil => exact Settled.fails (by simp)
  | cons item rest ih =>
    have hitem := hattempt item List.mem_cons_self arg bound
    have hrest := ih fun id hid => hattempt id (List.mem_cons_of_mem _ hid)
    refine (hitem.orElse hrest).mono ?_ ?_ ?_ <;> simp

theorem matchAll_settled {items : List PatternId} (hattempt : attempt.Settles p g items)
    (arg : ArgId) (bound : Bindings) :
    Settled bound (fun k => ∃ item ∈ items, p.Reaches item k)
      (p.Independent items) (∀ item ∈ items, p.Accepts g item arg)
      (matchAll attempt arg items bound) := by
  induction items generalizing bound with
  | nil => exact Settled.succeeds (by simp)
  | cons item rest ih =>
    have hitem := hattempt item List.mem_cons_self arg bound
    have hrest := ih fun id hid => hattempt id (List.mem_cons_of_mem _ hid)
    refine (hitem.bind hrest).mono ?_ Independent.cons ?_ <;> simp

theorem matchPair_settled {lhs rhs : PatternId} (hattempt : attempt.Settles p g [lhs, rhs])
    (first second : ArgId) (bound : Bindings) :
    Settled bound (fun k => p.Reaches lhs k ∨ p.Reaches rhs k)
      (p.Independent [lhs, rhs]) (p.Accepts g lhs first ∧ p.Accepts g rhs second)
      (matchPair attempt lhs rhs first second bound) := by
  have hlhs := hattempt lhs (by simp) first bound
  have hrhs := hattempt rhs (by simp) second
  refine (hlhs.bind hrhs).mono (fun _ hk => hk) ?_ Iff.rfl
  intro hindependent
  obtain ⟨hb, hrest, hapart⟩ := hindependent.cons
  exact ⟨hb, hrest.cons.1, fun k hk hk' => hapart k hk ⟨rhs, by simp, hk'⟩⟩

def AcceptsAt (p : Pattern) (g : Graph) (node : Node) (optional : List Bool)
    (x : PatternId × Nat) : Prop :=
  (node.input? x.2 = none ∧ optional[x.2]? = some true) ∨
    ∃ b, node.input? x.2 = some b ∧ p.Accepts g x.1 b

theorem matchOperands_settled (node : Node) {optional : List Bool} {xs : List (PatternId × Nat)}
    (hattempt : attempt.Settles p g (xs.map Prod.fst)) (hslots : ∀ x ∈ xs, x.2 < optional.length)
    (bound : Bindings) :
    Settled bound (fun k => ∃ id ∈ xs.map Prod.fst, p.Reaches id k)
      (p.Independent (xs.map Prod.fst)) (∀ x ∈ xs, p.AcceptsAt g node optional x)
      (matchOperands attempt node optional xs bound) := by
  induction xs generalizing bound with
  | nil => exact Settled.succeeds (by simp)
  | cons x rest ih =>
    obtain ⟨operand, slot⟩ := x
    have hrest := ih (fun id hid => hattempt id (List.mem_cons_of_mem _ hid))
      fun x hx => hslots x (List.mem_cons_of_mem _ hx)
    have hslot : slot < optional.length := hslots (operand, slot) List.mem_cons_self
    have hflag : optional[slot]? = some optional[slot] := List.getElem?_eq_getElem hslot
    rw [matchOperands]
    cases hinput : node.input? slot with
    | none =>
      have hhead : p.AcceptsAt g node optional (operand, slot) ↔ optional[slot] = true := by
        simp [AcceptsAt, hinput, hflag]
      simp only [hflag, List.forall_mem_cons, hhead]
      cases optional[slot] with
      | false => exact Settled.fails (by simp)
      | true =>
        refine (hrest bound).mono ?_ (fun hall => hall.cons.2.1) (by simp)
        rintro k ⟨id, hid, hk⟩
        exact ⟨id, List.mem_cons_of_mem _ hid, hk⟩
    | some input =>
      have hhead : p.AcceptsAt g node optional (operand, slot) ↔ p.Accepts g operand input := by
        simp [AcceptsAt, hinput]
      have hoperand := hattempt operand List.mem_cons_self input bound
      refine (hoperand.bind hrest).mono (by simp) Independent.cons ?_
      rw [List.forall_mem_cons, hhead]

end Children

theorem takes_node_iff {key : OpKey} {operands : List PatternId} {optional : List Bool}
    {attrs : List (String × Attr)} {arg : ArgId} {producer : NodeId} {node : Node}
    (hproducer : g.producer? arg = some producer) (hnode : g.node? producer = some node) :
    (PatternKind.node key operands optional attrs).Takes g (p.Accepts g) arg ↔
      fits node key operands.length attrs = true ∧
        ∀ x ∈ operands.zipIdx, p.AcceptsAt g node optional x := by
  simp only [PatternKind.Takes, hproducer, fits_iff, Prod.forall, List.mem_zipIdx_iff_getElem?,
    AcceptsAt]
  grind

theorem takes_commutable_iff {key : OpKey} {lhs rhs : PatternId} {arg : ArgId} {producer : NodeId}
    {node : Node} (hproducer : g.producer? arg = some producer)
    (hnode : g.node? producer = some node) :
    (PatternKind.commutable key lhs rhs).Takes g (p.Accepts g) arg ↔
      node.key = key ∧ ∃ b c, node.inputs = [some b, some c] ∧
        (p.Accepts g lhs b ∧ p.Accepts g rhs c ∨ p.Accepts g lhs c ∧ p.Accepts g rhs b) := by
  simp only [PatternKind.Takes, hproducer]
  grind

theorem matchKind_settled (h : g.Indexed) {attempt : Attempt} {id : PatternId} {kind : PatternKind}
    (hproper : kind.Proper id) (hbefore : ∀ child ∈ kind.children, ¬ p.Reaches child id)
    (hattempt : attempt.Settles p g kind.children) (arg : ArgId) (bound : Bindings) :
    Settled bound (fun k => k = id ∨ ∃ child ∈ kind.children, p.Reaches child k)
      (p.Independent kind.children) (kind.Takes g (p.Accepts g) arg)
      (matchKind g attempt id arg bound kind) := by
  have hbelow : ¬ ∃ child ∈ kind.children, p.Reaches child id := by
    rintro ⟨child, hchild, hreaches⟩
    exact hbefore child hchild hreaches
  cases kind with
  | wildcard => exact .of_insert hbelow (.succeeds trivial)
  | constant =>
    obtain ⟨value, hvalue⟩ := h.constantValue?_succeeds arg
    have hconstant : g.isConstant arg = .ok value.isSome := map_eq_ok_iff.mpr ⟨value, hvalue, rfl⟩
    simp only [matchKind, PatternKind.Takes, hconstant, ok_bind]
    cases value with
    | none => exact .fails (by simp)
    | some tensor => exact .of_insert hbelow (.succeeds rfl)
  | graphInput =>
    simp only [matchKind, PatternKind.Takes]
    cases g.isInput arg with
    | false => exact .fails (by simp)
    | true => exact .of_insert hbelow (.succeeds rfl)
  | node key operands optional attrs =>
    cases hproducer : g.producer? arg with
    | none =>
      simp only [matchKind, PatternKind.Takes, hproducer]
      exact .fails (by simp)
    | some producer =>
      obtain ⟨node, hnode, -⟩ := h.producer?_eq_some_iff.mp hproducer
      rw [takes_node_iff hproducer hnode]
      simp only [matchKind, hproducer, Graph.node_eq_ok_iff.mpr hnode, ok_bind]
      split
      · next hfits =>
        have hslots : ∀ x ∈ operands.zipIdx, x.2 < optional.length := by
          intro x hx
          exact hproper.balanced.1 ▸ (List.mem_zipIdx' hx).1
        have hchildren : operands.zipIdx.map Prod.fst = operands := List.zipIdx_map_fst 0 operands
        rw [PatternKind.children, ← hchildren] at hattempt
        have hoperands := matchOperands_settled node hattempt hslots
        simp only [hchildren] at hoperands
        rw [and_iff_right hfits]
        exact .of_insert hbelow (hoperands _)
      · next hfits => exact .fails fun _ _ htakes => hfits htakes.1
  | commutable key lhs rhs =>
    cases hproducer : g.producer? arg with
    | none =>
      simp only [matchKind, PatternKind.Takes, hproducer]
      exact .fails (by simp)
    | some producer =>
      obtain ⟨node, hnode, -⟩ := h.producer?_eq_some_iff.mp hproducer
      rw [takes_commutable_iff hproducer hnode]
      simp only [matchKind, hproducer, Graph.node_eq_ok_iff.mpr hnode, ok_bind]
      split
      · next b c hinputs =>
        split
        · next hkey =>
          have hsame := matchPair_settled hattempt b c
          have hswapped := matchPair_settled hattempt c b
          refine .of_insert hbelow (((hsame _).orElse (hswapped _)).mono ?_ ?_ ?_)
          · simp [PatternKind.children]
          · exact fun hall => ⟨hall, hall⟩
          · simp [hkey, hinputs]
        · next hkey => exact .fails fun _ _ htakes => hkey htakes.1
      · next hinputs =>
        refine .fails fun _ _ htakes => ?_
        obtain ⟨-, b, c, htwo, -⟩ := htakes
        exact hinputs b c htwo
  | anyOf items =>
    exact (matchAny_settled hattempt arg bound).insert.mono (fun _ hk => hk) And.left Iff.rfl
  | allOf items =>
    exact (matchAll_settled hattempt arg bound).insert

theorem matchAt_settled (h : g.Indexed) (hp : p.Valid) {fuel : Nat} {id : PatternId}
    (hfuel : id.index < fuel) (hsize : id.index < p.size) (arg : ArgId) (bound : Bindings) :
    Settled bound (p.Reaches id) (p.Branching id) (p.Accepts g id arg)
      (p.matchAt g fuel id arg bound) := by
  induction fuel generalizing id arg bound with
  | zero => exact absurd hfuel (Nat.not_lt_zero _)
  | succ fuel ih =>
    have hkind : p.kinds[id.index]? = some p.kinds[id.index] := Array.getElem?_eq_getElem hsize
    have hproper := hp.kinds_proper id _ hkind
    rw [matchAt]
    cases hbound : bound[id]? with
    | some binding =>
      -- An entry that is bound already is not sure of anything.
      refine ⟨if binding.arg = some arg then some bound else none, rfl, ?_, ?_⟩
      · intro bound' hbound' k _
        rw [Option.ite_none_right_eq_some] at hbound'
        rw [Option.some.inj hbound'.2]
      · intro _ hfree
        rw [hfree id .refl] at hbound
        cases hbound
    | none =>
      have hattempt : Attempt.Settles p g (p.matchAt g fuel) p.kinds[id.index].children := by
        intro child hchild arg bound
        have hlt := hproper.children_lt child hchild
        exact ih (by omega) (hlt.trans hsize) arg bound
      have hbefore : ∀ child ∈ p.kinds[id.index].children, ¬ p.Reaches child id := by
        intro child hchild hreaches
        have hlt := hproper.children_lt child hchild
        exact absurd (hp.wellFormed.le_of_reaches hreaches) (Nat.not_le.mpr hlt)
      simp only [kind_eq_ok_iff.mpr hkind, ok_bind]
      refine (matchKind_settled h hproper hbefore hattempt arg bound).mono ?_ ?_ ?_
      · exact fun k => (reaches_iff hkind).mpr
      · exact fun hbranching => hbranching.children hkind
      · exact (accepts_iff hkind).symm

/-! ### Trees -/

/-- Every reachable entry but the root occurs once as a child of reachable entries. -/
def Tree (p : Pattern) : Prop :=
  ∀ id ∈ p.reachable, id ≠ p.root →
    (p.reachable.flatMap fun parent => p.childrenAt parent.index).count id = 1

instance (p : Pattern) : Decidable p.Tree :=
  inferInstanceAs (Decidable (∀ id ∈ p.reachable, _))

namespace Tree

variable (ht : p.Tree) (hp : p.WellFormed)

include ht hp

theorem nodup_flatMap : (p.reachable.flatMap fun parent => p.childrenAt parent.index).Nodup := by
  rw [List.nodup_iff_count_le_one]
  intro id
  by_cases hmem : id ∈ p.reachable.flatMap fun parent => p.childrenAt parent.index
  · obtain ⟨parent, hparent, hchild⟩ := List.mem_flatMap.mp hmem
    rw [mem_reachable_iff hp] at hparent
    have hlt := hp.lt_of_refers hchild
    have hle := hp.le_of_reaches hparent
    have hne : id ≠ p.root := by
      rintro rfl
      omega
    exact (ht id ((mem_reachable_iff hp).mpr (hparent.tail hchild)) hne).le
  · rw [List.count_eq_zero_of_not_mem hmem]
    exact Nat.zero_le 1

theorem parent_unique {k k' child : PatternId} (hk : p.Reaches p.root k)
    (hk' : p.Reaches p.root k') (hchild : p.Refers k child) (hchild' : p.Refers k' child) :
    k = k' := by
  by_contra hne
  have hdisjoint := (List.nodup_flatMap.mp (ht.nodup_flatMap hp)).2
  have : Std.Symm (Function.onFun List.Disjoint fun id : PatternId => p.childrenAt id.index) :=
    ⟨fun _ _ hxy _ hx hy => hxy hy hx⟩
  exact hdisjoint.forall ((mem_reachable_iff hp).mpr hk) ((mem_reachable_iff hp).mpr hk') hne
    hchild hchild'

-- The last steps of two ways to the same entry come from the same parent, so both ways are walked
-- back together until one of them is at its end.
theorem sibling_unique {k c c' x : PatternId} (hk : p.Reaches p.root k) (hc : p.Refers k c)
    (hc' : p.Refers k c') (hx : p.Reaches c x) (hx' : p.Reaches c' x) : c = c' := by
  induction hx with
  | refl =>
    rcases ReflTransGen.cases_tail hx' with rfl | ⟨y, hy, hstep⟩
    · rfl
    · have hsame := ht.parent_unique hp hk ((hk.tail hc').trans hy) hc hstep
      have hle := hp.le_of_reaches hy
      have hlt := hp.lt_of_refers hc'
      rw [hsame] at hlt
      omega
  | tail hy hstep ih =>
    rcases ReflTransGen.cases_tail hx' with rfl | ⟨y', hy', hstep'⟩
    · have hsame := ht.parent_unique hp hk ((hk.tail hc).trans hy) hc' hstep
      have hle := hp.le_of_reaches hy
      have hlt := hp.lt_of_refers hc
      rw [hsame] at hlt
      omega
    · have hsame := ht.parent_unique hp ((hk.tail hc).trans hy) ((hk.tail hc').trans hy') hstep
        hstep'
      exact ih (hsame ▸ hy')

theorem branching : p.Branching p.root := by
  intro k hk
  have hnodup := (List.nodup_flatMap.mp (ht.nodup_flatMap hp)).1 k ((mem_reachable_iff hp).mpr hk)
  refine hnodup.imp_of_mem ?_
  intro c c' hc hc' hne x hx hx'
  exact hne (ht.sibling_unique hp hk hc hc' hx hx')

end Tree

theorem matchArg_settled (h : g.Indexed) (hp : p.Valid) (arg : ArgId) :
    ∃ outcome, p.matchArg g arg = .ok outcome ∧
      (p.Branching p.root → (outcome.isSome ↔ p.Accepts g p.root arg)) := by
  obtain ⟨outcome, hrun, -, hexact⟩ :=
    matchAt_settled h hp (Nat.lt_succ_self p.root.index) hp.root_lt arg ∅
  have hfree : ∀ k, p.Reaches p.root k → (∅ : Bindings)[k]? = none :=
    fun _ _ => Std.ExtTreeMap.getElem?_empty
  refine ⟨outcome.map fun bound => ⟨p, p.complete bound⟩, ?_, ?_⟩
  · rw [matchArg, hrun, ok_bind]
    cases outcome <;> rfl
  · intro hbranching
    rw [Option.isSome_map, hexact hbranching hfree]

/--
Matching always ends. What is matched is accepted, and in a tree everything accepted is matched,
although no choice is ever taken back.
-/
theorem isSome_matchArg_iff_accepts (h : g.Indexed) (hp : p.Obtained) (arg : ArgId) :
    ∃ outcome, p.matchArg g arg = .ok outcome ∧
      (outcome.isSome → p.Accepts g p.root arg) ∧
      (p.Tree → (outcome.isSome ↔ p.Accepts g p.root arg)) := by
  have hvalid := hp.valid
  obtain ⟨outcome, hrun, hexact⟩ := matchArg_settled h hvalid arg
  refine ⟨outcome, hrun, ?_, fun ht => hexact (ht.branching hvalid.wellFormed)⟩
  intro hsome
  obtain ⟨m, rfl⟩ := Option.isSome_iff_exists.mp hsome
  have hm := matchArg_sound hvalid.wellFormed hrun
  exact accepts_of_isFor hvalid.wellFormed hm hm.root

/-- Neither the first alternative nor the first order of operands is the right one. -/
theorem isSome_matchArg_iff_accepts_fallback :
    ∃ (g : Graph) (b : PatternBuilder) (p : Pattern) (outcome : Option Match),
      (Graph.empty "sum").runAll sumEdits = .ok g ∧
      BuilderCall.runAll fallbackCalls .empty = .ok b ∧
      b.freeze ⟨6⟩ = .ok p ∧ p.Tree ∧ p.matchArg g ⟨2⟩ = .ok outcome ∧
      outcome.isSome ∧ p.Accepts g p.root ⟨2⟩ := by
  have hrun : (do
      let g ← (Graph.empty "sum").runAll sumEdits
      let b ← BuilderCall.runAll fallbackCalls .empty
      let p ← b.freeze ⟨6⟩
      let outcome ← p.matchArg g ⟨2⟩
      return (decide p.Tree, outcome.isSome)) = .ok (true, true) := rfl
  simp only [bind_eq_ok_iff, pure_eq_ok_iff, Prod.mk.injEq, decide_eq_true_eq] at hrun
  obtain ⟨g, hg, b, hb, p, hp, outcome, hmatch, htree, hsome⟩ := hrun
  have hindexed := (Graph.Reachable.runAll (.empty "sum") hg).indexed
  obtain ⟨outcome', hmatch', -, hiff⟩ := isSome_matchArg_iff_accepts hindexed (.built hb hp) ⟨2⟩
  cases hmatch.symm.trans hmatch'
  exact ⟨g, b, p, outcome, hg, hb, hp, htree, hmatch, hsome, (hiff htree).mp hsome⟩

def emptySlotEdits : List Graph.Mutation :=
  [.addInput "x" ⟨.float32, none⟩, .addInput "w" ⟨.float32, none⟩, .newArg "y" ⟨.float32, none⟩,
    .addNode ⟨"add", .standard "Add", [some ⟨0⟩, some ⟨1⟩, none], [some ⟨2⟩], ∅⟩, .addOutput ⟨2⟩]

def commutableCalls : List BuilderCall :=
  [.wildcard, .wildcard, .commutable (.standard "Add") ⟨0⟩ ⟨1⟩]

/-- Two inputs that are present and accepted are not enough if there is a third, empty slot. -/
theorem matchArg_refuses_empty_slot :
    ∃ (g : Graph) (b : PatternBuilder) (p : Pattern) (node : Node),
      (Graph.empty "sum").runAll emptySlotEdits = .ok g ∧
      BuilderCall.runAll commutableCalls .empty =
        .ok b ∧
      b.freeze ⟨2⟩ = .ok p ∧ p.Tree ∧
      p.kind p.root = .ok (.commutable (.standard "Add") ⟨0⟩ ⟨1⟩) ∧
      g.producer? ⟨2⟩ = some ⟨0⟩ ∧ g.node? ⟨0⟩ = some node ∧ node.key = .standard "Add" ∧
      node.presentInputs = [⟨0⟩, ⟨1⟩] ∧ p.Accepts g ⟨0⟩ ⟨0⟩ ∧ p.Accepts g ⟨1⟩ ⟨1⟩ ∧
      p.matchArg g ⟨2⟩ = .ok none := by
  have hrun : (do
      let g ← (Graph.empty "sum").runAll emptySlotEdits
      let b ← BuilderCall.runAll
        commutableCalls .empty
      let p ← b.freeze ⟨2⟩
      let kind ← p.kind p.root
      let node ← g.node ⟨0⟩
      let first ← p.kind ⟨0⟩
      let second ← p.kind ⟨1⟩
      let outcome ← p.matchArg g ⟨2⟩
      return (decide p.Tree, kind, g.producer? ⟨2⟩, node.key, node.presentInputs, first, second,
        outcome.isNone)) =
      .ok (true, .commutable (.standard "Add") ⟨0⟩ ⟨1⟩, some ⟨0⟩, .standard "Add", [⟨0⟩, ⟨1⟩],
        .wildcard, .wildcard, true) := rfl
  simp only [bind_eq_ok_iff, pure_eq_ok_iff, Prod.mk.injEq, decide_eq_true_eq, Graph.node_eq_ok_iff,
    Option.isNone_iff_eq_none] at hrun
  obtain ⟨g, hg, b, hb, p, hp, kind, hkind, node, hnode, first, hfirst, second, hsecond, outcome,
    hmatch, htree, rfl, hproducer, hkey, hinputs, rfl, rfl, rfl⟩ := hrun
  have haccepts : ∀ {id : PatternId} (a : ArgId), p.kind id = .ok .wildcard → p.Accepts g id a :=
    fun _ hwildcard => (accepts_iff (kind_eq_ok_iff.mp hwildcard)).mpr trivial
  exact ⟨g, b, p, node, hg, hb, hp, htree, hkind, hproducer, hnode, hkey, hinputs,
    haccepts _ hfirst, haccepts _ hsecond, hmatch⟩

end Pattern

end OpGraph
