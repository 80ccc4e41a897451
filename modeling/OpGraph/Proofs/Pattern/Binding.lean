import OpGraph.Proofs.Graph.Reach
import OpGraph.Proofs.Graph.Reachable
import OpGraph.Proofs.Pattern.Valid

/-!
What a match binds. It has an entry for everything that the root leads to, and what it binds is
bound as the pattern asks, so nothing is left of an alternative that was tried in vain.
-/

namespace OpGraph

open Relation

/-! ### Reachable entries -/

namespace Pattern

variable {p : Pattern}

def Refers (p : Pattern) (id child : PatternId) : Prop :=
  child ∈ p.childrenAt id.index

def Reaches (p : Pattern) : PatternId → PatternId → Prop :=
  ReflTransGen p.Refers

theorem refers_iff {id child : PatternId} {kind : PatternKind}
    (hkind : p.kinds[id.index]? = some kind) : p.Refers id child ↔ child ∈ kind.children := by
  rw [Refers, childrenAt, hkind]

theorem exists_kind_of_refers {id child : PatternId} (h : p.Refers id child) :
    ∃ kind, p.kinds[id.index]? = some kind ∧ child ∈ kind.children := by
  unfold Refers childrenAt at h
  split at h
  · next kind hkind => exact ⟨kind, hkind, h⟩
  · cases h

theorem WellFormed.lt_of_refers (hp : p.WellFormed) {id child : PatternId}
    (h : p.Refers id child) : child.index < id.index := by
  obtain ⟨kind, hkind, hchild⟩ := exists_kind_of_refers h
  exact hp.child_lt hkind hchild

theorem WellFormed.le_of_reaches (hp : p.WellFormed) {id k : PatternId} (h : p.Reaches id k) :
    k.index ≤ id.index := by
  induction h with
  | refl => exact Nat.le_refl _
  | tail _ hstep ih => exact Nat.le_trans (Nat.le_of_lt (hp.lt_of_refers hstep)) ih

/-- The set with the children of the entry at `i`, if that one is in the set. -/
def expand (p : Pattern) (seen : Std.ExtTreeSet PatternId) (i : Nat) : Std.ExtTreeSet PatternId :=
  if ⟨i⟩ ∈ seen then (p.childrenAt i).foldl (fun seen child => seen.insert child) seen else seen

theorem mem_expand_iff {seen : Std.ExtTreeSet PatternId} {i : Nat} {k : PatternId} :
    k ∈ p.expand seen i ↔ k ∈ seen ∨ ((⟨i⟩ : PatternId) ∈ seen ∧ p.Refers ⟨i⟩ k) := by
  unfold expand
  split
  · next hi =>
    rw [Graph.mem_foldl_insert]
    simp only [hi, true_and, Refers]
  · next hi => simp [hi]

/-- Entries are expanded from the last one downwards, so that none is met after it was expanded. -/
theorem mem_foldl_expand_iff (hp : p.WellFormed) (n : Nat) {seen : Std.ExtTreeSet PatternId}
    (hclosed : ∀ k ∈ seen, n ≤ k.index → ∀ child, p.Refers k child → child ∈ seen)
    {k : PatternId} :
    k ∈ (List.range n).reverse.foldl p.expand seen ↔ ∃ start ∈ seen, p.Reaches start k := by
  induction n generalizing seen with
  | zero =>
    constructor
    · exact fun hk => ⟨k, hk, .refl⟩
    · rintro ⟨start, hstart, hpath⟩
      induction hpath with
      | refl => exact hstart
      | tail _ hstep ih => exact hclosed _ ih (Nat.zero_le _) _ hstep
  | succ n ih =>
    rw [List.range_succ, List.reverse_append, List.reverse_singleton, List.singleton_append,
      List.foldl_cons, ih]
    · constructor
      · rintro ⟨start, hstart, hpath⟩
        rcases mem_expand_iff.mp hstart with hstart | ⟨hn, hrefers⟩
        · exact ⟨start, hstart, hpath⟩
        · exact ⟨⟨n⟩, hn, hpath.head hrefers⟩
      · rintro ⟨start, hstart, hpath⟩
        exact ⟨start, mem_expand_iff.mpr (.inl hstart), hpath⟩
    · intro k hk hle child hchild
      rw [mem_expand_iff] at hk ⊢
      rcases hk with hk | ⟨hn, hrefers⟩
      · rcases Nat.eq_or_lt_of_le hle with heq | hlt
        · obtain rfl : k = ⟨n⟩ := congrArg Handle.mk heq.symm
          exact .inr ⟨hk, hchild⟩
        · exact .inl (hclosed k hk hlt child hchild)
      · exact absurd (hp.lt_of_refers hrefers) (Nat.not_lt.mpr hle)

theorem mem_reachable_iff (hp : p.WellFormed) {id : PatternId} :
    id ∈ p.reachable ↔ p.Reaches p.root id := by
  rw [reachable, Std.ExtTreeSet.mem_toList]
  let start : Std.ExtTreeSet PatternId := Std.ExtTreeSet.empty.insert p.root
  change id ∈ (List.range (p.root.index + 1)).reverse.foldl p.expand start ↔ _
  have hmem : ∀ k : PatternId, k ∈ start ↔ k = p.root := by
    intro k
    rw [Std.ExtTreeSet.mem_insert, Std.compare_eq_iff_eq]
    exact ⟨fun h => (h.resolve_right Std.ExtTreeSet.not_mem_empty).symm, fun h => .inl h.symm⟩
  rw [mem_foldl_expand_iff hp]
  · simp [hmem]
  · intro k hk hle
    rw [hmem] at hk
    subst hk
    exact absurd hle (Nat.not_succ_le_self _)

end Pattern

/-! ### What a kind asks for -/

namespace PatternKind

/-- An entry of this kind takes the arg `a` when its children take args as `child` says. -/
def Takes (g : Graph) (child : PatternId → ArgId → Prop) (a : ArgId) : PatternKind → Prop
  | wildcard => True
  | constant => g.isConstant a = .ok true
  | graphInput => g.isInput a = true
  | node key operands optional attrs =>
    ∃ id node, g.producer? a = some id ∧ g.node? id = some node ∧ node.key = key ∧
      (∀ name value, (name, value) ∈ attrs → node.attr? name = some value) ∧
      (∀ slot, operands.length ≤ slot → node.input? slot = none) ∧
      ∀ slot operand, operands[slot]? = some operand →
        (node.input? slot = none ∧ optional[slot]? = some true) ∨
          ∃ b, node.input? slot = some b ∧ child operand b
  | commutable key lhs rhs =>
    ∃ id node b c, g.producer? a = some id ∧ g.node? id = some node ∧ node.key = key ∧
      node.inputs = [some b, some c] ∧ (child lhs b ∧ child rhs c ∨ child lhs c ∧ child rhs b)
  | anyOf items => ∃ item ∈ items, child item a
  | allOf items => ∀ item ∈ items, child item a

theorem Takes.mono {g : Graph} {child child' : PatternId → ArgId → Prop} {a : ArgId}
    {kind : PatternKind} (h : kind.Takes g child a)
    (hsub : ∀ id ∈ kind.children, ∀ b, child id b → child' id b) : kind.Takes g child' a := by
  cases kind with
  | wildcard => trivial
  | constant => exact h
  | graphInput => exact h
  | node key operands optional attrs =>
    obtain ⟨id, node, hproducer, hnode, hkey, hattrs, hbeyond, hslots⟩ := h
    refine ⟨id, node, hproducer, hnode, hkey, hattrs, hbeyond, ?_⟩
    intro slot operand hoperand
    refine (hslots slot operand hoperand).imp_right ?_
    rintro ⟨b, hb, hchild⟩
    exact ⟨b, hb, hsub operand (List.mem_of_getElem? hoperand) b hchild⟩
  | commutable key lhs rhs =>
    obtain ⟨id, node, b, c, hproducer, hnode, hkey, hinputs, hchild⟩ := h
    have hlhs := hsub lhs List.mem_cons_self
    have hrhs := hsub rhs (List.mem_cons_of_mem _ List.mem_cons_self)
    refine ⟨id, node, b, c, hproducer, hnode, hkey, hinputs, ?_⟩
    exact hchild.imp (And.imp (hlhs b) (hrhs c)) (And.imp (hlhs c) (hrhs b))
  | anyOf items =>
    obtain ⟨item, hitem, hchild⟩ := h
    exact ⟨item, hitem, hsub item hitem a hchild⟩
  | allOf items => exact fun item hitem => hsub item hitem a (h item hitem)

end PatternKind

namespace Pattern

theorem fits_iff {node : Node} {key : OpKey} {count : Nat} {attrs : List (String × Attr)} :
    fits node key count attrs = true ↔ node.key = key ∧
      (∀ name value, (name, value) ∈ attrs → node.attr? name = some value) ∧
      ∀ slot, count ≤ slot → node.input? slot = none := by
  have hbeyond : (node.inputs.drop count).all Option.isNone = true ↔
      ∀ slot, count ≤ slot → node.input? slot = none := by
    rw [List.all_eq_true]
    constructor
    · intro hall slot hslot
      rw [Option.eq_none_iff_forall_ne_some]
      intro b hb
      rw [Node.input?_eq_some_iff] at hb
      have hmem : some b ∈ node.inputs.drop count := by
        apply List.mem_of_getElem? (i := slot - count)
        rw [List.getElem?_drop, Nat.add_sub_cancel' hslot, hb]
      exact absurd (hall _ hmem) (by simp)
    · intro hnone x hx
      obtain ⟨i, hi⟩ := List.getElem?_of_mem hx
      rw [List.getElem?_drop] at hi
      have := hnone (count + i) (Nat.le_add_right _ _)
      rw [Node.input?, hi] at this
      simpa using this
  simp only [fits, Bool.and_eq_true, beq_iff_eq, hbeyond, List.all_eq_true, Prod.forall, and_assoc]

theorem isConstant_iff {g : Graph} {a : ArgId} :
    g.isConstant a = .ok true ↔ ∃ tensor, g.constantValue? a = .ok (some tensor) := by
  rw [Graph.isConstant, map_eq_ok_iff]
  constructor
  · rintro ⟨value, hvalue, hsome⟩
    obtain ⟨tensor, rfl⟩ := Option.isSome_iff_exists.mp hsome
    exact ⟨tensor, hvalue⟩
  · rintro ⟨tensor, hvalue⟩
    exact ⟨some tensor, hvalue, rfl⟩

end Pattern

theorem PatternKind.Holds.takes {g : Graph} {σ : PatternId → Option ArgId} {a : ArgId}
    {kind : PatternKind} (h : kind.Holds g σ a) :
    kind.Takes g (fun id b => σ id = some b) a := by
  cases kind with
  | wildcard => trivial
  | constant => exact Pattern.isConstant_iff.mpr h
  | graphInput => exact Graph.isInput_iff.mpr h
  | node key operands optional attrs =>
    obtain ⟨id, node, hproducer, hnode, hfits, hslots⟩ := h
    obtain ⟨hkey, hattrs, hbeyond⟩ := Pattern.fits_iff.mp hfits
    exact ⟨id, node, hproducer, hnode, hkey, hattrs, hbeyond,
      fun slot operand => hslots operand slot⟩
  | commutable key lhs rhs => exact h
  | anyOf items => exact h
  | allOf items => exact h

/-! ### Matches -/

/-- The match binds what the pattern asks for, and that alone. -/
structure Match.Binds (m : Match) (p : Pattern) (g : Graph) (arg : ArgId) : Prop where
  ids_ascending : (m.entries.map Prod.fst).Pairwise fun id id' => id.index < id'.index
  mem_ids_iff : ∀ id, id ∈ m.entries.map Prod.fst ↔ p.Reaches p.root id
  root : m.arg? p.root = some arg
  node : ∀ id a, m.arg? id = some a → m.node? id = g.producer? a
  produces : ∀ id a n, m.arg? id = some a → m.node? id = some n →
    ∃ node, g.node? n = some node ∧ a ∈ node.presentOutputs
  takes : ∀ id a, m.arg? id = some a → ∃ kind, p.kinds[id.index]? = some kind ∧
    kind.Takes g (fun child b => m.arg? child = some b) a
  passed : ∀ id a, m.arg? id = some a → id ≠ p.root → ∃ parent kind b,
    p.kinds[parent.index]? = some kind ∧ m.arg? parent = some b ∧ id ∈ kind.children ∧
      kind.Passes g b id a

namespace Pattern

variable {p : Pattern} {g : Graph}

theorem mem_complete_iff {bound : Bindings} {id : PatternId} :
    id ∈ p.complete bound ↔ id ∈ bound ∨ id ∈ p.reachable := by
  unfold complete
  generalize p.reachable = ids
  induction ids generalizing bound with
  | nil => simp
  | cons k ids ih =>
    rw [List.foldl_cons, ih, List.mem_cons]
    split
    · grind
    · rw [Std.ExtTreeMap.mem_insert, Std.compare_eq_iff_eq]
      grind

-- An entry got its arg from one further up, which is bound as well, and so on up to the root.
theorem reaches_of_bound (hp : p.WellFormed) {bound : Bindings} {arg : ArgId}
    (hgrows : Grows p g (p.root.index + 1) (fun k a => k = p.root ∧ a = arg) ∅ bound)
    {id : PatternId} (hid : id ∈ bound) : p.Reaches p.root id := by
  induction hrank : p.root.index - id.index using Nat.strong_induction_on generalizing id with
  | _ rank ih =>
    rw [Std.ExtTreeMap.mem_iff_isSome_getElem?, Option.isSome_iff_exists] at hid
    obtain ⟨b, hb⟩ := hid
    obtain ⟨hle, a, hfounded⟩ := hgrows.fresh id b hb Std.ExtTreeMap.getElem?_empty
    rcases hfounded.passed with ⟨rfl, -⟩ | ⟨parent, kind, c, hkind, hparent, hpasses⟩
    · exact .refl
    · have hrefers : p.Refers parent id := (refers_iff hkind).mpr hpasses.mem_children
      have hlt := hp.lt_of_refers hrefers
      rw [Bindings.arg?, Option.bind_eq_some_iff] at hparent
      obtain ⟨b', hb', -⟩ := hparent
      obtain ⟨hle', -⟩ := hgrows.fresh parent b' hb' Std.ExtTreeMap.getElem?_empty
      have hmem : parent ∈ bound := by
        rw [Std.ExtTreeMap.mem_iff_isSome_getElem?, hb']
        rfl
      exact (ih _ (by omega) hmem rfl).tail hrefers

theorem mem_entries_iff (hp : p.WellFormed) {arg : ArgId} {m : Match}
    (hrun : p.matchArg g arg = .ok (some m)) {id : PatternId} :
    id ∈ m.entries.map Prod.fst ↔ p.Reaches p.root id := by
  simp only [matchArg, bind_eq_ok_iff] at hrun
  obtain ⟨outcome, hmatch, hrun⟩ := hrun
  cases outcome with
  | none => cases hrun
  | some bound =>
    cases hrun
    obtain ⟨hgrows, -⟩ := matchAt_sound hp _ _ _ _ _ hmatch
    rw [Match.entries, Std.ExtTreeMap.map_fst_toList_eq_keys, Std.ExtTreeMap.mem_keys,
      mem_complete_iff, mem_reachable_iff hp]
    exact or_iff_right_of_imp (reaches_of_bound hp hgrows)

end Pattern

theorem Match.entries_ascending (m : Match) :
    (m.entries.map Prod.fst).Pairwise fun id id' => id.index < id'.index := by
  rw [entries, Std.ExtTreeMap.map_fst_toList_eq_keys]
  apply m.bindings.ordered_keys.imp
  intro id id' hlt
  rwa [Handle.compare_def, Nat.compare_eq_lt] at hlt

/-- A match binds every reachable entry as its kind asks, and none for another reason. -/
theorem Pattern.binds_of_matchArg {p : Pattern} {g : Graph} (h : g.Indexed) (hp : p.Obtained)
    {arg : ArgId} {m : Match} (hrun : p.matchArg g arg = .ok (some m)) : m.Binds p g arg := by
  have hwf := hp.valid.wellFormed
  have hm := matchArg_sound hwf hrun
  constructor
  case ids_ascending => exact m.entries_ascending
  case mem_ids_iff => exact fun id => mem_entries_iff hwf hrun
  case root => exact hm.root
  case node => exact hm.node
  case produces =>
    intro id a n ha hn
    rw [hm.node id a ha] at hn
    exact h.producer?_eq_some_iff.mp hn
  case takes =>
    intro id a ha
    obtain ⟨kind, hkind, hholds⟩ := hm.holds id a ha
    exact ⟨kind, hkind, hholds.takes⟩
  case passed =>
    intro id a ha hne
    rcases hm.passed id a ha with ⟨hroot, -⟩ | ⟨parent, kind, b, hkind, hparent, hpasses⟩
    · exact absurd hroot hne
    · exact ⟨parent, kind, b, hkind, hparent, hpasses.mem_children, hpasses⟩

def Pattern.sumEdits : List Graph.Mutation :=
  [.addInput "x" ⟨.float32, none⟩, .addInitializer "w" ⟨[1], .float32 [⟨0⟩]⟩,
    .newArg "y" ⟨.float32, none⟩,
    .addNode ⟨"add", .standard "Add", [some ⟨0⟩, some ⟨1⟩], [some ⟨2⟩], ∅⟩, .addOutput ⟨2⟩]

def Pattern.fallbackCalls : List BuilderCall :=
  [.wildcard, .graphInput, .node (.standard "Add") [(⟨0⟩, false), (⟨1⟩, false)] [], .constant,
    .graphInput, .commutable (.standard "Add") ⟨3⟩ ⟨4⟩, .anyOf [⟨2⟩, ⟨5⟩]]

/--
The first alternative binds its wildcard and fails at the graph input; the second one matches.
-/
theorem Pattern.binds_of_matchArg_fallback :
    ∃ (g : Graph) (b : PatternBuilder) (p : Pattern) (m : Match),
      (Graph.empty "sum").runAll Pattern.sumEdits = .ok g ∧
      BuilderCall.runAll Pattern.fallbackCalls .empty = .ok b ∧
      b.freeze ⟨6⟩ = .ok p ∧ p.matchArg g ⟨2⟩ = .ok (some m) ∧
      m.arg? ⟨0⟩ = none ∧ m.arg? ⟨3⟩ = some ⟨1⟩ ∧ m.Binds p g ⟨2⟩ := by
  have hrun : (do
      let g ← (Graph.empty "sum").runAll Pattern.sumEdits
      let b ← BuilderCall.runAll Pattern.fallbackCalls .empty
      let p ← b.freeze ⟨6⟩
      Option.map (fun m : Match => (m.arg? ⟨0⟩, m.arg? ⟨3⟩)) <$> p.matchArg g ⟨2⟩) =
      .ok (some (none, some ⟨1⟩)) := rfl
  simp only [bind_eq_ok_iff, map_eq_ok_iff, Option.map_eq_some_iff, Prod.mk.injEq] at hrun
  obtain ⟨g, hg, b, hb, p, hp, outcome, hmatch, m, rfl, hfirst, hconstant⟩ := hrun
  have hindexed := (Graph.Reachable.runAll (.empty "sum") hg).indexed
  exact ⟨g, b, p, m, hg, hb, hp, hmatch, hfirst, hconstant,
    binds_of_matchArg hindexed (.built hb hp) hmatch⟩

end OpGraph
