import OpGraph.Proofs.Pass.Validity

/-!
Why the rules of the passes come to an end. All that takes over from the output of a replaced node
lies below that node. A rule that puts a new node in its place skips the node in between that its
pattern matched: the new node reads what that one read, apart from constants. So after every firing
fewer nodes are connected by what flows between them, if what a constant reads does not count.
-/

namespace OpGraph

open Relation

def OpKey.Conducts (key : OpKey) : Prop :=
  key ≠ .standard "Constant"

instance (key : OpKey) : Decidable key.Conducts :=
  inferInstanceAs (Decidable (key ≠ _))

theorem Graph.Gives.mono {K K' : OpKey → Prop} {g : Graph} {id : NodeId} {a : ArgId}
    (hK : ∀ key, K key → K' key) (hgives : g.Gives K id a) : g.Gives K' id a := by
  obtain ⟨hproducer, node, hnode, hkey⟩ := hgives
  exact ⟨hproducer, node, hnode, hK node.key hkey⟩

theorem Graph.Gives.of_same {K : OpKey → Prop} {g : Graph} {a b : ArgId}
    (hsame : a = b ∨ ∃ id, g.producer? a = some id ∧ g.producer? b = some id) {source : NodeId}
    (hgives : g.Gives K source a) : g.Gives K source b := by
  obtain rfl | ⟨id, ha, hb⟩ := hsame
  · exact hgives
  · obtain ⟨hproducer, hkey⟩ := hgives
    cases ha.symm.trans hproducer
    exact ⟨hb, hkey⟩

theorem Graph.Indexed.not_gives_of_constant {g : Graph} (h : g.Indexed) {a : ArgId}
    {tensor : Tensor} (hvalue : g.constantValue? a = .ok (some tensor)) (id : NodeId) :
    ¬ g.Gives OpKey.Conducts id a := by
  rintro ⟨hproducer, node, hnode, hkey⟩
  rw [constantValue?] at hvalue
  split at hvalue
  · next hinit =>
    apply (h.produced_internal a id hproducer).2
    rw [Std.ExtTreeMap.mem_iff_isSome_getElem?, hinit]
    rfl
  · rw [hproducer] at hvalue
    simp only [bind_eq_ok_iff, node_eq_ok_iff] at hvalue
    obtain ⟨node', hnode', hvalue⟩ := hvalue
    cases hnode.symm.trans hnode'
    rw [if_neg hkey] at hvalue
    cases hvalue

/-! ### Below the root -/

def PatternKind.startsWith (child : PatternId) : PatternKind → Bool
  | node _ (first :: _) (false :: _) _ => first == child
  | _ => false

theorem PatternKind.Holds.first {g : Graph} {σ : PatternId → Option ArgId} {a : ArgId}
    {kind : PatternKind} (h : kind.Holds g σ a) {child : PatternId}
    (hstarts : kind.startsWith child = true) :
    ∃ id node b, g.producer? a = some id ∧ g.node? id = some node ∧ b ∈ node.presentInputs ∧
      σ child = some b := by
  unfold startsWith at hstarts
  split at hstarts
  · cases beq_iff_eq.mp hstarts
    obtain ⟨id, node, hproducer, hnode, -, hslots⟩ := h
    obtain ⟨-, hoptional⟩ | ⟨b, hslot, hb⟩ := hslots child 0 rfl
    · cases hoptional
    · exact ⟨id, node, b, hproducer, hnode, Node.mem_presentInputs_iff.mpr ⟨0, hslot⟩, hb⟩
  · cases hstarts

namespace Pattern

def Conducts (p : Pattern) : Prop :=
  ∀ kind ∈ p.kinds, ∀ key ∈ kind.key?, key.Conducts

instance (p : Pattern) : Decidable p.Conducts :=
  inferInstanceAs (Decidable (∀ kind ∈ p.kinds, ∀ key ∈ kind.key?, key.Conducts))

/--
One node right below the root is the only reader of what is bound to these names, constants apart.
-/
def Deepens (p : Pattern) (names : List String) : Prop :=
  ∃ mid < p.size, (p.kinds[p.root.index]?.any (PatternKind.startsWith ⟨mid⟩)) = true ∧
    (p.kinds[mid]?.bind PatternKind.key?).isSome = true ∧
    ∀ name ∈ names, ∀ entry ∈ p.find? name, p.kinds[entry.index]? = some .constant ∨
      ∀ parent < p.size, entry ∈ p.childrenAt parent → parent = mid

instance (p : Pattern) (names : List String) : Decidable (p.Deepens names) :=
  inferInstanceAs (Decidable (∃ mid < p.size, _ ∧ _ ∧ _))

end Pattern

namespace Match.IsFor

variable {m : Match} {p : Pattern} {g : Graph} {arg : ArgId} (hm : m.IsFor p g arg)
  {K : OpKey → Prop} (hkeys : ∀ kind ∈ p.kinds, ∀ key ∈ kind.key?, K key)

include hm hkeys

theorem gives_of_bound {id : PatternId} {kind : PatternKind}
    (hkind : p.kinds[id.index]? = some kind)
    (hkey : kind.key?.isSome) {a : ArgId} (ha : m.arg? id = some a) :
    ∃ giver, g.Gives K giver a := by
  obtain ⟨key, hkey⟩ := Option.isSome_iff_exists.mp hkey
  obtain ⟨kind', hkind', hholds⟩ := hm.holds id a ha
  cases hkind.symm.trans hkind'
  obtain ⟨giver, node, hproducer, hnode, rfl⟩ := hholds.key hkey
  exact ⟨giver, hproducer, node, hnode, hkeys kind (Array.mem_of_getElem? hkind) _ hkey⟩

theorem flows_of_bound (h : g.Indexed) (hp : p.WellFormed)
    (hkinds : ∀ kind ∈ p.kinds, kind.descends = true) {root : NodeId}
    (hroot : g.producer? arg = some root) {id : PatternId} {a : ArgId} (ha : m.arg? id = some a) :
    id = p.root ∧ a = arg ∨ (g.arg? a).isSome ∧
      ∀ source, g.Gives K source a → TransGen (g.Flows K) source root := by
  refine hm.bound_induction hp (P := fun id a => id = p.root ∧ a = arg ∨ (g.arg? a).isSome ∧
    ∀ source, g.Gives K source a → TransGen (g.Flows K) source root) (.inl ⟨rfl, rfl⟩) ?_ ha
  intro parent kind b id a hkind hb hparent hpasses
  obtain ⟨hkey, reader, node, hproducer, hnode, hread⟩ :=
    hpasses.reader (hkinds kind (Array.mem_of_getElem? hkind))
  refine .inr ⟨h.reads_live reader node a hnode hread, ?_⟩
  intro source hgives
  have hflows : g.Flows K source reader := ⟨node, a, hnode, hread, hgives⟩
  obtain ⟨-, rfl⟩ | ⟨-, habove⟩ := hparent
  · cases hroot.symm.trans hproducer
    exact .single hflows
  · obtain ⟨giver, hgiver⟩ := hm.gives_of_bound hkeys hkind hkey hb
    cases hproducer.symm.trans hgiver.1
    exact .head hflows (habove reader hgiver)

end Match.IsFor

/-! ### One rewrite -/

/-- The second graph is as sound as the first, and in it fewer nodes are connected. -/
structure Graph.Descends (g g' : Graph) : Prop where
  indexed : g'.Indexed
  acyclic : g'.Acyclic
  consistent : g.Consistent → g'.Consistent
  fewer : (g'.connected OpKey.Conducts).card < (g.connected OpKey.Conducts).card

namespace Pattern.Site

variable {p : Pattern} {keys : List OpKey} {g : Graph} {m : Match} {root : NodeId} {old : ArgId}
  (hsite : p.Site keys g m root old) (h : g.Indexed) (hp : p.WellFormed)
  (hkinds : ∀ kind ∈ p.kinds, kind.descends = true) {names : List String}
  (hnames : ∀ name ∈ names, p.find? name ≠ some p.root)

include hsite h hp hnames hkinds

theorem flows_of_offers {K : OpKey → Prop} (hkeys : ∀ kind ∈ p.kinds, ∀ key ∈ kind.key?, K key)
    {name : String} (hname : name ∈ names) {a : ArgId} (ha : m.Offers g name a) :
    (g.arg? a).isSome ∧ ∀ source, g.Gives K source a → TransGen (g.Flows K) source root := by
  obtain ⟨entry, b, hentry, hb, hsource⟩ := ha.source h hsite.isFor hp hsite.matched
  obtain ⟨rfl, -⟩ | ⟨hlive, hflows⟩ :=
    hsite.isFor.flows_of_bound hkeys h hp hkinds hsite.gives.1 hb
  · exact absurd hentry (hnames name hname)
  · refine ⟨?_, fun source hgives => hflows source (hgives.of_same hsource)⟩
    obtain rfl | ⟨giver, hgives, -⟩ := hsource
    · exact hlive
    · obtain ⟨node, hnode, hmem⟩ := h.producer?_eq_some_iff.mp hgives
      exact h.produces_live giver node a hnode hmem

theorem producer?_ne (hacyclic : g.Acyclic) {name : String} (hname : name ∈ names) {a : ArgId}
    (ha : m.Offers g name a) : g.producer? a ≠ some root := by
  have hflows := hsite.flows_of_offers h hp hkinds hnames (fun _ _ _ _ => trivial) hname ha
  intro hproducer
  obtain ⟨node, hnode, -⟩ := h.producer?_eq_some_iff.mp hproducer
  exact hacyclic.not_flows root (hflows.2 root ⟨hproducer, node, hnode, trivial⟩)

theorem exists_skipped (hconducts : p.Conducts) (hdeepens : p.Deepens names) :
    ∃ inner, g.Flows OpKey.Conducts inner root ∧ ∀ name ∈ names, ∀ a, m.Offers g name a →
      ∀ source, g.Gives OpKey.Conducts source a → g.Flows OpKey.Conducts source inner := by
  have hm := hsite.isFor
  obtain ⟨mid, -, hstarts, hkey, hentries⟩ := hdeepens
  obtain ⟨kind, hkind, hholds⟩ := hm.holds _ _ hm.root
  rw [hkind] at hstarts
  obtain ⟨id, node, c, hproducer, hnode, hread, hc⟩ := hholds.first hstarts
  cases hsite.gives.1.symm.trans hproducer
  obtain ⟨key, hkey⟩ := Option.isSome_iff_exists.mp hkey
  obtain ⟨midKind, hmidKind, hkey⟩ := Option.bind_eq_some_iff.mp hkey
  obtain ⟨inner, hinner⟩ := hm.gives_of_bound hconducts hmidKind (Option.isSome_of_eq_some hkey) hc
  refine ⟨inner, ⟨node, c, hnode, hread, hinner⟩, ?_⟩
  intro name hname a ha source hgives
  obtain ⟨entry, b, hentry, hb, hsource⟩ := ha.source h hm hp hsite.matched
  have hgives : g.Gives OpKey.Conducts source b := hgives.of_same hsource
  obtain hconstant | hparents := hentries name hname entry hentry
  · obtain ⟨kind, hkind, hholds⟩ := hm.holds entry b hb
    cases hconstant.symm.trans hkind
    obtain ⟨tensor, hvalue⟩ := hholds
    exact absurd hgives (h.not_gives_of_constant hvalue source)
  · obtain ⟨rfl, -⟩ | ⟨parent, kind, c', hkind, hc', hpasses⟩ := hm.passed entry b hb
    · exact absurd hentry (hnames name hname)
    · obtain ⟨-, reader, node', hproducer', hnode', hread'⟩ :=
        hpasses.reader (hkinds kind (Array.mem_of_getElem? hkind))
      have hmem : entry ∈ p.childrenAt parent.index := by
        rw [childrenAt, hkind]
        exact hpasses.mem_children
      obtain rfl := hparents parent.index (Array.getElem?_eq_some_iff.mp hkind).1 hmem
      cases hc.symm.trans hc'
      cases hinner.1.symm.trans hproducer'
      exact ⟨node', b, hnode', hread', hgives⟩

variable {args : List ArgId} (hoffers : ∀ a ∈ args, ∃ name ∈ names, m.Offers g name a)

include hoffers

theorem liesBelow {K : OpKey → Prop} (hkeys : ∀ kind ∈ p.kinds, ∀ key ∈ kind.key?, K key)
    {new : ArgId} {supply : Graph.Supply} (hfresh : supply.Fresh g new)
    (hargs : supply.args new ⊆ args) : supply.LiesBelow K g root new := by
  have hbelow : ∀ a ∈ supply.args new, (g.arg? a).isSome ∧
      ∀ source, g.Gives K source a → TransGen (g.Flows K) source root := by
    intro a ha
    obtain ⟨name, hname, hoffered⟩ := hoffers a (hargs ha)
    exact hsite.flows_of_offers h hp hkinds hnames hkeys hname hoffered
  exact ⟨hfresh, fun a ha => (hbelow a ha).1, fun a ha => (hbelow a ha).2⟩

theorem not_mem_args (hacyclic : g.Acyclic) : old ∉ args := by
  intro hmem
  obtain ⟨name, hname, hoffered⟩ := hoffers old hmem
  exact hsite.producer?_ne h hp hkinds hnames hacyclic hname hoffered hsite.gives.1

/-- A rewrite at the site, with a new node only if the pattern has a node to skip. -/
theorem descends (hconducts : p.Conducts) (hroot : ∀ key ∈ keys, key.Conducts)
    (hacyclic : g.Acyclic) {g' : Graph} {new : ArgId} {supply : Graph.Supply}
    (hr : Graph.Rewired g root old new supply g') (hfresh : supply.Fresh g new)
    (hargs : supply.args new ⊆ args) (hdeepens : ∀ n, supply = .node n → p.Deepens names) :
    g.Descends g' where
  indexed := hr.indexed
  acyclic := hr.acyclic h hacyclic
    (hsite.liesBelow h hp hkinds hnames hoffers (fun _ _ _ _ => trivial) hfresh hargs)
  consistent := hr.consistent hfresh
  fewer := by
    apply hr.card_connected_lt h (hsite.liesBelow h hp hkinds hnames hoffers hconducts hfresh hargs)
      (hsite.gives.mono hroot) hacyclic
    intro n hn
    obtain ⟨inner, hinner, hskipped⟩ :=
      hsite.exists_skipped h hp hkinds hnames hconducts (hdeepens n hn)
    refine ⟨inner, hinner, ?_⟩
    intro a ha source hgives
    obtain ⟨name, hname, hoffered⟩ := hoffers a (hargs ha)
    exact hskipped name hname a hoffered source hgives

end Pattern.Site

/-! ### One firing -/

inductive RuleSpec.Shortens (spec : RuleSpec) : Prop where
  | drops (root : String) (names : List String) (hdrops : RulePass.DropsOn spec.act root names)
    (hpattern : ∀ pattern, spec.pattern = .ok pattern →
      pattern.Serves root names replacedKeys ∧ pattern.Conducts)
  | skips (root : String) (names : List String) (hacts : RulePass.ActsOn spec.act root names)
    (hpattern : ∀ pattern, spec.pattern = .ok pattern →
      (pattern.Serves root names replacedKeys ∧ pattern.Conducts) ∧ pattern.Deepens names)

namespace RuleSpec

theorem Shortens.descends {spec : RuleSpec} (hspec : spec.Shortens) {pattern : Pattern}
    (hpattern : spec.pattern = .ok pattern) {g g' : Graph} (h : g.Indexed) (hacyclic : g.Acyclic)
    (hfires : (spec.toRule pattern).Fires g g') : g.Descends g' := by
  have hroot : ∀ key ∈ replacedKeys, key.Conducts := by decide
  cases hspec with
  | drops root names hdrops hpatterns =>
    obtain ⟨hserves, hconducts⟩ := hpatterns pattern hpattern
    obtain ⟨m, id, old, args, hsite, hoffers, hdeed⟩ := exists_site hdrops hserves h hfires
    obtain ⟨hp, hkinds, -, -, hnames⟩ := hserves
    have hnot := hsite.not_mem_args h hp hkinds hnames hoffers hacyclic
    obtain ⟨new, supply, hr, hfresh, hargs, hnone⟩ := hdeed.rewired h hsite.gives.1 hnot
    exact hsite.descends h hp hkinds hnames hoffers hconducts hroot hacyclic hr hfresh hargs
      fun n hn => absurd hn (hnone n)
  | skips root names hacts hpatterns =>
    obtain ⟨⟨hserves, hconducts⟩, hdeepens⟩ := hpatterns pattern hpattern
    obtain ⟨m, id, old, args, hsite, hoffers, hdeed⟩ := exists_site hacts hserves h hfires
    obtain ⟨hp, hkinds, -, -, hnames⟩ := hserves
    have hnot := hsite.not_mem_args h hp hkinds hnames hoffers hacyclic
    obtain ⟨new, supply, hr, hfresh, hargs⟩ := hdeed.rewired h hsite.gives.1 hnot
    exact hsite.descends h hp hkinds hnames hoffers hconducts hroot hacyclic hr hfresh hargs
      fun _ _ => hdeepens

theorem shortens_of_dropsOn {spec : RuleSpec} {root : String} {names : List String}
    (hdrops : RulePass.DropsOn spec.act root names)
    (hall : (spec.pattern.toOption.all fun pattern =>
      decide (pattern.Serves root names replacedKeys ∧ pattern.Conducts)) = true) : spec.Shortens :=
  .drops root names hdrops (forall_pattern_of_all hall)

theorem shortens_of_actsOn {spec : RuleSpec} {root : String} {names : List String}
    (hacts : RulePass.ActsOn spec.act root names)
    (hall : (spec.pattern.toOption.all fun pattern =>
      decide ((pattern.Serves root names replacedKeys ∧ pattern.Conducts) ∧
        pattern.Deepens names)) = true) : spec.Shortens :=
  .skips root names hacts (forall_pattern_of_all hall)

end RuleSpec

end OpGraph
