import OpGraph.Proofs.Graph.Edited
import OpGraph.Proofs.Pattern.Keys
import OpGraph.Proofs.Rule.Run

/-!
Dispatch by operator. A chain offers a node only to the rules kept under its operator. No match is
lost by that: a run of a chain is the run that offers every node to all of its rules, unless an
action takes away the node it was offered and then declines.
-/

namespace OpGraph

open Pattern

variable {σ : Type}

namespace Rule

def keys? (rule : Rule σ) : Option (List OpKey) :=
  match rule.pattern.rootKeys with
  | .ok keys => keys
  | .error _ => none

def suits (rule : Rule σ) (key : OpKey) : Bool :=
  match rule.keys? with
  | some keys => keys.contains key
  | none => true

def KeepsIndexed (rule : Rule σ) : Prop :=
  ∀ m g ctx fired g' ctx', g.Indexed → rule.action m g ctx = .ok (fired, g', ctx') → g'.Indexed

/-- The action works on the graph by its edits and its log. -/
def Edits (rule : Rule σ) : Prop :=
  ∀ m g ctx fired g' ctx', rule.action m g ctx = .ok (fired, g', ctx') → g.Edited g'

def KeepsKey (rule : Rule σ) : Prop :=
  ∀ g id node m ctx g' ctx' node', g.Indexed → g.node? id = some node →
    rule.pattern.matchNode g id = .ok (some m) → rule.action m g ctx = .ok (false, g', ctx') →
    g'.node? id = some node' → node'.key = node.key

/-- If the action declines a match, the node it was offered is still there, with its operator. -/
def KeepsOffered (rule : Rule σ) : Prop :=
  ∀ g id node m ctx g' ctx', g.Indexed → g.node? id = some node →
    rule.pattern.matchNode g id = .ok (some m) → rule.action m g ctx = .ok (false, g', ctx') →
    ∃ node', g'.node? id = some node' ∧ node'.key = node.key

theorem KeepsOffered.keepsKey {rule : Rule σ} (h : rule.KeepsOffered) : rule.KeepsKey := by
  intro g id node m ctx g' ctx' node' hg hnode hmatch haction hnode'
  obtain ⟨node₁, hnode₁, hkey⟩ := h g id node m ctx g' ctx' hg hnode hmatch haction
  cases hnode₁.symm.trans hnode'
  exact hkey

theorem Edits.keepsIndexed {rule : Rule σ} (h : rule.Edits) : rule.KeepsIndexed :=
  fun m g ctx fired g' ctx' hg haction => (h m g ctx fired g' ctx' haction).indexed hg

theorem Edits.keepsKey {rule : Rule σ} (h : rule.Edits) : rule.KeepsKey :=
  fun g id node m ctx g' ctx' node' hg hnode _ haction hnode' =>
    (h m g ctx false g' ctx' haction).keepsKeys hg id node node' hnode hnode'

theorem tryApply_eq_ok {rule : Rule σ} {id : NodeId} {g g' : Graph} {ctx ctx' : σ} {fired : Bool}
    (hrun : rule.tryApply id g ctx = .ok (fired, g', ctx')) :
    fired = false ∧ g' = g ∧ ctx' = ctx ∨
      ∃ m, rule.pattern.matchNode g id = .ok (some m) ∧
        rule.action m g ctx = .ok (fired, g', ctx') := by
  rw [tryApply, bind_eq_ok_iff] at hrun
  obtain ⟨found, hmatch, hrun⟩ := hrun
  cases found with
  | none =>
    cases hrun
    exact .inl ⟨rfl, rfl, rfl⟩
  | some m => exact .inr ⟨m, hmatch, hrun⟩

variable {rule : Rule σ} {g : Graph} {id : NodeId} {node : Node}

theorem rootKeys_eq (hp : rule.pattern.Valid) : rule.pattern.rootKeys = .ok rule.keys? := by
  obtain ⟨keys, hkeys⟩ := rootKeys_succeeds hp
  rw [keys?, hkeys]

theorem tryApply_of_not_suits (h : g.Indexed) (hp : rule.pattern.Valid)
    (hnode : g.node? id = some node) (hsuits : rule.suits node.key = false) (ctx : σ) :
    rule.tryApply id g ctx = .ok (false, g, ctx) := by
  obtain ⟨outcome, hmatch⟩ := matchNode_succeeds h hp hnode
  rw [tryApply, hmatch, ok_bind]
  cases outcome with
  | none => rfl
  | some m =>
    rw [suits] at hsuits
    cases hkeys : rule.keys? with
    | none => simp [hkeys] at hsuits
    | some keys =>
      have hkey :=
        key_mem_of_matchNode h hp hnode hmatch ((rootKeys_eq hp).trans (congrArg _ hkeys))
      simp [hkeys, hkey] at hsuits

theorem tryApply_stale (hnode : g.node? id = none) (ctx : σ) :
    rule.tryApply id g ctx = .error (.staleNode id) := by
  simp only [tryApply, matchNode, Graph.node, hnode]
  rfl

theorem KeepsIndexed.tryApply (hkeeps : rule.KeepsIndexed) (h : g.Indexed) {g' : Graph}
    {ctx ctx' : σ} {fired : Bool} (hrun : rule.tryApply id g ctx = .ok (fired, g', ctx')) :
    g'.Indexed := by
  obtain ⟨-, rfl, -⟩ | ⟨m, -, haction⟩ := tryApply_eq_ok hrun
  · exact h
  · exact hkeeps m g ctx fired g' ctx' h haction

theorem of_declined (h : g.Indexed) (hnode : g.node? id = some node) {g' : Graph} {ctx ctx' : σ}
    (hrun : rule.tryApply id g ctx = .ok (false, g', ctx')) :
    (rule.KeepsKey → ∀ node', g'.node? id = some node' → node'.key = node.key) ∧
      (g'.node? id = none → ¬ rule.KeepsOffered) := by
  obtain ⟨-, rfl, -⟩ | ⟨m, hmatch, haction⟩ := tryApply_eq_ok hrun
  · constructor
    · intro _ node' hnode'
      cases hnode.symm.trans hnode'
      rfl
    · intro hgone
      cases hnode.symm.trans hgone
  · constructor
    · intro hkey node' hnode'
      exact hkey g id node m ctx g' ctx' node' h hnode hmatch haction hnode'
    · intro hgone hkeeps
      obtain ⟨node', hnode', -⟩ := hkeeps g id node m ctx g' ctx' h hnode hmatch haction
      cases hgone.symm.trans hnode'

end Rule

/-! ### Runs that agree -/

/-- Both end alike, or the second one, for a known reason, at a node that is gone. -/
def Agree {α : Type} (reason : Prop) (x y : Except Fault α) : Prop :=
  x = y ∨ (∃ id, y = .error (.staleNode id)) ∧ reason

namespace Agree

variable {α β : Type} {reason : Prop} {x y : Except Fault α}

theorem refl (x : Except Fault α) : Agree reason x x := .inl rfl

theorem mono {reason' : Prop} (himp : reason → reason') (h : Agree reason x y) :
    Agree reason' x y :=
  h.imp_right fun hstale => ⟨hstale.1, himp hstale.2⟩

theorem bind (h : Agree reason x y) {f f' : α → Except Fault β}
    (hf : ∀ a, y = .ok a → Agree reason (f a) (f' a)) : Agree reason (x >>= f) (y >>= f') := by
  rcases h with rfl | ⟨⟨id, rfl⟩, hreason⟩
  · cases x with
    | error e => exact refl _
    | ok a => exact hf a rfl
  · exact .inr ⟨⟨id, rfl⟩, hreason⟩

theorem eq (h : Agree False x y) : x = y :=
  h.resolve_right fun hstale => hstale.2

end Agree

namespace Engine

variable (name : String) (mode : ScanMode) (order : ScanOrder) (budget : Nat)
    (rules : List (Rule σ))

/-- Offers every node to all rules. -/
def broad : Engine σ :=
  ⟨name, fun _ => rules, mode, order, budget⟩

/-- Offers a node to those of the rules that suit its operator. -/
def narrow : Engine σ :=
  ⟨name, fun node => rules.filter fun rule => rule.suits node.key, mode, order, budget⟩

def LosesOffered : Prop :=
  ∃ rule ∈ rules.dropLast, ¬ rule.KeepsOffered

variable {name mode order budget rules}

theorem LosesOffered.head {rule next : Rule σ} (h : ¬ rule.KeepsOffered) :
    LosesOffered (rule :: next :: rules) :=
  ⟨rule, List.mem_cons_self, h⟩

theorem LosesOffered.tail {rule next : Rule σ} (h : LosesOffered (next :: rules)) :
    LosesOffered (rule :: next :: rules) := by
  obtain ⟨r, hr, hloses⟩ := h
  exact ⟨r, List.mem_cons_of_mem rule hr, hloses⟩

theorem indexed_offer (hkeeps : ∀ rule ∈ rules, rule.KeepsIndexed) {id : NodeId} {g g' : Graph}
    (h : g.Indexed) {ctx ctx' : σ} {fired : Option String}
    (hrun : offer id rules g ctx = .ok (fired, g', ctx')) : g'.Indexed := by
  induction rules generalizing g ctx with
  | nil =>
    cases hrun
    exact h
  | cons rule rest ih =>
    rw [List.forall_mem_cons] at hkeeps
    rw [offer, bind_eq_ok_iff] at hrun
    obtain ⟨⟨changed, g₁, ctx₁⟩, htry, hrun⟩ := hrun
    have hfirst : g₁.Indexed := hkeeps.1.tryApply h htry
    cases changed with
    | true =>
      cases hrun
      exact hfirst
    | false => exact ih hkeeps.2 hfirst hrun

theorem offer_agree (hrules : ∀ rule ∈ rules, rule.pattern.Valid ∧ rule.KeepsIndexed)
    (hkeys : ∀ rule ∈ rules.dropLast, rule.KeepsKey) {id : NodeId} {g : Graph} (h : g.Indexed)
    {node : Node} (hnode : g.node? id = some node) (ctx : σ) :
    Agree (LosesOffered rules) (offer id (rules.filter fun rule => rule.suits node.key) g ctx)
      (offer id rules g ctx) := by
  induction rules generalizing g node ctx with
  | nil => exact .refl _
  | cons rule rest ih =>
    rw [List.forall_mem_cons] at hrules
    -- After the rule has declined, the node is as it was, or it is gone and the next rule faults.
    have hrest : ∀ s ctx', rule.tryApply id g ctx = .ok (false, s, ctx') →
        Agree (LosesOffered (rule :: rest))
          (offer id (rest.filter fun rule => rule.suits node.key) s ctx')
          (offer id rest s ctx') := by
      intro s ctx' htry
      have hs : s.Indexed := hrules.1.2.tryApply h htry
      obtain ⟨hkey, hgone⟩ := Rule.of_declined h hnode htry
      cases rest with
      | nil => exact .refl _
      | cons next rest =>
        rw [List.dropLast_cons_of_ne_nil (List.cons_ne_nil next rest),
          List.forall_mem_cons] at hkeys
        cases hlive : s.node? id with
        | none =>
          refine .inr ⟨⟨id, ?_⟩, .head (hgone hlive)⟩
          rw [offer, Rule.tryApply_stale hlive]
          rfl
        | some node' =>
          rw [← hkey hkeys.1 node' hlive]
          exact (ih hrules.2 hkeys.2 hs hlive ctx').mono .tail
    cases hsuits : rule.suits node.key with
    | false =>
      have htry := Rule.tryApply_of_not_suits h hrules.1.1 hnode hsuits ctx
      rw [List.filter_cons_of_neg (by simp [hsuits]), offer, htry, ok_bind]
      exact hrest g ctx htry
    | true =>
      rw [List.filter_cons_of_pos (by exact hsuits), offer, offer]
      refine (Agree.refl _).bind ?_
      rintro ⟨fired, s, ctx'⟩ htry
      cases fired with
      | true => exact .refl _
      | false => exact hrest s ctx' htry

section Runs

variable (hrules : ∀ rule ∈ rules, rule.pattern.Valid ∧ rule.KeepsIndexed)

include hrules

theorem indexed_scan {ids : List NodeId} {run run' : Run σ} {fired : Option Firing}
    (h : run.graph.Indexed)
    (hrun : (broad name mode order budget rules).scan ids run = .ok (fired, run')) :
    run'.graph.Indexed := by
  induction ids generalizing run with
  | nil =>
    cases hrun
    exact h
  | cons id rest ih =>
    rw [scan] at hrun
    split at hrun
    · exact ih h hrun
    · split at hrun
      · exact ih h hrun
      · rw [bind_eq_ok_iff] at hrun
        obtain ⟨⟨outcome, g₁, ctx₁⟩, hoffer, hrun⟩ := hrun
        have h₁ : g₁.Indexed := indexed_offer (fun rule hrule => (hrules rule hrule).2) h hoffer
        cases outcome with
        | none => exact ih h₁ hrun
        | some rule =>
          cases hrun
          exact h₁

variable (hkeys : ∀ rule ∈ rules.dropLast, rule.KeepsKey)

include hkeys

theorem scan_agree {run : Run σ} (h : run.graph.Indexed) (ids : List NodeId) :
    Agree (LosesOffered rules) ((narrow name mode order budget rules).scan ids run)
      ((broad name mode order budget rules).scan ids run) := by
  induction ids generalizing run with
  | nil => exact .refl _
  | cons id rest ih =>
    rw [scan, scan]
    split
    · exact ih h
    · next node hnode =>
      by_cases hskip : mode = .once ∧ id ∉ run.pending
      · rw [if_pos (by exact hskip), if_pos (by exact hskip)]
        exact ih h
      · rw [if_neg (by exact hskip), if_neg (by exact hskip)]
        refine (offer_agree hrules hkeys h hnode run.context).bind ?_
        rintro ⟨outcome, g', ctx'⟩ hoffer
        cases outcome with
        | some rule => exact .refl _
        | none => exact ih (indexed_offer (fun rule hrule => (hrules rule hrule).2) h hoffer)

theorem scans_agree (left : Nat) {run : Run σ} (h : run.graph.Indexed) (stats : RunStats) :
    Agree (LosesOffered rules) ((narrow name mode order budget rules).scans left run stats)
      ((broad name mode order budget rules).scans left run stats) := by
  have hfresh : ∀ {run : Run σ}, run.graph.Indexed →
      Agree (LosesOffered rules) ((narrow name mode order budget rules).freshScan run)
        ((broad name mode order budget rules).freshScan run) := by
    intro run h
    exact (Agree.refl (order.nodes run.graph)).bind fun ids _ => scan_agree hrules hkeys h ids
  induction left generalizing run stats with
  | zero =>
    refine (hfresh h).bind ?_
    rintro ⟨fired, run'⟩ -
    exact .refl _
  | succ left ih =>
    refine (hfresh h).bind ?_
    rintro ⟨fired, run'⟩ hscan
    cases fired with
    | none => exact .refl _
    | some firing =>
      rw [freshScan, bind_eq_ok_iff] at hscan
      obtain ⟨ids, -, hscan⟩ := hscan
      exact ih (indexed_scan hrules h hscan) _

theorem apply_agree {g : Graph} (h : g.Indexed) (ctx : σ) :
    Agree (LosesOffered rules) ((narrow name mode order budget rules).apply g ctx)
      ((broad name mode order budget rules).apply g ctx) :=
  (scans_agree hrules hkeys budget h .empty).bind fun _ _ => .refl _

end Runs

end Engine

/-! ### Chains -/

namespace RuleChain

/-- Rules that are kept under operators first, each part in the order given. -/
def arranged (rules : List (Rule σ)) : List (Rule σ) :=
  (rules.filter fun rule => rule.keys?.isSome) ++ rules.filter fun rule => rule.keys?.isNone

structure Keeps (chain : RuleChain σ) (rules : List (Rule σ)) : Prop where
  keyed : ∀ key, chain.keyed.getD key [] =
    rules.filter fun rule => rule.keys?.isSome && rule.suits key
  unkeyed : chain.unkeyed = rules.filter fun rule => rule.keys?.isNone

theorem Keeps.candidates {chain : RuleChain σ} {rules : List (Rule σ)} (h : chain.Keeps rules)
    (node : Node) :
    chain.candidates node = (arranged rules).filter fun rule => rule.suits node.key := by
  rw [RuleChain.candidates, h.keyed, h.unkeyed, arranged, List.filter_append, List.filter_filter,
    List.filter_filter]
  congr 1
  · simp only [Bool.and_comm]
  · apply List.filter_congr
    intro rule _
    cases hkeys : rule.keys? <;> simp [Rule.suits, hkeys]

theorem getD_foldl_insert {rule : Rule σ} {keys : List OpKey} (hkeys : keys.Nodup)
    (keyed : Std.ExtTreeMap OpKey (List (Rule σ))) (key : OpKey) :
    (keys.foldl (fun keyed key => keyed.insert key (keyed.getD key [] ++ [rule])) keyed).getD
        key [] =
      keyed.getD key [] ++ if key ∈ keys then [rule] else [] := by
  induction keys generalizing keyed with
  | nil => simp
  | cons k keys ih =>
    rw [List.nodup_cons] at hkeys
    rw [List.foldl_cons, ih hkeys.2, Std.ExtTreeMap.getD_insert]
    by_cases heq : k = key
    · subst heq
      simp [hkeys.1]
    · have hcompare : compare k key ≠ .eq := fun h => heq (Std.compare_eq_iff_eq.mp h)
      simp [hcompare, Ne.symm heq]

theorem Keeps.add {chain : RuleChain σ} {done : List (Rule σ)} (h : chain.Keeps done)
    {rule : Rule σ} (hp : rule.pattern.Valid) :
    ∃ chain', chain.add rule = .ok chain' ∧ chain'.Keeps (done ++ [rule]) ∧
      chain' = { chain with keyed := chain'.keyed, unkeyed := chain'.unkeyed } := by
  have hroot := rule.rootKeys_eq hp
  rw [RuleChain.add, hroot, ok_bind]
  cases hkeys : rule.keys? with
  | none =>
    refine ⟨_, rfl, ⟨?_, ?_⟩, rfl⟩
    · intro key
      simp [h.keyed, List.filter_append, hkeys]
    · simp [h.unkeyed, List.filter_append, hkeys]
  | some keys =>
    have hnodup : keys.Nodup := nodup_keysAt (hroot.trans (congrArg _ hkeys))
    refine ⟨_, rfl, ⟨?_, ?_⟩, rfl⟩
    · intro key
      rw [getD_foldl_insert hnodup, h.keyed, List.filter_append]
      by_cases hkey : key ∈ keys <;> simp [Rule.suits, hkeys, hkey]
    · simp [h.unkeyed, List.filter_append, hkeys]

theorem ofRules_succeeds {rules : List (Rule σ)} (hrules : ∀ rule ∈ rules, rule.pattern.Valid)
    (name : String) (mode : ScanMode) (order : ScanOrder) (budget : Nat) :
    ∃ chain, ofRules name mode order budget rules = .ok chain ∧ chain.Keeps rules ∧
      chain = ⟨name, chain.keyed, chain.unkeyed, mode, order, budget⟩ := by
  apply foldlM_succeeds (P := fun done (chain : RuleChain σ) => chain.Keeps done ∧
    chain = ⟨name, chain.keyed, chain.unkeyed, mode, order, budget⟩) rules
  · rintro done rule rest chain hsplit ⟨hkeeps, hsetup⟩
    obtain ⟨chain', hadd, hkeeps', hsetup'⟩ := hkeeps.add (hrules rule (by simp [hsplit]))
    refine ⟨chain', hadd, hkeeps', ?_⟩
    rw [hsetup] at hsetup'
    exact hsetup'
  · exact ⟨⟨fun key => by simp [empty], rfl⟩, rfl⟩

/-- A chain runs like the engine that picks from all its rules those that suit a node. -/
theorem apply_eq_narrow {rules : List (Rule σ)} (hrules : ∀ rule ∈ rules, rule.pattern.Valid)
    (name : String) (mode : ScanMode) (order : ScanOrder) (budget : Nat) :
    ∃ chain, ofRules name mode order budget rules = .ok chain ∧
      chain.apply = (Engine.narrow name mode order budget (arranged rules)).apply := by
  obtain ⟨chain, hchain, hkeeps, hsetup⟩ := ofRules_succeeds hrules name mode order budget
  refine ⟨chain, hchain, ?_⟩
  funext g ctx
  have hcandidates : chain.candidates =
      (Engine.narrow name mode order budget (arranged rules)).candidates :=
    funext hkeeps.candidates
  rw [RuleChain.apply, hcandidates, hsetup]
  rfl

theorem mem_arranged {rules : List (Rule σ)} {rule : Rule σ} :
    rule ∈ arranged rules ↔ rule ∈ rules := by
  cases hkeys : rule.keys? <;> simp [arranged, hkeys]

theorem arranged_singleton (rule : Rule σ) : arranged [rule] = [rule] := by
  cases hkeys : rule.keys? <;> simp [arranged, hkeys]

/--
Whatever a rule matches has an operator that the rule is kept under. So a chain does what the engine
does that offers every node to all its rules, those that are kept under operators first, as long as
a rule that declines leaves the node to the rules after it. If actions only edit the graph, the one
thing that can tell them apart is that the engine faults at a node that is gone. A rule applied
alone is a chain of one rule that bears its name.
-/
theorem dispatch_loses_nothing {rules : List (Rule σ)}
    (hrules : ∀ rule ∈ rules, rule.pattern.Obtained ∧ rule.KeepsIndexed) (name : String)
    (mode : ScanMode) (order : ScanOrder) (budget : Nat) {g : Graph} (hg : g.Indexed) (ctx : σ) :
    (∀ rule ∈ rules, ∃ keys, rule.pattern.rootKeys = .ok keys ∧
      ∀ s : Graph, s.Indexed → ∀ id node m, s.node? id = some node →
        rule.pattern.matchNode s id = .ok (some m) → ∀ known, keys = some known →
          node.key ∈ known) ∧
    (∃ chain, ofRules name mode order budget rules = .ok chain ∧
      ((∀ rule ∈ (arranged rules).dropLast, rule.KeepsOffered) →
        chain.apply g ctx = (Engine.broad name mode order budget (arranged rules)).apply g ctx) ∧
      ((∀ rule ∈ rules, rule.Edits) →
        chain.apply g ctx = (Engine.broad name mode order budget (arranged rules)).apply g ctx ∨
        ∃ id, (Engine.broad name mode order budget (arranged rules)).apply g ctx =
          .error (.staleNode id))) ∧
    ∀ rule ∈ rules, ∃ chain, ofRules rule.name .fixedPoint order defaultBudget [rule] = .ok chain ∧
      rule.apply order g ctx = chain.apply g ctx := by
  have hvalid : ∀ rule ∈ rules, rule.pattern.Valid := fun rule hrule => (hrules rule hrule).1.valid
  refine ⟨?_, ?_, ?_⟩
  · intro rule hrule
    obtain ⟨keys, hkeys⟩ := rootKeys_succeeds (hvalid rule hrule)
    refine ⟨keys, hkeys, ?_⟩
    rintro s hs id node m hnode hmatch known rfl
    exact key_mem_of_matchNode hs (hvalid rule hrule) hnode hmatch hkeys
  · obtain ⟨chain, hchain, happly⟩ := apply_eq_narrow hvalid name mode order budget
    have harranged : ∀ rule ∈ arranged rules, rule.pattern.Valid ∧ rule.KeepsIndexed := by
      intro rule hrule
      rw [mem_arranged] at hrule
      exact ⟨hvalid rule hrule, (hrules rule hrule).2⟩
    refine ⟨chain, hchain, ?_, ?_⟩
    · intro hkeeps
      rw [happly]
      refine ((Engine.apply_agree harranged (fun rule hrule => (hkeeps rule hrule).keepsKey) hg
        ctx).mono ?_).eq
      rintro ⟨rule, hrule, hloses⟩
      exact hloses (hkeeps rule hrule)
    · intro hedits
      rw [happly]
      refine (Engine.apply_agree harranged (fun rule hrule => ?_) hg ctx).imp_right And.left
      exact (hedits rule (mem_arranged.mp (List.mem_of_mem_dropLast hrule))).keepsKey
  · intro rule hrule
    have hone : ∀ r ∈ [rule], r.pattern.Valid ∧ r.KeepsIndexed := by
      rintro r hr
      obtain rfl := List.mem_singleton.mp hr
      exact ⟨hvalid r hrule, (hrules r hrule).2⟩
    obtain ⟨chain, hchain, happly⟩ := apply_eq_narrow (fun r hr => (hone r hr).1) rule.name
      .fixedPoint order defaultBudget
    refine ⟨chain, hchain, ?_⟩
    rw [happly, arranged_singleton]
    -- The only rule is the last one, so a node that it takes away is not offered again.
    have hagree : Agree (Engine.LosesOffered [rule])
        ((Engine.narrow rule.name .fixedPoint order defaultBudget [rule]).apply g ctx)
        (rule.apply order g ctx) := Engine.apply_agree hone (by simp) hg ctx
    exact (hagree.mono (by simp [Engine.LosesOffered])).eq.symm

def counting (p : Pattern) : Rule Nat :=
  ⟨"count", p, fun _ g n => .ok (false, g, n + 1)⟩

def dropping (fires : Bool) (p : Pattern) : Rule Nat :=
  ⟨"drop", p, fun m g n =>
    match m.node? p.root with
    | none => .ok (false, g, n)
    | some id => do return (fires, ← Graph.Mutation.run g (.removeNode id), n)⟩

def spinning (p : Pattern) : Rule Nat :=
  ⟨"spin", p, fun _ g n => .ok (true, g, n)⟩

theorem edits_counting (p : Pattern) : (counting p).Edits := by
  intro m g n fired g' n' haction
  cases haction
  exact .refl

theorem edits_dropping (fires : Bool) (p : Pattern) : (dropping fires p).Edits := by
  intro m g n fired g' n' haction
  simp only [dropping] at haction
  split at haction
  · cases haction
    exact .refl
  · next id hid =>
    rw [bind_eq_ok_iff] at haction
    obtain ⟨g₁, hremove, haction⟩ := haction
    cases haction
    exact Graph.Edited.refl.edit (.removeNode id) hremove

theorem keepsOffered_counting (p : Pattern) : (counting p).KeepsOffered := by
  intro g id node m n g' n' _ hnode _ haction
  cases haction
  exact ⟨node, hnode, rfl⟩

theorem keepsOffered_dropping (p : Pattern) : (dropping true p).KeepsOffered := by
  intro g id node m n g' n' _ hnode _ haction
  simp only [dropping] at haction
  split at haction
  · cases haction
    exact ⟨node, hnode, rfl⟩
  · rw [bind_eq_ok_iff] at haction
    obtain ⟨g₁, -, haction⟩ := haction
    cases haction

def forkEdits : List Graph.Mutation :=
  [.addInput "x" ⟨.float32, none⟩, .newArg "y" ⟨.float32, none⟩, .newArg "z" ⟨.float32, none⟩,
    .addNode ⟨"relu", .standard "Relu", [some ⟨0⟩], [some ⟨1⟩], ∅⟩,
    .addNode ⟨"neg", .standard "Neg", [some ⟨0⟩], [some ⟨2⟩], ∅⟩, .addOutput ⟨1⟩]

def alternativeCalls : List BuilderCall :=
  [.wildcard, .node (.standard "Neg") [(⟨0⟩, false)] [], .allOf [⟨0⟩, ⟨1⟩],
    .node (.standard "Abs") [(⟨0⟩, false)] [], .anyOf [⟨3⟩, ⟨2⟩]]

/-- The rule for negations, found in the second item of an alternative, is not offered `relu`. -/
theorem dispatch_loses_nothing_drop :
    ∃ (g : Graph) (b : PatternBuilder) (p q : Pattern) (chain : RuleChain Nat) (stats : RunStats)
      (g' : Graph), (Graph.empty "tidy").runAll forkEdits = .ok g ∧
      BuilderCall.runAll alternativeCalls .empty = .ok b ∧
      b.freeze ⟨0⟩ = .ok p ∧ b.freeze ⟨4⟩ = .ok q ∧
      q.rootKeys = .ok (some [.standard "Abs", .standard "Neg"]) ∧
      ofRules "tidy" .fixedPoint .topological 3 [counting p, dropping true q] = .ok chain ∧
      (Engine.broad "tidy" .fixedPoint .topological 3
        (arranged [counting p, dropping true q])).apply g 0 = .ok (stats, g', 2) ∧
      chain.apply g 0 = .ok (stats, g', 2) := by
  have hrun : (do
      let g ← (Graph.empty "tidy").runAll forkEdits
      let b ← BuilderCall.runAll alternativeCalls .empty
      let p ← b.freeze ⟨0⟩
      let q ← b.freeze ⟨4⟩
      let keys ← q.rootKeys
      let (_, _, n) ← (Engine.broad "tidy" .fixedPoint .topological 3
        (arranged [counting p, dropping true q])).apply g 0
      return (keys, n)) = .ok (some [.standard "Abs", .standard "Neg"], 2) := rfl
  simp only [bind_eq_ok_iff, pure_eq_ok_iff, Prod.mk.injEq, Prod.exists] at hrun
  obtain ⟨g, hg, b, hb, p, hp, q, hq, keys, hkeys, stats, g', n, hbroad, rfl, rfl⟩ := hrun
  have hindexed : g.Indexed := (Graph.evolves_runAll (Graph.indexed_empty _) hg).indexed
  have hrules : ∀ rule ∈ [counting p, dropping true q],
      rule.pattern.Obtained ∧ rule.KeepsIndexed := by
    simp only [List.forall_mem_cons]
    exact ⟨⟨.built hb hp, (edits_counting p).keepsIndexed⟩,
      ⟨.built hb hq, (edits_dropping true q).keepsIndexed⟩, by simp⟩
  obtain ⟨-, ⟨chain, hchain, hsame, -⟩, -⟩ :=
    dispatch_loses_nothing hrules "tidy" .fixedPoint .topological 3 hindexed 0
  refine ⟨g, b, p, q, chain, stats, g', hg, hb, hp, hq, hkeys, hchain, hbroad, ?_⟩
  have hkeeps : ∀ rule ∈ [counting p, dropping true q], rule.KeepsOffered := by
    simp only [List.forall_mem_cons]
    exact ⟨keepsOffered_counting p, keepsOffered_dropping q, by simp⟩
  rw [hsame fun rule hrule => hkeeps rule (mem_arranged.mp (List.mem_of_mem_dropLast hrule)),
    hbroad]

/-! ### Where dispatch shows -/

theorem apply_of_spinning {e : Engine σ} (hmode : e.mode = .fixedPoint) {g : Graph} {ctx : σ}
    {id : NodeId} {rest : List NodeId} (hids : e.order.nodes g = .ok (id :: rest)) {node : Node}
    (hnode : g.node? id = some node) {rule : Rule σ} (hcandidates : e.candidates node = [rule])
    (hfires : rule.tryApply id g ctx = .ok (true, g, ctx)) :
    e.apply g ctx = .error (.budget e.budget e.name rule.name node.name) := by
  have hscan : ∀ pending, e.freshScan ⟨g, ctx, pending⟩ =
      .ok (some ⟨rule.name, node.name⟩, ⟨g, ctx, pending.erase id⟩) := by
    intro pending
    rw [Engine.freshScan, hids, ok_bind, Engine.scan, hnode]
    dsimp only
    rw [if_neg (by simp [hmode]), hcandidates, Engine.offer, hfires]
    rfl
  have hscans : ∀ left pending stats, e.scans left ⟨g, ctx, pending⟩ stats =
      .error (.budget e.budget e.name rule.name node.name) := by
    intro left
    induction left with
    | zero =>
      intro pending stats
      rw [Engine.scans, hscan]
      rfl
    | succ left ih =>
      intro pending stats
      rw [Engine.scans, hscan, ok_bind]
      exact ih _ _
  rw [Engine.apply, hscans]
  rfl

theorem candidates_of_fires {chain : RuleChain σ} {rule : Rule σ} (hkeeps : chain.Keeps [rule])
    (hp : rule.pattern.Valid) {g : Graph} (h : g.Indexed) {id : NodeId} {node : Node}
    (hnode : g.node? id = some node) {ctx : σ} {g' : Graph} {ctx' : σ}
    (hfires : rule.tryApply id g ctx = .ok (true, g', ctx')) : chain.candidates node = [rule] := by
  have hsuits : rule.suits node.key = true := by
    by_contra hsuits
    rw [Bool.not_eq_true] at hsuits
    rw [Rule.tryApply_of_not_suits h hp hnode hsuits] at hfires
    cases hfires
  rw [hkeeps.candidates, arranged_singleton]
  exact List.filter_cons_of_pos hsuits

def pairCalls : List BuilderCall :=
  [.wildcard, .node (.standard "Relu") [(⟨0⟩, false)] [], .node (.standard "Neg") [(⟨0⟩, false)] []]

/--
The first rule removes `relu` and declines. The chain does not offer the node again; the engine that
offers it to the second rule faults. And the fault of a run without an end names the chain.
-/
theorem dispatch_shows_after_removal :
    ∃ (g : Graph) (b : PatternBuilder) (p q : Pattern) (chain lone : RuleChain Nat) (g' : Graph),
      (Graph.empty "tidy").runAll forkEdits = .ok g ∧ g.Indexed ∧
      BuilderCall.runAll pairCalls .empty = .ok b ∧ b.freeze ⟨1⟩ = .ok p ∧ b.freeze ⟨2⟩ = .ok q ∧
      ofRules "tidy" .fixedPoint .topological 3 [dropping false p, counting q] = .ok chain ∧
      chain.apply g 0 = .ok (⟨1, 0, ∅⟩, g', 1) ∧
      (Engine.broad "tidy" .fixedPoint .topological 3
        (arranged [dropping false p, counting q])).apply g 0 = .error (.staleNode ⟨0⟩) ∧
      ofRules "tidy" .fixedPoint .topological defaultBudget [spinning p] = .ok lone ∧
      lone.apply g 0 = .error (.budget defaultBudget "tidy" "spin" "relu") ∧
      (spinning p).apply .topological g 0 =
        .error (.budget defaultBudget "spin" "spin" "relu") := by
  have hrun : (do
      let g ← (Graph.empty "tidy").runAll forkEdits
      let b ← BuilderCall.runAll pairCalls .empty
      let p ← b.freeze ⟨1⟩
      let q ← b.freeze ⟨2⟩
      let chain ← ofRules "tidy" .fixedPoint .topological 3 [dropping false p, counting q]
      let (stats, _, n) ← chain.apply g 0
      let ids ← ScanOrder.topological.nodes g
      let node ← g.node ⟨0⟩
      let (fires, _, _) ← (spinning p).tryApply ⟨0⟩ g 0
      let fault := match (Engine.broad "tidy" .fixedPoint .topological 3
          (arranged [dropping false p, counting q])).apply g 0 with
        | .error fault => some fault
        | .ok _ => none
      return (stats, n, ids, node.name, fires, fault)) =
      .ok (⟨1, 0, ∅⟩, 1, [⟨0⟩, ⟨1⟩], "relu", true, some (.staleNode ⟨0⟩)) := rfl
  simp only [bind_eq_ok_iff, pure_eq_ok_iff, Prod.mk.injEq, Prod.exists] at hrun
  obtain ⟨g, hg, b, hb, p, hp, q, hq, chain, hchain, _, g', n, happly, ids, hids, node, hnode,
    fires, g₁, n₁, hfires, rfl, rfl, rfl, hname, rfl, hfault⟩ := hrun
  have hindexed : g.Indexed := (Graph.evolves_runAll (Graph.indexed_empty _) hg).indexed
  have hvalid : ∀ rule ∈ [spinning p], rule.pattern.Valid := by
    rw [List.forall_mem_singleton]
    exact (Obtained.built hb hp).valid
  have hnode := Graph.node_eq_ok_iff.mp hnode
  have hspins : (spinning p).tryApply ⟨0⟩ g 0 = .ok (true, g, 0) := by
    obtain ⟨hfalse, -⟩ | ⟨m, -, haction⟩ := Rule.tryApply_eq_ok hfires
    · cases hfalse
    · cases haction
      exact hfires
  obtain ⟨lone, hlone, hkeeps, hsetup⟩ :=
    ofRules_succeeds hvalid "tidy" .fixedPoint .topological defaultBudget
  have hcandidates :=
    candidates_of_fires hkeeps (hvalid _ List.mem_cons_self) hindexed hnode hspins
  refine ⟨g, b, p, q, chain, lone, g', hg, hindexed, hb, hp, hq, hchain, happly, ?_, hlone, ?_, ?_⟩
  · split at hfault
    · next fault hbroad => rw [hbroad, Option.some.inj hfault]
    · cases hfault
  · rw [hsetup] at hcandidates ⊢
    rw [← hname]
    exact apply_of_spinning rfl hids hnode hcandidates hspins
  · rw [← hname]
    exact apply_of_spinning rfl hids hnode rfl hspins

end RuleChain

end OpGraph
