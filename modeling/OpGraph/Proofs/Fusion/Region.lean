import OpGraph.Proofs.Fusion.Missing
import OpGraph.Proofs.Graph.Reach

/-!
What the search for a region finds. Tables of args are described by the set of args they list; the
search succeeds up to its loop check exactly for well-posed requests, and the loop check looks for
an arg that is read undeclared or a declared one that depends on the region.
-/

namespace OpGraph

open Relation

theorem keys_ascending {β : Type} (table : Std.ExtTreeMap String β) :
    table.keys.Pairwise (· < ·) := by
  apply table.ordered_keys.imp
  intro s t hlt
  exact compareOfLessAndEq_eq_lt.mp hlt

namespace RegionRequest

variable {g : Graph}

def Named (g : Graph) (names : List String) (a : ArgId) : Prop :=
  ∃ name ∈ names, g.findArg? name = some a

def Tabulates (g : Graph) (table : ArgTable) (args : ArgId → Prop) : Prop :=
  ∀ (name : String) a, table[name]? = some a ↔ args a ∧ g.findArg? name = some a

namespace Tabulates

variable {table : ArgTable} {args : ArgId → Prop}

theorem congr (h : Tabulates g table args) {args' : ArgId → Prop}
    (hargs : ∀ a, args a ↔ args' a) : Tabulates g table args' := by
  intro name a
  rw [h name a, hargs]

theorem unique (h : Tabulates g table args) {table' : ArgTable} (h' : Tabulates g table' args) :
    table = table' := by
  apply Std.ExtTreeMap.ext_getElem?
  intro name
  apply Option.ext
  intro a
  rw [h name a, h' name a]

theorem empty : Tabulates g ∅ fun _ => False := by
  intro name a
  simp

theorem insert (hg : g.Indexed) (h : Tabulates g table args) {name : String} {arg : ArgId}
    (hname : g.findArg? name = some arg) :
    Tabulates g (table.insert name arg) fun a => args a ∨ a = arg := by
  intro name' a
  rw [Std.ExtTreeMap.getElem?_insert]
  have hother := h name' a
  split
  · next heq =>
    rw [Std.LawfulEqCmp.compare_eq_iff_eq] at heq
    subst heq
    grind
  · next hne =>
    rw [Std.LawfulEqCmp.compare_eq_iff_eq] at hne
    have hsame : g.findArg? name' = some arg → name = name' := hg.findArg?_injective hname
    grind

theorem insertIfNew (hg : g.Indexed) (h : Tabulates g table args) {name : String} {arg : ArgId}
    (hname : g.findArg? name = some arg) :
    Tabulates g (table.insertIfNew name arg) fun a => args a ∨ a = arg := by
  by_cases hmem : name ∈ table
  · have hlisted : table[name]? = some arg := by
      obtain ⟨arg', harg'⟩ := Option.isSome_iff_exists.mp
        (Std.ExtTreeMap.mem_iff_isSome_getElem?.mp hmem)
      have := ((h name arg').mp harg').2
      rw [hname] at this
      rw [harg', ← this]
    have hsame : table.insertIfNew name arg = table := by
      apply Std.ExtTreeMap.ext_getElem?
      intro name'
      rw [Std.ExtTreeMap.getElem?_insertIfNew]
      grind
    rw [hsame]
    apply h.congr
    have := ((h name arg).mp hlisted).1
    grind
  · have hsame : table.insertIfNew name arg = table.insert name arg := by
      apply Std.ExtTreeMap.ext_getElem?
      intro name'
      rw [Std.ExtTreeMap.getElem?_insertIfNew, Std.ExtTreeMap.getElem?_insert]
      grind
    rw [hsame]
    exact h.insert hg hname

theorem mem_iff (h : Tabulates g table args) {name : String} :
    name ∈ table ↔ ∃ a, args a ∧ g.findArg? name = some a := by
  rw [Std.ExtTreeMap.mem_iff_isSome_getElem?, Option.isSome_iff_exists]
  simp only [h name]

theorem mem_toList_iff (h : Tabulates g table args) {name : String} {a : ArgId} :
    (name, a) ∈ table.toList ↔ args a ∧ g.findArg? name = some a := by
  rw [Std.ExtTreeMap.mem_toList_iff_getElem?_eq_some, h name a]

theorem named_keys_iff (h : Tabulates g table args)
    (hlive : ∀ a, args a → ∃ name, g.findArg? name = some a) {a : ArgId} :
    Named g table.keys a ↔ args a := by
  simp only [Named, Std.ExtTreeMap.mem_keys, h.mem_iff]
  constructor
  · rintro ⟨name, ⟨a', ha', hname'⟩, hname⟩
    rw [hname] at hname'
    cases hname'
    exact ha'
  · intro ha
    obtain ⟨name, hname⟩ := hlive a ha
    exact ⟨name, ⟨a, ha, hname⟩, hname⟩

end Tabulates

/-! ### What a request asks for -/

section Spec

variable (r : RegionRequest) (g : Graph)

def OnBoundary (a : ArgId) : Prop :=
  Named g r.inputs a ∨ Named g r.constants a

/-- The node is reached backwards from the outputs without crossing the boundary. -/
def Covers (id : NodeId) : Prop :=
  ∃ a first, Named g r.outputs a ∧ g.producer? a = some first ∧
    ReflTransGen (g.PullsFrom (r.OnBoundary g)) first id

/-- A request without a loop has a region. -/
structure WellPosed : Prop where
  inputs_known : ∀ name ∈ r.inputs, (g.findArg? name).isSome
  outputs_known : ∀ name ∈ r.outputs, (g.findArg? name).isSome
  constants_known : ∀ name ∈ r.constants, (g.findArg? name).isSome
  outputs_nonempty : r.outputs ≠ []
  outputs_produced : ∀ a, Named g r.outputs a → (g.producer? a).isSome ∧ ¬ r.OnBoundary g a

def ReadBy (covered : NodeId → Prop) (a : ArgId) : Prop :=
  (∃ id node, covered id ∧ g.node? id = some node ∧ a ∈ node.presentInputs) ∧
    ∀ id, g.producer? a = some id → ¬ covered id

def GivenBy (covered : NodeId → Prop) (a : ArgId) : Prop :=
  (∃ id, g.producer? a = some id ∧ covered id) ∧
    (a ∈ g.outputs ∨ ∃ id node, ¬ covered id ∧ g.node? id = some node ∧ a ∈ node.presentInputs)

end Spec

variable {r : RegionRequest}

/-! ### The tables -/

theorem lookup_succeeds (h : g.Indexed) {names : List String}
    (hnames : ∀ name ∈ names, (g.findArg? name).isSome) :
    ∃ table, r.lookup g names = .ok table ∧ Tabulates g table (Named g names) := by
  rw [lookup]
  apply foldlM_succeeds (P := fun done table => Tabulates g table (Named g done)) names
  · intro done name rest table heq htable
    have hmem : name ∈ names := by rw [heq]; simp
    obtain ⟨a, ha⟩ := Option.isSome_iff_exists.mp (hnames name hmem)
    refine ⟨table.insert name a, by simp only [ha], ?_⟩
    apply (htable.insert h ha).congr
    intro a'
    simp only [Named, List.mem_append, List.mem_singleton]
    grind
  · apply Tabulates.empty.congr
    simp [Named]

theorem names_known_of_lookup {names : List String} {table : ArgTable}
    (hrun : r.lookup g names = .ok table) : ∀ name ∈ names, (g.findArg? name).isSome := by
  intro name hname
  obtain ⟨t, t', hstep⟩ := foldlM_step_ok hrun hname
  split at hstep
  · next a ha => simp [ha]
  · cases hstep

theorem starts_succeeds {stop : Std.ExtTreeSet ArgId} {outputs : ArgTable} {args : ArgId → Prop}
    (houtputs : Tabulates g outputs args) (hnamed : ∀ a, args a → ∃ name, g.findArg? name = some a)
    (hargs : ∀ a, args a → (g.producer? a).isSome ∧ a ∉ stop) :
    ∃ nodes, r.starts g stop outputs = .ok nodes ∧
      ∀ id, id ∈ nodes ↔ ∃ a, args a ∧ g.producer? a = some id := by
  have hrun : ∃ nodes, r.starts g stop outputs = .ok nodes ∧
      ∀ id, id ∈ nodes ↔ ∃ entry ∈ outputs.toList, g.producer? entry.2 = some id := by
    rw [starts]
    apply foldlM_succeeds (P := fun (done : List (String × ArgId)) (nodes : Graph.NodeSet) =>
      ∀ id, id ∈ nodes ↔ ∃ entry ∈ done, g.producer? entry.2 = some id)
    · rintro done ⟨name, a⟩ rest nodes heq hnodes
      have hmem : (name, a) ∈ outputs.toList := by rw [heq]; simp
      obtain ⟨hsome, hstop⟩ := hargs a (houtputs.mem_toList_iff.mp hmem).1
      obtain ⟨id, hid⟩ := Option.isSome_iff_exists.mp hsome
      refine ⟨nodes.insert id, by simp only [addStart, hid, if_neg hstop], ?_⟩
      intro id'
      rw [Std.ExtTreeSet.mem_insert, Std.LawfulEqCmp.compare_eq_iff_eq, hnodes]
      simp only [List.mem_append, List.mem_singleton]
      grind
    · simp
  obtain ⟨nodes, hnodes, hmem⟩ := hrun
  refine ⟨nodes, hnodes, ?_⟩
  intro id
  rw [hmem]
  constructor
  · rintro ⟨⟨name, a⟩, hentry, hid⟩
    exact ⟨a, (houtputs.mem_toList_iff.mp hentry).1, hid⟩
  · rintro ⟨a, ha, hid⟩
    obtain ⟨name, hname⟩ := hnamed a ha
    exact ⟨(name, a), houtputs.mem_toList_iff.mpr ⟨ha, hname⟩, hid⟩

theorem produced_of_starts {stop : Std.ExtTreeSet ArgId} {outputs : ArgTable} {args : ArgId → Prop}
    (houtputs : Tabulates g outputs args) (hnamed : ∀ a, args a → ∃ name, g.findArg? name = some a)
    {nodes : Graph.NodeSet} (hrun : r.starts g stop outputs = .ok nodes) :
    ∀ a, args a → (g.producer? a).isSome ∧ a ∉ stop := by
  intro a ha
  obtain ⟨name, hname⟩ := hnamed a ha
  obtain ⟨t, t', hstep⟩ := foldlM_step_ok hrun (houtputs.mem_toList_iff.mpr ⟨ha, hname⟩)
  rw [addStart] at hstep
  split at hstep
  · next producer hproducer =>
    split at hstep
    · cases hstep
    · next hstop => exact ⟨by simp [hproducer], hstop⟩
  · cases hstep

theorem enter_succeeds (h : g.Indexed) (keep : ArgId → Bool) {table : ArgTable}
    {args : ArgId → Prop} (htable : Tabulates g table args) {a : ArgId}
    (hlive : (g.arg? a).isSome) :
    ∃ table', enter g keep table a = .ok table' ∧
      Tabulates g table' fun a' => args a' ∨ (a' = a ∧ keep a') := by
  obtain ⟨arg, harg⟩ := Option.isSome_iff_exists.mp hlive
  rw [enter, Graph.arg_eq_ok_iff.mpr harg]
  by_cases hkeep : keep a
  · rw [if_pos hkeep]
    refine ⟨table.insertIfNew arg.name a, rfl, ?_⟩
    apply (htable.insertIfNew h (h.findArg?_eq_some_iff.mpr ⟨arg, harg, rfl⟩)).congr
    grind
  · rw [if_neg hkeep]
    refine ⟨table, rfl, ?_⟩
    apply htable.congr
    grind

theorem enterSlots_succeeds (h : g.Indexed) {slots : Node → List ArgId} (keep : ArgId → Bool)
    {table : ArgTable} {args : ArgId → Prop} (htable : Tabulates g table args) {id : NodeId}
    {node : Node} (hnode : g.node? id = some node)
    (hlive : ∀ a ∈ slots node, (g.arg? a).isSome) :
    ∃ table', enterSlots g slots keep table id = .ok table' ∧
      Tabulates g table' fun a => args a ∨ (a ∈ slots node ∧ keep a) := by
  rw [enterSlots, Graph.node_eq_ok_iff.mpr hnode]
  apply foldlM_succeeds
    (P := fun done t => Tabulates g t fun a => args a ∨ (a ∈ done ∧ keep a)) (slots node)
  · intro done a rest t heq ht
    obtain ⟨t', ht', htab⟩ := enter_succeeds h keep ht (hlive a (by rw [heq]; simp))
    refine ⟨t', ht', htab.congr ?_⟩
    intro a'
    simp only [List.mem_append, List.mem_singleton]
    grind
  · apply htable.congr
    simp

theorem enterAll_succeeds (h : g.Indexed) {slots : Node → List ArgId} (keep : ArgId → Bool)
    (hlive : ∀ id node a, g.node? id = some node → a ∈ slots node → (g.arg? a).isSome)
    {table : ArgTable} {args : ArgId → Prop} (htable : Tabulates g table args)
    {covered : Graph.NodeSet} (hcovered : ∀ id ∈ covered, id ∈ g.nodeIds) :
    ∃ table', covered.toList.foldlM (enterSlots g slots keep) table = .ok table' ∧
      Tabulates g table' fun a => args a ∨
        ∃ id ∈ covered, ∃ node, g.node? id = some node ∧ a ∈ slots node ∧ keep a := by
  simp only [← Std.ExtTreeSet.mem_toList] at hcovered ⊢
  apply foldlM_succeeds (P := fun done t => Tabulates g t fun a => args a ∨
    ∃ id ∈ done, ∃ node, g.node? id = some node ∧ a ∈ slots node ∧ keep a) covered.toList
  · intro done id rest t heq ht
    obtain ⟨node, hnode⟩ := h.mem_nodeIds.mp (hcovered id (by rw [heq]; simp))
    obtain ⟨t', ht', htab⟩ := enterSlots_succeeds h keep ht hnode (hlive id node · hnode)
    refine ⟨t', ht', htab.congr ?_⟩
    intro a
    simp only [List.mem_append, List.mem_singleton]
    grind
  · apply htable.congr
    simp

theorem readFrom_succeeds (h : g.Indexed) {covered : Graph.NodeSet}
    (hcovered : ∀ id ∈ covered, id ∈ g.nodeIds) :
    ∃ table, readFrom g covered = .ok table ∧ Tabulates g table (ReadBy g (· ∈ covered)) := by
  obtain ⟨table, hrun, htable⟩ := enterAll_succeeds h
    (fun arg => !(g.producer? arg).any (· ∈ covered)) h.reads_live Tabulates.empty hcovered
  refine ⟨table, hrun, htable.congr ?_⟩
  intro a
  simp only [false_or, Bool.not_eq_true', Option.any_eq_false, decide_eq_false_iff_not, ReadBy]
  grind

theorem escapes_iff (h : g.Indexed) {covered : Graph.NodeSet} {a : ArgId} :
    escapes g covered a = true ↔
      a ∈ g.outputs ∨ ∃ id node, id ∉ covered ∧ g.node? id = some node ∧
        a ∈ node.presentInputs := by
  rw [escapes, Bool.or_eq_true, Graph.isOutput, List.contains_iff_mem, List.any_eq_true]
  simp only [h.mem_consumersOf_iff, decide_eq_true_eq]
  grind

theorem addOutputs_succeeds (h : g.Indexed) {covered : Graph.NodeSet}
    (hcovered : ∀ id ∈ covered, id ∈ g.nodeIds) {outputs : ArgTable} {args : ArgId → Prop}
    (houtputs : Tabulates g outputs args) :
    ∃ table, addOutputs g covered outputs = .ok table ∧
      Tabulates g table fun a => args a ∨ GivenBy g (· ∈ covered) a := by
  obtain ⟨table, hrun, htable⟩ := enterAll_succeeds h (escapes g covered) h.produces_live houtputs
    hcovered
  refine ⟨table, hrun, htable.congr ?_⟩
  intro a
  simp only [escapes_iff h, GivenBy, h.producer?_eq_some_iff]
  grind

theorem addConstants_tabulates (h : g.Indexed) {read declared constants : ArgTable}
    {reads inputs args : ArgId → Prop} (hread : Tabulates g read reads)
    (hdeclared : Tabulates g declared inputs) (hconstants : Tabulates g constants args)
    (hnamed : ∀ a, reads a → ∃ name, g.findArg? name = some a) :
    Tabulates g (addConstants g read declared constants) fun a =>
      args a ∨ (reads a ∧ a ∈ g.initializers ∧ ¬ inputs a) := by
  have hfold : ∀ (entries : List (String × ArgId)) (table : ArgTable) (args' : ArgId → Prop),
      (∀ name a, (name, a) ∈ entries → g.findArg? name = some a) → Tabulates g table args' →
      Tabulates g (entries.foldl (fun constants entry =>
        if g.isInitializer entry.2 ∧ entry.1 ∉ declared ∧ entry.1 ∉ constants then
          constants.insert entry.1 entry.2 else constants) table) fun a =>
        args' a ∨ ((∃ name, (name, a) ∈ entries) ∧ a ∈ g.initializers ∧ ¬ inputs a) := by
    intro entries
    induction entries with
    | nil =>
      intro table args' _ htable
      apply htable.congr
      simp
    | cons entry entries ih =>
      obtain ⟨name, a⟩ := entry
      intro table args' hentries htable
      have hname := hentries name a List.mem_cons_self
      have hdecl : name ∈ declared ↔ inputs a := by
        rw [hdeclared.mem_iff]
        grind
      have hmem : name ∈ table ↔ args' a := by
        rw [htable.mem_iff]
        grind
      have hinit : g.isInitializer a = true ↔ a ∈ g.initializers := Std.ExtTreeMap.contains_iff_mem
      rw [List.foldl_cons]
      have hrest : ∀ name a, (name, a) ∈ entries → g.findArg? name = some a :=
        fun name a hin => hentries name a (List.mem_cons_of_mem _ hin)
      split
      · apply (ih _ _ hrest (htable.insert h hname)).congr
        grind
      · apply (ih _ _ hrest htable).congr
        grind
  apply (hfold read.toList constants args (fun name a hin => (hread.mem_toList_iff.mp hin).2)
    hconstants).congr
  intro a
  simp only [hread.mem_toList_iff]
  grind

/-! ### The outline -/

structure Outline.Describes (o : Outline) (r : RegionRequest) (g : Graph) : Prop where
  covered : ∀ id, id ∈ o.covered ↔ r.Covers g id
  inputs : Tabulates g o.inputs (Named g r.inputs)
  outputs : Tabulates g o.outputs (Named g r.outputs)
  constants : Tabulates g o.constants fun a => Named g r.constants a ∨
    (ReadBy g (r.Covers g) a ∧ a ∈ g.initializers ∧ ¬ Named g r.inputs a)
  read : Tabulates g o.read (ReadBy g (r.Covers g))

theorem Named.findArg? {names : List String} {a : ArgId} (h : Named g names a) :
    ∃ name, g.findArg? name = some a := by
  obtain ⟨name, -, hname⟩ := h
  exact ⟨name, hname⟩

theorem findArg?_of_live (h : g.Indexed) {a : ArgId} (hlive : (g.arg? a).isSome) :
    ∃ name, g.findArg? name = some a := by
  obtain ⟨arg, harg⟩ := Option.isSome_iff_exists.mp hlive
  exact ⟨arg.name, h.findArg?_eq_some_iff.mpr ⟨arg, harg, rfl⟩⟩

theorem ReadBy.findArg? (h : g.Indexed) {covered : NodeId → Prop} {a : ArgId}
    (ha : ReadBy g covered a) : ∃ name, g.findArg? name = some a := by
  obtain ⟨⟨id, node, -, hnode, hmem⟩, -⟩ := ha
  exact findArg?_of_live h (h.reads_live id node a hnode hmem)

theorem Covers.mem_nodeIds (h : g.Indexed) {id : NodeId} (hid : r.Covers g id) :
    id ∈ g.nodeIds := by
  obtain ⟨a, first, -, hfirst, hpath⟩ := hid
  cases hpath with
  | refl => exact h.mem_nodeIds_of_producer? hfirst
  | tail _ hlast =>
    obtain ⟨node, a', -, -, -, hsource⟩ := hlast
    exact h.mem_nodeIds_of_producer? hsource

theorem mem_boundary_iff {inputs constants : ArgTable}
    (hinputs : Tabulates g inputs (Named g r.inputs))
    (hconstants : Tabulates g constants (Named g r.constants)) {a : ArgId} :
    a ∈ argsOf (inputs.toList ++ constants.toList) ↔ r.OnBoundary g a := by
  rw [argsOf, Std.ExtTreeSet.mem_ofList, List.contains_iff_mem, List.mem_map]
  simp only [List.mem_append, Prod.exists, exists_eq_right, hinputs.mem_toList_iff,
    hconstants.mem_toList_iff, OnBoundary]
  constructor
  · rintro ⟨name, hname | hname⟩
    · exact .inl hname.1
    · exact .inr hname.1
  · rintro (ha | ha)
    · obtain ⟨name, hname⟩ := ha.findArg?
      exact ⟨name, .inl ⟨ha, hname⟩⟩
    · obtain ⟨name, hname⟩ := ha.findArg?
      exact ⟨name, .inr ⟨ha, hname⟩⟩

theorem outline_succeeds (h : g.Indexed) (hr : r.WellPosed g) :
    ∃ o, r.outline g = .ok o ∧ o.Describes r g := by
  obtain ⟨inputs, hinputs, tinputs⟩ := lookup_succeeds (r := r) h hr.inputs_known
  obtain ⟨outputs, houtputs, toutputs⟩ := lookup_succeeds (r := r) h hr.outputs_known
  obtain ⟨constants, hconstants, tconstants⟩ := lookup_succeeds (r := r) h hr.constants_known
  have hsome : outputs.isEmpty = false := by
    obtain ⟨name, rest, heq⟩ := List.exists_cons_of_ne_nil hr.outputs_nonempty
    have hname : name ∈ r.outputs := by rw [heq]; exact List.mem_cons_self
    obtain ⟨a, ha⟩ := Option.isSome_iff_exists.mp (hr.outputs_known name hname)
    have hmem : name ∈ outputs := toutputs.mem_iff.mpr ⟨a, ⟨name, hname, ha⟩, ha⟩
    rw [← Bool.not_eq_true, Std.ExtTreeMap.isEmpty_iff]
    rintro rfl
    exact Std.ExtTreeMap.not_mem_empty hmem
  have hstop : ∀ a, a ∈ argsOf (inputs.toList ++ constants.toList) ↔ r.OnBoundary g a :=
    fun a => mem_boundary_iff tinputs tconstants
  have hproduced : ∀ a, Named g r.outputs a →
      (g.producer? a).isSome ∧ a ∉ argsOf (inputs.toList ++ constants.toList) := by
    simpa only [hstop] using hr.outputs_produced
  obtain ⟨starts, hstarts, hmem⟩ :=
    starts_succeeds (r := r) toutputs (fun a ha => ha.findArg?) hproduced
  have hlive : ∀ id ∈ starts, id ∈ g.nodeIds := by
    intro id hid
    obtain ⟨a, -, ha⟩ := (hmem id).mp hid
    exact h.mem_nodeIds_of_producer? ha
  obtain ⟨covered, hcovered, hreach⟩ :=
    h.reachedBackwards_spec (argsOf (inputs.toList ++ constants.toList)) hlive
  simp only [hstop] at hreach
  have hcover : ∀ id, id ∈ covered ↔ r.Covers g id := by
    intro id
    simp only [hreach, hmem, Covers]
    grind
  have hcoveredLive : ∀ id ∈ covered, id ∈ g.nodeIds :=
    fun id hid => ((hcover id).mp hid).mem_nodeIds h
  obtain ⟨read, hread, tread⟩ := readFrom_succeeds h hcoveredLive
  simp only [hcover] at tread
  refine ⟨⟨covered, inputs, outputs, addConstants g read inputs constants, read⟩, ?_, hcover,
    tinputs, toutputs, ?_, tread⟩
  · rw [outline, hinputs, houtputs, hconstants]
    simp only [refuse, bind, Except.bind, hsome, hstarts, hcovered, hread, Failure.ofFault]
    rfl
  · exact addConstants_tabulates h tread tinputs tconstants fun a ha => ha.findArg? h

theorem refuse_eq_ok_iff {α : Type} {x : Except FuseError α} {a : α} :
    refuse x = .ok a ↔ x = .ok a := by
  cases x <;> simp [refuse]

theorem wellPosed_of_starts (h : g.Indexed) {inputs outputs constants : ArgTable}
    (hinputs : r.lookup g r.inputs = .ok inputs) (houtputs : r.lookup g r.outputs = .ok outputs)
    (hconstants : r.lookup g r.constants = .ok constants) (hempty : ¬ outputs.isEmpty)
    {starts : Graph.NodeSet}
    (hstarts : r.starts g (argsOf (inputs.toList ++ constants.toList)) outputs = .ok starts) :
    r.WellPosed g := by
  have kinputs := names_known_of_lookup hinputs
  have koutputs := names_known_of_lookup houtputs
  have kconstants := names_known_of_lookup hconstants
  obtain ⟨_, hinputs', tinputs⟩ := lookup_succeeds (r := r) h kinputs
  obtain ⟨_, houtputs', toutputs⟩ := lookup_succeeds (r := r) h koutputs
  obtain ⟨_, hconstants', tconstants⟩ := lookup_succeeds (r := r) h kconstants
  cases hinputs.symm.trans hinputs'
  cases houtputs.symm.trans houtputs'
  cases hconstants.symm.trans hconstants'
  refine ⟨kinputs, koutputs, kconstants, ?_, ?_⟩
  · intro hnil
    rw [hnil] at houtputs
    cases houtputs
    exact hempty rfl
  · intro a ha
    rw [← mem_boundary_iff tinputs tconstants]
    exact produced_of_starts toutputs (fun a ha => ha.findArg?) hstarts a ha

theorem wellPosed_of_outline (h : g.Indexed) {o : Outline} (hrun : r.outline g = .ok o) :
    r.WellPosed g := by
  rw [outline] at hrun
  simp only [bind_eq_ok_iff, refuse_eq_ok_iff] at hrun
  obtain ⟨inputs, hinputs, outputs, houtputs, constants, hconstants, hrun⟩ := hrun
  split at hrun
  · cases hrun
  · next hempty =>
    simp only [bind_eq_ok_iff, refuse_eq_ok_iff] at hrun
    obtain ⟨starts, hstarts, -⟩ := hrun
    exact wellPosed_of_starts h hinputs houtputs hconstants hempty hstarts

/-! ### Loops -/

section Loops

variable (r : RegionRequest) (g : Graph)

def ReadsUndeclared : Prop :=
  ∃ a, ReadBy g (r.Covers g) a ∧ ¬ r.OnBoundary g a ∧ a ∉ g.initializers

def FeedsBoundary : Prop :=
  ∃ a first last, r.OnBoundary g a ∧ g.producer? a = some last ∧ r.Covers g first ∧
    ReflTransGen g.Feeds first last

end Loops

theorem firstMissing_read_eq_none_iff (h : g.Indexed) {o : Outline} (ho : o.Describes r g) :
    firstMissing o.inputs.keys (o.read.keys.filter fun name => name ∉ o.constants) = none ↔
      ¬ r.ReadsUndeclared g := by
  have hascending := (keys_ascending o.read).filter fun name => decide (name ∉ o.constants)
  rw [firstMissing_eq_none_iff (keys_ascending o.inputs) hascending]
  simp only [List.mem_filter, Std.ExtTreeMap.mem_keys, decide_eq_true_eq, ho.read.mem_iff,
    ho.constants.mem_iff, ho.inputs.mem_iff]
  constructor
  · rintro hall ⟨a, hread, hboundary, hinit⟩
    obtain ⟨name, hname⟩ := hread.findArg? h
    have hconstant : ¬ ∃ a', (Named g r.constants a' ∨
        (ReadBy g (r.Covers g) a' ∧ a' ∈ g.initializers ∧ ¬ Named g r.inputs a')) ∧
        g.findArg? name = some a' := by
      rintro ⟨a', ha', hname'⟩
      cases hname.symm.trans hname'
      rcases ha' with ha' | ⟨-, ha', -⟩
      · exact hboundary (.inr ha')
      · exact hinit ha'
    obtain ⟨a', ha', hname'⟩ := hall name ⟨⟨a, hread, hname⟩, hconstant⟩
    cases hname.symm.trans hname'
    exact hboundary (.inl ha')
  · rintro hnone name ⟨⟨a, hread, hname⟩, hconstant⟩
    by_contra hinput
    have hinputs : ¬ Named g r.inputs a := fun ha => hinput ⟨a, ha, hname⟩
    refine hnone ⟨a, hread, ?_, ?_⟩
    · rintro (ha | ha)
      · exact hinputs ha
      · exact hconstant ⟨a, .inl ha, hname⟩
    · intro hinit
      exact hconstant ⟨a, .inr ⟨hread, hinit, hinputs⟩, hname⟩

theorem producedIn?_isSome_iff {nodes : Graph.NodeSet} {boundary : List (String × ArgId)} :
    (producedIn? g nodes boundary).isSome ↔
      ∃ name a id, (name, a) ∈ boundary ∧ g.producer? a = some id ∧ id ∈ nodes := by
  rw [producedIn?, Option.isSome_map, List.find?_isSome]
  simp only [Prod.exists, Option.any_eq_true, decide_eq_true_eq]
  grind

theorem boundary_produced_iff (h : g.Indexed) {o : Outline} (ho : o.Describes r g) {a : ArgId}
    {id : NodeId} (ha : g.producer? a = some id) :
    (∃ name, (name, a) ∈ o.inputs.toList ++ o.constants.toList) ↔ r.OnBoundary g a := by
  -- The initializers among the constants are not produced.
  have hinit := (h.produced_internal a id ha).2
  simp only [List.mem_append, ho.inputs.mem_toList_iff, ho.constants.mem_toList_iff, OnBoundary]
  constructor
  · rintro ⟨name, hin | ⟨hin | hin, -⟩⟩
    · exact .inl hin.1
    · exact .inr hin
    · exact absurd hin.2.1 hinit
  · rintro (hin | hin)
    · obtain ⟨name, hname⟩ := hin.findArg?
      exact ⟨name, .inl ⟨hin, hname⟩⟩
    · obtain ⟨name, hname⟩ := hin.findArg?
      exact ⟨name, .inr ⟨.inl hin, hname⟩⟩

theorem loopVia?_spec (h : g.Indexed) {o : Outline} (ho : o.Describes r g) :
    ∃ via?, o.loopVia? g = .ok via? ∧
      (via?.isSome ↔ r.ReadsUndeclared g ∨ r.FeedsBoundary g) := by
  have hmissing := firstMissing_read_eq_none_iff h ho
  rw [Outline.loopVia?]
  cases hfirst : firstMissing o.inputs.keys (o.read.keys.filter fun name => name ∉ o.constants) with
  | some via =>
    rw [hfirst] at hmissing
    refine ⟨some via, rfl, ?_⟩
    simp only [Option.isSome_some, true_iff]
    left
    by_contra hnone
    cases hmissing.mpr hnone
  | none =>
    have hnone := hmissing.mp hfirst
    have hlive : ∀ id ∈ o.covered, id ∈ g.nodeIds :=
      fun id hid => ((ho.covered id).mp hid).mem_nodeIds h
    obtain ⟨reached, hreached, hmem⟩ := h.reachedForwards_spec hlive
    refine ⟨producedIn? g reached (o.inputs.toList ++ o.constants.toList), ?_, ?_⟩
    · simp only [hreached, bind, Except.bind]
      rfl
    · rw [producedIn?_isSome_iff, or_iff_right hnone]
      simp only [hmem, ho.covered, FeedsBoundary]
      constructor
      · rintro ⟨name, a, last, hin, hlast, first, hfirst, hpath⟩
        have hon := (boundary_produced_iff h ho hlast).mp ⟨name, hin⟩
        exact ⟨a, first, last, hon, hlast, hfirst, hpath⟩
      · rintro ⟨a, first, last, hin, hlast, hfirst, hpath⟩
        obtain ⟨name, hname⟩ := (boundary_produced_iff h ho hlast).mpr hin
        exact ⟨name, a, last, hname, hlast, first, hfirst, hpath⟩

/-! ### The region -/

theorem typesOf_succeeds (h : g.Indexed) (names : List String) :
    ∃ types, typesOf g names = .ok types := by
  apply mapM_succeeds
  intro a ha
  obtain ⟨name, -, hname⟩ := List.mem_filterMap.mp ha
  obtain ⟨arg, harg, -⟩ := h.findArg?_eq_some_iff.mp hname
  exact ⟨arg.type, bind_eq_ok_iff.mpr ⟨arg, Graph.arg_eq_ok_iff.mpr harg, rfl⟩⟩

structure IsRegion (r : RegionRequest) (g : Graph) (o : Outline) (region : Region) : Prop where
  nodes : region.nodes = o.covered.toList
  name : region.boundary.name = r.name
  domain : region.boundary.domain = OpKey.extensionDomain
  tag : region.boundary.tag = r.tag
  inputs : region.boundary.inputs = o.inputs.keys
  constants : region.boundary.constants = o.constants.keys
  outputs : ∃ outputs : ArgTable, region.boundary.outputs = outputs.keys ∧
    Tabulates g outputs fun a => Named g r.outputs a ∨ GivenBy g (r.Covers g) a

theorem toRegion_succeeds (h : g.Indexed) {o : Outline} (ho : o.Describes r g) :
    ∃ region, r.toRegion g o = .ok region ∧ IsRegion r g o region := by
  have hlive : ∀ id ∈ o.covered, id ∈ g.nodeIds :=
    fun id hid => ((ho.covered id).mp hid).mem_nodeIds h
  obtain ⟨outputs, houtputs, toutputs⟩ := addOutputs_succeeds h hlive ho.outputs
  simp only [ho.covered] at toutputs
  obtain ⟨inputTypes, hinputTypes⟩ := typesOf_succeeds h o.inputs.keys
  obtain ⟨outputTypes, houtputTypes⟩ := typesOf_succeeds h outputs.keys
  refine ⟨⟨o.covered.toList, ⟨r.name, OpKey.extensionDomain, r.tag, o.inputs.keys, outputs.keys,
    o.constants.keys, ∅, inputTypes, outputTypes⟩⟩, ?_, ⟨rfl, rfl, rfl, rfl, rfl, rfl, outputs, rfl,
    toutputs⟩⟩
  rw [toRegion, houtputs]
  simp only [toBoundary, hinputTypes, houtputTypes, bind, Except.bind]
  rfl

theorem find_of_outline (h : g.Indexed) {o : Outline} (hrun : r.outline g = .ok o)
    (ho : o.Describes r g) :
    ((r.ReadsUndeclared g ∨ r.FeedsBoundary g) ∧
      ∃ via, r.find g = .error (.error (.loop r.name via))) ∨
    (¬ (r.ReadsUndeclared g ∨ r.FeedsBoundary g) ∧
      ∃ region, r.find g = .ok region ∧ IsRegion r g o region) := by
  obtain ⟨via?, hvia, hloop⟩ := loopVia?_spec h ho
  obtain ⟨region, hregion, his⟩ := toRegion_succeeds h ho
  rw [find, hrun]
  simp only [bind, Except.bind, hvia, Failure.ofFault, hregion, ← hloop]
  cases via? with
  | some via => exact .inl ⟨rfl, via, rfl⟩
  | none => exact .inr ⟨by simp, region, rfl, his⟩

end RegionRequest

end OpGraph
