import Mathlib.Algebra.BigOperators.Group.List.Basic
import OpGraph.Proofs.Graph.Faults

/-!
How reading a model can fail. Names, wiring, offsets and lengths that do not fit are answered by an
error. The one thing that is not is the number of elements of an initializer: its extents are
multiplied from left to right, and a product of the first few that does not fit a word is a fault,
even if a later extent is zero.
-/

namespace OpGraph

section

variable {ε α β : Type}

theorem bind_eq_error_iff {x : Except ε α} {f : α → Except ε β} {e : ε} :
    (x >>= f) = .error e ↔ x = .error e ∨ ∃ a, x = .ok a ∧ f a = .error e := by
  cases x <;> simp [bind, Except.bind]

theorem foldlM_eq_error_iff {f : β → α → Except ε β} {l : List α} {s : β} {e : ε} :
    l.foldlM f s = .error e ↔ ∃ before a after s', l = before ++ a :: after ∧
      before.foldlM f s = .ok s' ∧ f s' a = .error e := by
  induction l generalizing s with
  | nil => simp [pure, Except.pure]
  | cons b l ih =>
    rw [List.foldlM_cons, bind_eq_error_iff]
    constructor
    · rintro (hfirst | ⟨s₁, hs₁, hrest⟩)
      · exact ⟨[], b, l, s, rfl, rfl, hfirst⟩
      · obtain ⟨before, a, after, s', rfl, hbefore, ha⟩ := ih.mp hrest
        refine ⟨b :: before, a, after, s', rfl, ?_, ha⟩
        rw [List.foldlM_cons, hs₁]
        exact hbefore
    · rintro ⟨before, a, after, s', hl, hbefore, ha⟩
      cases before with
      | nil =>
        cases hl
        cases hbefore
        exact .inl ha
      | cons c before =>
        cases hl
        rw [List.foldlM_cons, bind_eq_ok_iff] at hbefore
        obtain ⟨s₁, hs₁, hbefore⟩ := hbefore
        exact .inr ⟨s₁, hs₁, ih.mpr ⟨before, a, after, s', rfl, hbefore, ha⟩⟩

end

/-! ### Sizes that do not fit a word -/

namespace Word

theorem foldlM_mul_eq_error_iff {xs : List Nat} {n : Nat} (hn : n < limit) {o : Overflow} :
    xs.foldlM mul n = .error o ↔ o = .multiply ∧ ∃ k, limit ≤ n * (xs.take k).prod := by
  induction xs generalizing n with
  | nil => simp [pure, Except.pure, hn]
  | cons x xs ih =>
    rw [List.foldlM_cons, mul]
    split
    · next hfits =>
      rw [ok_bind, ih hfits]
      refine and_congr_right fun _ => ⟨?_, ?_⟩
      · rintro ⟨k, hk⟩
        refine ⟨k + 1, ?_⟩
        rwa [List.take_succ_cons, List.prod_cons, ← Nat.mul_assoc]
      · rintro ⟨k, hk⟩
        cases k with
        | zero => simp [Nat.not_le.mpr hn] at hk
        | succ k =>
          refine ⟨k, ?_⟩
          rwa [List.take_succ_cons, List.prod_cons, ← Nat.mul_assoc] at hk
    · next hlarge =>
      refine ⟨?_, ?_⟩
      · intro herror
        cases herror
        exact ⟨rfl, 1, by simpa using hlarge⟩
      · rintro ⟨rfl, -⟩
        rfl

theorem product_eq_error_iff {xs : List Nat} {o : Overflow} :
    product xs = .error o ↔ o = .multiply ∧ ∃ k, limit ≤ (xs.take k).prod := by
  rw [product, foldlM_mul_eq_error_iff (by decide)]
  simp only [Nat.one_mul]

end Word

/-- Some first extents have a product that does not fit a word; a negative extent counts as 0. -/
def Dims.Oversized (dims : Dims) : Prop :=
  ∃ k, Word.limit ≤ ((dims.take k).map fun d => d.toInt.toNat).prod

theorem Tensor.neededLength_eq_error_iff {t : Tensor} {o : Overflow} :
    t.neededLength = .error o ↔ o = .multiply ∧ t.dims.Oversized := by
  have hextent : ∀ d : Int64, (max d 0).toInt.toNat = d.toInt.toNat := by
    intro d
    change (if d ≤ 0 then (0 : Int64) else d).toInt.toNat = _
    split
    · next hle =>
      rw [Int64.le_iff_toInt_le] at hle
      exact (Int.toNat_of_nonpos hle).symm
    · rfl
  rw [neededLength, Word.product_eq_error_iff, Dims.Oversized]
  simp only [hextent, List.map_take]

theorem Graph.checkTensor_eq_fault_iff {name : String} {tensor : Tensor} {f : Fault} :
    checkTensor name tensor = .error (.fault f) ↔
      f = .overflow .multiply ∧ tensor.dims.Oversized := by
  rw [checkTensor, Tensor.lengthError?]
  cases hneeded : tensor.neededLength with
  | error o =>
    obtain ⟨rfl, hdims⟩ := Tensor.neededLength_eq_error_iff.mp hneeded
    constructor
    · intro hfault
      cases hfault
      exact ⟨rfl, hdims⟩
    · rintro ⟨rfl, -⟩
      rfl
  | ok needed =>
    rw [ok_bind]
    constructor
    · intro hfault
      split at hfault
      · next herror => cases herror
      · cases hfault
      · cases hfault
    · rintro ⟨-, hdims⟩
      rw [Tensor.neededLength_eq_error_iff.mpr ⟨rfl, hdims⟩] at hneeded
      cases hneeded

/-! ### Steps that answer -/

namespace Graph

variable {g : Graph}

theorem not_fault_of_answers {ε α : Type} {x : Except (Failure ε) α} (hx : Answers x) (f : Fault) :
    x ≠ .error (.fault f) := by
  intro hfault
  obtain ⟨e, he⟩ := hx _ hfault
  cases he

theorem answers_error {ε α : Type} (e : ε) :
    Answers (.error (.error e) : Except (Failure ε) α) := by
  intro failure hfailure
  cases hfailure
  exact ⟨e, rfl⟩

theorem answers_forM {ε α : Type} {f : α → Except (Failure ε) Unit} {l : List α}
    (hf : ∀ a ∈ l, Answers (f a)) : Answers (l.forM f) := by
  induction l with
  | nil => exact failsAs_ok
  | cons a l ih =>
    rw [List.forall_mem_cons] at hf
    exact failsAs_bind hf.1 fun _ _ => ih hf.2

theorem Indexed.answers_checkOutputs (h : g.Indexed) (outputs : List ArgId) :
    Answers (g.checkOutputs outputs) := by
  refine answers_forM fun a _ => ?_
  split
  · exact answers_error _
  · split
    · next producer hproducer =>
      obtain ⟨node, hnode, -⟩ := h.producer?_eq_some_iff.mp hproducer
      rw [node_eq_ok_iff.mpr hnode]
      exact answers_error _
    · split
      · exact answers_error _
      · exact failsAs_ok

theorem answers_checkInputs (g : Graph) (inputs : List ArgId) : Answers (g.checkInputs inputs) := by
  refine answers_forM fun a _ => ?_
  split
  · exact failsAs_ok
  · exact answers_error _

theorem Indexed.error_of_addNode (h : g.Indexed) {spec : NodeSpec} {failure : Failure GraphError}
    {g' : Graph} (hrun : addNode spec g = .error failure g') : ∃ e, failure = .error e := by
  rw [addNode] at hrun
  generalize (if spec.name = "" then g.freshNodeName spec.key.opType else spec.name) = name at hrun
  split at hrun
  · cases hrun
    exact ⟨_, rfl⟩
  · split at hrun
    · next hfailed =>
      cases hrun
      exact answers_checkInputs g _ _ hfailed
    · next hfailed =>
      cases hrun
      exact h.answers_checkOutputs _ _ hfailed
    · cases hrun

end Graph

namespace Model

open OpGraph.Graph

variable {g : Graph}

theorem answers_lookup (g : Graph) (name : String) : Answers (lookup g name) := by
  rw [lookup]
  split
  · exact failsAs_ok
  · exact answers_error _

theorem answers_lookupSlot (g : Graph) (slot : Option String) : Answers (lookupSlot g slot) := by
  cases slot with
  | none => exact failsAs_ok
  | some name => exact failsAs_map (answers_lookup g name) _

theorem answers_addArg (g : Graph) (arg : ModelArg) : Answers (addArg g arg) := by
  rw [addArg, edit, newArg]
  by_cases hname : arg.name ∈ g.argNames
  · simp only [if_pos hname]
    exact answers_error _
  · simp only [if_neg hname]
    exact failsAs_ok

theorem answers_addInput (g : Graph) (name : String) : Answers (addInput g name) :=
  failsAs_bind (answers_lookup g name) fun _ _ => failsAs_ok

theorem answers_payload (external : Option Bytes) (name : String) (location : DataLocation) :
    Answers (payload external name location) := by
  cases location with
  | inline data => exact failsAs_ok
  | external elem offset length =>
    unfold payload
    dsimp only
    split
    · exact answers_error _
    · split
      · split
        · exact failsAs_ok
        · exact answers_error _
      · exact answers_error _

theorem answers_addNode (h : g.Indexed) (entry : ModelNode) : Answers (addNode g entry) := by
  refine failsAs_bind (failsAs_mapM fun slot _ => answers_lookupSlot g slot) fun inputs _ => ?_
  refine failsAs_bind (failsAs_mapM fun slot _ => answers_lookupSlot g slot) fun outputs _ => ?_
  rw [edit]
  split
  · exact failsAs_ok
  · next failure _ hfailed =>
    obtain ⟨e, rfl⟩ := h.error_of_addNode hfailed
    exact answers_error _

theorem answers_addOutput (h : g.Indexed) (name : String) : Answers (addOutput g name) := by
  refine failsAs_bind (answers_lookup g name) fun a ha => failsAs_of_succeeds ?_
  obtain ⟨arg, harg⟩ := Option.isSome_iff_exists.mp (live_of_lookup h ha)
  rw [Graph.addOutput, arg_eq_ok_iff.mpr harg]
  exact ⟨_, rfl⟩

/-! ### Initializers -/

theorem setInitializer_succeeds (h : Nodeless g) {a : ArgId} (ha : (g.arg? a).isSome)
    (tensor : Tensor) : ∃ g', g.setInitializer a tensor = .ok g' ∧ g'.producers = g.producers := by
  obtain ⟨arg, harg⟩ := Option.isSome_iff_exists.mp ha
  have hfree : ¬(g.producer? a).isSome := by
    rw [producer?, h.2]
    simp
  rw [setInitializer, arg_eq_ok_iff.mpr harg, ok_bind, if_neg hfree, setArgType,
    arg_eq_ok_iff.mpr harg]
  exact ⟨_, rfl, rfl⟩

theorem nodeless_addInitializer {g' : Graph} {external : Option Bytes} {entry : ModelInitializer}
    (h : Nodeless g) (hrun : addInitializer external g entry = .ok g') : Nodeless g' := by
  refine ⟨indexed_addInitializer h.1 hrun, ?_⟩
  simp only [addInitializer, bind_eq_ok_iff, ofFault_eq_ok_iff] at hrun
  obtain ⟨a, ha, data, -, -, -, hset⟩ := hrun
  obtain ⟨g₁, hg₁, hproducers⟩ := setInitializer_succeeds h (live_of_lookup h.1 ha) ⟨entry.dims,
    data⟩
  cases hg₁.symm.trans hset
  exact hproducers.trans h.2

def Supplied (external : Option Bytes) (g : Graph) (entry : ModelInitializer) : Prop :=
  (g.findArg? entry.name).isSome ∧
    ∃ data, payload external entry.name entry.location = .ok data

theorem addInitializer_eq_fault_iff {external : Option Bytes} {entry : ModelInitializer}
    (h : Nodeless g) {f : Fault} : addInitializer external g entry = .error (.fault f) ↔
      f = .overflow .multiply ∧ Supplied external g entry ∧ entry.dims.Oversized := by
  have hlookup := not_fault_of_answers (answers_lookup g entry.name) f
  have hpayload := not_fault_of_answers (answers_payload external entry.name entry.location) f
  simp only [addInitializer, bind_eq_error_iff]
  constructor
  · rintro (hfault | ⟨a, ha, hfault | ⟨data, hdata, hfault | ⟨-, -, hfault⟩⟩⟩)
    · exact absurd hfault hlookup
    · exact absurd hfault hpayload
    · have hcheck : checkTensor entry.name ⟨entry.dims, data⟩ = .error (.fault f) := by
        cases hchecked : checkTensor entry.name ⟨entry.dims, data⟩ with
        | ok u =>
          rw [hchecked] at hfault
          cases hfault
        | error failure =>
          rw [hchecked] at hfault
          cases failure with
          | error e => cases hfault
          | fault f' =>
            cases hfault
            rfl
      obtain ⟨hf, hdims⟩ := checkTensor_eq_fault_iff.mp hcheck
      refine ⟨hf, ⟨?_, data, hdata⟩, hdims⟩
      rw [lookup_eq_ok ha]
      rfl
    · obtain ⟨g', hg', -⟩ := setInitializer_succeeds h (live_of_lookup h.1 ha) ⟨entry.dims, data⟩
      rw [hg'] at hfault
      cases hfault
  · rintro ⟨rfl, ⟨hname, data, hdata⟩, hdims⟩
    obtain ⟨a, ha⟩ := Option.isSome_iff_exists.mp hname
    refine .inr ⟨a, by rw [lookup, ha], .inr ⟨data, hdata, .inl ?_⟩⟩
    rw [checkTensor_eq_fault_iff.mpr ⟨rfl, hdims⟩]
    rfl

/-! ### Whole models -/

def cutTo (m : Model) (initializers : List ModelInitializer) : Model :=
  { m with initializers := initializers, nodes := [], outputs := [] }

section

variable {m : Model} {external : Option Bytes}

theorem toGraph_cutTo (initializers : List ModelInitializer) :
    (m.cutTo initializers).toGraph external =
      (m.cutTo []).toGraph external >>= initializers.foldlM (addInitializer external) := by
  simp only [toGraph, cutTo, List.foldlM_nil, bind_pure, bind_assoc]

theorem toGraph_eq_cutTo : m.toGraph external =
    (m.cutTo m.initializers).toGraph external >>= fun g =>
      m.nodes.foldlM addNode g >>= m.outputs.foldlM addOutput := by
  simp only [toGraph, cutTo, List.foldlM_nil, bind_pure, bind_assoc]

theorem answers_cutTo_nil : Answers ((m.cutTo []).toGraph external) := by
  simp only [toGraph, cutTo, List.foldlM_nil, bind_pure]
  refine failsAs_bind (failsAs_foldlM _ (fun g arg _ => answers_addArg g arg) _) fun g _ => ?_
  exact failsAs_foldlM _ (fun g name _ => answers_addInput g name) g

theorem nodeless_cutTo {initializers : List ModelInitializer} {g : Graph}
    (hrun : (m.cutTo initializers).toGraph external = .ok g) : Nodeless g := by
  simp only [toGraph, cutTo, List.foldlM_nil, bind_pure, bind_eq_ok_iff] at hrun
  obtain ⟨g₁, hargs, g₂, hinputs, hinits⟩ := hrun
  have h₁ : Nodeless g₁ := foldlM_keeps m.args
    (fun arg _ _ _ hs hstep => nodeless_addArg hs hstep) _ _ ⟨indexed_empty m.name, rfl⟩ hargs
  have h₂ : Nodeless g₂ := foldlM_keeps m.inputs
    (fun name _ _ _ hs hstep => nodeless_addInput hs hstep) _ _ h₁ hinputs
  exact foldlM_keeps initializers
    (fun entry _ _ _ hs hstep => nodeless_addInitializer hs hstep) _ _ h₂ hinits

theorem answers_wiring {g : Graph} (h : g.Indexed) (nodes : List ModelNode)
    (outputs : List String) : Answers (nodes.foldlM addNode g >>= outputs.foldlM addOutput) := by
  refine failsAs_bind ?_ fun g' hnodes => ?_
  · exact failsAs_foldlM_of_keeps (Q := Graph.Indexed) nodes
      (fun entry _ _ _ hs hstep => indexed_addNode hs hstep)
      (fun entry _ _ hs => answers_addNode hs entry) h
  · have h' : g'.Indexed := foldlM_keeps nodes
      (fun entry _ _ _ hs hstep => indexed_addNode hs hstep) _ _ h hnodes
    exact failsAs_foldlM_of_keeps (Q := Graph.Indexed) outputs
      (fun name _ _ _ hs hstep => indexed_addOutput hs hstep)
      (fun name _ _ hs => answers_addOutput hs name) h'

theorem toGraph_faults_iff {f : Fault} : m.toGraph external = .error (.fault f) ↔
    (m.cutTo m.initializers).toGraph external = .error (.fault f) := by
  rw [toGraph_eq_cutTo, bind_eq_error_iff]
  refine or_iff_left ?_
  rintro ⟨g, hg, hfault⟩
  exact not_fault_of_answers (answers_wiring (nodeless_cutTo hg).1 m.nodes m.outputs) f hfault

end

/--
A model is answered by a graph or an error, with one exception: reading it reaches an initializer
which is supplied with data, but some first extents of which have a product that does not fit a
word.
-/
theorem toGraph_faults_iff_oversized (m : Model) (external : Option Bytes) (f : Fault) :
    m.toGraph external = .error (.fault f) ↔
      f = .overflow .multiply ∧ ∃ before entry after g,
        m.initializers = before ++ entry :: after ∧
        (m.cutTo before).toGraph external = .ok g ∧ Supplied external g entry ∧
        entry.dims.Oversized := by
  rw [toGraph_faults_iff, toGraph_cutTo, bind_eq_error_iff,
    or_iff_right (not_fault_of_answers answers_cutTo_nil f)]
  constructor
  · rintro ⟨g₀, hg₀, hfault⟩
    obtain ⟨before, entry, after, g, hsplit, hbefore, hentry⟩ := foldlM_eq_error_iff.mp hfault
    have hg : (m.cutTo before).toGraph external = .ok g := by
      rw [toGraph_cutTo, hg₀, ok_bind, hbefore]
    obtain ⟨hf, hsupplied, hdims⟩ := (addInitializer_eq_fault_iff (nodeless_cutTo hg)).mp hentry
    exact ⟨hf, before, entry, after, g, hsplit, hg, hsupplied, hdims⟩
  · rintro ⟨hf, before, entry, after, g, hsplit, hg, hsupplied, hdims⟩
    have hentry := (addInitializer_eq_fault_iff (nodeless_cutTo hg)).mpr ⟨hf, hsupplied, hdims⟩
    rw [toGraph_cutTo, bind_eq_ok_iff] at hg
    obtain ⟨g₀, hg₀, hbefore⟩ := hg
    exact ⟨g₀, hg₀, foldlM_eq_error_iff.mpr ⟨before, entry, after, g, hsplit, hbefore, hentry⟩⟩

/-- A tensor without elements, whose first two extents have a product of `2 ^ 64`. -/
def hollowModel : Model where
  format := formatName
  version := formatVersion
  name := "hollow"
  externalData := none
  inputs := []
  outputs := []
  args := [⟨"w", ⟨.int8, some [4294967296, 4294967296, 0]⟩⟩]
  initializers := [⟨"w", [4294967296, 4294967296, 0], .inline (.int8 [])⟩]
  nodes := []

/-- It holds as many elements as its extents ask for, and yet it is not answered. -/
theorem toGraph_faults_for_hollow :
    (∀ entry ∈ hollowModel.initializers, (entry.dims.map fun d => d.toInt.toNat).prod = 0) ∧
    hollowModel.toGraph none = .error (.fault (.overflow .multiply)) := by
  refine ⟨?_, rfl⟩
  decide

end Model

end OpGraph
