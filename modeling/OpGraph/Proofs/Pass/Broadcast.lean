import Mathlib.Data.List.Forall2
import OpGraph.Proofs.Graph.Reachable
import OpGraph.Proofs.Pass.Verdict

/-!
What becomes of the extents when an addition of zero is dropped. The zero is repeated along the axes
of the other operand, and the other operand along those of the zero. The rule compares declared
shapes, so only an axis of unknown extent can have been stretched.
-/

namespace OpGraph

/-- A tensor with the extents `s` may have the declared shape; a negative dimension is unknown. -/
def Dims.Admits (dims : Dims) (s : List Nat) : Prop :=
  List.Forall₂ (fun (d : Int64) (n : Nat) => 0 ≤ d.toInt → d.toInt = (n : Int)) dims s

instance (dims : Dims) (s : List Nat) : Decidable (dims.Admits s) :=
  inferInstanceAs (Decidable (List.Forall₂ _ dims s))

/-- The extents of a constant; as for its length, a negative one counts as 0. -/
def Tensor.extents (tensor : Tensor) : List Nat :=
  tensor.dims.map fun d => d.toInt.toNat

def broadcastExtent? (m n : Nat) : Option Nat :=
  if m = n then some m else if m = 1 then some n else if n = 1 then some m else none

def broadcastAxes? : List Nat → List Nat → Option (List Nat)
  | [], t => some t
  | s, [] => some s
  | m :: s, n :: t => do
    let extent ← broadcastExtent? m n
    let rest ← broadcastAxes? s t
    return extent :: rest

/--
The extents of an elementwise operation on two tensors: their axes are paired from the last on.
-/
def broadcast? (s t : List Nat) : Option (List Nat) :=
  (broadcastAxes? s.reverse t.reverse).map List.reverse

/-- An axis of unknown extent holds a single item and meets another extent in `z`. -/
def Dims.Stretches (dims : Dims) (s z : List Nat) : Prop :=
  ∃ (i : Nat) (d : Int64) (n : Nat), dims.reverse[i]? = some d ∧ s.reverse[i]? = some 1 ∧
    z.reverse[i]? = some n ∧ d.toInt < 0 ∧ n ≠ 1

theorem broadcastExtent?_eq_left_iff {d : Int64} {m n e : Nat}
    (hm : 0 ≤ d.toInt → d.toInt = (m : Int))
    (he : 0 ≤ d.toInt → d.toInt = (e : Int)) (hrun : broadcastExtent? m n = some e) :
    e = m ↔ ¬ (m = 1 ∧ d.toInt < 0 ∧ n ≠ 1) := by
  unfold broadcastExtent? at hrun
  split at hrun
  · cases hrun
    omega
  · split at hrun
    · cases hrun
      omega
    · split at hrun
      · cases hrun
        omega
      · cases hrun

theorem broadcastAxes?_eq_left_iff {dims : Dims} {s : List Nat} (hs : dims.Admits s) :
    ∀ {z t : List Nat}, broadcastAxes? s z = some t → dims.Admits t →
      (t = s ↔ ¬ ∃ (i : Nat) (d : Int64) (n : Nat), dims[i]? = some d ∧ s[i]? = some 1 ∧
        z[i]? = some n ∧ d.toInt < 0 ∧ n ≠ 1) := by
  induction hs with
  | nil =>
    intro z t _ ht
    cases ht
    simp
  | @cons d m dims s hm _ ih =>
    intro z t hrun ht
    cases z with
    | nil =>
      cases hrun
      simp
    | cons n z =>
      simp only [broadcastAxes?, Option.bind_eq_bind, Option.bind_eq_some_iff] at hrun
      obtain ⟨e, hextent, rest, hrest, heq⟩ := hrun
      cases heq
      obtain ⟨he, ht⟩ := List.forall₂_cons.mp ht
      have hhead := broadcastExtent?_eq_left_iff hm he hextent
      have htail := ih hrest ht
      rw [List.cons.injEq, hhead, htail, ← not_or, not_iff_not]
      constructor
      · rintro (⟨rfl, hunknown, hn⟩ | ⟨i, d', n', hd, hone, hn', hunknown, hne⟩)
        · exact ⟨0, d, n, rfl, rfl, rfl, hunknown, hn⟩
        · exact ⟨i + 1, d', n', hd, hone, hn', hunknown, hne⟩
      · rintro ⟨i, d', n', hd, hone, hn', hunknown, hne⟩
        cases i with
        | zero =>
          cases hd
          cases hone
          cases hn'
          exact .inl ⟨rfl, hunknown, hne⟩
        | succ i => exact .inr ⟨i, d', n', hd, hone, hn', hunknown, hne⟩

theorem broadcast?_eq_left_iff {dims : Dims} {s z t : List Nat} (hs : dims.Admits s)
    (hrun : broadcast? s z = some t) (ht : dims.Admits t) : t = s ↔ ¬ dims.Stretches s z := by
  rw [broadcast?, Option.map_eq_some_iff] at hrun
  obtain ⟨r, haxes, rfl⟩ := hrun
  have hr : Dims.Admits dims.reverse r := by
    have hreverse := List.rel_reverse ht
    rwa [List.reverse_reverse] at hreverse
  rw [List.reverse_eq_iff]
  exact broadcastAxes?_eq_left_iff (List.rel_reverse hs) haxes hr

structure Graph.AddsZero (g : Graph) (add : NodeId) (x zero out : ArgId) (tensor : Tensor) :
    Prop where
  node : ∃ node, g.node? add = some node ∧ node.key = .standard "Add" ∧
    (node.inputs = [some x, some zero] ∨ node.inputs = [some zero, some x]) ∧
    node.output? 0 = some out
  value : g.constantValue? zero = .ok (some tensor)
  isAllZero : tensor.isAllZero = true

instance (g : Graph) (add : NodeId) (x zero out : ArgId) (tensor : Tensor) :
    Decidable (g.AddsZero add x zero out tensor) :=
  decidable_of_iff ((∃ node ∈ g.node? add, node.key = .standard "Add" ∧
      (node.inputs = [some x, some zero] ∨ node.inputs = [some zero, some x]) ∧
      node.output? 0 = some out) ∧
    (g.constantValue? zero).toOption = some (some tensor) ∧ tensor.isAllZero = true)
    ⟨fun h => ⟨h.1, eq_ok_of_mem_toOption h.2.1, h.2.2⟩,
      fun h => ⟨h.node, by rw [h.value]; rfl, h.isAllZero⟩⟩

theorem Graph.exists_of_isZero {g : Graph} {zero : ArgId} (h : g.isZero zero = .ok true) :
    ∃ tensor, g.constantValue? zero = .ok (some tensor) ∧ tensor.isAllZero = true := by
  simp only [isZero, bind_eq_ok_iff, pure_eq_ok_iff] at h
  obtain ⟨value, hvalue, hzero⟩ := h
  cases value with
  | none => cases hzero
  | some tensor => exact ⟨tensor, hvalue, hzero⟩

namespace RulePass

theorem addZeroPattern_eq : addZeroPattern =
    .ok ⟨#[.wildcard, .constant, .commutable (.standard "Add") ⟨0⟩ ⟨1⟩],
      #[some "x", some "zero", some "add"], ⟨2⟩⟩ :=
  rfl

variable {g g' : Graph} {id : NodeId} {m : Match} {pattern : Pattern}

theorem addsZero_of_bypassAddZero (hpattern : addZeroPattern = .ok pattern)
    (hmatch : pattern.matchNode g id = .ok (some m)) (pass : String) {counter : String}
    (hrun : Action.bypassAddZero pass m g = .ok (some counter, g')) :
    ∃ add x zero out tensor dims, m.namedNode? "add" = some add ∧ m.namedArg? "x" = some x ∧
      g.AddsZero add x zero out tensor ∧ g.shape? x = some dims ∧ g.shape? out = some dims ∧
      g.bypass add out x = .ok (true, g') := by
  obtain rfl := Except.ok.inj (addZeroPattern_eq.symm.trans hpattern)
  obtain ⟨-, arg, -, -, hm⟩ := Pattern.matchNode_sound (by decide) hmatch
  obtain ⟨x, zero, add, node, out, dims, hx, hzero, hadd, hisZero, hnode, hout, hdims, hdims', -,
    hbypass⟩ := bypassAddZero_eq_some hrun
  obtain ⟨tensor, hvalue, hall⟩ := Graph.exists_of_isZero hisZero
  -- The pattern was matched at the same node, whatever the order of its inputs.
  obtain ⟨kind, hkind, hholds⟩ := hm.holds _ _ hm.root
  cases hkind
  obtain ⟨producer, node', b, c, hproducer, hnode', hkey, hinputs, hbound⟩ := hholds
  obtain rfl : producer = add := by
    rw [hm.namedNode?_eq "add" rfl, hm.node _ _ hm.root, hproducer] at hadd
    exact Option.some.inj hadd
  cases hnode.symm.trans hnode'
  have horder : node.inputs = [some x, some zero] ∨ node.inputs = [some zero, some x] := by
    rw [hm.namedArg?_eq "x" rfl] at hx
    rw [hm.namedArg?_eq "zero" rfl] at hzero
    rw [hx, hzero] at hbound
    obtain ⟨hb, hc⟩ | ⟨hc, hb⟩ := hbound
    · rw [hinputs, hb, hc]
      exact .inl rfl
    · rw [hinputs, hb, hc]
      exact .inr rfl
  exact ⟨producer, x, zero, out, tensor, dims, hadd, hx,
    ⟨⟨node, hnode, hkey, horder, hout⟩, hvalue, hall⟩, hdims, hdims', hbypass⟩

/--
An addition of zero that is dropped had the extents of its other operand, unless the zero repeated
that operand along an axis whose extent is not declared.
-/
theorem dropped_addition_keeps_extents_iff (hpattern : addZeroPattern = .ok pattern)
    (hmatch : pattern.matchNode g id = .ok (some m)) {ctx ctx' : PassContext}
    (hrun : (RuleSpec.toRule ⟨"add_zero", addZeroPattern, Action.bypassAddZero⟩ pattern).action m g
      ctx = .ok (true, g', ctx')) :
    ∃ add x zero out tensor dims, m.namedNode? "add" = some add ∧ m.namedArg? "x" = some x ∧
      g.AddsZero add x zero out tensor ∧ g.shape? x = some dims ∧ g.shape? out = some dims ∧
      g.bypass add out x = .ok (true, g') ∧
      ∀ s t, dims.Admits s → broadcast? s tensor.extents = some t → dims.Admits t →
        (t = s ↔ ¬ dims.Stretches s tensor.extents) := by
  obtain ⟨deed, hact, hfired, -⟩ := RuleSpec.action_eq_ok_iff.mp hrun
  obtain ⟨counter, rfl⟩ := Option.isSome_iff_exists.mp hfired.symm
  obtain ⟨add, x, zero, out, tensor, dims, hadd, hx, haddsZero, hshape, hshape', hbypass⟩ :=
    addsZero_of_bypassAddZero hpattern hmatch ctx.pass hact
  refine ⟨add, x, zero, out, tensor, dims, hadd, hx, haddsZero, hshape, hshape', hbypass, ?_⟩
  intro s t hs ht hadmits
  exact broadcast?_eq_left_iff hs ht hadmits

def noBias : Tensor :=
  ⟨[3], .float32 [⟨0⟩, ⟨0⟩, ⟨0⟩]⟩

def biasEdits (dims : Dims) : List Graph.Mutation :=
  [.addInput "x" ⟨.float32, some dims⟩, .addInitializer "bias" noBias,
    .newArg "sum" ⟨.float32, some dims⟩, .newArg "y" ⟨.float32, some dims⟩,
    .addNode ⟨"add", .standard "Add", [some ⟨0⟩, some ⟨1⟩], [some ⟨2⟩], ∅⟩,
    .addNode ⟨"relu", .standard "Relu", [some ⟨2⟩], [some ⟨3⟩], ∅⟩, .addOutput ⟨3⟩]

theorem biasEdits_fires : ∀ dims ∈ ([[-1, 3], [-1]] : List Dims), ∃ g pattern m g' ctx',
    (Graph.empty "bias").runAll (biasEdits dims) = .ok g ∧ addZeroPattern = .ok pattern ∧
    pattern.matchNode g ⟨0⟩ = .ok (some m) ∧
    (RuleSpec.toRule ⟨"add_zero", addZeroPattern, Action.bypassAddZero⟩ pattern).action m g
      ⟨"fold_add_zero", ∅⟩ = .ok (true, g', ctx') ∧
    g.AddsZero ⟨0⟩ ⟨0⟩ ⟨1⟩ ⟨2⟩ noBias ∧ g.shape? ⟨0⟩ = some dims ∧ g.shape? ⟨2⟩ = some dims := by
  have hruns : ∀ dims ∈ ([[-1, 3], [-1]] : List Dims),
      ∃ g ∈ ((Graph.empty "bias").runAll (biasEdits dims)).toOption,
      ∃ pattern ∈ addZeroPattern.toOption, ∃ m ∈ (pattern.matchNode g ⟨0⟩).toOption.join,
      ∃ outcome ∈ ((RuleSpec.toRule ⟨"add_zero", addZeroPattern, Action.bypassAddZero⟩
        pattern).action m g ⟨"fold_add_zero", ∅⟩).toOption, outcome.1 = true ∧
      g.AddsZero ⟨0⟩ ⟨0⟩ ⟨1⟩ ⟨2⟩ noBias ∧ g.shape? ⟨0⟩ = some dims ∧ g.shape? ⟨2⟩ = some dims := by
    decide +kernel
  intro dims hdims
  obtain ⟨g, hg, pattern, hpattern, m, hm, ⟨_, g', ctx'⟩, hrun, rfl, hfacts⟩ := hruns dims hdims
  exact ⟨g, pattern, m, g', ctx', eq_ok_of_mem_toOption hg, eq_ok_of_mem_toOption hpattern,
    eq_ok_of_mem_toOption (Option.join_eq_some_iff.mp hm), eq_ok_of_mem_toOption hrun,
    hfacts⟩

/-- The zeros stand along an axis that is declared, so the extents are kept. -/
theorem dropped_addition_keeps_extents_iff_bias :
    ∃ g pattern m g' ctx', (Graph.empty "bias").runAll (biasEdits [-1, 3]) = .ok g ∧
      pattern.matchNode g ⟨0⟩ = .ok (some m) ∧
      (RuleSpec.toRule ⟨"add_zero", addZeroPattern, Action.bypassAddZero⟩ pattern).action m g
        ⟨"fold_add_zero", ∅⟩ = .ok (true, g', ctx') ∧
      ∃ add x zero out tensor dims, g.AddsZero add x zero out tensor ∧ g.shape? x = some dims ∧
        g.shape? out = some dims ∧
        ∀ s t, dims.Admits s → broadcast? s tensor.extents = some t → dims.Admits t →
          (t = s ↔ ¬ dims.Stretches s tensor.extents) := by
  obtain ⟨g, pattern, m, g', ctx', hg, hpattern, hmatch, hrun, -⟩ :=
    biasEdits_fires [-1, 3] List.mem_cons_self
  obtain ⟨add, x, zero, out, tensor, dims, -, -, hadds, hx, hout, -, hextents⟩ :=
    dropped_addition_keeps_extents_iff hpattern hmatch hrun
  exact ⟨g, pattern, m, g', ctx', hg, hmatch, hrun, add, x, zero, out, tensor, dims, hadds, hx,
    hout, hextents⟩

/--
Three zeros turn a single item of an undeclared extent into three; the sum is dropped all the same.
-/
theorem dropped_addition_loses_extents :
    ∃ g pattern m g' ctx', (Graph.empty "bias").runAll (biasEdits [-1]) = .ok g ∧
      addZeroPattern = .ok pattern ∧ pattern.matchNode g ⟨0⟩ = .ok (some m) ∧
      (RuleSpec.toRule ⟨"add_zero", addZeroPattern, Action.bypassAddZero⟩ pattern).action m g
        ⟨"fold_add_zero", ∅⟩ = .ok (true, g', ctx') ∧
      g.AddsZero ⟨0⟩ ⟨0⟩ ⟨1⟩ ⟨2⟩ noBias ∧ g.shape? ⟨0⟩ = some [-1] ∧ g.shape? ⟨2⟩ = some [-1] ∧
      Dims.Admits [-1] [1] ∧ broadcast? [1] noBias.extents = some [3] ∧ Dims.Admits [-1] [3] := by
  obtain ⟨g, pattern, m, g', ctx', hg, hpattern, hmatch, hrun, hadds, hx, hsum⟩ :=
    biasEdits_fires [-1] (List.mem_cons_of_mem _ List.mem_cons_self)
  exact ⟨g, pattern, m, g', ctx', hg, hpattern, hmatch, hrun, hadds, hx, hsum, by decide, by decide,
    by decide⟩

end RulePass

end OpGraph
