import OpGraph.Pass.FixPoint
import OpGraph.Pass.Reshaping
import OpGraph.Proofs.Meaning.Rewiring

/-!
Laws of the operators that rewrites rely on, and the values that nodes give their outputs.
-/

namespace OpGraph

open RulePass (permAttr allowZeroAttr)

def Attrs.only (name : String) (value : Attr) : Attrs :=
  Std.ExtTreeMap.insert ∅ name value

namespace Interpretation

variable {V : Type}

/--
The laws. A scale is a constant with one element that is a power of two, a zero point an `int8`
constant that is zero everywhere; their dimensions do not matter.
-/
structure Lawful (I : Interpretation V) : Prop where
  identity : ∀ attrs x, I.apply (.standard "Identity") attrs [x] = x
  fix2float_float2fix : ∀ (attrs attrs' : Attrs) a x, attrs[fixPointAttr]? = some (.int a) →
    attrs'[fixPointAttr]? = some (.int a) →
    I.apply .fix2float attrs' [I.apply .float2fix attrs [x]] =
      I.apply .fix (.only fixPointAttr (.int a)) [x]
  float2fix_fix2float : ∀ (attrs attrs' : Attrs) a x, attrs[fixPointAttr]? = some (.int a) →
    attrs'[fixPointAttr]? = some (.int a) →
    I.apply .float2fix attrs' [I.apply .fix2float attrs [x]] = x
  fix_fix : ∀ (attrs attrs' : Attrs) a x, attrs[fixPointAttr]? = some (.int a) →
    attrs'[fixPointAttr]? = some (.int a) →
    I.apply .fix attrs' [I.apply .fix attrs [x]] = I.apply .fix attrs [x]
  dequantize_quantize : ∀ attrs attrs' x (scale : Single) (k : Nat) (e : Int) dims dims' zeroDims
    zeroDims' n n', scale.value = .finite false (2 ^ k) e →
    I.apply (.standard "DequantizeLinear") attrs'
      [I.apply (.standard "QuantizeLinear") attrs
        [x, I.const ⟨dims, .float32 [scale]⟩, I.const ⟨zeroDims, .int8 (List.replicate n 0)⟩],
       I.const ⟨dims', .float32 [scale]⟩, I.const ⟨zeroDims', .int8 (List.replicate n' 0)⟩] =
      I.apply .fix (.only fixPointAttr (.int (Int64.ofInt (-(e + k))))) [x]
  transpose_transpose : ∀ (attrs attrs' : Attrs) first second order x,
    attrs[permAttr]? = some (.ints first) → attrs'[permAttr]? = some (.ints second) →
    AxisOrder.compose first second = some order →
    I.apply (.standard "Transpose") attrs' [I.apply (.standard "Transpose") attrs [x]] =
      I.apply (.standard "Transpose") (.only permAttr (.ints order)) [x]
  transpose_identity : ∀ n x, I.apply (.standard "Transpose")
    (.only permAttr (.ints ((List.range n).map Int64.ofNat))) [x] = x
  reshape_reshape : ∀ (attrs attrs' : Attrs) x target dims values,
    0 ∉ values ∨ attrs'[allowZeroAttr]? = some (.int 1) →
    I.apply (.standard "Reshape") attrs'
      [I.apply (.standard "Reshape") attrs [x, target], I.const ⟨dims, .int64 values⟩] =
      I.apply (.standard "Reshape") attrs' [x, I.const ⟨dims, .int64 values⟩]
  float2fix_const : ∀ (attrs : Attrs) a dims values, attrs[fixPointAttr]? = some (.int a) →
    I.apply .float2fix attrs [I.const ⟨dims, .float32 values⟩] =
      I.const ⟨dims, .int8 (values.map (RulePass.quantize a))⟩
  constant : ∀ (attrs : Attrs) operands tensor, attrs["value"]? = some (.tensor tensor) →
    I.op (.standard "Constant") attrs operands 0 = I.const tensor

/--
Tensors by the number of their elements. A `Concat` adds them up, and all the operators above but
`Constant` hand on that of their first operand.
-/
def counting : Interpretation Nat where
  op key attrs operands _ :=
    if key = .standard "Constant" then
      ((attrs["value"]?).bind Attr.tensor?).elim 0 Tensor.length
    else if key = .standard "Concat" then
      (operands 0).getD 0 + (operands 1).getD 0
    else
      (operands 0).getD 0
  const := Tensor.length

theorem lawful_counting : counting.Lawful where
  identity _ _ := rfl
  fix2float_float2fix _ _ _ _ _ _ := rfl
  float2fix_fix2float _ _ _ _ _ _ := rfl
  fix_fix _ _ _ _ _ _ := rfl
  dequantize_quantize _ _ _ _ _ _ _ _ _ _ _ _ _ := rfl
  transpose_transpose _ _ _ _ _ _ _ _ _ := rfl
  transpose_identity _ _ := rfl
  reshape_reshape _ _ _ _ _ _ _ := rfl
  float2fix_const _ _ _ values _ := (List.length_map _).symm
  constant attrs _ tensor hattr := by
    simp only [counting, if_true, hattr]
    rfl

end Interpretation

theorem Node.attrInt?_eq_some_iff {node : Node} {name : String} {a : Int64} :
    node.attrInt? name = some a ↔ node.attrs[name]? = some (.int a) := by
  rw [attrInt?, attr?, Option.bind_eq_some_iff]
  constructor
  · rintro ⟨attr, hattr, hint⟩
    cases attr <;> cases hint
    exact hattr
  · exact fun hattr => ⟨_, hattr, rfl⟩

theorem Node.attrInts?_eq_some_iff {node : Node} {name : String} {values : List Int64} :
    node.attrInts? name = some values ↔ node.attrs[name]? = some (.ints values) := by
  rw [attrInts?, attr?, Option.bind_eq_some_iff]
  constructor
  · rintro ⟨attr, hattr, hints⟩
    cases attr <;> cases hints
    exact hattr
  · exact fun hattr => ⟨_, hattr, rfl⟩

def ruleKeys : List OpKey :=
  [.standard "Identity", .standard "Add", .standard "QuantizeLinear", .standard "DequantizeLinear",
    .float2fix, .fix2float, .fix, .standard "Transpose", .standard "Reshape", .standard "Constant"]

namespace Graph

variable {V : Type} {I : Interpretation V} {ρ : ArgId → V} {g : Graph}

structure Emits (g : Graph) (id : NodeId) (node : Node) (key : OpKey) (args : List ArgId)
    (a : ArgId) : Prop where
  produced : g.producer? a = some id
  live : g.node? id = some node
  operator : node.key = key
  reads : ∀ i, node.input? i = args[i]?

theorem SingleOutput.output?_zero {keys : List OpKey} (hsingle : g.SingleOutput keys)
    (h : g.Indexed) {a : ArgId} {id : NodeId} {node : Node} (hproducer : g.producer? a = some id)
    (hnode : g.node? id = some node) (hkey : node.key ∈ keys) : node.output? 0 = some a := by
  obtain ⟨node', hnode', hmem⟩ := h.producer?_eq_some_iff.mp hproducer
  cases hnode.symm.trans hnode'
  obtain ⟨slot, hslot⟩ := Node.mem_presentOutputs_iff.mp hmem
  cases slot with
  | zero => exact hslot
  | succ slot =>
    rw [hsingle id node hnode hkey (slot + 1) (by omega)] at hslot
    cases hslot

theorem SingleOutput.eq_of_producer? {keys : List OpKey} (hsingle : g.SingleOutput keys)
    (h : g.Indexed) {a : ArgId} {id : NodeId} {node : Node} (hproducer : g.producer? a = some id)
    (hnode : g.node? id = some node) (hkey : node.key ∈ keys) {b : ArgId}
    (hb : g.producer? b = some id) : b = a := by
  have ha := hsingle.output?_zero h hproducer hnode hkey
  rw [hsingle.output?_zero h hb hnode hkey] at ha
  exact Option.some.inj ha

theorem bind_getElem?_of_map {ν : ArgId → Option V} {args : List ArgId} {values : List V}
    (hvalues : args.map ν = values.map some) (i : Nat) : args[i]?.bind ν = values[i]? := by
  have hi : (args.map ν)[i]? = (values.map some)[i]? := by rw [hvalues]
  rw [List.getElem?_map, List.getElem?_map] at hi
  cases harg : args[i]? with
  | none =>
    cases hvalue : values[i]? with
    | none => rfl
    | some v =>
      rw [harg, hvalue] at hi
      cases hi
  | some b =>
    cases hvalue : values[i]? with
    | none =>
      rw [harg, hvalue] at hi
      cases hi
    | some v =>
      rw [harg, hvalue] at hi
      exact Option.some.inj hi

namespace Solution

variable {ν : ArgId → Option V} (hν : g.Solution I ρ ν) (h : g.Indexed)

include hν h

theorem exists_value {a : ArgId} (ha : g.hasSource a = true) : ∃ v, ν a = some v := by
  rcases hasSource_iff.mp ha with ⟨id, hid⟩ | hrest
  · obtain ⟨node, hnode, hmem⟩ := h.producer?_eq_some_iff.mp hid
    obtain ⟨slot, hslot⟩ := Node.mem_presentOutputs_iff.mp hmem
    exact ⟨_, hν.output id node slot a hnode hslot⟩
  · by_cases hinit : a ∈ g.initializers
    · obtain ⟨tensor, htensor⟩ := Option.isSome_iff_exists.mp
        (Std.ExtTreeMap.mem_iff_isSome_getElem?.mp hinit)
      exact ⟨_, hν.initializer a tensor htensor⟩
    · exact ⟨_, hν.input a (hrest.resolve_right hinit) hinit⟩

variable {keys : List OpKey} (hsingle : g.SingleOutput keys)

include hsingle

theorem emitted {id : NodeId} {node : Node} {key : OpKey} {args : List ArgId} {a : ArgId}
    (ha : g.Emits id node key args a) (hkey : key ∈ keys) (values : List V)
    (hvalues : args.map ν = values.map some) : ν a = some (I.apply key node.attrs values) := by
  have hslot := hsingle.output?_zero h ha.produced ha.live (by rwa [ha.operator])
  rw [hν.output id node 0 a ha.live hslot, ha.operator, Interpretation.apply]
  congr 3
  funext i
  rw [ha.reads i]
  exact bind_getElem?_of_map hvalues i

theorem constantValue (hI : I.Lawful) (hkeys : .standard "Constant" ∈ keys) {a : ArgId}
    {tensor : Tensor} (ha : g.constantValue? a = .ok (some tensor)) :
    ν a = some (I.const tensor) := by
  rw [constantValue?] at ha
  split at ha
  · next t ht =>
    cases ha
    exact hν.initializer a tensor ht
  · split at ha
    · cases ha
    · next producer hproducer =>
      rw [bind_eq_ok_iff] at ha
      obtain ⟨node, hnode, ha⟩ := ha
      rw [node_eq_ok_iff] at hnode
      split at ha
      · next hkey =>
        rw [pure_eq_ok_iff, Option.bind_eq_some_iff] at ha
        obtain ⟨attr, hattr, htensor⟩ := ha
        have hattr : node.attrs["value"]? = some (.tensor tensor) := by
          cases attr <;> cases htensor
          exact hattr
        have hslot := hsingle.output?_zero h hproducer hnode (by rwa [hkey])
        rw [hν.output producer node 0 a hnode hslot, hkey, hI.constant node.attrs _ tensor hattr]
      · cases ha

end Solution

end Graph

end OpGraph
