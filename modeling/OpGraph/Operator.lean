import Std.Data.ExtTreeSet

/-!
Operators. A node names its operator by a domain and an operator type; for the operators that passes
build or inspect, a table gives the number of operands.
-/

namespace OpGraph

/-- The name of an operator. The standard operators have the empty domain. -/
structure OpKey where
  domain : String
  opType : String
deriving DecidableEq, Repr

namespace OpKey

def standard (opType : String) : OpKey := ⟨"", opType⟩

/-- The domain of the quantization operators and of fused regions. -/
def extensionDomain : String := "com.graft"

def extension (opType : String) : OpKey := ⟨extensionDomain, opType⟩

/-- The written form of an operator, `domain::type`, or only the type for the standard ones. -/
def text (key : OpKey) : String :=
  if key.domain = "" then key.opType else key.domain ++ "::" ++ key.opType

/-- Operators are ordered by domain, then by type. -/
instance : Ord OpKey :=
  ⟨compareLex (compareOn OpKey.domain) (compareOn OpKey.opType)⟩

theorem compare_def (x y : OpKey) :
    compare x y = compareLex (compareOn OpKey.domain) (compareOn OpKey.opType) x y := rfl

instance : Std.TransOrd OpKey :=
  inferInstanceAs (Std.TransCmp (compareLex (compareOn OpKey.domain) (compareOn OpKey.opType)))

instance : Std.LawfulEqOrd OpKey where
  eq_of_compare := by
    intro x y h
    cases x
    cases y
    simp only [compare_def, compareLex_eq_eq, compareOn, Std.compare_eq_iff_eq] at h
    simp [h.1, h.2]

/-- Rounds a float tensor to integers at a fix-point. -/
def float2fix : OpKey := extension "float2fix"

/-- Takes integers at a fix-point back to floats. -/
def fix2float : OpKey := extension "fix2float"

/-- Rounds a float tensor to the grid of a fix-point and keeps it in floats. -/
def fix : OpKey := extension "fix"

/-- Stands for a fused region. -/
def fusedSubgraph : OpKey := extension "FusedSubgraph"

end OpKey

/-- The attribute that holds the fix-point of a quantization operator. -/
def fixPointAttr : String := "fix_point"

structure Signature where
  key : OpKey
  minInputs : Nat
  /-- The greatest number of operands, or `none` if there is no bound. -/
  maxInputs : Option Nat
  /-- The first output has the type of the first input. -/
  preservesType : Bool
deriving DecidableEq, Repr

namespace Signature

def table : List Signature := [
  ⟨.standard "Identity", 1, some 1, true⟩,
  ⟨.standard "Relu", 1, some 1, true⟩,
  ⟨.standard "Sigmoid", 1, some 1, true⟩,
  ⟨.standard "Tanh", 1, some 1, true⟩,
  ⟨.standard "Neg", 1, some 1, true⟩,
  ⟨.standard "Abs", 1, some 1, true⟩,
  ⟨.standard "Add", 2, some 2, false⟩,
  ⟨.standard "Sub", 2, some 2, false⟩,
  ⟨.standard "Mul", 2, some 2, false⟩,
  ⟨.standard "Div", 2, some 2, false⟩,
  ⟨.standard "MatMul", 2, some 2, false⟩,
  ⟨.standard "Gemm", 2, some 3, false⟩,
  ⟨.standard "Conv", 2, some 3, false⟩,
  ⟨.standard "Concat", 1, none, false⟩,
  ⟨.standard "Transpose", 1, some 1, false⟩,
  ⟨.standard "Reshape", 2, some 2, false⟩,
  ⟨.standard "Constant", 0, some 0, false⟩,
  ⟨.standard "QuantizeLinear", 2, some 3, false⟩,
  ⟨.standard "DequantizeLinear", 2, some 3, false⟩,
  ⟨.standard "LSTM", 3, some 8, false⟩,
  ⟨.float2fix, 1, some 1, true⟩,
  ⟨.fix2float, 1, some 1, true⟩,
  ⟨.fix, 1, some 1, true⟩,
  ⟨.fusedSubgraph, 0, none, false⟩]

/-- The signature of a known operator; unknown ones are accepted with any operands. -/
def find? (key : OpKey) : Option Signature :=
  table.find? fun s => s.key == key

end Signature

end OpGraph
