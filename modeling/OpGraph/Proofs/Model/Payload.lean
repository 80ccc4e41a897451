import Mathlib.Data.List.Forall2
import Mathlib.Data.List.Induction
import OpGraph.Model.Basic
import OpGraph.Proofs.Payload

/-!
The tensors of a model. The entries of a model lead back to the tensors they were made from, whether
a tensor is kept in the model itself or at an offset of the external bytes.
-/

namespace OpGraph

namespace Model

def storeTensor (hasExternal : Bool) (threshold : Nat) (stored : List ModelInitializer × Bytes)
    (item : String × Tensor) : List ModelInitializer × Bytes :=
  if hasExternal && threshold < item.2.byteSize then
    let data := item.2.data.toBytes
    let location := .external item.2.elem stored.2.length data.length
    (stored.1 ++ [⟨item.1, item.2.dims, location⟩], stored.2 ++ data)
  else
    (stored.1 ++ [⟨item.1, item.2.dims, .inline item.2.data⟩], stored.2)

def storeTensors (hasExternal : Bool) (threshold : Nat) (items : List (String × Tensor)) :
    List ModelInitializer × Bytes :=
  items.foldl (storeTensor hasExternal threshold) ([], [])

def Supplies (external : Option Bytes) (bytes : Bytes) : Prop :=
  bytes = [] ∨ ∃ all, external = some all ∧ bytes <+: all

structure Recovers (external : Option Bytes) (entry : ModelInitializer) (item : String × Tensor) :
    Prop where
  name : entry.name = item.1
  dims : entry.dims = item.2.dims
  data : payload external entry.name entry.location = .ok item.2.data

theorem Supplies.of_append {external : Option Bytes} {bytes more : Bytes}
    (h : Supplies external (bytes ++ more)) : Supplies external bytes := by
  rcases h with hnil | ⟨all, hall, hprefix⟩
  · exact .inl (List.append_eq_nil_iff.mp hnil).1
  · exact .inr ⟨all, hall, (List.prefix_append bytes more).trans hprefix⟩

theorem payload_external {external : Option Bytes} {before : Bytes} {data : Payload}
    (h : Supplies external (before ++ data.toBytes)) (hne : data.toBytes ≠ []) (name : String) :
    payload external name (.external data.elem before.length data.toBytes.length) = .ok data := by
  rcases h with hnil | ⟨all, rfl, rest, rfl⟩
  · exact absurd (List.append_eq_nil_iff.mp hnil).2 hne
  · have hrange :
        before.length + data.toBytes.length ≤ (before ++ data.toBytes ++ rest).length := by
      rw [List.length_append, List.length_append]
      omega
    have hslice : ((before ++ data.toBytes ++ rest).drop before.length).take data.toBytes.length =
        data.toBytes := by
      rw [List.append_assoc, List.drop_left, List.take_left]
    simp only [payload, if_pos hrange, hslice, Payload.ofBytes?_toBytes]

theorem storeTensors_snoc (hasExternal : Bool) (threshold : Nat) (items : List (String × Tensor))
    (item : String × Tensor) : storeTensors hasExternal threshold (items ++ [item]) =
      storeTensor hasExternal threshold (storeTensors hasExternal threshold items) item := by
  rw [storeTensors, List.foldl_append]
  rfl

theorem storeTensors_inline (threshold : Nat) (items : List (String × Tensor)) :
    (storeTensors false threshold items).2 = [] := by
  induction items using List.reverseRecOn with
  | nil => rfl
  | append_singleton items item ih =>
    rw [storeTensors_snoc]
    exact ih

theorem recovers_storeTensors {hasExternal : Bool} {threshold : Nat} {external : Option Bytes}
    (items : List (String × Tensor))
    (h : Supplies external (storeTensors hasExternal threshold items).2) :
    List.Forall₂ (Recovers external) (storeTensors hasExternal threshold items).1 items := by
  induction items using List.reverseRecOn with
  | nil => exact .nil
  | append_singleton items item ih =>
    rw [storeTensors_snoc, storeTensor] at h ⊢
    split
    · next hlarge =>
      rw [if_pos hlarge] at h
      have hne : item.2.data.toBytes ≠ [] := by
        have hsize : threshold < item.2.byteSize :=
          of_decide_eq_true (Bool.and_eq_true_iff.mp hlarge).2
        rw [ne_eq, ← List.length_eq_zero_iff, Payload.length_toBytes]
        exact Nat.ne_zero_of_lt hsize
      exact List.rel_append (ih h.of_append) (.cons ⟨rfl, rfl, payload_external h hne item.1⟩ .nil)
    · next hsmall =>
      rw [if_neg hsmall] at h
      exact List.rel_append (ih h) (.cons ⟨rfl, rfl, rfl⟩ .nil)

end Model

end OpGraph
