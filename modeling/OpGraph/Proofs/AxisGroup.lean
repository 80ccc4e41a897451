import OpGraph.Proofs.AxisOrder

/-!
The orders of one number of axes as a group under composition, which acts on the dimensions: the
order that leaves every axis in place is its unit, and the order that undoes another one does so
from both sides. Whatever is no permutation, or has another number of axes, is refused.
-/

namespace OpGraph.AxisOrder

variable {n i : Nat} {dims : Dims} {order first second : List Int64}

/-! ### What is refused -/

theorem permute_eq_none_iff :
    permute dims order = none ↔ ¬ isPermutation order = true ∨ dims.length ≠ order.length := by
  simp only [← Option.not_isSome_iff_eq_none, Option.isSome_iff_exists, permute_eq_some_iff,
    exists_and_left, exists_eq, and_true, permutes_iff]
  grind

theorem compose_eq_none_iff :
    compose first second = none ↔
      ¬ isPermutation first = true ∨ ¬ isPermutation second = true ∨
        first.length ≠ second.length := by
  simp only [← Option.not_isSome_iff_eq_none, Option.isSome_iff_exists, compose_eq_some_iff,
    exists_and_left, exists_eq, and_true, permutes_iff]
  grind

/-! ### The unit -/

def identity (n : Nat) : List Int64 :=
  (List.range n).map Int64.ofNat

theorem length_identity (n : Nat) : (identity n).length = n := by
  rw [identity, List.length_map, List.length_range]

theorem isIdentity_identity (n : Nat) : isIdentity (identity n) = true := by
  rw [isIdentity, List.all_eq_true]
  rintro ⟨axis, i⟩ hmem
  rw [List.mem_zipIdx_iff_getElem?] at hmem
  grind [identity]

theorem isIdentity_iff (order : List Int64) :
    isIdentity order = true ↔ order = identity order.length := by
  refine ⟨eq_range_of_isIdentity, fun h => ?_⟩
  rw [h]
  exact isIdentity_identity _

namespace Permutes

variable (h : Permutes n order)

include h

theorem permutes_identity : Permutes n (identity n) := by
  rw [permutes_iff_perm, identity, List.map_map]
  refine .of_eq (List.map_congr_left fun i hi => ?_)
  exact h.toInt_ofNat (List.mem_range.mp hi)

theorem identity_compose : compose (identity n) order = some order := by
  rw [h.permutes_identity.compose_eq h,
    h.permutes_identity.map_entry_identity (isIdentity_identity n) h]

theorem compose_identity : compose order (identity n) = some order := by
  rw [h.compose_eq h.permutes_identity,
    h.permutes_identity.map_entry_eq_self (isIdentity_identity n) h.length_eq]

end Permutes

/-! ### The order that undoes another one -/

/-- The positions at which an order names the axes, from the first axis to the last. -/
def positions (order : List Int64) : List Int64 :=
  (List.range order.length).map fun i => Int64.ofNat (order.idxOf (Int64.ofNat i))

namespace Permutes

variable (h : Permutes n order)

include h

theorem idxOf_lt (hi : i < n) : order.idxOf (Int64.ofNat i) < n := by
  rw [← h.length_eq]
  exact List.idxOf_lt_length_of_mem (h.ofNat_mem hi)

theorem idxOf?_eq (hi : i < n) :
    order.idxOf? (Int64.ofNat i) = some (order.idxOf (Int64.ofNat i)) := by
  cases hpos : order.idxOf? (Int64.ofNat i) with
  | none => exact absurd (h.ofNat_mem hi) (List.idxOf?_eq_none_iff.mp hpos)
  | some pos => rw [List.idxOf_eq_getD_idxOf?, hpos, Option.getD_some]

theorem inverse_eq : inverse order = some (positions order) := by
  rw [inverse, if_pos (permutes_iff.mp h).2]
  apply mapM_eq_pure
  intro i hi
  rw [List.mem_range, h.length_eq] at hi
  rw [h.idxOf?_eq hi]
  rfl

theorem permutes_positions : Permutes n (positions order) := by
  refine ⟨?_, ?_, ?_⟩
  · simp [positions, h.length_eq]
  · intro axis ha
    obtain ⟨i, hi, rfl⟩ := List.mem_map.mp ha
    rw [List.mem_range, h.length_eq] at hi
    have hpos := h.idxOf_lt hi
    rw [h.toInt_ofNat hpos]
    omega
  · refine List.nodup_range.map_on fun i hi j hj heq => ?_
    rw [List.mem_range, h.length_eq] at hi hj
    rwa [h.ofNat_inj (h.idxOf_lt hi) (h.idxOf_lt hj), List.idxOf_inj (h.ofNat_mem hi),
      h.ofNat_inj hi hj] at heq

theorem compose_positions : compose order (positions order) = some (identity n) := by
  rw [h.compose_eq h.permutes_positions, positions, List.map_map, h.length_eq, identity]
  refine congrArg some (List.map_congr_left fun i hi => ?_)
  rw [List.mem_range] at hi
  have hlt := List.idxOf_lt_length_of_mem (h.ofNat_mem hi)
  rw [Function.comp_apply, h.entry_ofNat (h.idxOf_lt hi) hlt, List.getElem_idxOf]

theorem positions_compose : compose (positions order) order = some (identity n) := by
  rw [h.permutes_positions.compose_eq h]
  refine congrArg some (List.ext_getElem ?_ fun i hi hi' => ?_)
  · rw [List.length_map, h.length_eq, length_identity]
  · rw [List.length_map] at hi
    have hmem := List.getElem_mem hi
    have hlt : order[i].toInt.toNat < (positions order).length := by
      rw [h.permutes_positions.length_eq]
      exact h.toNat_lt hmem
    rw [List.getElem_map, entry_eq_getElem hlt]
    simp only [positions, identity, List.getElem_map, List.getElem_range]
    rw [h.ofNat_toNat hmem, h.nodup.idxOf_getElem]

end Permutes

theorem inverse_eq_none_iff : inverse order = none ↔ ¬ isPermutation order = true := by
  constructor
  · intro hnone horder
    rw [(permutes_of_isPermutation horder).inverse_eq] at hnone
    cases hnone
  · intro h
    rw [inverse, if_neg h]

/--
The orders that the test accepts are the rearrangements of the axes. They form a group under
composition, which acts on the dimensions, and nothing else is composed, undone or applied.
-/
theorem permutations_form_group :
    (∀ order : List Int64, isPermutation order = true ↔
      (order.map Int64.toInt).Perm ((List.range order.length).map Int.ofNat)) ∧
    (∀ first second : List Int64, isPermutation first = true → isPermutation second = true →
      first.length = second.length →
      ∃ both, compose first second = some both ∧ isPermutation both = true ∧
        both.length = first.length) ∧
    (∀ first second third : List Int64,
      (compose first second).bind (fun both => compose both third) =
        (compose second third).bind fun both => compose first both) ∧
    (∀ order : List Int64, isIdentity order = true ↔ order = identity order.length) ∧
    (∀ order : List Int64, isPermutation order = true →
      compose (identity order.length) order = some order ∧
        compose order (identity order.length) = some order) ∧
    (∀ order : List Int64, isPermutation order = true →
      ∃ back, inverse order = some back ∧ compose order back = some (identity order.length) ∧
        compose back order = some (identity order.length)) ∧
    (∀ (dims : Dims) (first second : List Int64),
      (permute dims first).bind (fun mid => permute mid second) =
        (compose first second).bind fun both => permute dims both) ∧
    (∀ first second : List Int64, compose first second = none ↔
      ¬ isPermutation first = true ∨ ¬ isPermutation second = true ∨
        first.length ≠ second.length) ∧
    (∀ (dims : Dims) (order : List Int64), permute dims order = none ↔
      ¬ isPermutation order = true ∨ dims.length ≠ order.length) ∧
    (∀ order : List Int64, inverse order = none ↔ ¬ isPermutation order = true) := by
  refine ⟨?_, ?_, compose_assoc, isIdentity_iff, ?_, ?_, permute_permute,
    fun _ _ => compose_eq_none_iff, fun _ _ => permute_eq_none_iff, fun _ => inverse_eq_none_iff⟩
  · intro order
    rw [← permutes_iff_perm, permutes_iff, eq_self, true_and]
  · intro first second hfirst hsecond hlength
    have h₁ := permutes_of_isPermutation hfirst
    have h₂ : Permutes first.length second := permutes_iff.mpr ⟨hlength.symm, hsecond⟩
    obtain ⟨hboth, hpermutation⟩ := permutes_iff.mp (h₁.map_entry h₂)
    exact ⟨_, h₁.compose_eq h₂, hpermutation, hboth⟩
  · intro order horder
    have h := permutes_of_isPermutation horder
    exact ⟨h.identity_compose, h.compose_identity⟩
  · intro order horder
    have h := permutes_of_isPermutation horder
    exact ⟨positions order, h.inverse_eq, h.compose_positions, h.positions_compose⟩

theorem permutations_form_group_rank_three :
    (∃ both, compose [1, 2, 0] [1, 0, 2] = some both ∧ isPermutation both = true ∧
      both.length = 3) ∧
    (compose (identity 3) [1, 2, 0] = some [1, 2, 0] ∧
      compose [1, 2, 0] (identity 3) = some [1, 2, 0]) ∧
    ∃ back, inverse [1, 2, 0] = some back ∧ compose [1, 2, 0] back = some (identity 3) ∧
      compose back [1, 2, 0] = some (identity 3) := by
  obtain ⟨-, hcompose, -, -, hunit, hinverse, -⟩ := permutations_form_group
  have hrotation : isPermutation [1, 2, 0] = true := by decide
  exact ⟨hcompose _ _ hrotation (by decide) rfl, hunit _ hrotation, hinverse _ hrotation⟩

-- Which order comes first matters from three axes on.
example : compose [1, 2, 0] [1, 0, 2] = some [2, 1, 0] := by decide
example : compose [1, 0, 2] [1, 2, 0] = some [0, 2, 1] := by decide

end OpGraph.AxisOrder
