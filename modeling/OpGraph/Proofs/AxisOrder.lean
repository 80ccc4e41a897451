import Mathlib.Data.List.GetD
import Mathlib.Data.List.Nodup
import Mathlib.Data.List.Perm.Subperm
import OpGraph.AxisOrder
import OpGraph.Proofs.Sequence

/-!
The algebra of axis orders. The orders of one number of axes are its permutations: they compose to
another one, in any grouping, and the order that leaves every axis in place changes nothing. An
order that is no permutation composes with no other.
-/

namespace OpGraph.AxisOrder

variable {n : Nat} {axis : Int64} {xs first second order : List Int64}

def entry (xs : List Int64) (axis : Int64) : Int64 :=
  xs.getD axis.toInt.toNat 0

structure Permutes (n : Nat) (order : List Int64) : Prop where
  length_eq : order.length = n
  bounded : ∀ axis ∈ order, 0 ≤ axis.toInt ∧ axis.toInt < n
  nodup : order.Nodup

theorem permutes_iff : Permutes n order ↔ order.length = n ∧ isPermutation order = true := by
  simp only [isPermutation, Bool.and_eq_true, List.all_eq_true, decide_eq_true_eq]
  constructor
  · intro h
    rw [h.length_eq]
    exact ⟨rfl, h.bounded, h.nodup⟩
  · rintro ⟨rfl, hbounded, hnodup⟩
    exact ⟨rfl, hbounded, hnodup⟩

theorem permutes_of_isPermutation (h : isPermutation order = true) : Permutes order.length order :=
  permutes_iff.mpr ⟨rfl, h⟩

theorem Permutes.toNat_lt (h : Permutes n order) (ha : axis ∈ order) : axis.toInt.toNat < n := by
  have := h.bounded axis ha
  omega

theorem entry_eq_getElem (h : axis.toInt.toNat < xs.length) :
    entry xs axis = xs[axis.toInt.toNat] := by
  rw [entry, List.getD_eq_getElem]

theorem select_eq_map (h : ∀ axis ∈ order, axis.toInt.toNat < xs.length) :
    select xs order = some (order.map (entry xs)) := by
  apply mapM_eq_pure
  intro axis ha
  rw [List.getElem?_eq_getElem (h axis ha), entry_eq_getElem (h axis ha)]
  rfl

theorem permute_eq_some_iff {dims out : Dims} :
    permute dims order = some out ↔ Permutes dims.length order ∧ out = order.map (entry dims) := by
  rw [permute]
  split
  · next h =>
    have hpermutes : Permutes dims.length order := permutes_iff.mpr ⟨h.1.symm, h.2⟩
    rw [select_eq_map fun axis ha => hpermutes.toNat_lt ha, Option.some.injEq, eq_comm]
    exact ⟨fun hout => ⟨hpermutes, hout⟩, fun hout => hout.2⟩
  · next h =>
    constructor
    · intro hnone
      cases hnone
    · rintro ⟨hpermutes, -⟩
      exact absurd ⟨hpermutes.length_eq.symm, (permutes_iff.mp hpermutes).2⟩ h

theorem compose_eq_some_iff {both : List Int64} :
    compose first second = some both
      ↔
    (∃ n, Permutes n first ∧ Permutes n second) ∧ both = second.map (entry first) := by
  rw [compose]
  split
  · next h =>
    obtain ⟨hlength, hfirst, hsecond⟩ := h
    have hpermutes : Permutes first.length second := permutes_iff.mpr ⟨hlength.symm, hsecond⟩
    rw [select_eq_map fun axis ha => hpermutes.toNat_lt ha, Option.some.injEq, eq_comm]
    exact ⟨fun h => ⟨⟨_, permutes_of_isPermutation hfirst, hpermutes⟩, h⟩, fun h => h.2⟩
  · next h =>
    constructor
    · intro hnone
      cases hnone
    · rintro ⟨⟨n, hfirst, hsecond⟩, -⟩
      refine absurd ⟨?_, (permutes_iff.mp hfirst).2, (permutes_iff.mp hsecond).2⟩ h
      rw [hfirst.length_eq, hsecond.length_eq]

theorem Permutes.compose_eq (hfirst : Permutes n first) (hsecond : Permutes n second) :
    compose first second = some (second.map (entry first)) :=
  compose_eq_some_iff.mpr ⟨⟨n, hfirst, hsecond⟩, rfl⟩

theorem Permutes.map_entry (hfirst : Permutes n first) (hsecond : Permutes n second) :
    Permutes n (second.map (entry first)) := by
  have hlt : ∀ axis ∈ second, axis.toInt.toNat < first.length := by
    intro axis ha
    rw [hfirst.length_eq]
    exact hsecond.toNat_lt ha
  refine ⟨?_, ?_, ?_⟩
  · rw [List.length_map, hsecond.length_eq]
  · rw [List.forall_mem_map]
    intro axis ha
    rw [entry_eq_getElem (hlt axis ha)]
    exact hfirst.bounded _ (List.getElem_mem _)
  · apply hsecond.nodup.map_on
    intro a ha b hb heq
    rw [entry_eq_getElem (hlt a ha), entry_eq_getElem (hlt b hb),
      hfirst.nodup.getElem_inj_iff] at heq
    have := hsecond.bounded a ha
    have := hsecond.bounded b hb
    apply Int64.toInt_inj.mp
    omega

theorem map_entry_map (hfirst : first.length = n) (hsecond : Permutes n second) :
    second.map (entry (first.map (entry xs))) = (second.map (entry first)).map (entry xs) := by
  rw [List.map_map]
  apply List.map_congr_left
  intro axis ha
  have hlt : axis.toInt.toNat < first.length := by
    rw [hfirst]
    exact hsecond.toNat_lt ha
  rw [Function.comp_apply, entry_eq_getElem hlt, entry_eq_getElem (by rwa [List.length_map]),
    List.getElem_map]

theorem compose_assoc (first second third : List Int64) :
    (compose first second).bind (fun both => compose both third) =
      (compose second third).bind fun both => compose first both := by
  apply Option.ext
  intro out
  simp only [Option.bind_eq_some_iff, compose_eq_some_iff]
  constructor
  · rintro ⟨_, ⟨⟨n, hfirst, hsecond⟩, rfl⟩, ⟨m, hboth, hthird⟩, rfl⟩
    obtain rfl : n = m := (hfirst.map_entry hsecond).length_eq.symm.trans hboth.length_eq
    exact ⟨_, ⟨⟨n, hsecond, hthird⟩, rfl⟩, ⟨n, hfirst, hsecond.map_entry hthird⟩,
      map_entry_map hsecond.length_eq hthird⟩
  · rintro ⟨_, ⟨⟨n, hsecond, hthird⟩, rfl⟩, ⟨m, hfirst, hboth⟩, rfl⟩
    obtain rfl : n = m := (hsecond.map_entry hthird).length_eq.symm.trans hboth.length_eq
    exact ⟨_, ⟨⟨n, hfirst, hsecond⟩, rfl⟩, ⟨n, hfirst.map_entry hsecond, hthird⟩,
      (map_entry_map hsecond.length_eq hthird).symm⟩

theorem permute_permute (dims : Dims) (first second : List Int64) :
    (permute dims first).bind (fun mid => permute mid second) =
      (compose first second).bind fun both => permute dims both := by
  apply Option.ext
  intro out
  simp only [Option.bind_eq_some_iff, compose_eq_some_iff, permute_eq_some_iff]
  constructor
  · rintro ⟨_, ⟨hfirst, rfl⟩, hsecond, rfl⟩
    rw [List.length_map, hfirst.length_eq] at hsecond
    exact ⟨_, ⟨⟨_, hfirst, hsecond⟩, rfl⟩, hfirst.map_entry hsecond,
      map_entry_map hfirst.length_eq hsecond⟩
  · rintro ⟨_, ⟨⟨n, hfirst, hsecond⟩, rfl⟩, hboth, rfl⟩
    obtain rfl : n = dims.length := (hfirst.map_entry hsecond).length_eq.symm.trans hboth.length_eq
    refine ⟨_, ⟨hfirst, rfl⟩, ?_, (map_entry_map hfirst.length_eq hsecond).symm⟩
    rwa [List.length_map, hfirst.length_eq]

theorem permute_of_compose {dims mid out : Dims} {both : List Int64}
    (hboth : compose first second = some both) (hmid : permute dims first = some mid)
    (hout : permute mid second = some out) : permute dims both = some out := by
  have hsame := permute_permute dims first second
  rw [hmid, hboth, Option.bind_some, Option.bind_some, hout] at hsame
  exact hsame.symm

/-! ### Counting the axes -/

/-- The test looks at bounds and repetitions only; by counting, nothing is left out. -/
theorem Permutes.perm_range (h : Permutes n order) :
    (order.map Int64.toInt).Perm ((List.range n).map Int.ofNat) := by
  have hnodup : (order.map Int64.toInt).Nodup := h.nodup.map fun _ _ => Int64.toInt_inj.mp
  have hsubset : order.map Int64.toInt ⊆ (List.range n).map Int.ofNat := by
    intro k hk
    obtain ⟨axis, ha, rfl⟩ := List.mem_map.mp hk
    have hnonneg := (h.bounded axis ha).1
    exact List.mem_map.mpr
      ⟨axis.toInt.toNat, List.mem_range.mpr (h.toNat_lt ha), Int.toNat_of_nonneg hnonneg⟩
  apply (hnodup.subperm hsubset).perm_of_length_le
  simp [h.length_eq]

theorem permutes_iff_perm :
    Permutes n order ↔ (order.map Int64.toInt).Perm ((List.range n).map Int.ofNat) := by
  refine ⟨Permutes.perm_range, fun h => ⟨?_, ?_, ?_⟩⟩
  · simpa using h.length_eq
  · intro axis ha
    obtain ⟨i, hi, heq⟩ := List.mem_map.mp (h.subset (List.mem_map_of_mem ha))
    rw [List.mem_range] at hi
    rw [← heq, Int.ofNat_eq_natCast]
    omega
  · apply List.Nodup.of_map Int64.toInt
    rw [h.nodup_iff]
    exact List.nodup_range.map fun _ _ => Int.ofNat.inj

namespace Permutes

variable (h : Permutes n order)

include h

theorem exists_axis {i : Nat} (hi : i < n) : ∃ axis ∈ order, axis.toInt = i := by
  apply List.mem_map.mp
  rw [h.perm_range.mem_iff]
  exact List.mem_map.mpr ⟨i, List.mem_range.mpr hi, rfl⟩

/-- There are no more axes than numbers for them, so none of these wraps around. -/
theorem toInt_ofNat {i : Nat} (hi : i < n) : (Int64.ofNat i).toInt = i := by
  obtain ⟨axis, -, heq⟩ := h.exists_axis hi
  have := axis.toInt_lt
  apply Int64.toInt_ofNat_of_lt
  omega

theorem ofNat_inj {i j : Nat} (hi : i < n) (hj : j < n) :
    Int64.ofNat i = Int64.ofNat j ↔ i = j := by
  rw [← Int64.toInt_inj, h.toInt_ofNat hi, h.toInt_ofNat hj, Int.natCast_inj]

theorem entry_ofNat {i : Nat} (hi : i < n) (hlt : i < xs.length) :
    entry xs (Int64.ofNat i) = xs[i] := by
  rw [entry, h.toInt_ofNat hi, Int.toNat_natCast, List.getD_eq_getElem _ _ hlt]

theorem ofNat_mem {i : Nat} (hi : i < n) : Int64.ofNat i ∈ order := by
  obtain ⟨axis, ha, heq⟩ := h.exists_axis hi
  rw [← h.toInt_ofNat hi, Int64.toInt_inj] at heq
  rwa [← heq]

theorem ofNat_toNat (ha : axis ∈ order) : Int64.ofNat axis.toInt.toNat = axis := by
  have := h.bounded axis ha
  rw [← Int64.toInt_inj, h.toInt_ofNat (h.toNat_lt ha)]
  omega

end Permutes

/-! ### The order that leaves every axis in place -/

theorem eq_range_of_isIdentity {order : List Int64} (h : isIdentity order = true) :
    order = (List.range order.length).map Int64.ofNat := by
  rw [isIdentity, List.all_eq_true] at h
  apply List.ext_getElem
  · rw [List.length_map, List.length_range]
  · intro i hi _
    have hmem : (order[i], i) ∈ order.zipIdx := by
      rw [List.mem_zipIdx_iff_getElem?]
      exact List.getElem?_eq_getElem hi
    rw [List.getElem_map, List.getElem_range]
    exact eq_of_beq (h _ hmem)

theorem getElem_of_isIdentity (h : isIdentity order = true) {i : Nat} (hi : i < order.length) :
    order[i] = Int64.ofNat i := by
  have heq := congrArg (·[i]?) (eq_range_of_isIdentity h)
  simpa [hi] using heq

namespace Permutes

variable (h : Permutes n order) (hidentity : isIdentity order = true)

include h hidentity

theorem toInt_getElem {i : Nat} (hi : i < order.length) : order[i].toInt = i := by
  rw [getElem_of_isIdentity hidentity hi]
  apply h.toInt_ofNat
  rwa [← h.length_eq]

theorem map_entry_eq_self (hlength : xs.length = n) : order.map (entry xs) = xs := by
  apply List.ext_getElem
  · rw [List.length_map, h.length_eq, hlength]
  · intro i hi hi'
    rw [List.length_map] at hi
    have hentry := h.toInt_getElem hidentity hi
    rw [List.getElem_map, entry_eq_getElem]
    · simp [hentry]
    · rw [hentry]
      exact hi'

theorem map_entry_identity (hsecond : Permutes n second) : second.map (entry order) = second := by
  refine (List.map_congr_left fun axis ha => ?_).trans (List.map_id second)
  have hlt : axis.toInt.toNat < order.length := by
    rw [h.length_eq]
    exact hsecond.toNat_lt ha
  have := hsecond.bounded axis ha
  rw [entry_eq_getElem hlt, id, ← Int64.toInt_inj, h.toInt_getElem hidentity hlt]
  omega

end Permutes

theorem permute_of_isIdentity {dims out : Dims} (hidentity : isIdentity order = true)
    (hout : permute dims order = some out) : dims = out := by
  obtain ⟨horder, rfl⟩ := permute_eq_some_iff.mp hout
  rw [horder.map_entry_eq_self hidentity rfl]

end OpGraph.AxisOrder
