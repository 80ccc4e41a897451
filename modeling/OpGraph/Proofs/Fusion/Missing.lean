import OpGraph.Fusion.Region

/-!
The containment scan over ascending names. It walks through both lists once and drops the names it
has passed; because both lists ascend, none of these is asked for again, so the scan finds what a
search through the whole list would find.
-/

namespace OpGraph

variable {haystack needle : List String} {item : String}

theorem find?_not_mem_cons {h : String} (hlt : ∀ x ∈ needle, h < x) :
    needle.find? (fun x => decide (x ∉ h :: haystack)) =
      needle.find? fun x => decide (x ∉ haystack) := by
  induction needle with
  | nil => rfl
  | cons x needle ih =>
    rw [List.forall_mem_cons] at hlt
    have hne : x ≠ h := by
      rintro rfl
      exact String.lt_irrefl x hlt.1
    have hmem : x ∈ h :: haystack ↔ x ∈ haystack := by
      rw [List.mem_cons, or_iff_right hne]
    simp only [List.find?_cons, hmem, ih hlt.2]

theorem firstMissing_eq_find? (hh : haystack.Pairwise (· < ·)) (hn : needle.Pairwise (· < ·)) :
    firstMissing haystack needle = needle.find? fun x => decide (x ∉ haystack) := by
  fun_induction firstMissing haystack needle with
  | case1 => rfl
  | case2 item needle => rw [List.find?_cons_of_pos (by simp)]
  | case3 h haystack item needle hlt ih =>
    -- What is looked for lies behind `h`.
    have hbehind : ∀ x ∈ item :: needle, h < x := by
      rw [List.forall_mem_cons]
      exact ⟨hlt, fun x hx => String.lt_trans hlt ((List.pairwise_cons.mp hn).1 x hx)⟩
    rw [ih (List.pairwise_cons.mp hh).2 hn, find?_not_mem_cons hbehind]
  | case4 haystack item needle hlt ih =>
    have hbehind := (List.pairwise_cons.mp hn).1
    rw [ih (List.pairwise_cons.mp hh).2 (List.pairwise_cons.mp hn).2,
      List.find?_cons_of_neg (by simp), find?_not_mem_cons hbehind]
  | case5 h haystack item needle hlt hne =>
    -- The rest of the haystack lies behind `h`, and `item` does not.
    have hmissing : item ∉ h :: haystack := by
      rw [List.mem_cons]
      rintro (rfl | hmem)
      · exact hne rfl
      · exact hlt ((List.pairwise_cons.mp hh).1 item hmem)
    rw [List.find?_cons_of_pos (by rwa [decide_eq_true_eq])]

theorem firstMissing_eq_none_iff (hh : haystack.Pairwise (· < ·)) (hn : needle.Pairwise (· < ·)) :
    firstMissing haystack needle = none ↔ ∀ x ∈ needle, x ∈ haystack := by
  rw [firstMissing_eq_find? hh hn, List.find?_eq_none]
  simp only [decide_eq_true_eq, Decidable.not_not]

theorem le_of_firstMissing (hh : haystack.Pairwise (· < ·)) (hn : needle.Pairwise (· < ·))
    (hitem : firstMissing haystack needle = some item) :
    item ∈ needle ∧ item ∉ haystack ∧ ∀ x ∈ needle, x ∉ haystack → item ≤ x := by
  rw [firstMissing_eq_find? hh hn, List.find?_eq_some_iff_append] at hitem
  obtain ⟨hmissing, before, after, rfl, hbefore⟩ := hitem
  refine ⟨List.mem_append_right before List.mem_cons_self, of_decide_eq_true hmissing, ?_⟩
  intro x hx hxmissing
  rcases List.mem_append.mp hx with hx | hx
  · have hfound := hbefore x hx
    rw [decide_eq_true hxmissing] at hfound
    cases hfound
  · rcases List.mem_cons.mp hx with rfl | hx
    · exact String.le_refl x
    · have hlt := (List.pairwise_cons.mp (List.pairwise_append.mp hn).2.1).1 x hx
      exact String.lt_asymm hlt

/--
The scan decides inclusion: it finds nothing if all names it looks for are there, and otherwise the
least of those that are not.
-/
theorem firstMissing_decides_inclusion (haystack needle : List String)
    (hh : haystack.Pairwise (· < ·)) (hn : needle.Pairwise (· < ·)) :
    (firstMissing haystack needle = none ↔ ∀ x ∈ needle, x ∈ haystack) ∧
    ∀ item, firstMissing haystack needle = some item ↔
      item ∈ needle ∧ item ∉ haystack ∧ ∀ x ∈ needle, x ∉ haystack → item ≤ x := by
  refine ⟨firstMissing_eq_none_iff hh hn, fun item => ⟨le_of_firstMissing hh hn, ?_⟩⟩
  rintro ⟨hmem, hmissing, hleast⟩
  cases hfirst : firstMissing haystack needle with
  | none => exact absurd ((firstMissing_eq_none_iff hh hn).mp hfirst item hmem) hmissing
  | some first =>
    obtain ⟨hmem', hmissing', hleast'⟩ := le_of_firstMissing hh hn hfirst
    rw [String.le_antisymm (hleast' item hmem hmissing) (hleast first hmem' hmissing')]

theorem firstMissing_decides_inclusion_interleaved :
    ["conv", "conv.bias", "scale", "x"].Pairwise (· < ·) ∧
    ["conv.bias", "x", "y", "z"].Pairwise (· < ·) ∧
    firstMissing ["conv", "conv.bias", "scale", "x"] ["conv.bias", "x", "y", "z"] = some "y" := by
  have hh : ["conv", "conv.bias", "scale", "x"].Pairwise (· < ·) := by decide
  have hn : ["conv.bias", "x", "y", "z"].Pairwise (· < ·) := by decide
  refine ⟨hh, hn, ((firstMissing_decides_inclusion _ _ hh hn).2 _).mpr ⟨?_, ?_, ?_⟩⟩
  · decide
  · decide
  · decide

end OpGraph
