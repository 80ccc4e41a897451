import Mathlib.Data.List.Chain
import OpGraph.Proofs.AxisOrder
import OpGraph.Provenance.Anchor

/-!
The normal form of a lineage. Steps are added one by one, and a transpose that cancels the one
before it lays bare what lies deeper. Orders of one rank compose as a group does, though, and below
a transpose of a normal list there is none of its rank. So what comes out depends only on what the
steps compose to: a lineage can be cut anywhere and its parts be brought to normal form first.
-/

namespace OpGraph

namespace Anchor

def isIdle : Anchor → Bool
  | identity => true
  | transpose order => AxisOrder.isIdentity order
  | _ => false

def yields : Anchor → Anchor → Bool
  | reshape _, reshape _ => true
  | fixPoint _, fixPoint _ => true
  | _, _ => false

def joins : Anchor → Anchor → Bool
  | transpose first, transpose second => (AxisOrder.compose first second).isSome
  | before, step => before.yields step

theorem joins_transpose_iff {before : Anchor} {n : Nat} {order : List Int64}
    (h : AxisOrder.Permutes n order) :
    before.joins (transpose order) = true ↔ ∃ u, before = transpose u ∧ AxisOrder.Permutes n u := by
  cases before with
  | transpose u =>
    simp only [joins, Option.isSome_iff_exists, AxisOrder.compose_eq_some_iff, transpose.injEq]
    constructor
    · rintro ⟨both, ⟨m, hu, horder⟩, -⟩
      rw [← horder.length_eq, h.length_eq] at hu
      exact ⟨u, rfl, hu⟩
    · rintro ⟨u, rfl, hu⟩
      exact ⟨_, ⟨n, hu, h⟩, rfl⟩
  | _ => simp [joins, yields]

theorem isIdle_of_yields {before step : Anchor} (h : before.yields step = true) :
    step.isIdle = false := by
  cases before <;> cases step <;> first | rfl | cases h

theorem joins_of_yields {before step : Anchor} (h : before.yields step = true) (below : Anchor) :
    below.joins step = below.joins before := by
  cases before <;> cases step <;> cases h <;> cases below <;> rfl

end Anchor

namespace Lineage

open AxisOrder

variable {done rest steps under : List Anchor} {step : Anchor} {n : Nat}
  {first second order : List Int64}

/-- No step is without effect, and no two neighbours can be joined. -/
structure IsNormal (steps : List Anchor) : Prop where
  effective : ∀ step ∈ steps, step.isIdle = false
  apart : steps.IsChain fun before step => before.joins step = false

/-- The step cannot be joined with the latest one of those that are done. -/
def Apart (done : List Anchor) (step : Anchor) : Prop :=
  ∀ before ∈ done.head?, before.joins step = false

/-- A normal list with its latest step at the head. -/
def Stacked (done : List Anchor) : Prop :=
  IsNormal done.reverse

theorem stacked_iff : Stacked done ↔ (∀ step ∈ done, step.isIdle = false) ∧
    done.IsChain fun step before => before.joins step = false := by
  rw [← List.isChain_reverse]
  constructor
  · intro h
    exact ⟨fun step hstep => h.effective step (List.mem_reverse.mpr hstep), h.apart⟩
  · intro h
    exact ⟨fun step hstep => h.1 step (List.mem_reverse.mp hstep), h.2⟩

theorem stacked_nil : Stacked [] :=
  stacked_iff.mpr ⟨by simp, .nil⟩

theorem stacked_cons_iff :
    Stacked (step :: done) ↔ step.isIdle = false ∧ Apart done step ∧ Stacked done := by
  rw [stacked_iff, stacked_iff, List.forall_mem_cons, List.isChain_cons, Apart]
  tauto

/-! ### Adding a step -/

def lay (done : List Anchor) (order : List Int64) : List Anchor :=
  if isIdentity order then done else .transpose order :: done

theorem addStep_of_isIdle (done : List Anchor) (hidle : step.isIdle = true) :
    addStep done step = done := by
  cases step with
  | identity => rfl
  | transpose order =>
    rw [Anchor.isIdle] at hidle
    cases done with
    | nil => simp [addStep, hidle]
    | cons before rest => cases before <;> simp [addStep, hidle]
  | _ => cases hidle

theorem addStep_of_apart (hidle : step.isIdle = false) (hapart : Apart done step) :
    addStep done step = step :: done := by
  cases done with
  | nil => cases step <;> simp_all [addStep, Anchor.isIdle]
  | cons before rest =>
    have hjoins : before.joins step = false := hapart before rfl
    cases step <;> cases before <;> simp_all [addStep, Anchor.isIdle, Anchor.joins, Anchor.yields]

theorem addStep_of_compose {before both : List Int64} (hidle : isIdentity order = false)
    (hboth : compose before order = some both) :
    addStep (.transpose before :: rest) (.transpose order) = lay rest both := by
  simp [addStep, hidle, hboth, lay]

theorem addStep_of_yields {before : Anchor} (h : before.yields step = true) (rest : List Anchor) :
    addStep (before :: rest) step = step :: rest := by
  cases before <;> cases step <;> cases h <;> rfl

theorem addStep_addStep_of_yields {before : Anchor} (h : before.yields step = true)
    (done : List Anchor) : addStep (addStep done before) step = addStep done step := by
  cases before <;> cases step <;> cases h <;> cases done with
  | nil => rfl
  | cons latest rest => cases latest <;> rfl

/-- What becomes of the steps that are done when one more is added. -/
inductive Added : List Anchor → Anchor → List Anchor → Prop where
  | idle (done : List Anchor) (step : Anchor) (hidle : step.isIdle = true) : Added done step done
  | pushed (done : List Anchor) (step : Anchor) (hidle : step.isIdle = false)
    (hapart : Apart done step) : Added done step (step :: done)
  | composed (rest : List Anchor) (before order both : List Int64)
    (hboth : compose before order = some both) :
    Added (.transpose before :: rest) (.transpose order) (lay rest both)
  | replaced (rest : List Anchor) (before step : Anchor) (hyields : before.yields step = true) :
    Added (before :: rest) step (step :: rest)

theorem added_addStep (done : List Anchor) (step : Anchor) :
    Added done step (addStep done step) := by
  cases hidle : step.isIdle with
  | true =>
    rw [addStep_of_isIdle done hidle]
    exact .idle done step hidle
  | false =>
    by_cases hapart : Apart done step
    · rw [addStep_of_apart hidle hapart]
      exact .pushed done step hidle hapart
    · simp only [Apart, not_forall, Bool.not_eq_false, Option.mem_def,
        List.head?_eq_some_iff] at hapart
      obtain ⟨before, ⟨rest, rfl⟩, hjoins⟩ := hapart
      by_cases hyields : before.yields step = true
      · rw [addStep_of_yields hyields]
        exact .replaced rest before step hyields
      · -- What else can be joined is two transposes.
        cases before <;> cases step <;> try exact absurd hjoins hyields
        next before order =>
        obtain ⟨both, hboth⟩ := Option.isSome_iff_exists.mp hjoins
        rw [addStep_of_compose hidle hboth]
        exact .composed rest before order both hboth

/-! ### Transposes of one rank -/

theorem Apart.transpose (hfirst : Permutes n first) (hsecond : Permutes n second)
    (hapart : Apart done (.transpose first)) : Apart done (.transpose second) := by
  intro before hbefore
  rw [Bool.eq_false_iff, ne_eq, Anchor.joins_transpose_iff hsecond,
    ← Anchor.joins_transpose_iff hfirst, hapart before hbefore]
  decide

theorem stacked_lay (hdone : Stacked done) (hapart : Apart done (.transpose order)) :
    Stacked (lay done order) := by
  rw [lay]
  split
  · exact hdone
  · next hidentity => exact stacked_cons_iff.mpr ⟨Bool.eq_false_iff.mpr hidentity, hapart, hdone⟩

theorem addStep_transpose (hapart : Apart done (.transpose order)) :
    addStep done (.transpose order) = lay done order := by
  rw [lay]
  split
  · next hidentity => exact addStep_of_isIdle done hidentity
  · next hidentity => exact addStep_of_apart (Bool.eq_false_iff.mpr hidentity) hapart

theorem addStep_lay (hfirst : Permutes n first) (hsecond : Permutes n second)
    (hapart : Apart rest (.transpose first)) :
    addStep (lay rest first) (.transpose second) = lay rest (second.map (entry first)) := by
  cases hid : isIdentity first with
  | true =>
    rw [hfirst.map_entry_identity hid hsecond, lay, if_pos hid]
    exact addStep_transpose (hapart.transpose hfirst hsecond)
  | false =>
    have hlay : lay rest first = .transpose first :: rest := by simp [lay, hid]
    cases hid' : isIdentity second with
    | true =>
      rw [hsecond.map_entry_eq_self hid' hfirst.length_eq]
      exact addStep_of_isIdle (lay rest first) hid'
    | false =>
      rw [hlay]
      exact addStep_of_compose hid' (hfirst.compose_eq hsecond)

theorem addStep_transpose_transpose (hdone : Stacked done) (hfirst : Permutes n first)
    (hsecond : Permutes n second) :
    addStep (addStep done (.transpose first)) (.transpose second) =
      addStep done (.transpose (second.map (entry first))) := by
  have hboth := hfirst.map_entry hsecond
  by_cases hapart : Apart done (.transpose first)
  · rw [addStep_transpose hapart, addStep_lay hfirst hsecond hapart,
      addStep_transpose (hapart.transpose hfirst hboth)]
  · -- The latest step is a transpose of the same rank, and nothing below it is.
    simp only [Apart, not_forall, Bool.not_eq_false, Option.mem_def, List.head?_eq_some_iff,
      Anchor.joins_transpose_iff hfirst] at hapart
    obtain ⟨_, ⟨rest, rfl⟩, latest, rfl, hlatest⟩ := hapart
    obtain ⟨hidle, hbelow, -⟩ := stacked_cons_iff.mp hdone
    have hlay : Anchor.transpose latest :: rest = lay rest latest := by
      rw [Anchor.isIdle] at hidle
      simp [lay, hidle]
    rw [hlay, addStep_lay hlatest hfirst hbelow, addStep_lay hlatest hboth hbelow,
      addStep_lay (hlatest.map_entry hfirst) hsecond
        (hbelow.transpose hlatest (hlatest.map_entry hfirst)),
      map_entry_map hfirst.length_eq hsecond]

/-! ### Normal forms -/

theorem Added.stacked {done' : List Anchor} (hadded : Added done step done')
    (hdone : Stacked done) : Stacked done' := by
  cases hadded with
  | idle => exact hdone
  | pushed _ _ hidle hapart => exact stacked_cons_iff.mpr ⟨hidle, hapart, hdone⟩
  | composed rest before order both hboth =>
    obtain ⟨-, hapart, hrest⟩ := stacked_cons_iff.mp hdone
    obtain ⟨⟨n, hbefore, horder⟩, rfl⟩ := compose_eq_some_iff.mp hboth
    exact stacked_lay hrest (hapart.transpose hbefore (hbefore.map_entry horder))
  | replaced rest before _ hyields =>
    obtain ⟨-, hapart, hrest⟩ := stacked_cons_iff.mp hdone
    refine stacked_cons_iff.mpr ⟨Anchor.isIdle_of_yields hyields, fun below hbelow => ?_, hrest⟩
    rw [Anchor.joins_of_yields hyields]
    exact hapart below hbelow

theorem stacked_foldl (hunder : Stacked under) (steps : List Anchor) :
    Stacked (steps.foldl addStep under) :=
  List.foldlRecOn steps addStep hunder fun done hdone step _ =>
    (added_addStep done step).stacked hdone

theorem foldl_addStep_lay (rest under : List Anchor) (order : List Int64) :
    (lay rest order).reverse.foldl addStep under =
      addStep (rest.reverse.foldl addStep under) (.transpose order) := by
  rw [lay]
  split
  · next hidentity =>
    have hidle : (Anchor.transpose order).isIdle = true := hidentity
    rw [addStep_of_isIdle _ hidle]
  · rw [List.reverse_cons, List.foldl_concat]

theorem Added.foldl_reverse {done' : List Anchor} (hadded : Added done step done')
    (hunder : Stacked under) :
    done'.reverse.foldl addStep under = addStep (done.reverse.foldl addStep under) step := by
  cases hadded with
  | idle _ _ hidle => exact (addStep_of_isIdle _ hidle).symm
  | pushed => rw [List.reverse_cons, List.foldl_concat]
  | composed rest before order both hboth =>
    obtain ⟨⟨n, hbefore, horder⟩, rfl⟩ := compose_eq_some_iff.mp hboth
    rw [foldl_addStep_lay, List.reverse_cons, List.foldl_concat,
      addStep_transpose_transpose (stacked_foldl hunder _) hbefore horder]
  | replaced rest before _ hyields =>
    rw [List.reverse_cons, List.reverse_cons, List.foldl_concat, List.foldl_concat,
      addStep_addStep_of_yields hyields]

theorem foldl_normalSteps (hunder : Stacked under) (steps : List Anchor) :
    (normalSteps steps).foldl addStep under = steps.foldl addStep under := by
  rw [normalSteps]
  induction steps using List.reverseRecOn with
  | nil => rfl
  | append_singleton steps step ih =>
    rw [List.foldl_concat, (added_addStep _ step).foldl_reverse hunder, ih, List.foldl_concat]

theorem isNormal_normalSteps (steps : List Anchor) : IsNormal (normalSteps steps) :=
  stacked_foldl stacked_nil steps

theorem Stacked.foldl_reverse (hdone : Stacked done) : done.reverse.foldl addStep [] = done := by
  induction done with
  | nil => rfl
  | cons step done ih =>
    obtain ⟨hidle, hapart, hbelow⟩ := stacked_cons_iff.mp hdone
    rw [List.reverse_cons, List.foldl_concat, ih hbelow, addStep_of_apart hidle hapart]

theorem normalSteps_eq_self_iff : normalSteps steps = steps ↔ IsNormal steps := by
  constructor
  · intro heq
    rw [← heq]
    exact isNormal_normalSteps steps
  · intro h
    have hstacked : Stacked steps.reverse := by rwa [Stacked, List.reverse_reverse]
    have hfold := hstacked.foldl_reverse
    rw [List.reverse_reverse] at hfold
    rw [normalSteps, hfold, List.reverse_reverse]

theorem normalSteps_normalSteps (steps : List Anchor) :
    normalSteps (normalSteps steps) = normalSteps steps :=
  normalSteps_eq_self_iff.mpr (isNormal_normalSteps steps)

theorem normalSteps_append (steps steps' : List Anchor) :
    normalSteps (steps ++ steps') = normalSteps (normalSteps steps ++ normalSteps steps') := by
  have hfirst := stacked_foldl stacked_nil steps
  rw [normalSteps, normalSteps, List.foldl_append, List.foldl_append, foldl_normalSteps stacked_nil,
    foldl_normalSteps hfirst]

/-! ### Lineages -/

def concat (parts : List Lineage) : Lineage :=
  parts.foldr append ⟨none, []⟩

theorem normalize_normalize (l : Lineage) : l.normalize.normalize = l.normalize := by
  rw [normalize, normalize, normalSteps_normalSteps]

theorem normalize_append (a b : Lineage) :
    (a.append b).normalize = (a.normalize.append b.normalize).normalize := by
  rw [normalize, append, normalSteps_append]
  rfl

theorem normalize_concat (parts : List Lineage) :
    (concat parts).normalize = (concat (parts.map normalize)).normalize := by
  induction parts with
  | nil => rfl
  | cons l parts ih =>
    calc (l.append (concat parts)).normalize
        = (l.normalize.append (concat parts).normalize).normalize := normalize_append l _
      _ = (l.normalize.normalize.append (concat (parts.map normalize)).normalize).normalize := by
          rw [ih, normalize_normalize]
      _ = (l.normalize.append (concat (parts.map normalize))).normalize :=
        (normalize_append _ _).symm

/--
Bringing lineages to normal form is a homomorphism onto the normal ones. It does not matter where a
lineage is cut or whether its parts have been brought to normal form before, normal lineages stay as
they are, and all others become normal.
-/
theorem normalize_onto_normal (a b : Lineage) (parts : List Lineage) :
    (a.append b).normalize = (a.normalize.append b.normalize).normalize ∧
    (concat parts).normalize = (concat (parts.map normalize)).normalize ∧
    a.normalize.normalize = a.normalize ∧
    IsNormal a.normalize.steps ∧
    (a.normalize = a ↔ IsNormal a.steps) := by
  refine ⟨normalize_append a b, normalize_concat parts, normalize_normalize a,
    isNormal_normalSteps a.steps, ?_⟩
  rw [← normalSteps_eq_self_iff, normalize, Lineage.mk.injEq]
  simp

-- Where the transposes cancel, the reshapes meet; an order that is no permutation stays.
example : normalSteps [.reshape [6], .transpose [1, 2, 0], .transpose [2, 0, 1], .reshape [2, 3],
    .transpose [0, 0], .transpose [1, 0]] =
      [.reshape [2, 3], .transpose [0, 0], .transpose [1, 0]] := by decide

end Lineage

end OpGraph
