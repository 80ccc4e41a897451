import OpGraph.Proofs.Provenance.NormalForm

/-!
What can be read off a lineage can be read off its normal form: the latest fix-point, and the shape
at the end as far as it is known. A transpose that does not fit makes the shape unknown and one
without effect may be among those, so the normal form can know a shape that the lineage does not.
-/

namespace OpGraph

def Shape.Within (s t : Shape) : Prop :=
  ∀ dims, s = some dims → t = some dims

theorem Shape.Within.refl (s : Shape) : s.Within s :=
  fun _ hdims => hdims

theorem Shape.Within.trans {s₁ s₂ s₃ : Shape} (h : s₁.Within s₂) (h' : s₂.Within s₃) :
    s₁.Within s₃ :=
  fun dims hdims => h' dims (h dims hdims)

namespace Anchor

variable {step : Anchor} {s t : Shape}

theorem replayShape_within (h : s.Within t) (step : Anchor) :
    (step.replayShape s).Within (step.replayShape t) := by
  cases step with
  | transpose order =>
    intro dims hdims
    obtain ⟨before, hbefore, hpermute⟩ := Option.bind_eq_some_iff.mp hdims
    exact Option.bind_eq_some_iff.mpr ⟨before, h before hbefore, hpermute⟩
  | reshape dims => exact .refl dims
  | _ => exact h

theorem replayShape_of_isIdle (hidle : step.isIdle = true) : (step.replayShape s).Within s := by
  cases step with
  | identity => exact .refl s
  | transpose order =>
    intro dims hdims
    obtain ⟨before, rfl, hpermute⟩ := Option.bind_eq_some_iff.mp hdims
    rw [AxisOrder.permute_of_isIdentity hidle hpermute]
  | _ => cases hidle

theorem replayShape_of_compose {first second both : List Int64}
    (hboth : AxisOrder.compose first second = some both) :
    ((transpose second).replayShape ((transpose first).replayShape s)).Within
      ((transpose both).replayShape s) := by
  intro dims hdims
  obtain ⟨mid, hmid, hsecond⟩ := Option.bind_eq_some_iff.mp hdims
  obtain ⟨before, rfl, hfirst⟩ := Option.bind_eq_some_iff.mp hmid
  exact AxisOrder.permute_of_compose hboth hfirst hsecond

theorem replayShape_of_yields {before : Anchor} (hyields : before.yields step = true) :
    step.replayShape (before.replayShape s) = step.replayShape s := by
  cases before <;> cases step <;> cases hyields <;> rfl

theorem fixPoint?_of_isIdle (hidle : step.isIdle = true) : step.fixPoint? = none := by
  cases step <;> first | rfl | cases hidle

end Anchor

namespace Lineage

variable {done done' : List Anchor} {step : Anchor}

/-- The shape after the steps that are done, the latest of which is at the head. -/
def shapeAfter (done : List Anchor) (shape : Shape) : Shape :=
  done.foldr Anchor.replayShape shape

theorem within_shapeAfter_lay (rest : List Anchor) (order : List Int64) (shape : Shape) :
    (shapeAfter (.transpose order :: rest) shape).Within (shapeAfter (lay rest order) shape) := by
  rw [lay]
  split
  · next hidentity =>
    have hidle : (Anchor.transpose order).isIdle = true := hidentity
    exact Anchor.replayShape_of_isIdle hidle
  · exact .refl _

theorem Added.within_shapeAfter (hadded : Added done step done') (shape : Shape) :
    (shapeAfter (step :: done) shape).Within (shapeAfter done' shape) := by
  cases hadded with
  | idle _ _ hidle => exact Anchor.replayShape_of_isIdle hidle
  | pushed => exact .refl _
  | composed rest before order both hboth =>
    have hcomposed : (shapeAfter (.transpose order :: .transpose before :: rest) shape).Within
        (shapeAfter (.transpose both :: rest) shape) := Anchor.replayShape_of_compose hboth
    exact hcomposed.trans (within_shapeAfter_lay rest both shape)
  | replaced rest before _ hyields =>
    have hreplaced : shapeAfter (step :: before :: rest) shape = shapeAfter (step :: rest) shape :=
      Anchor.replayShape_of_yields hyields
    rw [hreplaced]
    exact .refl _

theorem within_shapeAfter_foldl (steps : List Anchor) (shape : Shape) :
    (steps.foldl (fun shape step => step.replayShape shape) shape).Within
      (shapeAfter (steps.foldl addStep []) shape) := by
  induction steps using List.reverseRecOn with
  | nil => exact .refl shape
  | append_singleton steps step ih =>
    rw [List.foldl_concat, List.foldl_concat]
    exact (Anchor.replayShape_within ih step).trans ((added_addStep _ step).within_shapeAfter shape)

theorem Added.findSome?_fixPoint? (hadded : Added done step done') :
    done'.findSome? Anchor.fixPoint? = (step :: done).findSome? Anchor.fixPoint? := by
  cases hadded with
  | idle _ _ hidle => rw [List.findSome?_cons, Anchor.fixPoint?_of_isIdle hidle]
  | pushed => rfl
  | composed rest before order both hboth =>
    rw [lay]
    split <;> rfl
  | replaced rest before _ hyields =>
    cases before <;> cases step <;> cases hyields <;> rfl

theorem findSome?_fixPoint?_foldl (steps : List Anchor) :
    (steps.foldl addStep []).findSome? Anchor.fixPoint? =
      steps.reverse.findSome? Anchor.fixPoint? := by
  induction steps using List.reverseRecOn with
  | nil => rfl
  | append_singleton steps step ih =>
    rw [List.foldl_concat, (added_addStep _ step).findSome?_fixPoint?, List.reverse_concat,
      List.findSome?_cons, List.findSome?_cons, ih]

theorem replayShape_normalize (l : Lineage) (shape : Shape) :
    l.normalize.replayShape shape = shapeAfter (l.steps.foldl addStep []) shape := by
  rw [normalize, replayShape, normalSteps, List.foldl_reverse]
  rfl

/--
The normal form of a lineage leads to every shape that the lineage does, and has its fix-point.
-/
theorem normalize_replays (l : Lineage) (shape : Shape) :
    (∀ dims, l.replayShape shape = some dims → l.normalize.replayShape shape = some dims) ∧
    l.normalize.fixPoint? = l.fixPoint? := by
  constructor
  · rw [replayShape_normalize]
    exact within_shapeAfter_foldl l.steps shape
  · rw [fixPoint?, fixPoint?, normalize, normalSteps, List.reverse_reverse,
      findSome?_fixPoint?_foldl]

/-- A reshape makes an unknown shape known; behind it transposes cancel and fix-points give way. -/
def turned : Lineage :=
  ⟨some ⟨0⟩, [.transpose [2, 0, 1], .fixPoint 3, .reshape [6, 4], .transpose [1, 0],
    .transpose [0, 1], .transpose [1, 0], .fixPoint 5, .identity, .fixPoint 7]⟩

theorem normalize_replays_turned :
    turned.replayShape none = some [6, 4] ∧
    turned.normalize.steps =
      [.transpose [2, 0, 1], .fixPoint 3, .reshape [6, 4], .fixPoint 7] ∧
    turned.normalize.replayShape none = some [6, 4] ∧ turned.normalize.fixPoint? = some 7 := by
  have hreplay : turned.replayShape none = some [6, 4] := by decide
  obtain ⟨hshape, hfix⟩ := normalize_replays turned none
  refine ⟨hreplay, by decide, hshape _ hreplay, ?_⟩
  rw [hfix]
  decide

-- Here the lineage does not know the shape, but its normal form does.
example : (⟨none, [.transpose [0]]⟩ : Lineage).replayShape (some [2, 3]) = none ∧
    (⟨none, [.transpose [0]]⟩ : Lineage).normalize.replayShape (some [2, 3]) = some [2, 3] := by
  decide

end Lineage

end OpGraph
