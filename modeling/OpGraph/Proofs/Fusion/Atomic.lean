import OpGraph.Proofs.Fusion.Commute

/-!
A fusion happens as a whole or not at all. The nodes of a region are removed before the new node is
added, which can be refused in general; but a region that is still found has made room for exactly
the outputs of that node, so nothing fails once the first node is gone.
-/

namespace OpGraph

namespace RegionRequest

variable {g : Graph} {r : RegionRequest}

theorem failsAs_refuse {α : Type} (x : Except FuseError α) :
    FailsAs (fun failure => ∃ e, failure = .error e) (refuse x) := by
  cases x with
  | ok a => exact failsAs_ok
  | error e =>
    intro failure hfailure
    cases hfailure
    exact ⟨e, rfl⟩

theorem failsAs_outline (h : g.Indexed) :
    FailsAs (fun failure => ∃ e, failure = .error e) (r.outline g) := by
  by_cases hr : r.WellPosed g
  · obtain ⟨o, ho, -⟩ := outline_succeeds h hr
    exact failsAs_of_succeeds ⟨o, ho⟩
  · unfold outline
    apply failsAs_bind (failsAs_refuse _)
    intro inputs hinputs
    apply failsAs_bind (failsAs_refuse _)
    intro outputs houtputs
    apply failsAs_bind (failsAs_refuse _)
    intro constants hconstants
    rw [refuse_eq_ok_iff] at hinputs houtputs hconstants
    dsimp only
    split
    · intro failure hfailure
      cases hfailure
      exact ⟨_, rfl⟩
    · next hempty =>
      apply failsAs_bind (failsAs_refuse _)
      intro starts hstarts
      rw [refuse_eq_ok_iff] at hstarts
      -- Once the search can start, the request is well-posed.
      exact absurd (wellPosed_of_starts h hinputs houtputs hconstants hempty hstarts) hr

theorem failsAs_find (h : g.Indexed) :
    FailsAs (fun failure => ∃ e, failure = .error e) (r.find g) := by
  intro failure hrun
  cases ho : r.outline g with
  | error failure' =>
    rw [find, ho] at hrun
    cases hrun
    exact failsAs_outline h failure ho
  | ok o =>
    obtain ⟨o', ho', hdescribes⟩ := outline_succeeds h (wellPosed_of_outline h ho)
    rcases find_of_outline h ho' hdescribes with ⟨-, via, hvia⟩ | ⟨-, region, hregion, -⟩
    · cases hrun.symm.trans hvia
      exact ⟨_, rfl⟩
    · cases hrun.symm.trans hregion

end RegionRequest

namespace Region

variable {g : Graph}

/-- A fusion fails only before it touches the graph, and every region that is found again fuses. -/
theorem fuse_atomic (h : g.Indexed) (sub : Region) :
    (∀ failure g', sub.fuse g = .error failure g' →
      g' = g ∧ ∃ e, failure = .error (.region e) ∧
        (sub.boundary.request.find g = .error (.error e) ∨
          e = .stale sub.boundary.name ∧
            ∃ fresh, sub.boundary.request.find g = .ok fresh ∧ ¬ sub.agrees fresh)) ∧
    ∀ fresh, sub.boundary.request.find g = .ok fresh → sub.agrees fresh →
      ∃ id g', sub.fuse g = .ok id g' ∧ g'.Indexed ∧ sub.Replaced g id g' := by
  have hfuses : ∀ fresh, sub.boundary.request.find g = .ok fresh → sub.agrees fresh →
      ∃ id g', sub.fuse g = .ok id g' ∧ g'.Indexed ∧ sub.Replaced g id g' := by
    intro fresh hfind hagrees
    obtain ⟨o, hs⟩ := RegionRequest.accepted_of_find h hfind
    obtain ⟨hnodes, houtputs, -⟩ := agrees_iff.mp hagrees
    rw [fuse_eq_replace hfind hagrees]
    exact hs.replace_succeeds h hnodes houtputs
  refine ⟨?_, hfuses⟩
  intro failure g' hrun
  cases hfind : sub.boundary.request.find g with
  | error failure' =>
    obtain ⟨e, rfl⟩ := RegionRequest.failsAs_find h failure' hfind
    rw [fuse, hfind] at hrun
    cases hrun
    exact ⟨rfl, e, rfl, .inl rfl⟩
  | ok fresh =>
    by_cases hagrees : sub.agrees fresh
    · obtain ⟨id, g'', hok, -⟩ := hfuses fresh hfind hagrees
      cases hrun.symm.trans hok
    · rw [fuse, hfind] at hrun
      dsimp only at hrun
      rw [if_neg hagrees] at hrun
      cases hrun
      exact ⟨rfl, _, rfl, .inr ⟨rfl, fresh, rfl, hagrees⟩⟩

def cutRegion : Region :=
  ⟨[⟨0⟩], ⟨"upper", "com.graft", "", ["x"], ["p", "q"], ["w"], ∅, [], []⟩⟩

def changedRegion : Region :=
  ⟨[⟨0⟩, ⟨1⟩], ⟨"upper", "custom", "", ["x", "x"], ["p", "q"], ["w"], ∅, [], []⟩⟩

/-- The first one is refused and nothing is lost; the second one is fused. -/
theorem fuse_atomic_modified :
    ∃ g : Graph, (Graph.empty "diamond").runAll weightedEdits = .ok g ∧
      cutRegion.fuse g = .error (.error (.region (.stale "upper"))) g ∧
      ∃ id g', changedRegion.fuse g = .ok id g' := by
  have hrun : (do
      let g ← (Graph.empty "diamond").runAll weightedEdits
      return (cutRegion.fuse.run' g,
        (fun sub : Region => (sub.nodes, sub.boundary.constants, sub.boundary.outputs)) <$>
          RegionRequest.find ⟨"upper", ["x"], ["p", "q"], ["w"], ""⟩ g,
        (fun sub : Region => (sub.nodes, sub.boundary.constants, sub.boundary.outputs)) <$>
          RegionRequest.find ⟨"upper", ["x", "x"], ["p", "q"], ["w"], ""⟩ g)) =
      .ok (none, .ok ([⟨0⟩, ⟨1⟩], ["w"], ["p", "q"]), .ok ([⟨0⟩, ⟨1⟩], ["w"], ["p", "q"])) := rfl
  simp only [bind_eq_ok_iff, pure_eq_ok_iff, Prod.mk.injEq, map_eq_ok_iff] at hrun
  obtain ⟨g, hg, hcut, ⟨whole, hwhole, -⟩, fresh, hfresh, hnodes, hconstants, houtputs⟩ := hrun
  have hindexed := (Graph.Reachable.runAll (.empty "diamond") hg).indexed
  refine ⟨g, hg, ?_, ?_⟩
  · obtain ⟨hfails, -⟩ := fuse_atomic hindexed cutRegion
    unfold EStateM.run' EStateM.run at hcut
    split at hcut
    · cases hcut
    · next failure g' hfuse =>
      obtain ⟨rfl, e, rfl, hrefused | ⟨rfl, -⟩⟩ := hfails failure g' hfuse
      · cases hwhole.symm.trans hrefused
      · exact hfuse
  · obtain ⟨-, hfuses⟩ := fuse_atomic hindexed changedRegion
    obtain ⟨id, g', hfuse, -⟩ := hfuses fresh hfresh (agrees_iff.mpr ⟨hnodes, houtputs, hconstants⟩)
    exact ⟨id, g', hfuse⟩

end Region

end OpGraph
