import OpGraph.Proofs.Fusion.Region
import OpGraph.Proofs.Graph.Reachable
import OpGraph.Proofs.Graph.Validation

/-!
The graph with a region merged into one node, and the exactness of the loop check: a well-posed
request is refused if and only if it reads something undeclared, declares something that it produces
itself, or has a cycle through the merged node.
-/

namespace OpGraph

open Relation

namespace RegionRequest

section Merged

variable (g : Graph) (covered : NodeId → Prop) (boundary : ArgId → Prop)

def MergedReads : Option NodeId → ArgId → Prop
  | none, a => boundary a
  | some id, a => ¬ covered id ∧ ∃ node, g.node? id = some node ∧ a ∈ node.presentInputs

def MergedProduces : Option NodeId → ArgId → Prop
  | none, a => GivenBy g covered a
  | some id, a => ¬ covered id ∧ g.producer? a = some id

def MergedFeeds (source target : Option NodeId) : Prop :=
  ∃ a, MergedProduces g covered source a ∧ MergedReads g covered boundary target a

end Merged

variable {g : Graph} {covered : NodeId → Prop} {boundary : ArgId → Prop}

theorem exists_last_exit {first last : NodeId} (hpath : ReflTransGen g.Feeds first last)
    (hfirst : covered first) (hlast : ¬ covered last) :
    ∃ id id', covered id ∧ g.Feeds id id' ∧ ¬ covered id' ∧
      ReflTransGen (fun x y => g.Feeds x y ∧ ¬ covered x ∧ ¬ covered y) id' last := by
  induction hpath with
  | refl => exact absurd hfirst hlast
  | @tail middle last _ hstep ih =>
    by_cases hmiddle : covered middle
    · exact ⟨middle, last, hmiddle, hstep, hlast, .refl⟩
    · obtain ⟨id, id', hid, hexit, hid', hrest⟩ := ih hmiddle
      exact ⟨id, id', hid, hexit, hid', hrest.tail ⟨hstep, hmiddle, hlast⟩⟩

theorem mergedFeeds_outside {id id' : NodeId} (hfeeds : g.Feeds id id') (hid : ¬ covered id)
    (hid' : ¬ covered id') : MergedFeeds g covered boundary (some id) (some id') := by
  obtain ⟨node, a, hnode, ha, hsource⟩ := hfeeds
  exact ⟨a, ⟨hid, hsource⟩, hid', node, hnode, ha⟩

theorem mergedFeeds_exit {id id' : NodeId} (hfeeds : g.Feeds id id') (hid : covered id)
    (hid' : ¬ covered id') : MergedFeeds g covered boundary none (some id') := by
  obtain ⟨node, a, hnode, ha, hsource⟩ := hfeeds
  exact ⟨a, ⟨⟨id, hsource, hid⟩, .inr ⟨id', node, hid', hnode, ha⟩⟩, hid', node, hnode, ha⟩

theorem reached_of_mergedFeeds {target : Option NodeId}
    (hpath : TransGen (MergedFeeds g covered boundary) none target) :
    ∀ last, target = some last → ∃ first, covered first ∧ ReflTransGen g.Feeds first last := by
  have hexit : ∀ last, MergedFeeds g covered boundary none (some last) →
      ∃ first, covered first ∧ ReflTransGen g.Feeds first last := by
    rintro last ⟨a, ⟨⟨id, hsource, hid⟩, -⟩, -, node, hnode, ha⟩
    exact ⟨id, hid, .single ⟨node, a, hnode, ha, hsource⟩⟩
  induction hpath with
  | single hstep =>
    rintro last rfl
    exact hexit last hstep
  | @tail middle target _ hstep ih =>
    rintro last rfl
    match middle, hstep with
    | none, hstep => exact hexit last hstep
    | some id, ⟨a, ⟨_, hsource⟩, _, node, hnode, ha⟩ =>
      obtain ⟨first, hfirst, hpath⟩ := ih id rfl
      exact ⟨first, hfirst, hpath.tail ⟨node, a, hnode, ha, hsource⟩⟩

theorem outside_or_through {id : NodeId} {target : Option NodeId}
    (hpath : TransGen (MergedFeeds g covered boundary) (some id) target) :
    (∃ last, target = some last ∧ TransGen g.Feeds id last) ∨
      (TransGen (MergedFeeds g covered boundary) (some id) none ∧
        ReflTransGen (MergedFeeds g covered boundary) none target) := by
  induction hpath with
  | @single target hstep =>
    match target, hstep with
    | none, hstep => exact .inr ⟨.single hstep, .refl⟩
    | some last, ⟨a, ⟨_, hsource⟩, _, node, hnode, ha⟩ =>
      exact .inl ⟨last, rfl, .single ⟨node, a, hnode, ha, hsource⟩⟩
  | @tail middle target hpath hstep ih =>
    rcases ih with ⟨last, rfl, houtside⟩ | ⟨hto, hfrom⟩
    · match target, hstep with
      | none, hstep => exact .inr ⟨hpath.tail hstep, .refl⟩
      | some last', ⟨a, ⟨_, hsource⟩, _, node, hnode, ha⟩ =>
        exact .inl ⟨last', rfl, houtside.tail ⟨node, a, hnode, ha, hsource⟩⟩
    · exact .inr ⟨hto, hfrom.tail hstep⟩

theorem merged_cycle_through (hacyclic : g.Acyclic)
    (hcycle : ∃ x, TransGen (MergedFeeds g covered boundary) x x) :
    TransGen (MergedFeeds g covered boundary) none none := by
  obtain ⟨x, hx⟩ := hcycle
  match x, hx with
  | none, hx => exact hx
  | some id, hx =>
    rcases outside_or_through hx with ⟨last, hlast, hpath⟩ | ⟨hto, hfrom⟩
    · cases hlast
      exact absurd hpath (hacyclic id)
    · exact TransGen.trans_right hfrom hto

/-- A boundary that depends on the region is produced in it or closes a cycle through it. -/
theorem depends_iff (hacyclic : g.Acyclic) :
    (∃ a first last, boundary a ∧ g.producer? a = some last ∧ covered first ∧
      ReflTransGen g.Feeds first last)
      ↔
    (∃ a id, boundary a ∧ g.producer? a = some id ∧ covered id) ∨
      ∃ x, TransGen (MergedFeeds g covered boundary) x x := by
  constructor
  · rintro ⟨a, first, last, ha, hlast, hfirst, hpath⟩
    by_cases hcovered : covered last
    · exact .inl ⟨a, last, ha, hlast, hcovered⟩
    -- After its last exit from the region the path runs outside, where merging changes no edge.
    · obtain ⟨id, id', hid, hexit, hid', hrest⟩ := exists_last_exit hpath hfirst hcovered
      have hmerged : ReflTransGen (MergedFeeds g covered boundary) (some id') (some last) :=
        hrest.lift some fun x y hstep => mergedFeeds_outside hstep.1 hstep.2.1 hstep.2.2
      have hback : MergedFeeds g covered boundary (some last) none := ⟨a, ⟨hcovered, hlast⟩, ha⟩
      exact .inr ⟨none, (TransGen.head' (mergedFeeds_exit hexit hid hid') hmerged).tail hback⟩
  · rintro (⟨a, id, ha, hid, hcovered⟩ | hcycle)
    · exact ⟨a, id, id, ha, hid, hcovered, .refl⟩
    · obtain ⟨middle, hto, a, hproduces, ha⟩ :=
        TransGen.tail'_iff.mp (merged_cycle_through hacyclic hcycle)
      match middle, hto, hproduces with
      | none, _, ⟨⟨id, hsource, hid⟩, _⟩ => exact ⟨a, id, id, ha, hsource, hid, .refl⟩
      | some last, hto, ⟨_, hsource⟩ =>
        rcases reflTransGen_iff_eq_or_transGen.mp hto with heq | hto
        · cases heq
        · obtain ⟨first, hfirst, hpath⟩ := reached_of_mergedFeeds hto last rfl
          exact ⟨a, first, last, ha, hsource, hfirst, hpath⟩

variable {r : RegionRequest}

/-- The request would make a node that feeds itself. -/
def Loops (r : RegionRequest) (g : Graph) : Prop :=
  r.ReadsUndeclared g ∨
  (∃ a id, r.OnBoundary g a ∧ g.producer? a = some id ∧ r.Covers g id) ∨
  ∃ x, TransGen (MergedFeeds g (r.Covers g) (r.OnBoundary g)) x x

theorem loops_iff (hacyclic : g.Acyclic) :
    r.Loops g ↔ r.ReadsUndeclared g ∨ r.FeedsBoundary g := by
  rw [Loops, FeedsBoundary, depends_iff hacyclic]

/-- Loops are the only reason to refuse a well-posed request. -/
theorem find_refuses_iff_loops (h : g.Consistent) (hacyclic : g.Acyclic) (hr : r.WellPosed g) :
    ((∃ via, r.find g = .error (.error (.loop r.name via))) ↔ r.Loops g) ∧
    (¬ r.Loops g → ∃ region, r.find g = .ok region) := by
  obtain ⟨o, hrun, ho⟩ := outline_succeeds h.toIndexed hr
  rw [loops_iff hacyclic]
  rcases find_of_outline h.toIndexed hrun ho with ⟨hloop, hrefused⟩ | ⟨hnone, region, hfound, -⟩
  · exact ⟨iff_of_true hrefused hloop, fun hnone => absurd hloop hnone⟩
  · refine ⟨iff_of_false ?_ hnone, fun _ => ⟨region, hfound⟩⟩
    rintro ⟨via, hvia⟩
    rw [hfound] at hvia
    cases hvia

def diamondEdits : List Graph.Mutation :=
  [.addInput "x" ⟨.float32, none⟩, .newArg "p" ⟨.float32, none⟩, .newArg "q" ⟨.float32, none⟩,
    .newArg "y" ⟨.float32, none⟩, .addNode ⟨"top", .standard "Relu", [some ⟨0⟩], [some ⟨1⟩], ∅⟩,
    .addNode ⟨"side", .standard "Relu", [some ⟨1⟩], [some ⟨2⟩], ∅⟩,
    .addNode ⟨"bottom", .standard "Add", [some ⟨1⟩, some ⟨2⟩], [some ⟨3⟩], ∅⟩, .addOutput ⟨3⟩]

def halfRequest : RegionRequest :=
  ⟨"half", ["x", "q"], ["y"], [], ""⟩

theorem find_refuses_half_of_diamond :
    ∃ g : Graph, (Graph.empty "diamond").runAll diamondEdits = .ok g ∧
      g.Consistent ∧ g.Acyclic ∧ halfRequest.WellPosed g ∧ halfRequest.Loops g := by
  have hrun : (fun g : Graph => (g.check, g.findArg? "x", g.findArg? "q", g.findArg? "y",
      g.producer? ⟨3⟩, halfRequest.find g)) <$>
      (Graph.empty "diamond").runAll diamondEdits =
      .ok (.ok [⟨0⟩, ⟨1⟩, ⟨2⟩], some ⟨0⟩, some ⟨2⟩, some ⟨3⟩, some ⟨2⟩,
        .error (.error (.loop "half" "q"))) := rfl
  obtain ⟨g, hg, hfacts⟩ := map_eq_ok_iff.mp hrun
  simp only [Prod.mk.injEq] at hfacts
  obtain ⟨hcheck, hx, hq, hy, hproducer, hfind⟩ := hfacts
  have hindexed := (Graph.Reachable.runAll (.empty "diamond") hg).indexed
  obtain ⟨hc, -, horder⟩ := hindexed.check_eq_ok_iff.mp hcheck
  have hacyclic := hc.acyclic_of_topologicalOrder horder
  have hposed : halfRequest.WellPosed g := by
    refine ⟨?_, ?_, ?_, ?_, ?_⟩
    · simp [halfRequest, hx, hq]
    · simp [halfRequest, hy]
    · simp [halfRequest]
    · simp [halfRequest]
    · simp [halfRequest, Named, OnBoundary, hx, hq, hy, hproducer]
  exact ⟨g, hg, hc, hacyclic, hposed,
    (find_refuses_iff_loops hc hacyclic hposed).1.mp ⟨"q", hfind⟩⟩

end RegionRequest

end OpGraph
