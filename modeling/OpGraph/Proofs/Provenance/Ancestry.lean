import OpGraph.Proofs.Provenance.Retained

/-!
The order in which a history is told. The walk from an arg is a depth-first search through its
sources, so it tells the events of every ancestor once and those of the arg itself last. A source
comes before what derives from it unless the two lie on a cycle, so in a log without cycles all
ancestors come first, and the first arg of all has no sources.
-/

namespace OpGraph.Log

open Relation

variable {log : Log} {args order : List ArgId} {seen seen' : Std.ExtTreeSet ArgId} {arg a : ArgId}

def DescendsFrom (log : Log) (arg a : ArgId) : Prop :=
  TransGen (fun arg source => source ∈ log.sources arg) arg a

def Acyclic (log : Log) : Prop :=
  ∀ a, ¬ log.DescendsFrom a a

/-- Every arg of the list comes after all its ancestors. -/
def AncestorsFirst (log : Log) (order : List ArgId) : Prop :=
  ∀ before a after, order = before ++ a :: after → ∀ source, log.DescendsFrom a source →
    source ∈ before

def kinds (log : Log) (arg : ArgId) : List Anchor :=
  (log.events arg).map Event.kind

theorem mem_insert_iff {x : ArgId} : x ∈ seen.insert a ↔ x = a ∨ x ∈ seen := by
  rw [Std.ExtTreeSet.mem_insert, Std.compare_eq_iff_eq, eq_comm]

theorem append_cons_cases {before after l r : List ArgId} {x : ArgId}
    (h : before ++ a :: after = l ++ x :: r) :
    (∃ m, before = l ++ x :: m) ∨ (before = l ∧ a = x) ∨
      ∃ m, l = before ++ a :: m ∧ after = m ++ x :: r := by
  rcases List.append_eq_append_iff.mp h with ⟨m, rfl, hr⟩ | ⟨m, rfl, hr⟩
  · cases m with
    | nil => exact .inr (.inl ⟨(List.append_nil before).symm, (List.cons.inj hr).1⟩)
    | cons y m =>
      obtain ⟨rfl, rfl⟩ := List.cons.inj hr
      exact .inr (.inr ⟨m, rfl, rfl⟩)
  · cases m with
    | nil => exact .inr (.inl ⟨List.append_nil l, (List.cons.inj hr).1.symm⟩)
    | cons y m =>
      obtain ⟨rfl, -⟩ := List.cons.inj hr
      exact .inl ⟨m, rfl⟩

/-! ### Searches -/

/--
A search from some args, one after the other, that has no bound on its depth. It lists the args in
the order in which their sources have been dealt with, and ends with more args seen.
-/
inductive Visits (log : Log) : List ArgId → Std.ExtTreeSet ArgId → List ArgId →
    Std.ExtTreeSet ArgId → Prop where
  | done (seen : Std.ExtTreeSet ArgId) : Visits log [] seen [] seen
  | again {a : ArgId} {args order : List ArgId} {seen seen' : Std.ExtTreeSet ArgId}
    (hseen : a ∈ seen) (hrest : Visits log args seen order seen') :
    Visits log (a :: args) seen order seen'
  | fresh {a : ArgId} {args before after : List ArgId} {seen mid seen' : Std.ExtTreeSet ArgId}
    (hseen : a ∉ seen) (hsources : Visits log (log.sources a) (seen.insert a) before mid)
    (hrest : Visits log args mid after seen') :
    Visits log (a :: args) seen (before ++ a :: after) seen'

namespace Visits

theorem mem_iff (h : log.Visits args seen order seen') (x : ArgId) :
    x ∈ seen' ↔ x ∈ seen ∨ x ∈ order := by
  induction h with
  | done => simp
  | again _ _ ih => exact ih
  | fresh _ _ _ ih ih' =>
    rw [ih', ih, mem_insert_iff, List.mem_append, List.mem_cons]
    tauto

theorem nodup (h : log.Visits args seen order seen') : order.Nodup ∧ ∀ x ∈ order, x ∉ seen := by
  induction h with
  | done => simp
  | again _ _ ih => exact ih
  | @fresh a args before after seen mid seen' hseen hsources _ ih ih' =>
    have hbefore : ∀ x ∈ before, x ≠ a ∧ x ∉ seen := by
      intro x hx
      have hnot := ih.2 x hx
      rwa [mem_insert_iff, not_or] at hnot
    have hafter : ∀ x ∈ after, x ≠ a ∧ x ∉ seen ∧ x ∉ before := by
      intro x hx
      have hnot := ih'.2 x hx
      rwa [hsources.mem_iff, mem_insert_iff, not_or, not_or, and_assoc] at hnot
    constructor
    · rw [List.nodup_append, List.nodup_cons]
      refine ⟨ih.1, ⟨fun ha => (hafter a ha).1 rfl, ih'.1⟩, ?_⟩
      intro x hx y hy heq
      subst heq
      rcases List.mem_cons.mp hy with hy | hy
      · exact (hbefore x hx).1 hy
      · exact (hafter x hy).2.2 hx
    · intro x hx
      rcases List.mem_append.mp hx with hx | hx
      · exact (hbefore x hx).2
      · rcases List.mem_cons.mp hx with rfl | hx
        · exact hseen
        · exact (hafter x hx).2.1

theorem derivesFrom (h : log.Visits args seen order seen') {x : ArgId} (hx : x ∈ order) :
    ∃ arg ∈ args, log.DerivesFrom arg x := by
  induction h with
  | done => cases hx
  | again _ _ ih =>
    obtain ⟨arg, harg, hpath⟩ := ih hx
    exact ⟨arg, List.mem_cons_of_mem _ harg, hpath⟩
  | @fresh a _ _ _ _ _ _ _ _ _ ih ih' =>
    rw [List.mem_append, List.mem_cons] at hx
    rcases hx with hx | rfl | hx
    · obtain ⟨source, hsource, hpath⟩ := ih hx
      exact ⟨a, List.mem_cons_self, .head hsource hpath⟩
    · exact ⟨x, List.mem_cons_self, .refl⟩
    · obtain ⟨arg, harg, hpath⟩ := ih' hx
      exact ⟨arg, List.mem_cons_of_mem _ harg, hpath⟩

theorem args_seen (h : log.Visits args seen order seen') : ∀ arg ∈ args, arg ∈ seen' := by
  induction h with
  | done => simp
  | again hseen hrest ih =>
    rw [List.forall_mem_cons]
    exact ⟨(hrest.mem_iff _).mpr (.inl hseen), ih⟩
  | fresh _ hsources hrest _ ih' =>
    rw [List.forall_mem_cons]
    refine ⟨?_, ih'⟩
    rw [hrest.mem_iff, hsources.mem_iff]
    simp

theorem sources_seen (h : log.Visits args seen order seen') {x : ArgId} (hx : x ∈ order) :
    ∀ s ∈ log.sources x, s ∈ seen' := by
  induction h with
  | done => cases hx
  | again _ _ ih => exact ih hx
  | fresh _ hsources hrest ih ih' =>
    rw [List.mem_append, List.mem_cons] at hx
    intro s hs
    rcases hx with hx | rfl | hx
    · exact (hrest.mem_iff s).mpr (.inl (ih hx s hs))
    · exact (hrest.mem_iff s).mpr (.inl (hsources.args_seen s hs))
    · exact ih' hx s hs

theorem source_cases (h : log.Visits args seen order seen') {l r : List ArgId} {x s : ArgId}
    (horder : order = l ++ x :: r) (hs : s ∈ log.sources x) :
    s ∈ seen ∨ s ∈ l ∨ log.DerivesFrom s x := by
  induction h generalizing l r with
  | done => simp at horder
  | again _ _ ih => exact ih horder
  | fresh _ hsources _ ih ih' =>
    rcases append_cons_cases horder with ⟨m, rfl⟩ | ⟨rfl, rfl⟩ | ⟨m, rfl, rfl⟩
    · rcases ih rfl with hseen | hl | hpath
      · rcases mem_insert_iff.mp hseen with rfl | hseen
        · -- Here `x` is listed in the search from the sources of `s`.
          obtain ⟨source, hsource, hpath⟩ := hsources.derivesFrom (x := x) (by simp)
          exact .inr (.inr (.head hsource hpath))
        · exact .inl hseen
      · exact .inr (.inl hl)
      · exact .inr (.inr hpath)
    · -- The arg itself is seen while its sources are searched, so it may turn up among them.
      have hmid := hsources.args_seen s hs
      rw [hsources.mem_iff, mem_insert_iff] at hmid
      rcases hmid with (rfl | hseen) | hbefore
      · exact .inr (.inr .refl)
      · exact .inl hseen
      · exact .inr (.inl hbefore)
    · rcases ih' rfl with hmid | hm | hpath
      · rw [hsources.mem_iff, mem_insert_iff] at hmid
        rw [List.mem_append, List.mem_cons]
        tauto
      · exact .inr (.inl (List.mem_append_right _ (List.mem_cons_of_mem _ hm)))
      · exact .inr (.inr hpath)

theorem ancestorsFirst (h : log.Visits args ∅ order seen') (hacyclic : log.Acyclic) :
    log.AncestorsFirst order := by
  have hlink : ∀ l x r, order = l ++ x :: r → ∀ s ∈ log.sources x, s ∈ l := by
    intro l x r horder s hs
    rcases h.source_cases horder hs with hseen | hl | hpath
    · simp at hseen
    · exact hl
    · exact absurd (TransGen.head' hs hpath) (hacyclic x)
  intro l x r horder source hpath
  induction hpath using TransGen.head_induction_on generalizing l r with
  | single hsource => exact hlink l _ r horder source hsource
  | @head x y hsource _ ih =>
    obtain ⟨b, c, rfl⟩ := List.append_of_mem (hlink l x r horder y hsource)
    rw [List.append_assoc, List.cons_append] at horder
    exact List.mem_append_left _ (ih b (c ++ x :: r) horder)

theorem mem_order_iff (h : log.Visits [arg] ∅ order seen') (a : ArgId) :
    a ∈ order ↔ log.DerivesFrom arg a := by
  have hseen : ∀ x, x ∈ seen' ↔ x ∈ order := by
    intro x
    rw [h.mem_iff]
    simp
  constructor
  · intro ha
    obtain ⟨_, harg, hpath⟩ := h.derivesFrom ha
    rwa [List.mem_singleton.mp harg] at hpath
  · intro hpath
    induction hpath with
    | refl => exact (hseen arg).mp (h.args_seen arg (by simp))
    | tail _ hlink ih => exact (hseen _).mp (h.sources_seen ih _ hlink)

theorem getLast?_eq (h : log.Visits [arg] ∅ order seen') : order.getLast? = some arg := by
  cases h with
  | again hseen => simp at hseen
  | fresh _ _ hrest =>
    cases hrest
    simp

end Visits

/-! ### Walks -/

def Walk.told (log : Log) (w : Walk) (order : List ArgId) (seen : Std.ExtTreeSet ArgId) : Walk :=
  ⟨seen, ⟨w.lineage.origin <|> order.find? fun a => (log.sources a).isEmpty,
    w.lineage.steps ++ order.flatMap log.kinds⟩⟩

theorem Walk.told_finish (w : Walk) (a : ArgId) (before after : List ArgId)
    (mid seen : Std.ExtTreeSet ArgId) :
    (log.finish a (w.told log before mid)).told log after seen =
      w.told log (before ++ a :: after) seen := by
  simp only [told, finish, List.find?_append, List.find?_cons, List.flatMap_append,
    List.flatMap_cons, List.append_assoc]
  cases w.lineage.origin <;> cases before.find? _ <;> cases (log.sources a).isEmpty <;> simp [kinds]

/-- The bound on the levels of a walk cuts nothing off. -/
theorem visits_walk (log : Log) {fuel : Nat} {w : Walk} (hfuel : (log.unseen w.seen).card < fuel)
    (args : List ArgId) :
    ∃ order seen', log.Visits args w.seen order seen' ∧
      args.foldl (fun w arg => walk log fuel arg w) w = w.told log order seen' := by
  induction fuel generalizing w args with
  | zero => omega
  | succ fuel ih =>
    induction args generalizing w with
    | nil => exact ⟨[], w.seen, .done w.seen, by simp [Walk.told]⟩
    | cons a args ih' =>
      rw [List.foldl_cons]
      by_cases hseen : a ∈ w.seen
      · rw [walk_of_mem hseen]
        obtain ⟨order, seen', hvisits, hfold⟩ := ih' hfuel
        exact ⟨order, seen', .again hseen hvisits, hfold⟩
      · obtain ⟨before, mid, hsources, hfold⟩ : ∃ before mid,
            log.Visits (log.sources a) (w.seen.insert a) before mid ∧
              (log.sources a).foldl (fun w arg => walk log fuel arg w)
                { w with seen := w.seen.insert a } = w.told log before mid := by
          by_cases hkey : a ∈ log.entries
          · have hless := card_unseen_insert_lt hkey hseen
            exact ih (w := { w with seen := w.seen.insert a }) (by dsimp only; omega) _
          · rw [sources_eq_nil (events_of_not_mem hkey)]
            exact ⟨[], _, .done _, by simp [Walk.told]⟩
        have hmid : (log.unseen mid).card ≤ (log.unseen w.seen).card := by
          apply card_unseen_anti
          intro x hx
          rw [hsources.mem_iff]
          simp [hx]
        obtain ⟨after, seen', hrest, hfold'⟩ := ih' (w := log.finish a (w.told log before mid))
          (Nat.lt_of_le_of_lt hmid hfuel)
        refine ⟨before ++ a :: after, seen', .fresh hseen hsources hrest, ?_⟩
        rw [walk_of_not_mem hseen, hfold, hfold', Walk.told_finish]

theorem chain_of_visits (log : Log) (arg : ArgId) :
    ∃ order seen, log.Visits [arg] ∅ order seen ∧ log.chain arg =
      ⟨(order.find? fun a => (log.sources a).isEmpty) <|> some arg, order.flatMap log.kinds⟩ := by
  obtain ⟨order, seen, hvisits, hfold⟩ := visits_walk log (w := ⟨∅, ⟨none, []⟩⟩)
    (Nat.lt_succ_of_le card_unseen_le) [arg]
  refine ⟨order, seen, hvisits, ?_⟩
  rw [List.foldl_cons, List.foldl_nil] at hfold
  rw [chain, hfold]
  simp [Walk.told]

theorem AncestorsFirst.exists_root (hfirst : log.AncestorsFirst order) (ha : a ∈ order) :
    ∃ root, (order.find? fun a => (log.sources a).isEmpty) = some root := by
  cases order with
  | nil => cases ha
  | cons root order =>
    have hroot : log.sources root = [] := by
      apply List.eq_nil_iff_forall_not_mem.mpr
      intro s hs
      exact List.not_mem_nil (hfirst [] root order rfl s (.single hs))
    exact ⟨root, by simp [hroot]⟩

/--
The history of an arg tells what was done to the args that it derives from, each in one piece and
once, and ends with the arg itself; no bound on its depth is needed. If no arg derives from itself,
ancestors come before their descendants, and the origin is an ancestor without sources.
-/
theorem chain_lists_ancestors (log : Log) (arg : ArgId) :
    ∃ order seen, log.Visits [arg] ∅ order seen ∧ order.Nodup ∧
      (∀ a, a ∈ order ↔ log.DerivesFrom arg a) ∧ order.getLast? = some arg ∧
      (log.chain arg).steps = order.flatMap log.kinds ∧
      (log.Acyclic → log.AncestorsFirst order ∧
        (log.chain arg).origin = some (log.origin arg) ∧
        log.DerivesFrom arg (log.origin arg) ∧ log.sources (log.origin arg) = []) := by
  obtain ⟨order, seen, hvisits, hchain⟩ := chain_of_visits log arg
  refine ⟨order, seen, hvisits, hvisits.nodup.1, hvisits.mem_order_iff, hvisits.getLast?_eq,
    congrArg Lineage.steps hchain, ?_⟩
  intro hacyclic
  have hfirst := hvisits.ancestorsFirst hacyclic
  obtain ⟨root, hroot⟩ := hfirst.exists_root ((hvisits.mem_order_iff arg).mpr .refl)
  have horigin : (log.chain arg).origin = some root := by
    rw [hchain, hroot]
    rfl
  have hlog : log.origin arg = root := by
    rw [origin, horigin]
    rfl
  rw [hlog]
  refine ⟨hfirst, horigin, (hvisits.mem_order_iff root).mp (List.mem_of_find?_eq_some hroot), ?_⟩
  have hnone := List.find?_some hroot
  exact List.isEmpty_iff.mp hnone

theorem acyclic_of_descending (h : ∀ a ∈ log.entries.keys, ∀ s ∈ log.sources a, s.index < a.index) :
    log.Acyclic := by
  have hlink : ∀ a, ∀ s ∈ log.sources a, s.index < a.index := by
    intro a s hs
    by_cases hkey : a ∈ log.entries
    · exact h a (Std.ExtTreeMap.mem_keys.mpr hkey) s hs
    · rw [sources_eq_nil (events_of_not_mem hkey)] at hs
      cases hs
  have hless : ∀ x y, log.DescendsFrom x y → y.index < x.index := by
    intro x y hpath
    induction hpath with
    | single hs => exact hlink _ _ hs
    | tail _ hs ih => exact Nat.lt_trans (hlink _ _ hs) ih
  exact fun a hcycle => Nat.lt_irrefl a.index (hless a a hcycle)

def diamond : Log :=
  (((((Log.empty.annotate ⟨0⟩ (.fixPoint 3) "fold").record ⟨1⟩ ⟨some ⟨0⟩, .transpose [1, 0], "turn"⟩
    ).record ⟨2⟩ ⟨some ⟨0⟩, .reshape [6], "flatten"⟩).record ⟨3⟩ ⟨some ⟨2⟩, .identity, "join"⟩
    ).annotate ⟨3⟩ (.fixPoint 5) "fold").record ⟨3⟩ ⟨some ⟨1⟩, .reshape [3, 2], "join"⟩

theorem chain_lists_ancestors_diamond :
    diamond.Acyclic ∧
    ∃ order, order.Nodup ∧ (∀ a, a ∈ order ↔ diamond.DerivesFrom ⟨3⟩ a) ∧
      order.getLast? = some ⟨3⟩ ∧ diamond.AncestorsFirst order ∧
      order.flatMap diamond.kinds =
        [.fixPoint 3, .reshape [6], .transpose [1, 0], .identity, .fixPoint 5, .reshape [3, 2]] ∧
      diamond.origin ⟨3⟩ = ⟨0⟩ ∧ diamond.DerivesFrom ⟨3⟩ ⟨0⟩ ∧ diamond.sources ⟨0⟩ = [] := by
  have hacyclic : diamond.Acyclic := acyclic_of_descending (by decide)
  have horigin : diamond.origin ⟨3⟩ = ⟨0⟩ := by decide
  obtain ⟨order, -, -, hnodup, hmem, hlast, hsteps, hrest⟩ := chain_lists_ancestors diamond ⟨3⟩
  obtain ⟨hfirst, -, hpath, hnone⟩ := hrest hacyclic
  rw [horigin] at hpath hnone
  refine ⟨hacyclic, order, hnodup, hmem, hlast, hfirst, ?_, horigin, hpath, hnone⟩
  rw [← hsteps]
  decide

-- On a cycle nothing is told twice, and the arg itself still comes last.
example : (((Log.empty.record ⟨0⟩ ⟨some ⟨1⟩, .reshape [6], "flatten"⟩).record ⟨1⟩
    ⟨some ⟨0⟩, .reshape [2, 3], "unflatten"⟩).chain ⟨0⟩).steps =
      [.reshape [2, 3], .reshape [6]] := by
  decide

end OpGraph.Log
