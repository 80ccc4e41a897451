import Mathlib.Data.Finset.Card
import OpGraph.Provenance.Log

/-!
The history of an arg as the log tells it. A walk visits every arg once, so it never needs more
levels than there are args with events, and what it collects depends on nothing but the events of
the args that it reaches. So an entry on an arg that had none continues the history of its source,
and dropping the events that no live arg reaches leaves the histories of the live args as they were.
-/

namespace OpGraph.Log

variable {log log' : Log} {seen : Std.ExtTreeSet ArgId} {a : ArgId} {fuel : Nat}

theorem events_record (arg : ArgId) (event : Event) (a : ArgId) :
    (log.record arg event).events a =
      if a = arg then log.events arg ++ [event] else log.events a := by
  rw [events, record, Std.ExtTreeMap.getD_insert]
  simp only [Std.compare_eq_iff_eq, eq_comm (a := arg)]
  rfl

theorem events_of_not_mem (h : a ∉ log.entries) : log.events a = [] :=
  Std.ExtTreeMap.getD_eq_fallback h

theorem sources_eq_nil (h : log.events a = []) : log.sources a = [] := by
  rw [sources, h, List.filterMap_nil]

theorem sources_congr (h : log'.events a = log.events a) : log'.sources a = log.sources a := by
  rw [sources, sources, h]

/-! ### Levels -/

def unseen (log : Log) (seen : Std.ExtTreeSet ArgId) : Finset ArgId :=
  log.entries.keys.toFinset.filter (· ∉ seen)

theorem mem_unseen_iff : a ∈ log.unseen seen ↔ a ∈ log.entries ∧ a ∉ seen := by
  simp [unseen]

theorem card_unseen_le : (log.unseen seen).card ≤ log.size := by
  calc (log.unseen seen).card ≤ log.entries.keys.toFinset.card := Finset.card_filter_le _ _
    _ ≤ log.entries.keys.length := List.toFinset_card_le _
    _ = log.size := Std.ExtTreeMap.length_keys

theorem card_unseen_anti {seen' : Std.ExtTreeSet ArgId} (h : ∀ a ∈ seen, a ∈ seen') :
    (log.unseen seen').card ≤ (log.unseen seen).card := by
  apply Finset.card_le_card
  intro a ha
  rw [mem_unseen_iff] at ha ⊢
  exact ⟨ha.1, fun hseen => ha.2 (h a hseen)⟩

theorem card_unseen_insert_lt (hkey : a ∈ log.entries) (ha : a ∉ seen) :
    (log.unseen (seen.insert a)).card < (log.unseen seen).card := by
  apply Finset.card_lt_card
  rw [Finset.ssubset_iff_of_subset]
  · exact ⟨a, mem_unseen_iff.mpr ⟨hkey, ha⟩, fun h => (mem_unseen_iff.mp h).2 (by simp)⟩
  · intro b hb
    rw [mem_unseen_iff] at hb ⊢
    exact ⟨hb.1, fun hseen => hb.2 (by simp [hseen])⟩

/-! ### Walks -/

def finish (log : Log) (arg : ArgId) (w : Walk) : Walk :=
  { w with lineage :=
    ⟨if (log.sources arg).isEmpty then w.lineage.origin <|> some arg else w.lineage.origin,
      w.lineage.steps ++ (log.events arg).map Event.kind⟩ }

theorem walk_of_mem {w : Walk} (h : a ∈ w.seen) (fuel : Nat) : walk log fuel a w = w := by
  cases fuel with
  | zero => rfl
  | succ fuel => rw [walk, if_pos h]

theorem walk_of_not_mem {w : Walk} (h : a ∉ w.seen) (fuel : Nat) :
    walk log (fuel + 1) a w = log.finish a ((log.sources a).foldl
      (fun w source => walk log fuel source w) { w with seen := w.seen.insert a }) := by
  rw [walk, if_neg h]
  rfl

theorem reach_of_mem (h : a ∈ seen) (fuel : Nat) : reach log fuel a seen = seen := by
  cases fuel with
  | zero => rfl
  | succ fuel => rw [reach, if_pos h]

theorem seen_walk (fuel : Nat) (arg : ArgId) (w : Walk) :
    (walk log fuel arg w).seen = reach log fuel arg w.seen := by
  induction fuel generalizing arg w with
  | zero => rfl
  | succ fuel ih =>
    by_cases hmem : arg ∈ w.seen
    · rw [walk_of_mem hmem, reach_of_mem hmem]
    · rw [walk_of_not_mem hmem, reach, if_neg hmem]
      refine List.foldl_rel (r := fun (w : Walk) seen => w.seen = seen) rfl ?_
      rintro source - w' seen' rfl
      exact ih source w'

theorem subset_reach (fuel : Nat) (arg : ArgId) (seen : Std.ExtTreeSet ArgId) :
    ∀ a ∈ seen, a ∈ reach log fuel arg seen := by
  induction fuel generalizing arg seen with
  | zero => exact fun a ha => ha
  | succ fuel ih =>
    intro a ha
    rw [reach]
    split
    · exact ha
    · refine List.foldlRecOn (motive := fun s => a ∈ s) _ _ (by simp [ha]) ?_
      exact fun s hs source _ => ih source s a hs

theorem subset_foldl_reach (log : Log) (fuel : Nat) (sources : List ArgId)
    (seen : Std.ExtTreeSet ArgId) :
    ∀ a ∈ seen, a ∈ sources.foldl (fun seen source => reach log fuel source seen) seen :=
  fun a ha => List.foldlRecOn (motive := fun s => a ∈ s) _ _ ha
    fun s hs source _ => subset_reach fuel source s a hs

theorem walk_eq_of_unseen_lt {fuel' : Nat} {w : Walk} (hfuel : (log.unseen w.seen).card < fuel)
    (hfuel' : (log.unseen w.seen).card < fuel') (arg : ArgId) :
    walk log fuel arg w = walk log fuel' arg w := by
  induction fuel generalizing fuel' arg w with
  | zero => omega
  | succ fuel ih =>
    obtain ⟨fuel', rfl⟩ : ∃ n, fuel' = n + 1 := ⟨fuel' - 1, by omega⟩
    by_cases hmem : arg ∈ w.seen
    · rw [walk_of_mem hmem, walk_of_mem hmem]
    · rw [walk_of_not_mem hmem, walk_of_not_mem hmem]
      by_cases hkey : arg ∈ log.entries
      · -- What is still to be seen gets less with `arg` and then only with every source.
        have hless := card_unseen_insert_lt hkey hmem
        have hrel := List.foldl_rel (l := log.sources arg)
          (f := fun w source => walk log fuel source w)
          (g := fun w source => walk log fuel' source w)
          (r := fun w₁ w₂ => w₁ = w₂ ∧ (log.unseen w₁.seen).card < (log.unseen w.seen).card)
          (a := { w with seen := w.seen.insert arg }) ⟨rfl, hless⟩ ?_
        · rw [hrel.1]
        · rintro source - w₁ w₂ ⟨rfl, hw₁⟩
          refine ⟨ih (by omega) (by omega) source, ?_⟩
          rw [seen_walk]
          exact Nat.lt_of_le_of_lt (card_unseen_anti (subset_reach fuel source w₁.seen)) hw₁
      · rw [sources_eq_nil (events_of_not_mem hkey), List.foldl_nil, List.foldl_nil]

/-! ### Dropping events -/

theorem walk_congr {S : ArgId → Prop} (hevents : ∀ a, S a → log'.events a = log.events a)
    (hclosed : ∀ a, S a → ∀ s ∈ log.sources a, S s) (fuel : Nat) {arg : ArgId} (harg : S arg)
    (w : Walk) : walk log' fuel arg w = walk log fuel arg w := by
  induction fuel generalizing arg w with
  | zero => rfl
  | succ fuel ih =>
    by_cases hmem : arg ∈ w.seen
    · rw [walk_of_mem hmem, walk_of_mem hmem]
    · have hsources := sources_congr (hevents arg harg)
      rw [walk_of_not_mem hmem, walk_of_not_mem hmem, finish, finish, hsources, hevents arg harg]
      have hfold := List.foldl_rel (l := log.sources arg) (r := Eq)
        (f := fun w source => walk log' fuel source w) (g := fun w source => walk log fuel source w)
        (a := { w with seen := w.seen.insert arg }) rfl ?_
      · rw [hfold]
      · rintro source hsource w₁ w₂ rfl
        exact ih (hclosed arg harg source hsource) w₁

/-- The args in question are reached, and with a newly reached arg all its sources. -/
def Completes (log : Log) (args : List ArgId) (seen reached : Std.ExtTreeSet ArgId) : Prop :=
  (∀ a ∈ args, a ∈ reached) ∧
    ∀ a ∈ reached, a ∉ seen → ∀ s ∈ log.sources a, s ∈ reached

theorem completes_foldl {args : List ArgId} {n : Nat}
    (hreach : ∀ arg seen, (log.unseen seen).card ≤ n →
      log.Completes [arg] seen (reach log fuel arg seen))
    (hseen : (log.unseen seen).card ≤ n) :
    log.Completes args seen (args.foldl (fun seen arg => reach log fuel arg seen) seen) := by
  induction args generalizing seen with
  | nil => exact ⟨by simp, fun a ha hnot => absurd ha hnot⟩
  | cons arg args ih =>
    rw [List.foldl_cons]
    obtain ⟨hfirst, hclosed⟩ := hreach arg seen hseen
    have hgrow := subset_foldl_reach log fuel args (reach log fuel arg seen)
    obtain ⟨hrest, hclosed'⟩ := ih
      (Nat.le_trans (card_unseen_anti (subset_reach fuel arg seen)) hseen)
    refine ⟨List.forall_mem_cons.mpr ⟨hgrow arg (hfirst arg (by simp)), hrest⟩, ?_⟩
    intro a ha hnot s hs
    by_cases hmid : a ∈ reach log fuel arg seen
    · exact hgrow s (hclosed a hmid hnot s hs)
    · exact hclosed' a ha hmid s hs

theorem completes_reach (hfuel : (log.unseen seen).card < fuel) (arg : ArgId) :
    log.Completes [arg] seen (reach log fuel arg seen) := by
  induction fuel generalizing seen arg with
  | zero => omega
  | succ fuel ih =>
    rw [reach]
    split
    · next hmem => exact ⟨by simpa using hmem, fun a ha hnot => absurd ha hnot⟩
    · next hmem =>
      have hself : arg ∈ (log.sources arg).foldl
          (fun seen source => reach log fuel source seen) (seen.insert arg) :=
        subset_foldl_reach log fuel _ _ arg (by simp)
      have hrest : log.Completes (log.sources arg) (seen.insert arg) ((log.sources arg).foldl
          (fun seen source => reach log fuel source seen) (seen.insert arg)) := by
        by_cases hkey : arg ∈ log.entries
        · have hless := card_unseen_insert_lt hkey hmem
          exact completes_foldl (n := (log.unseen (seen.insert arg)).card)
            (fun source s hs => ih (by omega) source) (Nat.le_refl _)
        · rw [sources_eq_nil (events_of_not_mem hkey)]
          exact ⟨by simp, fun a ha hnot => absurd ha hnot⟩
      refine ⟨by simpa using hself, ?_⟩
      intro a ha hnot s hs
      by_cases heq : a = arg
      · exact hrest.1 s (heq ▸ hs)
      · exact hrest.2 a ha (by simp [hnot, Ne.symm heq]) s hs

theorem completes_reachable (log : Log) (args : List ArgId) :
    log.Completes args ∅ (log.reachable args) :=
  completes_foldl (n := log.size)
    (fun arg _ hseen => completes_reach (Nat.lt_succ_of_le hseen) arg) card_unseen_le

theorem events_retainReachable (live : List ArgId) (a : ArgId) :
    (log.retainReachable live).events a = if a ∈ log.reachable live then log.events a else [] := by
  have hcontains : (log.reachable live).contains a = true ↔ a ∈ log.reachable live := Iff.rfl
  rw [events, retainReachable, Std.ExtTreeMap.getD_filter', events,
    Std.ExtTreeMap.getD_eq_getD_getElem?]
  cases log.entries[a]? with
  | none => simp
  | some events => simp [Option.filter, hcontains, apply_ite (Option.getD · [])]

theorem size_retainReachable_le (log : Log) (live : List ArgId) :
    (log.retainReachable live).size ≤ log.size :=
  Std.ExtTreeMap.size_filter_le_size

theorem chain_retainReachable {live : List ArgId} (ha : a ∈ live) :
    (log.retainReachable live).chain a = log.chain a := by
  obtain ⟨hlive, hclosed⟩ := completes_reachable log live
  have hwalk : ∀ fuel w, walk (log.retainReachable live) fuel a w = walk log fuel a w := by
    intro fuel w
    apply walk_congr (S := (· ∈ log.reachable live))
    · intro b hb
      rw [events_retainReachable, if_pos hb]
    · exact fun b hb => hclosed b hb (by simp)
    · exact hlive a ha
  have hsize := size_retainReachable_le log live
  have hfuel : walk (log.retainReachable live) ((log.retainReachable live).size + 1) a
      ⟨∅, ⟨none, []⟩⟩ = walk (log.retainReachable live) (log.size + 1) a ⟨∅, ⟨none, []⟩⟩ :=
    walk_eq_of_unseen_lt (Nat.lt_succ_of_le card_unseen_le)
      (Nat.lt_succ_of_le (Nat.le_trans card_unseen_le hsize)) a
  rw [chain, hfuel, hwalk]
  rfl

/-! ### New entries -/

/-- Two walks that have seen the same but for one arg, and collected the same steps. -/
def SameBut (out : ArgId) (w w' : Walk) : Prop :=
  w'.lineage.steps = w.lineage.steps ∧ out ∈ w'.seen ∧ ∀ a, a ≠ out → (a ∈ w'.seen ↔ a ∈ w.seen)

/-- An arg without events adds nothing to a history, so its later events do not matter once seen. -/
theorem sameBut_walk {out : ArgId} (hnone : log.events out = [])
    (hevents : ∀ a, a ≠ out → log'.events a = log.events a) (fuel : Nat) (arg : ArgId) {w w' : Walk}
    (h : SameBut out w w') : SameBut out (walk log fuel arg w) (walk log' fuel arg w') := by
  induction fuel generalizing arg w w' with
  | zero => exact h
  | succ fuel ih =>
    obtain ⟨hsteps, hout, hseen⟩ := h
    by_cases heq : arg = out
    · subst heq
      rw [walk_of_mem hout]
      by_cases hmem : arg ∈ w.seen
      · rw [walk_of_mem hmem]
        exact ⟨hsteps, hout, hseen⟩
      · rw [walk_of_not_mem hmem, sources_eq_nil hnone, List.foldl_nil, finish, hnone]
        refine ⟨by simpa using hsteps, hout, fun a ha => ?_⟩
        simp [hseen a ha, Ne.symm ha]
    · by_cases hmem : arg ∈ w.seen
      · rw [walk_of_mem hmem, walk_of_mem ((hseen arg heq).mpr hmem)]
        exact ⟨hsteps, hout, hseen⟩
      · rw [walk_of_not_mem hmem, walk_of_not_mem (mt (hseen arg heq).mp hmem),
          sources_congr (hevents arg heq)]
        have hfold := List.foldl_rel (l := log.sources arg) (r := SameBut out)
          (f := fun w source => walk log fuel source w)
          (g := fun w source => walk log' fuel source w)
          (a := { w with seen := w.seen.insert arg }) (b := { w' with seen := w'.seen.insert arg })
          ⟨hsteps, by simp [hout], fun a ha => by simp [hseen a ha]⟩
          fun source _ w₁ w₂ hw => ih source hw
        refine ⟨?_, hfold.2⟩
        rw [finish, finish, hevents arg heq, hfold.1]

/-! ### Fix-points -/

theorem fixPoint?_eq (log : Log) (arg : ArgId) :
    log.fixPoint? arg = (log.chain arg).steps.reverse.findSome? Anchor.fixPoint? := rfl

theorem fixPoint?_retainReachable {live : List ArgId} (ha : a ∈ live) :
    (log.retainReachable live).fixPoint? a = log.fixPoint? a := by
  rw [fixPoint?, chain_retainReachable ha, fixPoint?]

theorem exists_chain_record (log : Log) (arg : ArgId) (event : Event) :
    ∃ steps, ((log.record arg event).chain arg).steps = steps ++ [event.kind] := by
  rw [chain, walk_of_not_mem (by simp), finish, events_record, if_pos rfl, List.map_append,
    ← List.append_assoc]
  exact ⟨_, rfl⟩

theorem fixPoint?_annotate (log : Log) (arg : ArgId) (n : Int64) (pass : String) :
    (log.annotate arg (.fixPoint n) pass).fixPoint? arg = some n := by
  obtain ⟨steps, hsteps⟩ := exists_chain_record log arg ⟨none, .fixPoint n, pass⟩
  rw [annotate, fixPoint?_eq, hsteps, List.reverse_concat]
  rfl

theorem chain_record {out old : ArgId} (hnone : log.events out = [])
    (kind : Anchor) (pass : String) :
    ((log.record out ⟨some old, kind, pass⟩).chain out).steps =
      (log.chain old).steps ++ [kind] := by
  generalize hlog' : log.record out ⟨some old, kind, pass⟩ = log'
  have hevents : ∀ a, a ≠ out → log'.events a = log.events a := by
    intro a ha
    rw [← hlog', events_record, if_neg ha]
  have hown : log'.events out = [⟨some old, kind, pass⟩] := by
    rw [← hlog', events_record, if_pos rfl, hnone, List.nil_append]
  have hsources : log'.sources out = [old] := by
    rw [sources, hown]
    rfl
  have hkey : out ∈ log'.entries := by
    rw [← hlog', record]
    simp
  have hsize : log'.size ≤ log.size + 1 := by
    rw [← hlog']
    exact Std.ExtTreeMap.size_insert_le
  have hless : (log'.unseen ((∅ : Std.ExtTreeSet ArgId).insert out)).card < log'.size :=
    Nat.lt_of_lt_of_le (card_unseen_insert_lt hkey (by simp)) card_unseen_le
  -- Behind `out` the walk goes on at `old`, as it does in the log without the new entry.
  have hsame : SameBut out (walk log (log.size + 1) old ⟨∅, ⟨none, []⟩⟩)
      (walk log' (log.size + 1) old ⟨(∅ : Std.ExtTreeSet ArgId).insert out, ⟨none, []⟩⟩) :=
    sameBut_walk hnone hevents _ old ⟨rfl, by simp, fun a ha => by simp [Ne.symm ha]⟩
  have hfuel : walk log' log'.size old ⟨(∅ : Std.ExtTreeSet ArgId).insert out, ⟨none, []⟩⟩ =
      walk log' (log.size + 1) old ⟨(∅ : Std.ExtTreeSet ArgId).insert out, ⟨none, []⟩⟩ := by
    apply walk_eq_of_unseen_lt
    · exact hless
    · exact Nat.lt_of_lt_of_le hless hsize
  rw [chain, walk_of_not_mem (by simp), finish, hsources, hown, List.foldl_cons, List.foldl_nil,
    hfuel, hsame.1, chain]
  rfl

theorem fixPoint?_record {out old : ArgId} (hnone : log.events out = [])
    {kind : Anchor} (hkind : kind.fixPoint? = none) (pass : String) :
    (log.record out ⟨some old, kind, pass⟩).fixPoint? out = log.fixPoint? old := by
  rw [fixPoint?_eq, chain_record hnone, List.reverse_concat, List.findSome?_cons, hkind,
    fixPoint?_eq]

end OpGraph.Log
