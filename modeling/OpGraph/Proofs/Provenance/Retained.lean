import Mathlib.Logic.Relation
import OpGraph.Proofs.Provenance.Chain

/-!
What is left of a log when only the histories of some args are kept: the events of their ancestors,
however far away, and no others. The links between what is left are what they were, so doing it
again changes nothing.
-/

namespace OpGraph.Log

open Relation

variable {log : Log} {seen : Std.ExtTreeSet ArgId} {a arg : ArgId} {live : List ArgId}

def DerivesFrom (log : Log) (arg a : ArgId) : Prop :=
  ReflTransGen (fun arg source => source ∈ log.sources arg) arg a

theorem derivesFrom_of_mem_reach {fuel : Nat} (ha : a ∈ reach log fuel arg seen) :
    a ∈ seen ∨ log.DerivesFrom arg a := by
  induction fuel generalizing arg seen with
  | zero => exact .inl ha
  | succ fuel ih =>
    rw [reach] at ha
    split at ha
    · exact .inl ha
    · refine List.foldlRecOn (motive := fun s => a ∈ s → a ∈ seen ∨ log.DerivesFrom arg a)
        _ _ ?_ ?_ ha
      · intro hmem
        rw [Std.ExtTreeSet.mem_insert, Std.compare_eq_iff_eq] at hmem
        rcases hmem with rfl | hmem
        · exact .inr .refl
        · exact .inl hmem
      · intro s hs source hsource hmem
        rcases ih hmem with hmem | hpath
        · exact hs hmem
        · exact .inr (.head hsource hpath)

theorem mem_reachable_iff : a ∈ log.reachable live ↔ ∃ arg ∈ live, log.DerivesFrom arg a := by
  constructor
  · intro ha
    refine List.foldlRecOn (motive := fun s => a ∈ s → ∃ arg ∈ live, log.DerivesFrom arg a)
      _ _ (fun hmem => absurd hmem (by simp)) ?_ ha
    intro s hs arg harg hmem
    rcases derivesFrom_of_mem_reach hmem with hmem | hpath
    · exact hs hmem
    · exact ⟨arg, harg, hpath⟩
  · rintro ⟨arg, harg, hpath⟩
    obtain ⟨hlive, hclosed⟩ := completes_reachable log live
    induction hpath with
    | refl => exact hlive arg harg
    | tail _ hlast ih => exact hclosed _ ih (by simp) _ hlast

theorem derivesFrom_retainReachable (harg : arg ∈ live) :
    (log.retainReachable live).DerivesFrom arg a ↔ log.DerivesFrom arg a := by
  constructor
  · intro hpath
    refine ReflTransGen.mono (fun x y hy => ?_) _ _ hpath
    rw [sources, events_retainReachable] at hy
    split at hy
    · exact hy
    · cases hy
  · intro hpath
    induction hpath with
    | refl => exact .refl
    | tail hbefore hlast ih =>
      refine ih.tail ?_
      have hmem := mem_reachable_iff.mpr ⟨arg, harg, hbefore⟩
      rw [sources, events_retainReachable, if_pos hmem]
      exact hlast

theorem entries_retainReachable {events : List Event} :
    (log.retainReachable live).entries[a]? = some events ↔
      log.entries[a]? = some events ∧ ∃ arg ∈ live, log.DerivesFrom arg a := by
  rw [retainReachable, Std.ExtTreeMap.getElem?_filter', Option.filter_eq_some_iff,
    ← Std.ExtTreeSet.mem_iff_contains, mem_reachable_iff]

theorem retainReachable_retainReachable (log : Log) (live : List ArgId) :
    (log.retainReachable live).retainReachable live = log.retainReachable live := by
  rw [Log.mk.injEq]
  refine Std.ExtTreeMap.ext_getElem? fun a => Option.ext fun events => ?_
  rw [entries_retainReachable, entries_retainReachable]
  constructor
  · exact fun hkept => hkept.1
  · rintro ⟨hentry, arg, harg, hpath⟩
    exact ⟨⟨hentry, arg, harg, hpath⟩, arg, harg, (derivesFrom_retainReachable harg).mpr hpath⟩

theorem origin_retainReachable (ha : a ∈ live) :
    (log.retainReachable live).origin a = log.origin a := by
  rw [origin, chain_retainReachable ha, origin]

end OpGraph.Log
