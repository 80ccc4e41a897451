import OpGraph.Pass.Basic
import OpGraph.Proofs.Sequence

/-!
Where the rules of a pass get their patterns from. A cache that knows nothing of the rules hands out
the patterns that they build themselves, as long as it cannot mistake one for another.
-/

namespace OpGraph

namespace PassM

theorem orFault_eq_ok_iff {α : Type} {x : Except Fault α} {a : α} {w w' : Workspace} :
    orFault x w = .ok a w' ↔ x = .ok a ∧ w' = w := by
  cases x with
  | ok b =>
    constructor
    · intro hrun
      cases hrun
      exact ⟨rfl, rfl⟩
    · rintro ⟨heq, rfl⟩
      cases heq
      rfl
  | error fault =>
    constructor
    · intro hrun
      cases hrun
    · rintro ⟨heq, -⟩
      cases heq

theorem orFault_eq_error_iff {α : Type} {x : Except Fault α} {failure : Failure PassError}
    {w w' : Workspace} :
    orFault x w = .error failure w' ↔ ∃ f, x = .error f ∧ failure = .fault f ∧ w' = w := by
  cases x with
  | ok a =>
    constructor
    · nofun
    · rintro ⟨f, hf, -⟩
      cases hf
  | error f =>
    constructor
    · intro hrun
      cases hrun
      exact ⟨f, rfl, rfl, rfl⟩
    · rintro ⟨f', heq, rfl, rfl⟩
      cases heq
      rfl

theorem graph_of_fetch {store : Store} {key : String} {compiled pattern : Pattern}
    {w w' : Workspace} (hrun : fetch store key compiled w = .ok pattern w') :
    w'.graph = w.graph := by
  rw [fetch] at hrun
  split at hrun
  · cases hrun
    rfl
  · cases hrun

theorem fetch_ne_fault {store : Store} {key : String} {own : Pattern} {w w' : Workspace}
    {f : Fault} : fetch store key own w ≠ .error (.fault f) w' := by
  rw [fetch]
  split <;> nofun

end PassM

/-! ### What a cache hands out -/

namespace PatternCache

variable {store : Store} {key : String} {own pattern : Pattern} {cache : PatternCache}
  {storage storage' : Storage}

theorem fetch_of_known (hfind : cache.find? key = some pattern) :
    fetch store key own (cache, storage) = .ok pattern (cache, storage) := by
  unfold fetch
  rw [stateful_get_bind]
  simp only [hfind]
  rfl

section

variable (hfind : cache.find? key = none)

include hfind

theorem fetch_of_unreadable {error : FileError}
    (hread : store.read (blobPath key own.fingerprint) storage = .error error) :
    fetch store key own (cache, storage) = .error error (cache, storage) := by
  unfold fetch
  rw [stateful_get_bind]
  simp only [hfind, hread]
  rfl

variable {blob : Option Bytes}
  (hread : store.read (blobPath key own.fingerprint) storage = .ok blob)

include hread

theorem fetch_of_stored (hdecode : blob.bind (decode? own.fingerprint) = some pattern) :
    fetch store key own (cache, storage) =
      .ok (({ cache with loaded := cache.loaded + 1 }).remember key own.fingerprint pattern).1
        ((({ cache with loaded := cache.loaded + 1 }).remember key own.fingerprint pattern).2,
          storage) := by
  unfold fetch
  rw [stateful_get_bind]
  simp only [hfind, hread]
  rw [stateful_pure_bind, hdecode]
  rfl

variable (hdecode : blob.bind (decode? own.fingerprint) = none)

include hdecode

theorem fetch_of_write
    (hwrite : store.write (blobPath key own.fingerprint) own.toBytes storage = .ok () storage') :
    fetch store key own (cache, storage) =
      .ok (({ cache with stored := cache.stored + 1 }).remember key own.fingerprint own).1
        ((({ cache with stored := cache.stored + 1 }).remember key own.fingerprint own).2,
          storage') := by
  unfold fetch
  rw [stateful_get_bind]
  simp only [hfind, hread]
  rw [stateful_pure_bind, hdecode, hwrite]
  rfl

theorem fetch_of_write_error {error : FileError}
    (hwrite : store.write (blobPath key own.fingerprint) own.toBytes storage =
      .error error storage') :
    fetch store key own (cache, storage) = .error error (cache, storage') := by
  unfold fetch
  rw [stateful_get_bind]
  simp only [hfind, hread]
  rw [stateful_pure_bind, hdecode, hwrite]
  rfl

end

def Knows (c' c : PatternCache) : Prop :=
  ∀ key pattern, c.find? key = some pattern → c'.find? key = some pattern

theorem find?_remember (c : PatternCache) (key : String) (fingerprint : UInt64)
    (pattern : Pattern) :
    (c.remember key fingerprint pattern).2.find? key =
      some (c.remember key fingerprint pattern).1 := by
  simp only [find?, remember, Std.ExtTreeMap.getElem?_insert_self, Option.bind_some,
    Std.ExtTreeMap.getElem?_insertIfNew]
  cases hknown : c.byFingerprint[fingerprint]? with
  | none =>
    have hnew : fingerprint ∉ c.byFingerprint := by
      rw [Std.ExtTreeMap.mem_iff_isSome_getElem?, hknown]
      simp
    simp [hnew]
  | some known =>
    have hold : fingerprint ∈ c.byFingerprint := by
      rw [Std.ExtTreeMap.mem_iff_isSome_getElem?, hknown]
      rfl
    simp [hold]

theorem knows_remember {c : PatternCache} (hfind : c.find? key = none) (fingerprint : UInt64)
    (pattern : Pattern) : (c.remember key fingerprint pattern).2.Knows c := by
  intro k known hk
  have hne : key ≠ k := by
    rintro rfl
    rw [hfind] at hk
    cases hk
  rw [find?, Option.bind_eq_some_iff] at hk
  obtain ⟨print, hprint, hknown⟩ := hk
  simp only [find?, remember, Std.ExtTreeMap.getElem?_insert, Std.ExtTreeMap.getElem?_insertIfNew]
  rw [if_neg (by simpa using hne), hprint, Option.bind_some, if_neg, hknown]
  rintro ⟨heq, hnew⟩
  obtain rfl := Std.compare_eq_iff_eq.mp heq
  rw [Std.ExtTreeMap.mem_iff_isSome_getElem?, hknown] at hnew
  exact hnew rfl

theorem knows_of_fetch {cache' : PatternCache}
    (hrun : fetch store key own (cache, storage) = .ok pattern (cache', storage')) :
    cache'.find? key = some pattern ∧ cache'.Knows cache := by
  cases hfind : cache.find? key with
  | some known =>
    rw [fetch_of_known hfind] at hrun
    cases hrun
    exact ⟨hfind, fun _ _ => id⟩
  | none =>
    cases hread : store.read (blobPath key own.fingerprint) storage with
    | error error =>
      rw [fetch_of_unreadable hfind hread] at hrun
      cases hrun
    | ok blob =>
      cases hdecode : blob.bind (decode? own.fingerprint) with
      | some stored =>
        rw [fetch_of_stored hfind hread hdecode] at hrun
        cases hrun
        exact ⟨find?_remember _ _ _ _, knows_remember hfind _ _⟩
      | none =>
        cases hwrite : store.write (blobPath key own.fingerprint) own.toBytes storage with
        | ok u storage₁ =>
          rw [fetch_of_write hfind hread hdecode hwrite] at hrun
          cases hrun
          exact ⟨find?_remember _ _ _ _, knows_remember hfind _ _⟩
        | error error storage₁ =>
          rw [fetch_of_write_error hfind hread hdecode hwrite] at hrun
          cases hrun

end PatternCache

structure Workspace.Lacks (w : Workspace) (entry : String × Pattern) : Prop where
  key : w.cache.byKey[entry.1]? = none
  fingerprint : w.cache.byFingerprint[entry.2.fingerprint]? = none
  blob : w.storage.blobs[PatternCache.blobPath entry.1 entry.2.fingerprint]? = none

/-- A cache cannot mistake one pattern for the other. -/
def PatternCache.Apart (a b : String × Pattern) : Prop :=
  a.1 ≠ b.1 ∧ a.2.fingerprint ≠ b.2.fingerprint ∧
    blobPath a.1 a.2.fingerprint ≠ blobPath b.1 b.2.fingerprint

instance (a b : String × Pattern) : Decidable (PatternCache.Apart a b) :=
  inferInstanceAs (Decidable (_ ∧ _ ∧ _))

theorem Workspace.lacks_empty (g : Graph) (entry : String × Pattern) :
    Lacks ⟨g, .empty, .empty⟩ entry :=
  ⟨Std.ExtTreeMap.getElem?_empty, Std.ExtTreeMap.getElem?_empty, Std.ExtTreeMap.getElem?_empty⟩

theorem PassM.knows_of_fetch {store : Store} {key : String} {compiled pattern : Pattern}
    {w w' : Workspace} (hrun : fetch store key compiled w = .ok pattern w') :
    w'.cache.find? key = some pattern ∧ w'.cache.Knows w.cache := by
  rw [fetch] at hrun
  split at hrun
  · next hfetch =>
    cases hrun
    exact PatternCache.knows_of_fetch hfetch
  · cases hrun

theorem PassM.exists_fetch_of_lacks {w : Workspace} {key : String} {pattern : Pattern}
    (hlacks : w.Lacks (key, pattern)) :
    ∃ w', fetch .memory key pattern w = .ok pattern w' ∧
      ∀ entry, w.Lacks entry → PatternCache.Apart (key, pattern) entry → w'.Lacks entry := by
  have hfind : w.cache.find? key = none := by rw [PatternCache.find?, hlacks.key, Option.bind_none]
  have hread : Store.memory.read (PatternCache.blobPath key pattern.fingerprint) w.storage =
      .ok none :=
    congrArg Except.ok hlacks.blob
  have hkept : (w.cache.byFingerprint[pattern.fingerprint]?).getD pattern = pattern := by
    rw [hlacks.fingerprint, Option.getD_none]
  have hfetch := PatternCache.fetch_of_write hfind hread rfl rfl
  rw [PatternCache.remember, hkept] at hfetch
  refine ⟨_, by rw [fetch, hfetch], ?_⟩
  rintro entry hentry ⟨hkey, hfingerprint, hpath⟩
  constructor
  · rw [Std.ExtTreeMap.getElem?_insert, if_neg (by simpa using hkey), hentry.key]
  · rw [Std.ExtTreeMap.getElem?_insertIfNew, if_neg (by simp [hfingerprint]), hentry.fingerprint]
  · rw [Std.ExtTreeMap.getElem?_insert, if_neg (by simpa using hpath), hentry.blob]

namespace RulePass

variable {p : RulePass} {store : Store} {w w' : Workspace}

theorem graph_of_compile {rules : List (Rule PassContext)}
    (hrun : p.compile store w = .ok rules w') : w'.graph = w.graph := by
  rw [compile] at hrun
  generalize p.rules = specs at hrun
  induction specs generalizing w rules with
  | nil =>
    cases hrun
    rfl
  | cons spec specs ih =>
    simp only [List.mapM_cons, stateful_bind_eq_ok_iff, PassM.orFault_eq_ok_iff] at hrun
    obtain ⟨rule, w₁, ⟨compiled, w₂, ⟨-, rfl⟩, pattern, w₃, hfetch, hrule⟩, rest, w₄, hrest,
      hrun⟩ := hrun
    cases hrule
    cases hrun
    exact (ih hrest).trans (PassM.graph_of_fetch hfetch)

theorem compile_again {rules : List (Rule PassContext)} (hrun : p.compile store w = .ok rules w') :
    w'.cache.Knows w.cache ∧ ∀ (store' : Store) (v : Workspace), v.cache.Knows w'.cache →
      p.compile store' v = .ok rules v := by
  rw [compile] at hrun
  simp only [compile]
  generalize p.rules = specs at hrun ⊢
  induction specs generalizing w rules with
  | nil =>
    cases hrun
    exact ⟨fun _ _ => id, fun _ _ _ => rfl⟩
  | cons spec specs ih =>
    simp only [List.mapM_cons, stateful_bind_eq_ok_iff, PassM.orFault_eq_ok_iff] at hrun
    obtain ⟨rule, w₁, ⟨compiled, w₂, ⟨hcompiled, rfl⟩, pattern, w₃, hfetch, hrule⟩, rest, w₄, hrest,
      hrun⟩ := hrun
    cases hrule
    cases hrun
    obtain ⟨hfind, hknows⟩ := PassM.knows_of_fetch hfetch
    obtain ⟨hknows', hagain⟩ := ih hrest
    refine ⟨fun key known hknown => hknows' key known (hknows key known hknown), ?_⟩
    intro store' v hv
    have hhead : PassM.fetch store' (p.ruleKey spec) compiled v = .ok pattern v := by
      rw [PassM.fetch, PatternCache.fetch_of_known (hv _ _ (hknows' _ _ hfind))]
    simp only [List.mapM_cons, stateful_bind_eq_ok_iff, PassM.orFault_eq_ok_iff]
    exact ⟨_, v, ⟨compiled, v, ⟨hcompiled, rfl⟩, pattern, v, hhead, rfl⟩, rest, v,
      hagain store' v hv, rfl⟩

def ownRules (p : RulePass) : Except Fault (List (Rule PassContext)) :=
  p.rules.mapM fun spec => spec.toRule <$> spec.pattern

/-- The cache hands out the patterns that the rules build themselves. -/
def CacheAgrees (p : RulePass) (store : Store) (w : Workspace) : Prop :=
  ∀ rules w', p.compile store w = .ok rules w' → p.ownRules = .ok rules

def entries (p : RulePass) : Except Fault (List (String × Pattern)) :=
  p.rules.mapM fun spec => (p.ruleKey spec, ·) <$> spec.pattern

theorem cacheAgrees_of_lacks {entries : List (String × Pattern)}
    (hentries : p.entries = .ok entries) (hapart : entries.Pairwise PatternCache.Apart)
    (hlacks : ∀ entry ∈ entries, w.Lacks entry) :
    p.CacheAgrees .memory w := by
  intro rules w' hrun
  rw [RulePass.entries] at hentries
  rw [compile] at hrun
  rw [ownRules]
  generalize p.rules = specs at hentries hrun ⊢
  induction specs generalizing w entries rules with
  | nil =>
    cases hrun
    rfl
  | cons spec specs ih =>
    simp only [List.mapM_cons, bind_eq_ok_iff, map_eq_ok_iff, pure_eq_ok_iff] at hentries
    obtain ⟨_, ⟨own, hown, rfl⟩, others, hothers, rfl⟩ := hentries
    simp only [List.mapM_cons, stateful_bind_eq_ok_iff, PassM.orFault_eq_ok_iff, hown] at hrun
    obtain ⟨rule, w₁, ⟨compiled, w₂, ⟨hcompiled, rfl⟩, pattern, w₃, hfetch, hrule⟩, rest, w₄,
      hrest, hrun⟩ := hrun
    cases hcompiled
    cases hrule
    cases hrun
    obtain ⟨w₅, hfetch', hkeeps⟩ := PassM.exists_fetch_of_lacks (hlacks _ List.mem_cons_self)
    cases hfetch'.symm.trans hfetch
    -- What was stored for this rule is apart from the rest, which is therefore still unknown.
    obtain ⟨hhead, htail⟩ := List.pairwise_cons.mp hapart
    have hlacks' : ∀ entry ∈ others, w₁.Lacks entry := fun entry hentry =>
      hkeeps entry (hlacks entry (List.mem_cons_of_mem _ hentry)) (hhead entry hentry)
    rw [List.mapM_cons, hown, ih htail hlacks' _ hothers hrest]
    rfl

theorem not_fault_of_compile {own : List (Rule PassContext)} (hown : p.ownRules = .ok own)
    {f : Fault} : p.compile store w ≠ .error (.fault f) w' := by
  rw [ownRules] at hown
  rw [compile]
  generalize p.rules = specs at hown ⊢
  induction specs generalizing w own with
  | nil => nofun
  | cons spec specs ih =>
    simp only [List.mapM_cons, bind_eq_ok_iff, map_eq_ok_iff, pure_eq_ok_iff] at hown
    obtain ⟨_, ⟨pattern, hpattern, rfl⟩, others, hothers, rfl⟩ := hown
    intro hrun
    simp only [List.mapM_cons, stateful_bind_eq_error_iff, PassM.orFault_eq_error_iff,
      hpattern] at hrun
    obtain (⟨f', hf', -⟩ | ⟨_, w₁, -, hfetch | ⟨_, w₂, -, hrun⟩⟩) |
      ⟨_, w₁, -, hrest | ⟨_, w₂, -, hrun⟩⟩ := hrun
    · cases hf'
    · exact PassM.fetch_ne_fault hfetch
    · cases hrun
    · exact ih hothers hrest
    · cases hrun

theorem exists_spec_of_ownRules {rules : List (Rule PassContext)} (hrun : p.ownRules = .ok rules) :
    ∀ rule ∈ rules, ∃ spec ∈ p.rules, ∃ pattern, spec.pattern = .ok pattern ∧
      rule = spec.toRule pattern := by
  rw [ownRules] at hrun
  generalize p.rules = specs at hrun ⊢
  induction specs generalizing rules with
  | nil =>
    cases hrun
    intro rule hrule
    cases hrule
  | cons spec specs ih =>
    simp only [List.mapM_cons, bind_eq_ok_iff, map_eq_ok_iff, pure_eq_ok_iff] at hrun
    obtain ⟨_, ⟨pattern, hpattern, rfl⟩, rest, hrest, rfl⟩ := hrun
    intro rule hrule
    rcases List.mem_cons.mp hrule with rfl | hrule
    · exact ⟨spec, List.mem_cons_self, pattern, hpattern, rfl⟩
    · obtain ⟨spec', hspec', hrest'⟩ := ih hrest rule hrule
      exact ⟨spec', List.mem_cons_of_mem _ hspec', hrest'⟩

end RulePass

end OpGraph
