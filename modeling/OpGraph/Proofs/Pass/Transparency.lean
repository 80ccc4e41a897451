import OpGraph.Proofs.Pass.Cache
import OpGraph.Proofs.Pattern.RoundTrip
import OpGraph.Proofs.Text.Tells

/-!
A cache does not show in what it hands out. Whatever blobs lie in the memory at first, every pattern
that is asked for is the one that was compiled, as long as the hash tells the encodings apart. A key
costs one blob, which is read or written when the key comes first, and from then on the blob can be
read.
-/

namespace OpGraph.PatternCache

theorem blobPath_inj {key key' : String} {fingerprint fingerprint' : UInt64}
    (heq : blobPath key fingerprint = blobPath key' fingerprint') :
    key = key' ∧ fingerprint = fingerprint' := by
  have hwidth : ∀ n : UInt64, (Text.hexPadded 16 n.toNat).toList.length = 16 :=
    fun n => Text.length_hexPadded (by decide) n.toNat_lt
  have hlists := congrArg String.toList heq
  simp only [blobPath, String.toList_append] at hlists
  -- The parts behind the key have fixed widths, so the path is taken apart from its end.
  obtain ⟨hfront, -⟩ := List.append_inj' hlists rfl
  obtain ⟨hfront, hhex⟩ := List.append_inj' hfront ((hwidth _).trans (hwidth _).symm)
  obtain ⟨hfront, -⟩ := List.append_inj' hfront rfl
  refine ⟨String.toList_inj.mp (List.append_cancel_left hfront), UInt64.toNat_inj.mp ?_⟩
  exact Text.hexPadded_injective (String.toList_inj.mp hhex)

def fetchAll (store : Store) (requests : List (String × Pattern)) : Caching (List Pattern) :=
  requests.mapM fun request => fetch store request.1 request.2

def Holds (storage : Storage) (entry : String × Pattern) : Prop :=
  ∃ blob, storage.blobs[blobPath entry.1 entry.2.fingerprint]? = some blob ∧
    Pattern.ofBytes blob = .ok entry.2

/--
Requests whose patterns have no `NaN`s and do not change under a key. The hash tells their encodings
from each other and from those of the patterns that already lie where theirs are looked for.
-/
structure Unmistakable (storage : Storage) (requests : List (String × Pattern)) : Prop where
  obtained : ∀ entry ∈ requests, entry.2.Obtained
  nanFree : ∀ entry ∈ requests, entry.2.NaNFree
  short : ∀ entry ∈ requests, entry.2.toBytes.length < Word.limit
  steady : ∀ entry ∈ requests, ∀ entry' ∈ requests, entry.1 = entry'.1 → entry.2 = entry'.2
  apart : ∀ entry ∈ requests, ∀ entry' ∈ requests,
    entry.2.fingerprint = entry'.2.fingerprint → entry.2.toBytes = entry'.2.toBytes
  foreign : ∀ entry ∈ requests, ∀ blob ∈ storage.blobs[blobPath entry.1 entry.2.fingerprint]?,
    ∀ pattern, Pattern.ofBytes blob = .ok pattern →
      pattern.fingerprint = entry.2.fingerprint → pattern.toBytes = entry.2.toBytes

namespace Unmistakable

variable {storage : Storage} {requests : List (String × Pattern)} {entry : String × Pattern}
  (h : Unmistakable storage requests) (hentry : entry ∈ requests)

include h hentry

theorem eq_of_fingerprint {entry' : String × Pattern} (hentry' : entry' ∈ requests)
    (heq : entry'.2.fingerprint = entry.2.fingerprint) : entry'.2 = entry.2 :=
  Pattern.eq_of_toBytes (h.obtained entry hentry) (h.nanFree entry hentry)
    (h.obtained entry' hentry') (h.short entry hentry) (h.apart entry' hentry' entry hentry heq)

theorem decode?_eq_some_iff {pattern : Pattern} :
    storage.blobs[blobPath entry.1 entry.2.fingerprint]?.bind (decode? entry.2.fingerprint) =
      some pattern ↔ Holds storage entry ∧ pattern = entry.2 := by
  rw [Option.bind_eq_some_iff]
  constructor
  · rintro ⟨blob, hblob, hdecode⟩
    rw [decode?] at hdecode
    split at hdecode
    · next found hread =>
      split at hdecode
      · next hfingerprint =>
        cases hdecode
        -- The blob may be encoded in another way, but what it holds has the encoding of the
        -- pattern.
        have hbytes := h.foreign entry hentry blob hblob pattern hread hfingerprint
        obtain rfl := Pattern.eq_of_toBytes (h.obtained entry hentry) (h.nanFree entry hentry)
          (.read hread) (h.short entry hentry) hbytes
        exact ⟨⟨blob, hblob, hread⟩, rfl⟩
      · cases hdecode
    · cases hdecode
  · rintro ⟨⟨blob, hblob, hread⟩, rfl⟩
    exact ⟨blob, hblob, by rw [decode?, hread]; exact if_pos rfl⟩

end Unmistakable

/-! ### What is kept -/

/-- What a cache and its storage keep of the requests so far. -/
structure Keeps (storage₀ : Storage) (done : List (String × Pattern)) (cache : PatternCache)
    (storage : Storage) : Prop where
  keys : ∀ (key : String) fingerprint, cache.byKey[key]? = some fingerprint ↔
    ∃ pattern, (key, pattern) ∈ done ∧ pattern.fingerprint = fingerprint
  patterns : ∀ (fingerprint : UInt64) pattern, cache.byFingerprint[fingerprint]? = some pattern ↔
    (∃ key, (key, pattern) ∈ done) ∧ pattern.fingerprint = fingerprint
  held : ∀ entry ∈ done, Holds storage entry
  untouched : ∀ path, (∀ entry ∈ done, blobPath entry.1 entry.2.fingerprint ≠ path) →
    storage.blobs[path]? = storage₀.blobs[path]?

theorem keeps_empty (storage : Storage) : Keeps storage [] .empty storage where
  keys key fingerprint := by simp [empty]
  patterns fingerprint pattern := by simp [empty]
  held := nofun
  untouched _ _ := rfl

namespace Keeps

variable {storage₀ storage storage' : Storage} {done : List (String × Pattern)}
  {cache : PatternCache} {key : String} {pattern : Pattern}

theorem find?_eq_some_iff (h : Keeps storage₀ done cache storage) :
    cache.find? key = some pattern ↔ (key, pattern) ∈ done := by
  rw [find?, Option.bind_eq_some_iff]
  constructor
  · rintro ⟨fingerprint, hkey, hpattern⟩
    obtain ⟨known, hknown, hfingerprint⟩ := (h.keys key fingerprint).mp hkey
    have hsame := (h.patterns fingerprint known).mpr ⟨⟨key, hknown⟩, hfingerprint⟩
    cases hpattern.symm.trans hsame
    exact hknown
  · intro hknown
    exact ⟨pattern.fingerprint, (h.keys key _).mpr ⟨pattern, hknown, rfl⟩,
      (h.patterns _ pattern).mpr ⟨⟨key, hknown⟩, rfl⟩⟩

theorem remember_of_agrees (key : String) {fingerprint : UInt64}
    (hagrees : ∀ known, cache.byFingerprint[fingerprint]? = some known → known = pattern) :
    (cache.remember key fingerprint pattern).1 = pattern ∧ ∀ fingerprint' : UInt64,
      (cache.remember key fingerprint pattern).2.byFingerprint[fingerprint']? =
        if fingerprint = fingerprint' then some pattern
        else cache.byFingerprint[fingerprint']? := by
  simp only [PatternCache.remember, Std.ExtTreeMap.getElem?_insertIfNew, Std.compare_eq_iff_eq,
    Std.ExtTreeMap.mem_iff_isSome_getElem?]
  cases hknown : cache.byFingerprint[fingerprint]? with
  | none => simp
  | some known =>
    obtain rfl := hagrees known hknown
    refine ⟨rfl, fun fingerprint' => ?_⟩
    rw [if_neg (by simp)]
    split
    · next heq => rw [← heq, hknown]
    · rfl

theorem remember (h : Keeps storage₀ done cache storage) (hnew : ∀ known, (key, known) ∉ done)
    (hsame : ∀ entry ∈ done, entry.2.fingerprint = pattern.fingerprint → entry.2 = pattern)
    (hholds : Holds storage' (key, pattern))
    (hothers : ∀ path, blobPath key pattern.fingerprint ≠ path →
      storage'.blobs[path]? = storage.blobs[path]?) :
    (cache.remember key pattern.fingerprint pattern).1 = pattern ∧
      Keeps storage₀ (done ++ [(key, pattern)])
        (cache.remember key pattern.fingerprint pattern).2 storage' := by
  have hagrees : ∀ known,
      cache.byFingerprint[pattern.fingerprint]? = some known → known = pattern := by
    intro known hknown
    obtain ⟨⟨key', hmem⟩, hfingerprint⟩ := (h.patterns _ known).mp hknown
    exact hsame (key', known) hmem hfingerprint
  obtain ⟨hkept, hpatterns⟩ := remember_of_agrees key hagrees
  have hmem : ∀ key' known, (key', known) ∈ done ++ [(key, pattern)] ↔
      (key', known) ∈ done ∨ key' = key ∧ known = pattern := by simp
  refine ⟨hkept, ?_, ?_, ?_, ?_⟩
  · intro key' fingerprint
    simp only [PatternCache.remember, Std.ExtTreeMap.getElem?_insert, Std.compare_eq_iff_eq, hmem]
    split
    · next heq =>
      subst heq
      simp [hnew]
    · next hne => simp [h.keys, Ne.symm hne]
  · intro fingerprint known
    rw [hpatterns, exists_congr fun key' => hmem key' known, exists_or, exists_eq_left,
      or_and_right, ← h.patterns]
    split
    · next heq =>
      subst heq
      constructor
      · rintro ⟨⟩
        exact .inr ⟨rfl, rfl⟩
      · rintro (hknown | ⟨rfl, -⟩)
        · rw [hagrees known hknown]
        · rfl
    · next hne =>
      refine (or_iff_left ?_).symm
      rintro ⟨rfl, heq⟩
      exact hne heq
  · intro entry hentry
    rcases List.mem_append.mp hentry with hentry | hentry
    · obtain ⟨blob, hblob, hread⟩ := h.held entry hentry
      refine ⟨blob, ?_, hread⟩
      rw [hothers _ fun heq => ?_, hblob]
      apply hnew entry.2
      rw [(blobPath_inj heq).1]
      exact hentry
    · rw [List.mem_singleton.mp hentry]
      exact hholds
  · intro path hpath
    rw [List.forall_mem_append] at hpath
    rw [hothers path (hpath.2 (key, pattern) List.mem_cons_self), h.untouched path hpath.1]

end Keeps

/-! ### One request -/

structure Serves (storage₀ : Storage) (done : List (String × Pattern)) (entry : String × Pattern)
    (s s' : PatternCache × Storage) : Prop where
  answer : fetch .memory entry.1 entry.2 s = .ok entry.2 s'
  again : entry.1 ∈ done.map Prod.fst → s' = s
  loaded : entry.1 ∉ done.map Prod.fst → Holds storage₀ entry →
    s'.1.loaded = s.1.loaded + 1 ∧ s'.1.stored = s.1.stored ∧ s'.2 = s.2
  stored : entry.1 ∉ done.map Prod.fst → ¬ Holds storage₀ entry →
    s'.1.loaded = s.1.loaded ∧ s'.1.stored = s.1.stored + 1
  held : ∀ entry' ∈ done ++ [entry], Holds s'.2 entry'

section Request

variable {storage₀ : Storage} {requests done : List (String × Pattern)} {entry : String × Pattern}
  {s : PatternCache × Storage} (h : Keeps storage₀ done s.1 s.2)

include h

theorem Keeps.serves_again (hentry : entry ∈ done) :
    Serves storage₀ done entry s s ∧ Keeps storage₀ (done ++ [entry]) s.1 s.2 := by
  have hmem : ∀ entry', entry' ∈ done ++ [entry] ↔ entry' ∈ done := by
    intro entry'
    rw [List.mem_append, List.mem_singleton]
    exact or_iff_left_of_imp fun heq => heq ▸ hentry
  have hkey : entry.1 ∈ done.map Prod.fst := List.mem_map_of_mem hentry
  refine ⟨⟨fetch_of_known (h.find?_eq_some_iff.mpr hentry), fun _ => rfl, absurd hkey, absurd hkey,
    ?_⟩, ?_⟩
  · simpa only [hmem] using h.held
  · constructor
    · simpa only [hmem] using h.keys
    · simpa only [hmem] using h.patterns
    · simpa only [hmem] using h.held
    · simpa only [hmem] using h.untouched

theorem Keeps.serves_first (hr : Unmistakable storage₀ requests)
    (hdone : ∀ entry ∈ done, entry ∈ requests) (hentry : entry ∈ requests)
    (hnew : entry.1 ∉ done.map Prod.fst) :
    ∃ s', Serves storage₀ done entry s s' ∧ Keeps storage₀ (done ++ [entry]) s'.1 s'.2 := by
  obtain ⟨cache, storage⟩ := s
  have hunknown : ∀ known, (entry.1, known) ∉ done := fun known hknown =>
    hnew (List.mem_map.mpr ⟨_, hknown, rfl⟩)
  have hfind : cache.find? entry.1 = none := by
    rw [Option.eq_none_iff_forall_ne_some]
    intro known hknown
    exact hunknown known (h.find?_eq_some_iff.mp hknown)
  have hsame : ∀ entry' ∈ done, entry'.2.fingerprint = entry.2.fingerprint → entry'.2 = entry.2 :=
    fun entry' hentry' => hr.eq_of_fingerprint hentry (hdone entry' hentry')
  -- Nothing has been written yet where the blob of this key is looked for.
  have hblob : storage.blobs[blobPath entry.1 entry.2.fingerprint]? =
      storage₀.blobs[blobPath entry.1 entry.2.fingerprint]? := by
    apply h.untouched
    intro entry' hentry' heq
    apply hnew
    rw [← (blobPath_inj heq).1]
    exact List.mem_map_of_mem hentry'
  have hread : Store.memory.read (blobPath entry.1 entry.2.fingerprint) storage =
      .ok storage.blobs[blobPath entry.1 entry.2.fingerprint]? := rfl
  by_cases hholds : Holds storage₀ entry
  · have hdecode : (storage.blobs[blobPath entry.1 entry.2.fingerprint]?).bind
        (decode? entry.2.fingerprint) = some entry.2 := by
      rw [hblob]
      exact (hr.decode?_eq_some_iff hentry).mpr ⟨hholds, rfl⟩
    have hcounted : Keeps storage₀ done { cache with loaded := cache.loaded + 1 } storage :=
      ⟨h.keys, h.patterns, h.held, h.untouched⟩
    have hthere : Holds storage entry := by rwa [Holds, hblob]
    obtain ⟨hkept, hkeeps⟩ := hcounted.remember hunknown hsame hthere fun _ _ => rfl
    have hfetch := fetch_of_stored hfind hread hdecode
    rw [hkept] at hfetch
    exact ⟨_, ⟨hfetch, fun hold => absurd hold hnew, fun _ _ => ⟨rfl, rfl, rfl⟩,
      fun _ hnot => absurd hholds hnot, hkeeps.held⟩, hkeeps⟩
  · have hdecode : (storage.blobs[blobPath entry.1 entry.2.fingerprint]?).bind
        (decode? entry.2.fingerprint) = none := by
      rw [hblob, Option.eq_none_iff_forall_ne_some]
      intro found hfound
      exact hholds ((hr.decode?_eq_some_iff hentry).mp hfound).1
    have hcounted : Keeps storage₀ done { cache with stored := cache.stored + 1 } storage :=
      ⟨h.keys, h.patterns, h.held, h.untouched⟩
    have hwritten : Holds ⟨storage.files, storage.blobs.insert
        (blobPath entry.1 entry.2.fingerprint) entry.2.toBytes⟩ entry :=
      ⟨_, Std.ExtTreeMap.getElem?_insert_self, Pattern.read_toBytes (hr.obtained entry hentry)
        (hr.nanFree entry hentry) (hr.short entry hentry)⟩
    obtain ⟨hkept, hkeeps⟩ := hcounted.remember hunknown hsame hwritten fun path hpath => by
      rw [Std.ExtTreeMap.getElem?_insert, if_neg (by simpa using hpath)]
    have hfetch := fetch_of_write hfind hread hdecode rfl
    rw [hkept] at hfetch
    exact ⟨_, ⟨hfetch, fun hold => absurd hold hnew, fun _ hthere => absurd hthere hholds,
      fun _ _ => ⟨rfl, rfl⟩, hkeeps.held⟩, hkeeps⟩

theorem Keeps.serves (hr : Unmistakable storage₀ requests)
    (hdone : ∀ entry ∈ done, entry ∈ requests) (hentry : entry ∈ requests) :
    ∃ s', Serves storage₀ done entry s s' ∧ Keeps storage₀ (done ++ [entry]) s'.1 s'.2 := by
  by_cases hkey : entry.1 ∈ done.map Prod.fst
  · obtain ⟨entry', hentry', heq⟩ := List.mem_map.mp hkey
    have hsame : entry' = entry :=
      Prod.ext heq (hr.steady entry' (hdone entry' hentry') entry hentry heq)
    exact ⟨s, h.serves_again (hsame ▸ hentry')⟩
  · exact h.serves_first hr hdone hentry hkey

theorem Keeps.after_fetchAll (hr : Unmistakable storage₀ requests) {rest : List (String × Pattern)}
    (hall : ∀ entry ∈ done ++ rest, entry ∈ requests) :
    ∃ s', fetchAll .memory rest s = .ok (rest.map Prod.snd) s' ∧
      Keeps storage₀ (done ++ rest) s'.1 s'.2 := by
  induction rest generalizing done s with
  | nil => exact ⟨s, rfl, by rwa [List.append_nil]⟩
  | cons entry rest ih =>
    obtain ⟨hdone, hrest⟩ := List.forall_mem_append.mp hall
    obtain ⟨s₁, hserves, hkeeps⟩ := h.serves hr hdone (hrest entry List.mem_cons_self)
    rw [List.append_cons] at hall
    obtain ⟨s₂, hrest, hkeeps⟩ := ih hkeeps hall
    rw [← List.append_cons] at hkeeps
    refine ⟨s₂, ?_, hkeeps⟩
    rw [fetchAll, List.mapM_cons, stateful_bind_of_ok hserves.answer]
    exact stateful_bind_of_ok hrest _

end Request

/--
A cache is transparent over any requests: it hands out the patterns that were compiled. The first
request for a key reads or writes one blob, a later one changes nothing, and after each of them the
blobs of all patterns so far can be read.
-/
theorem fetchAll_transparent {storage : Storage} {requests : List (String × Pattern)}
    (hr : Unmistakable storage requests) :
    (∃ s, fetchAll .memory requests (.empty, storage) = .ok (requests.map Prod.snd) s) ∧
      ∀ done entry rest, requests = done ++ entry :: rest → ∃ s s',
        fetchAll .memory done (.empty, storage) = .ok (done.map Prod.snd) s ∧
          Serves storage done entry s s' := by
  have hempty : Keeps storage [] (empty, storage).1 (empty, storage).2 := keeps_empty storage
  constructor
  · obtain ⟨s, hrun, -⟩ := hempty.after_fetchAll hr fun _ => id
    exact ⟨s, hrun⟩
  · rintro done entry rest rfl
    have hdone : ∀ entry' ∈ done, entry' ∈ done ++ entry :: rest :=
      fun _ => List.mem_append_left _
    obtain ⟨s, hrun, hkeeps⟩ := hempty.after_fetchAll hr hdone
    obtain ⟨s', hserves, -⟩ :=
      hkeeps.serves hr hdone (List.mem_append_right done List.mem_cons_self)
    exact ⟨s, s', hrun, hserves⟩

def eluCalls : List BuilderCall :=
  [.wildcard, .node (.standard "Elu") [(⟨0⟩, false)] [("alpha", .float ⟨0x3f000000⟩)]]

def sharedRequests (p q : Pattern) : List (String × Pattern) :=
  [("a", p), ("b", q), ("a", p), ("c", p), ("b", q)]

/-- A blob that cannot be read, one of another pattern and one that is right. -/
def mixedBlobs (p q : Pattern) : Storage where
  files := .empty
  blobs := (((∅ : Std.ExtTreeMap String Bytes).insert (blobPath "a" p.fingerprint) [0xff]).insert
    (blobPath "b" q.fingerprint) p.toBytes).insert (blobPath "c" p.fingerprint) p.toBytes

theorem fetchAll_transparent_mixed : ∃ b b' p q s s₁ s₂,
    BuilderCall.runAll eluCalls .empty = .ok b ∧ b.freeze ⟨1⟩ = .ok p ∧
    BuilderCall.runAll [.constant] .empty = .ok b' ∧ b'.freeze ⟨0⟩ = .ok q ∧
    Unmistakable (mixedBlobs p q) (sharedRequests p q) ∧
    fetchAll .memory (sharedRequests p q) (.empty, mixedBlobs p q) = .ok [p, q, p, p, q] s ∧
    Serves (mixedBlobs p q) [("a", p), ("b", q), ("a", p)] ("c", p) s₁ s₂ := by
  have hchecks : ∃ b ∈ (BuilderCall.runAll eluCalls .empty).toOption, ∃ p ∈ (b.freeze ⟨1⟩).toOption,
      ∃ b' ∈ (BuilderCall.runAll [.constant] .empty).toOption, ∃ q ∈ (b'.freeze ⟨0⟩).toOption,
      (∀ entry ∈ sharedRequests p q, entry.2.NaNFree ∧ entry.2.toBytes.length < Word.limit) ∧
      (∀ entry ∈ sharedRequests p q, ∀ entry' ∈ sharedRequests p q,
        entry.1 = entry'.1 → entry.2 = entry'.2) ∧
      (∀ entry ∈ sharedRequests p q, ∀ entry' ∈ sharedRequests p q,
        entry.2.fingerprint = entry'.2.fingerprint → entry.2.toBytes = entry'.2.toBytes) ∧
      ∀ entry ∈ sharedRequests p q,
        ∀ blob ∈ (mixedBlobs p q).blobs[blobPath entry.1 entry.2.fingerprint]?,
        ∀ pattern ∈ (Pattern.ofBytes blob).toOption,
          pattern.fingerprint = entry.2.fingerprint → pattern.toBytes = entry.2.toBytes := by
    decide +kernel
  obtain ⟨b, hb, p, hp, b', hb', q, hq, hproper, hsteady, hapart, hforeign⟩ := hchecks
  have hb := eq_ok_of_mem_toOption hb
  have hp := eq_ok_of_mem_toOption hp
  have hb' := eq_ok_of_mem_toOption hb'
  have hq := eq_ok_of_mem_toOption hq
  have hobtained : ∀ entry ∈ sharedRequests p q, entry.2.Obtained := by
    have hp := Pattern.Obtained.built hb hp
    have hq := Pattern.Obtained.built hb' hq
    simp [sharedRequests, hp, hq]
  have hr : Unmistakable (mixedBlobs p q) (sharedRequests p q) :=
    ⟨hobtained, fun entry hentry => (hproper entry hentry).1,
      fun entry hentry => (hproper entry hentry).2, hsteady, hapart,
      fun entry hentry blob hblob pattern hread =>
        hforeign entry hentry blob hblob pattern (by rw [hread]; rfl)⟩
  obtain ⟨⟨s, hrun⟩, heach⟩ := fetchAll_transparent hr
  obtain ⟨s₁, s₂, -, hserves⟩ := heach [("a", p), ("b", q), ("a", p)] ("c", p) [("b", q)] rfl
  exact ⟨b, b', p, q, s, s₁, s₂, hb, hp, hb', hq, hr, hrun, hserves⟩

end OpGraph.PatternCache
