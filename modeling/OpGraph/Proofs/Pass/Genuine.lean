import OpGraph.Pipeline
import OpGraph.Proofs.FileTree
import OpGraph.Proofs.Pass.Returns

/-!
A cache recognizes stored patterns by their fingerprints. As long as nothing that is stored or known
has the fingerprint of a rule's pattern without being that pattern, every rule gets its own pattern,
and what the cache stores keeps it so.
-/

namespace OpGraph

/-! ### Blobs in a store -/

namespace Store

variable {store : Store} {path path' : String} {bytes bytes' : Bytes} {s s' : Storage}

/-- The blob at a path, whether or not the directories on its way are there. -/
def blob? (store : Store) (path : String) (s : Storage) : Option Bytes :=
  match store with
  | memory => s.blobs[path]?
  | directory root => s.files.files[FileTree.placeOf (Path.join root path)]?

theorem blob?_of_read (hrun : store.read path s = .ok (some bytes)) :
    store.blob? path s = some bytes := by
  cases store with
  | memory => exact Except.ok.inj hrun
  | directory root =>
    unfold read at hrun
    dsimp only at hrun
    split at hrun
    · next hread =>
      cases hrun
      exact FileTree.files_of_read hread
    · cases hrun
    · cases hrun

theorem blob?_of_write (hrun : store.write path bytes s = .ok () s')
    (hblob : store.blob? path' s' = some bytes') :
    bytes' = bytes ∨ store.blob? path' s = some bytes' := by
  have hinsert : ∀ {map : Std.ExtTreeMap String Bytes} {place place' : String},
      (map.insert place bytes)[place']? = some bytes' →
        bytes' = bytes ∨ map[place']? = some bytes' := by
    intro map place place' hget
    rw [Std.ExtTreeMap.getElem?_insert] at hget
    split at hget
    · exact .inl (Option.some.inj hget).symm
    · exact .inr hget
  cases store with
  | memory =>
    cases hrun
    exact hinsert hblob
  | directory root =>
    unfold write at hrun
    obtain ⟨_, s₁, hmake, hwrite⟩ := stateful_bind_eq_ok_iff.mp hrun
    unfold changeFiles at hmake hwrite
    split at hmake
    · next files hfiles =>
      cases hmake
      split at hwrite
      · next files' hfiles' =>
        cases hwrite
        simp only [blob?, FileTree.files_of_write hfiles', FileTree.files_makeAlong hfiles] at hblob
        exact hinsert hblob
      · cases hwrite
    · cases hmake

theorem blob?_of_write_error {error : FileError}
    (hrun : store.write path bytes s = .error error s') :
    store.blob? path' s' = store.blob? path' s := by
  cases store with
  | memory => cases hrun
  | directory root =>
    unfold write at hrun
    rcases stateful_bind_eq_error_iff.mp hrun with hmake | ⟨_, s₁, hmake, hwrite⟩
    · unfold changeFiles at hmake
      split at hmake
      · cases hmake
      · cases hmake
        rfl
    · unfold changeFiles at hmake hwrite
      split at hmake
      · next files hfiles =>
        cases hmake
        split at hwrite
        · cases hwrite
        · cases hwrite
          simp only [blob?, FileTree.files_makeAlong hfiles]
      · cases hmake

end Store

/-! ### Patterns in a cache -/

namespace PatternCache

/-- Patterns can be read back and told apart by key and by fingerprint. -/
def Separate (entries : List (String × Pattern)) : Prop :=
  (∀ entry ∈ entries, Pattern.ofBytes entry.2.toBytes = .ok entry.2) ∧
    (entries.map Prod.fst).Nodup ∧ (entries.map fun entry => entry.2.fingerprint).Nodup

instance (entries : List (String × Pattern)) : Decidable (Separate entries) :=
  inferInstanceAs (Decidable (_ ∧ _ ∧ _))

/-- What is stored or known under the fingerprint of one of these patterns is that pattern. -/
structure Genuine (entries : List (String × Pattern)) (store : Store) (cache : PatternCache)
    (storage : Storage) : Prop where
  stored : ∀ entry ∈ entries, ∀ bytes pattern,
    store.blob? (blobPath entry.1 entry.2.fingerprint) storage = some bytes →
    decode? entry.2.fingerprint bytes = some pattern → pattern = entry.2
  known : ∀ entry ∈ entries, ∀ pattern,
    cache.byFingerprint[entry.2.fingerprint]? = some pattern → pattern = entry.2
  keyed : ∀ entry ∈ entries, ∀ fingerprint,
    cache.byKey[entry.1]? = some fingerprint → fingerprint = entry.2.fingerprint

theorem genuine_empty (entries : List (String × Pattern)) :
    Genuine entries .memory .empty .empty where
  stored entry _ bytes pattern hblob := by
    rw [Store.blob?, Storage.empty, Std.ExtTreeMap.getElem?_empty] at hblob
    cases hblob
  known entry _ pattern hpattern := by
    rw [empty, Std.ExtTreeMap.getElem?_empty] at hpattern
    cases hpattern
  keyed entry _ fingerprint hkey := by
    rw [empty, Std.ExtTreeMap.getElem?_empty] at hkey
    cases hkey

variable {entries : List (String × Pattern)} {store : Store} {cache : PatternCache}
  {storage storage' : Storage} {key : String} {own : Pattern}

theorem Separate.eq_of_key (hs : Separate entries) {entry entry' : String × Pattern}
    (hmem : entry ∈ entries) (hmem' : entry' ∈ entries) (hkey : entry.1 = entry'.1) :
    entry = entry' :=
  List.inj_on_of_nodup_map hs.2.1 hmem hmem' hkey

theorem Separate.eq_of_fingerprint (hs : Separate entries) {entry entry' : String × Pattern}
    (hmem : entry ∈ entries) (hmem' : entry' ∈ entries)
    (hfingerprint : entry.2.fingerprint = entry'.2.fingerprint) : entry = entry' :=
  List.inj_on_of_nodup_map hs.2.2 hmem hmem' hfingerprint

theorem Separate.decode?_toBytes (hs : Separate entries) {entry entry' : String × Pattern}
    (hmem : entry ∈ entries) (hmem' : entry' ∈ entries) {pattern : Pattern}
    (hdecode : decode? entry.2.fingerprint entry'.2.toBytes = some pattern) :
    pattern = entry.2 := by
  rw [decode?, hs.1 entry' hmem'] at hdecode
  dsimp only at hdecode
  split at hdecode
  · next heq =>
    cases hdecode
    rw [hs.eq_of_fingerprint hmem' hmem heq]
  · cases hdecode

namespace Genuine

variable (hs : Separate entries) (hmem : (key, own) ∈ entries)

include hs hmem

theorem remember (hg : Genuine entries store cache storage) :
    (cache.remember key own.fingerprint own).1 = own ∧
      Genuine entries store (cache.remember key own.fingerprint own).2 storage := by
  constructor
  · rw [PatternCache.remember]
    cases hknown : cache.byFingerprint[own.fingerprint]? with
    | none => rfl
    | some pattern => exact hg.known (key, own) hmem pattern hknown
  · refine ⟨hg.stored, ?_, ?_⟩
    · intro entry hentry pattern hpattern
      simp only [PatternCache.remember, Std.ExtTreeMap.getElem?_insertIfNew] at hpattern
      split at hpattern
      · next hnew =>
        cases hpattern
        have heq : own.fingerprint = entry.2.fingerprint := Std.compare_eq_iff_eq.mp hnew.1
        rw [← hs.eq_of_fingerprint hmem hentry heq]
      · exact hg.known entry hentry pattern hpattern
    · intro entry hentry fingerprint hkey
      simp only [PatternCache.remember, Std.ExtTreeMap.getElem?_insert] at hkey
      split at hkey
      · next heq =>
        cases hkey
        rw [← hs.eq_of_key hmem hentry (Std.compare_eq_iff_eq.mp heq)]
      · exact hg.keyed entry hentry fingerprint hkey

omit hs hmem in
theorem counted (hg : Genuine entries store cache storage) (loaded stored : Nat) :
    Genuine entries store { cache with loaded := loaded, stored := stored } storage :=
  ⟨hg.stored, hg.known, hg.keyed⟩

omit hs hmem in
theorem of_blobs (hg : Genuine entries store cache storage)
    (hblobs : ∀ path, store.blob? path storage' = store.blob? path storage) :
    Genuine entries store cache storage' where
  stored entry hentry bytes pattern hblob := by
    rw [hblobs] at hblob
    exact hg.stored entry hentry bytes pattern hblob
  known := hg.known
  keyed := hg.keyed

theorem write (hg : Genuine entries store cache storage) {path : String}
    (hrun : store.write path own.toBytes storage = .ok () storage') :
    Genuine entries store cache storage' where
  stored entry hentry bytes pattern hblob hdecode := by
    obtain rfl | hblob := Store.blob?_of_write hrun hblob
    · exact hs.decode?_toBytes hentry hmem hdecode
    · exact hg.stored entry hentry bytes pattern hblob hdecode
  known := hg.known
  keyed := hg.keyed

omit hs in
theorem find? (hg : Genuine entries store cache storage) {pattern : Pattern}
    (hfind : cache.find? key = some pattern) : pattern = own := by
  rw [PatternCache.find?, Option.bind_eq_some_iff] at hfind
  obtain ⟨fingerprint, hkey, hknown⟩ := hfind
  rw [hg.keyed (key, own) hmem fingerprint hkey] at hknown
  exact hg.known (key, own) hmem pattern hknown

end Genuine

end PatternCache

/-! ### Fetching -/

namespace PassM

variable {store : Store} {key : String} {own pattern : Pattern} {w : Workspace}
  {cache : PatternCache} {storage : Storage} {Q : Pattern → Workspace → Prop}
  {E : PassError → Workspace → Prop}

theorem returns_of_fetch
    (hrun : PatternCache.fetch store key own (w.cache, w.storage) = .ok pattern (cache, storage))
    (hQ : Q pattern { w with cache := cache, storage := storage }) :
    (fetch store key own).Returns w Q E := by
  constructor
  · intro pattern' w' heq
    rw [fetch, hrun] at heq
    cases heq
    exact hQ
  · intro e w' heq
    rw [fetch, hrun] at heq
    cases heq

theorem returns_of_fetch_error {error : FileError}
    (hrun : PatternCache.fetch store key own (w.cache, w.storage) = .error error (cache, storage))
    (hE : E .artifact { w with cache := cache, storage := storage }) :
    (fetch store key own).Returns w Q E := by
  constructor
  · intro pattern' w' heq
    rw [fetch, hrun] at heq
    cases heq
  · intro e w' heq
    rw [fetch, hrun] at heq
    cases heq
    exact hE

theorem returns_fetch_genuine {entries : List (String × Pattern)}
    (hs : PatternCache.Separate entries) (hmem : (key, own) ∈ entries)
    (hg : PatternCache.Genuine entries store w.cache w.storage) :
    (fetch store key own).Returns w
      (fun pattern w' => PatternCache.Genuine entries store w'.cache w'.storage ∧ pattern = own)
      (fun _ w' => PatternCache.Genuine entries store w'.cache w'.storage) := by
  cases hfind : w.cache.find? key with
  | some pattern =>
    exact returns_of_fetch (PatternCache.fetch_of_known hfind) ⟨hg, hg.find? hmem hfind⟩
  | none =>
    cases hread : store.read (PatternCache.blobPath key own.fingerprint) w.storage with
    | error error => exact returns_of_fetch_error (PatternCache.fetch_of_unreadable hfind hread) hg
    | ok blob =>
      cases hdecode : blob.bind (PatternCache.decode? own.fingerprint) with
      | some pattern =>
        obtain ⟨bytes, rfl, hbytes⟩ := Option.bind_eq_some_iff.mp hdecode
        obtain rfl := hg.stored _ hmem bytes pattern (Store.blob?_of_read hread) hbytes
        obtain ⟨hkept, hg'⟩ := (hg.counted (w.cache.loaded + 1) w.cache.stored).remember hs hmem
        exact returns_of_fetch (PatternCache.fetch_of_stored hfind hread hdecode) ⟨hg', hkept⟩
      | none =>
        cases hwrite : store.write (PatternCache.blobPath key own.fingerprint) own.toBytes
          w.storage with
        | error error storage =>
          exact returns_of_fetch_error
            (PatternCache.fetch_of_write_error hfind hread hdecode hwrite)
            (hg.of_blobs fun _ => Store.blob?_of_write_error hwrite)
        | ok _ storage =>
          have hwritten := hg.write hs hmem hwrite
          obtain ⟨hkept, hg'⟩ :=
            (hwritten.counted w.cache.loaded (w.cache.stored + 1)).remember hs hmem
          exact returns_of_fetch (PatternCache.fetch_of_write hfind hread hdecode hwrite)
            ⟨hg', hkept⟩

end PassM

/-! ### The patterns of the rules -/

namespace Builtin

def entries : List (String × Pattern) :=
  all.flatMap fun b =>
    match b.pass with
    | .rules p => p.rules.filterMap fun spec => spec.pattern.toOption.map (p.ruleKey spec, ·)
    | .partition => []

theorem mem_entries (b : Builtin) {p : RulePass} (hb : b.pass = .rules p) {spec : RuleSpec}
    (hspec : spec ∈ p.rules) {pattern : Pattern} (hpattern : spec.pattern = .ok pattern) :
    (p.ruleKey spec, pattern) ∈ entries := by
  have hmem : b ∈ all := by cases b <;> decide
  rw [entries, List.mem_flatMap]
  refine ⟨b, hmem, ?_⟩
  rw [hb]
  exact List.mem_filterMap.mpr ⟨spec, hspec, by rw [hpattern]; rfl⟩

theorem separate_entries : PatternCache.Separate entries := by decide +kernel

end Builtin

end OpGraph
