import OpGraph.Pattern.Blob
import OpGraph.Store

/-!
A cache of compiled patterns. A pattern is stored as a blob under its key and its fingerprint, so a
blob of an older pattern is not found any more once the pattern of the key has changed.
-/

namespace OpGraph

structure PatternCache where
  byFingerprint : Std.ExtTreeMap UInt64 Pattern
  byKey : Std.ExtTreeMap String UInt64
  /-- How many patterns were read from blobs. -/
  loaded : Nat
  /-- How many patterns were written as blobs. -/
  stored : Nat
deriving DecidableEq

namespace PatternCache

def empty : PatternCache := ⟨∅, ∅, 0, 0⟩

def size (c : PatternCache) : Nat :=
  c.byFingerprint.size

def isEmpty (c : PatternCache) : Bool :=
  c.byFingerprint.isEmpty

def blobPath (key : String) (fingerprint : UInt64) : String :=
  "patterns/" ++ key ++ "." ++ Text.hexPadded 16 fingerprint.toNat ++ ".cbor"

def find? (c : PatternCache) (key : String) : Option Pattern :=
  c.byKey[key]?.bind fun fingerprint => c.byFingerprint[fingerprint]?

/-- The pattern of a blob, if it has the expected fingerprint. -/
def decode? (fingerprint : UInt64) (bytes : Bytes) : Option Pattern :=
  match Pattern.ofBytes bytes with
  | .ok pattern => if pattern.fingerprint = fingerprint then some pattern else none
  | .error _ => none

/-- Keeps a pattern under a key; of equal fingerprints the pattern known first stays. -/
def remember (c : PatternCache) (key : String) (fingerprint : UInt64) (pattern : Pattern) :
    Pattern × PatternCache :=
  let kept := (c.byFingerprint[fingerprint]?).getD pattern
  (kept, { c with
    byKey := c.byKey.insert key fingerprint
    byFingerprint := c.byFingerprint.insertIfNew fingerprint pattern })

/-- The change of a cache together with the storage of its blobs. -/
abbrev Caching := EStateM FileError (PatternCache × Storage)

/--
The pattern under a key. A key that is not known is looked for in the store; a blob that is missing
or cannot be used is written anew.
-/
def fetch (store : Store) (key : String) (compiled : Pattern) : Caching Pattern := do
  let (cache, storage) ← get
  if let some pattern := cache.find? key then
    return pattern
  let fingerprint := compiled.fingerprint
  let path := blobPath key fingerprint
  let blob ← match store.read path storage with
    | .ok blob => pure blob
    | .error error => throw error
  match blob.bind (decode? fingerprint) with
  | some pattern =>
    let (kept, cache) := remember { cache with loaded := cache.loaded + 1 } key fingerprint pattern
    set (cache, storage)
    return kept
  | none =>
    match store.write path compiled.toBytes storage with
    | .error error storage =>
      set (cache, storage)
      throw error
    | .ok () storage =>
      let (kept, cache) :=
        remember { cache with stored := cache.stored + 1 } key fingerprint compiled
      set (cache, storage)
      return kept

end PatternCache

end OpGraph
