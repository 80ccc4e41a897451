import OpGraph.Bytes

/-!
A 64-bit hash of byte strings with four lanes of eight bytes, used for fingerprints and to identify
constant data in canonical texts.
-/

namespace OpGraph.Hash64

def prime1 : UInt64 := 0x9E3779B185EBCA87
def prime2 : UInt64 := 0xC2B2AE3D27D4EB4F
def prime3 : UInt64 := 0x165667B19E3779F9
def prime4 : UInt64 := 0x85EBCA77C2B2AE63
def prime5 : UInt64 := 0x27D4EB2F165667C5

def rotate (x : UInt64) (k : UInt64) : UInt64 :=
  (x <<< k) ||| (x >>> (64 - k))

def word (bytes : Bytes) : UInt64 :=
  UInt64.ofNat (Bytes.ofLittleEndian bytes)

/-- Mixes one word into a lane. -/
def round (lane input : UInt64) : UInt64 :=
  rotate (lane + input * prime2) 31 * prime1

structure Lanes where
  a : UInt64
  b : UInt64
  c : UInt64
  d : UInt64

def Lanes.ofSeed (seed : UInt64) : Lanes :=
  ⟨seed + prime1 + prime2, seed + prime2, seed, seed - prime1⟩

/-- Mixes a stripe of 32 bytes, eight for every lane. -/
def Lanes.stripe (l : Lanes) (bytes : Bytes) : Lanes where
  a := round l.a (word (bytes.take 8))
  b := round l.b (word ((bytes.drop 8).take 8))
  c := round l.c (word ((bytes.drop 16).take 8))
  d := round l.d (word ((bytes.drop 24).take 8))

def mergeLane (h lane : UInt64) : UInt64 :=
  (h ^^^ round 0 lane) * prime1 + prime4

def Lanes.merge (l : Lanes) : UInt64 :=
  let h := rotate l.a 1 + rotate l.b 7 + rotate l.c 12 + rotate l.d 18
  mergeLane (mergeLane (mergeLane (mergeLane h l.a) l.b) l.c) l.d

def mixWord (h : UInt64) (bytes : Bytes) : UInt64 :=
  rotate (h ^^^ round 0 (word bytes)) 27 * prime1 + prime4

def mixHalf (h : UInt64) (bytes : Bytes) : UInt64 :=
  rotate (h ^^^ (word bytes * prime1)) 23 * prime2 + prime3

def mixByte (h : UInt64) (b : UInt8) : UInt64 :=
  rotate (h ^^^ (b.toUInt64 * prime5)) 11 * prime1

def avalanche (h : UInt64) : UInt64 :=
  let h := (h ^^^ (h >>> 33)) * prime2
  let h := (h ^^^ (h >>> 29)) * prime3
  h ^^^ (h >>> 32)

/-- The at most 31 bytes after the last stripe: whole words, at most one half word, single bytes. -/
def mixTail (h : UInt64) (tail : Bytes) : UInt64 :=
  let words := tail.length / 8
  let h := (Bytes.pieces 8 words tail).foldl mixWord h
  let rest := tail.drop (8 * words)
  if 4 ≤ rest.length then
    (rest.drop 4).foldl mixByte (mixHalf h (rest.take 4))
  else
    rest.foldl mixByte h

end Hash64

open Hash64 in
/-- The hash of a byte string under a seed. -/
def hash64 (seed : UInt64) (bytes : Bytes) : UInt64 :=
  let stripes := bytes.length / 32
  let start :=
    if stripes = 0 then
      seed + prime5
    else
      ((Bytes.pieces 32 stripes bytes).foldl Lanes.stripe (Lanes.ofSeed seed)).merge
  avalanche (mixTail (start + UInt64.ofNat bytes.length) (bytes.drop (32 * stripes)))

end OpGraph
