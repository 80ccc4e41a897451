import Mathlib.Algebra.Group.Nat.Defs
import OpGraph.Bytes

/-!
Numbers and texts as bytes: what is written can be read.
-/

namespace OpGraph

namespace Bytes

theorem length_littleEndian (width n : Nat) : (littleEndian width n).length = width := by
  induction width generalizing n with
  | zero => rfl
  | succ width ih => exact congrArg Nat.succ (ih (n / 256))

theorem length_bigEndian (width n : Nat) : (bigEndian width n).length = width := by
  rw [bigEndian, List.length_reverse, length_littleEndian]

theorem ofLittleEndian_littleEndian (width n : Nat) :
    ofLittleEndian (littleEndian width n) = n % 256 ^ width := by
  induction width generalizing n with
  | zero => rw [Nat.pow_zero, Nat.mod_one]; rfl
  | succ width ih =>
    rw [littleEndian, ofLittleEndian, ih, Nat.pow_succ, Nat.mul_comm (256 ^ width), Nat.mod_mul]
    rfl

theorem ofLittleEndian_lt (bytes : Bytes) : ofLittleEndian bytes < 256 ^ bytes.length := by
  induction bytes with
  | nil => exact Nat.one_pos
  | cons b bytes ih =>
    have := b.toNat_lt
    rw [ofLittleEndian, List.length_cons, Nat.pow_succ]
    omega

theorem littleEndian_ofLittleEndian (bytes : Bytes) :
    littleEndian bytes.length (ofLittleEndian bytes) = bytes := by
  induction bytes with
  | nil => rfl
  | cons b bytes ih =>
    have hb := b.toNat_lt
    have hrest : (b.toNat + 256 * ofLittleEndian bytes) / 256 = ofLittleEndian bytes := by omega
    have hfirst : UInt8.ofNat (b.toNat + 256 * ofLittleEndian bytes) = b := by
      rw [← UInt8.toNat_inj, UInt8.toNat_ofNat']
      omega
    rw [List.length_cons, ofLittleEndian, littleEndian, hrest, hfirst, ih]

theorem ofBigEndian_bigEndian {width n : Nat} (hn : n < 256 ^ width) :
    ofBigEndian (bigEndian width n) = n := by
  rw [bigEndian, ofBigEndian, List.reverse_reverse, ofLittleEndian_littleEndian,
    Nat.mod_eq_of_lt hn]

theorem ofBigEndian_singleton (b : UInt8) : ofBigEndian [b] = b.toNat := rfl

/-! ### Words in a row -/

section

variable {α : Type} {width : Nat} {code : α → Bytes} (hcode : ∀ a, (code a).length = width)

include hcode

theorem length_flatMap (l : List α) : (l.flatMap code).length = l.length * width := by
  induction l with
  | nil => rw [List.flatMap_nil, List.length_nil, List.length_nil, Nat.zero_mul]
  | cons a l ih =>
    rw [List.flatMap_cons, List.length_append, hcode, ih, List.length_cons, Nat.succ_mul,
      Nat.add_comm]

theorem pieces_flatMap (l : List α) : pieces width l.length (l.flatMap code) = l.map code := by
  induction l with
  | nil => rfl
  | cons a l ih =>
    rw [List.flatMap_cons, List.length_cons, pieces, List.take_left' (hcode a),
      List.drop_left' (hcode a), ih, List.map_cons]

end

theorem read_words {α : Type} {width : Nat} {number : α → Nat} {read : Nat → α}
    (hnumber : ∀ a, number a < 256 ^ width) (hread : ∀ a, read (number a) = a) (l : List α) :
    ((pieces width l.length (l.flatMap fun a => littleEndian width (number a))).map
      ofLittleEndian).map read = l := by
  have hback : ∀ a, read (ofLittleEndian (littleEndian width (number a))) = a := by
    intro a
    rw [ofLittleEndian_littleEndian, Nat.mod_eq_of_lt (hnumber a), hread]
  rw [pieces_flatMap (fun a => length_littleEndian width (number a)), List.map_map, List.map_map]
  exact List.map_id'' hback l

theorem write_words {α : Type} {width count : Nat} (number : α → Nat) (read : Nat → α)
    (hread : ∀ n < 256 ^ width, number (read n) = n) {bytes : Bytes}
    (hlength : bytes.length = count * width) :
    (((pieces width count bytes).map ofLittleEndian).map read).flatMap
      (fun a => littleEndian width (number a)) = bytes := by
  induction count generalizing bytes with
  | zero =>
    rw [Nat.zero_mul] at hlength
    rw [List.length_eq_zero_iff.mp hlength]
    rfl
  | succ count ih =>
    rw [Nat.succ_mul] at hlength
    have htake : (bytes.take width).length = width := by
      rw [List.length_take]
      omega
    have hdrop : (bytes.drop width).length = count * width := by
      rw [List.length_drop]
      omega
    -- The first word comes back as its bytes, whatever element it is read as.
    have hword : number (read (ofLittleEndian (bytes.take width))) =
        ofLittleEndian (bytes.take width) := by
      apply hread
      have hlt := ofLittleEndian_lt (bytes.take width)
      rwa [htake] at hlt
    have hfirst := littleEndian_ofLittleEndian (bytes.take width)
    rw [htake] at hfirst
    rw [pieces, List.map_cons, List.map_cons, List.flatMap_cons, hword, hfirst, ih hdrop,
      List.take_append_drop]

/-! ### Texts -/

theorem toList_loop (bytes : ByteArray) (i : Nat) (done : Bytes) :
    ByteArray.toList.loop bytes i done = done.reverse ++ bytes.data.toList.drop i := by
  induction i, done using ByteArray.toList.loop.induct bytes with
  | case1 i done hlt ih =>
    have hlt' : i < bytes.data.toList.length := hlt
    have hget : bytes.get! i = bytes.data.toList[i] := by
      cases bytes
      exact getElem!_pos _ i hlt
    rw [ByteArray.toList.loop, if_pos hlt, ih, hget, List.reverse_cons, List.append_assoc,
      List.singleton_append, ← List.drop_eq_getElem_cons]
  | case2 i done hge =>
    rw [ByteArray.toList.loop, if_neg hge, List.drop_of_length_le (Nat.not_lt.mp hge),
      List.append_nil]

theorem toList_eq (bytes : ByteArray) : bytes.toList = bytes.data.toList :=
  toList_loop bytes 0 []

def ofText (s : String) : Bytes := s.toUTF8.toList

theorem length_ofText (s : String) : (ofText s).length = s.utf8ByteSize :=
  congrArg List.length (toList_eq s.toUTF8)

theorem fromUTF8?_ofText (s : String) : String.fromUTF8? ⟨(ofText s).toArray⟩ = some s := by
  rw [ofText, toList_eq]
  exact dif_pos s.isValidUTF8

theorem ofText_injective {s t : String} (h : ofText s = ofText t) : s = t := by
  have hs := fromUTF8?_ofText s
  rw [h, fromUTF8?_ofText] at hs
  exact (Option.some.inj hs).symm

end Bytes

end OpGraph
