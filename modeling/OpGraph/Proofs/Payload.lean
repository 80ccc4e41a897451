import OpGraph.Proofs.Bytes
import OpGraph.Tensor

/-!
The raw bytes of a payload. They tell its elements bit by bit, and bytes in whole elements of one of
the five types are the raw form of just one payload, so nothing is lost or made up on either way.
-/

namespace OpGraph.Payload

open Bytes

variable {elem : Elem} {bytes : Bytes} {data : Payload}

theorem length_toBytes (data : Payload) : data.toBytes.length = data.length * data.elem.width := by
  cases data with
  | float32 v => exact length_flatMap (fun x => length_littleEndian 4 x.bits.toNat) v
  | int8 v => exact (List.length_map _).trans (Nat.mul_one _).symm
  | uint8 v => exact (Nat.mul_one _).symm
  | int32 v => exact length_flatMap (fun x => length_littleEndian 4 x.toUInt32.toNat) v
  | int64 v => exact length_flatMap (fun x => length_littleEndian 8 x.toUInt64.toNat) v

theorem width_elem_pos (data : Payload) : 0 < data.elem.width := by
  cases data <;> simp [Payload.elem, Elem.width]

theorem ofBytes?_toBytes (data : Payload) : ofBytes? data.elem data.toBytes = some data := by
  have hlength := data.length_toBytes
  have hwidth := data.width_elem_pos
  have hwhole : ¬(data.elem.width = 0 ∨ data.toBytes.length % data.elem.width ≠ 0) := by
    rw [hlength, Nat.mul_mod_left]
    omega
  rw [ofBytes?, if_neg hwhole, hlength, Nat.mul_div_cancel _ hwidth]
  cases data with
  | float32 v =>
    have hbound : ∀ x : Single, x.bits.toNat < 256 ^ 4 := fun x => x.bits.toNat_lt
    exact congrArg (some ∘ float32) (read_words hbound (fun x => by simp) v)
  | int8 v =>
    have hback : ∀ x : Int8, x.toUInt8.toInt8 = x := fun x => by simp
    exact congrArg (some ∘ int8) (List.map_map.trans (List.map_id'' hback v))
  | uint8 v => rfl
  | int32 v =>
    have hbound : ∀ x : Int32, x.toUInt32.toNat < 256 ^ 4 := fun x => x.toUInt32.toNat_lt
    exact congrArg (some ∘ int32) (read_words hbound (fun x => by simp) v)
  | int64 v =>
    have hbound : ∀ x : Int64, x.toUInt64.toNat < 256 ^ 8 := fun x => x.toUInt64.toNat_lt
    exact congrArg (some ∘ int64) (read_words hbound (fun x => by simp) v)

theorem toBytes_of_ofBytes? (h : ofBytes? elem bytes = some data) :
    data.elem = elem ∧ data.toBytes = bytes := by
  rw [ofBytes?] at h
  split at h
  · cases h
  · next hwhole =>
    have hmod : bytes.length % elem.width = 0 := Decidable.not_not.mp (not_or.mp hwhole).2
    have hlength : bytes.length = bytes.length / elem.width * elem.width :=
      (Nat.div_mul_cancel (Nat.dvd_of_mod_eq_zero hmod)).symm
    cases elem with
    | float32 =>
      cases h
      have hword : ∀ n < 256 ^ 4, (UInt32.ofNat n).toNat = n := fun n => UInt32.toNat_ofNat_of_lt'
      exact ⟨rfl,
        write_words (fun x : Single => x.bits.toNat) (fun n => ⟨UInt32.ofNat n⟩) hword hlength⟩
    | int8 =>
      cases h
      have hback : ∀ b : UInt8, b.toInt8.toUInt8 = b := fun b => by simp
      exact ⟨rfl, List.map_map.trans (List.map_id'' hback bytes)⟩
    | uint8 =>
      cases h
      exact ⟨rfl, rfl⟩
    | int32 =>
      cases h
      have hword : ∀ n < 256 ^ 4, (UInt32.ofNat n).toInt32.toUInt32.toNat = n := by
        intro n hn
        rw [UInt32.toUInt32_toInt32, UInt32.toNat_ofNat_of_lt' hn]
      exact ⟨rfl, write_words (fun x : Int32 => x.toUInt32.toNat)
        (fun n => (UInt32.ofNat n).toInt32) hword hlength⟩
    | int64 =>
      cases h
      have hword : ∀ n < 256 ^ 8, (UInt64.ofNat n).toInt64.toUInt64.toNat = n := by
        intro n hn
        rw [UInt64.toUInt64_toInt64, UInt64.toNat_ofNat_of_lt' hn]
      exact ⟨rfl, write_words (fun x : Int64 => x.toUInt64.toNat)
        (fun n => (UInt64.ofNat n).toInt64) hword hlength⟩
    | _ => cases h

theorem ofBytes?_eq_none_iff :
    ofBytes? elem bytes = none ↔
      elem ∉ [Elem.float32, .int8, .uint8, .int32, .int64] ∨ ¬ elem.width ∣ bytes.length := by
  rw [ofBytes?, Nat.dvd_iff_mod_eq_zero]
  cases elem <;> simp [Elem.width]

/--
Writing and reading raw bytes undo each other: every payload is read back from its bytes, and bytes
that can be read are those of the payload they give. What cannot be read is of no payload type or
ends inside an element.
-/
theorem rawBytes_bijective :
    (∀ data : Payload, ofBytes? data.elem data.toBytes = some data ∧
      data.toBytes.length = data.length * data.elem.width) ∧
    (∀ (elem : Elem) (bytes : Bytes) (data : Payload), ofBytes? elem bytes = some data →
      data.elem = elem ∧ data.toBytes = bytes) ∧
    (∀ (elem : Elem) (bytes : Bytes), ofBytes? elem bytes = none ↔
      elem ∉ [Elem.float32, .int8, .uint8, .int32, .int64] ∨ ¬ elem.width ∣ bytes.length) := by
  refine ⟨?_, ?_, ?_⟩
  · intro data
    exact ⟨ofBytes?_toBytes data, length_toBytes data⟩
  · intro elem bytes data h
    exact toBytes_of_ofBytes? h
  · intro elem bytes
    exact ofBytes?_eq_none_iff

theorem rawBytes_bijective_nan :
    ofBytes? .float32 [0x01, 0x00, 0xc0, 0x7f] = some (float32 [⟨0x7fc00001⟩]) ∧
    (float32 [⟨0x7fc00001⟩]).elem = .float32 ∧
    (float32 [⟨0x7fc00001⟩]).toBytes = [0x01, 0x00, 0xc0, 0x7f] := by
  have hread : ofBytes? .float32 [0x01, 0x00, 0xc0, 0x7f] = some (float32 [⟨0x7fc00001⟩]) := by
    decide
  exact ⟨hread, rawBytes_bijective.2.1 _ _ _ hread⟩

end OpGraph.Payload
