import OpGraph.Cbor.Values
import OpGraph.Proofs.Cbor.Compound
import OpGraph.Proofs.Number.Exact

/-!
Numbers, tensors and attributes read back. A float is written in the shortest format that keeps its
value in double precision, which is enough to get the same single-precision number again, `NaN`s
apart: these come back as some `NaN`. What holds floats comes back with what the floats are read as.
-/

namespace OpGraph

namespace Cbor

open Number

/-! ### Numbers -/

theorem reads_half {n : Nat} (hn : n < 2 * Format.half.signBit) :
    Reads header (0xf9 :: Bytes.bigEndian 2 n) (.float (Format.half.read n)) := by
  change Reads header (UInt8.ofNat (32 * 7 + 25) :: _) _
  refine reads_header_cons (by decide) (by decide) fun rest => ?_
  exact bind_of_eq_some (reads_bigEndian hn rest)

theorem reads_single {n : Nat} (hn : n < 2 * Format.single.signBit) :
    Reads header (0xfa :: Bytes.bigEndian 4 n) (.float (Format.single.read n)) := by
  change Reads header (UInt8.ofNat (32 * 7 + 26) :: _) _
  refine reads_header_cons (by decide) (by decide) fun rest => ?_
  exact bind_of_eq_some (reads_bigEndian hn rest)

theorem reads_double {n : Nat} (hn : n < 2 * Format.double.signBit) :
    Reads header (0xfb :: Bytes.bigEndian 8 n) (.float (Format.double.read n)) := by
  change Reads header (UInt8.ofNat (32 * 7 + 27) :: _) _
  refine reads_header_cons (by decide) (by decide) fun rest => ?_
  exact bind_of_eq_some (reads_bigEndian hn rest)

theorem decodes_float {bytes : Bytes} {v : Value} (hheader : Reads header bytes (.float v))
    (hbytes : bytes ≠ []) : Decodes float bytes v where
  ne_nil := hbytes
  reads _ rest := bind_of_eq_some (hheader.untagged hbytes nofun rest)

theorem decodes_single {x : Single} (hx : x.isNaN = false) :
    Decodes single (writeSingle x) x := by
  -- Whatever value is read, it is the number written if both look alike in double precision.
  suffices h : ∃ v, Decodes float (writeSingle x) v ∧ Single.ofValue v = x by
    obtain ⟨v, hfloat, hv⟩ := h
    exact hfloat.map Single.ofValue hv
  unfold writeSingle writeFloat
  simp only
  split
  · next hhalf =>
    have hlt := Format.write_lt (f := .half) hx
    obtain ⟨_, _, _, hsplits⟩ := Format.splits_of_lt hlt
    have hholds := hsplits.holdsValue (by decide) (Format.isNaN_read_write hx)
    exact ⟨_, decodes_float (reads_half hlt) (List.cons_ne_nil _ _),
      Single.ofValue_eq hx hholds.double_of_half hhalf⟩
  · have hbits := Single.write_value hx
    have hread : Format.single.read (Format.single.write x.value) = x.value :=
      congrArg Format.single.read hbits
    rw [if_pos (congrArg _ hread)]
    exact ⟨_, decodes_float (reads_single (Format.write_lt hx)) (List.cons_ne_nil _ _),
      (congrArg _ hread).trans (Single.ofValue_value hx)⟩

theorem decodes_nan {x : Single} (hx : x.isNaN = true) :
    ∃ y, Decodes single (writeSingle x) y ∧ y.isNaN = true := by
  obtain ⟨_, _, _, hsplits⟩ := Format.splits_of_lt (f := .single) x.bits.toNat_lt
  have hpayload : Format.PayloadFits x.value := hsplits.payloadFits (by decide)
  suffices h : ∃ (f : Format) (bits : Nat), Decodes float (writeSingle x) (f.read bits) ∧
      bits < 2 * f.signBit ∧ f.fractionBits ≤ 52 ∧ (f.read bits).isNaN = true by
    obtain ⟨f, bits, hfloat, hlt, hfraction, hnan⟩ := h
    obtain ⟨_, _, _, hread⟩ := Format.splits_of_lt hlt
    obtain ⟨hsingle, hsame⟩ := Format.write_nan (f := .single) hnan (hread.payloadFits hfraction)
      (by decide) (by decide)
    refine ⟨_, hfloat.map Single.ofValue rfl, ?_⟩
    rwa [Single.isNaN, Single.value, Single.ofValue, UInt32.toNat_ofNat_of_lt' hsingle]
  unfold writeSingle writeFloat
  simp only
  split
  · obtain ⟨hlt, hnan⟩ := Format.write_nan (f := .half) hx hpayload (by decide) (by decide)
    exact ⟨.half, _, decodes_float (reads_half hlt) (List.cons_ne_nil _ _), hlt, by decide, hnan⟩
  · split
    · obtain ⟨hlt, hnan⟩ := Format.write_nan (f := .single) hx hpayload (by decide) (by decide)
      exact ⟨.single, _, decodes_float (reads_single hlt) (List.cons_ne_nil _ _), hlt, by decide,
        hnan⟩
    · obtain ⟨hlt, hnan⟩ := Format.write_nan (f := .double) hx hpayload (by decide) (by decide)
      exact ⟨.double, _, decodes_float (reads_double hlt) (List.cons_ne_nil _ _), hlt, by decide,
        hnan⟩

theorem exists_decodes_single (x : Single) :
    ∃ y, Decodes single (writeSingle x) y ∧ y.isNaN = x.isNaN := by
  cases hx : x.isNaN with
  | false => exact ⟨x, decodes_single hx, hx⟩
  | true => exact decodes_nan hx

theorem decodes_int8 (x : Int8) : Decodes int8 (writeInt x.toInt) x := by
  have h := decodes_int x.minValue_le_toInt x.toInt_le (by decide) (by decide)
  exact h.map Int8.ofInt x.ofInt_toInt

theorem decodes_int32 (x : Int32) : Decodes int32 (writeInt x.toInt) x := by
  have h := decodes_int x.minValue_le_toInt x.toInt_le (by decide) (by decide)
  exact h.map Int32.ofInt x.ofInt_toInt

theorem decodes_int64 (x : Int64) : Decodes int64 (writeInt64 x) x := by
  have h := decodes_int x.minValue_le_toInt x.toInt_le (by decide) (by decide)
  exact h.map Int64.ofInt x.ofInt_toInt

theorem writeNat_eq (n : Nat) : writeNat n = writeInt n := by
  rw [writeInt, if_pos (Int.natCast_nonneg n), Int.toNat_natCast, writeNat]

theorem decodes_nat {limit n : Nat} (hn : n < limit) (hlimit : limit ≤ Word.limit) :
    Decodes (natBelow limit) (writeNat n) n := by
  have h : Decodes (intIn 0 (limit - 1)) (writeInt n) n :=
    decodes_int (by omega) (by omega) (by decide) (by omega)
  rw [writeNat_eq]
  exact h.map Int.toNat rfl

theorem decodes_uint8 (x : UInt8) : Decodes uint8 (writeNat x.toNat) x := by
  have hx := x.toNat_lt_size
  have h : Decodes (intIn 0 (UInt8.size - 1)) (writeInt x.toNat) x.toNat :=
    decodes_int (by omega) (by omega) (by decide) (by decide)
  rw [writeNat_eq]
  exact h.map (fun n => UInt8.ofNat n.toNat) x.ofNat_toNat

theorem nameText?_ofText (s : String) : nameText? (Bytes.ofText s) = some s :=
  Bytes.fromUTF8?_ofText s

end Cbor

open Cbor

section Rereading

variable {f : Single → Single}

/-! ### Tensors -/

namespace Payload

def singles : Payload → List Single
  | float32 values => values
  | int8 _ | uint8 _ | int32 _ | int64 _ => []

def mapSingles (f : Single → Single) : Payload → Payload
  | float32 values => float32 (values.map f)
  | payload => payload

theorem singles_mapSingles (f : Single → Single) (p : Payload) :
    (p.mapSingles f).singles = p.singles.map f := by
  cases p <;> rfl

theorem mapSingles_id (p : Payload) : p.mapSingles id = p := by
  cases p with
  | float32 values => rw [mapSingles, List.map_id]
  | int8 | uint8 | int32 | int64 => rfl

theorem decodes_values {p : Payload} (hp : ∀ x ∈ p.singles, Decodes single (writeSingle x) (f x)) :
    Decodes (valuesOfCbor (Bytes.ofText p.elem.name)) p.valuesToCbor (p.mapSingles f) := by
  rw [valuesOfCbor, nameText?_ofText]
  cases p with
  | float32 values => exact (decodes_map hp).map float32 rfl
  | int8 values => exact (decodes_list fun x _ => decodes_int8 x).map int8 rfl
  | uint8 values => exact (decodes_list fun x _ => decodes_uint8 x).map uint8 rfl
  | int32 values => exact (decodes_list fun x _ => decodes_int32 x).map int32 rfl
  | int64 values => exact (decodes_list fun x _ => decodes_int64 x).map int64 rfl

theorem decodes {p : Payload} (hp : ∀ x ∈ p.singles, Decodes single (writeSingle x) (f x)) :
    Decodes ofCbor p.toCbor (p.mapSingles f) := by
  have hname : ∀ e : Elem, e.name.utf8ByteSize ≤ nameLimit := by
    intro e
    cases e <;> decide
  exact (decodes_values hp).tagged (hname p.elem) (by decide) (by decide) (by decide) _

end Payload

namespace Tensor

theorem decodes {t : Tensor} (ht : ∀ x ∈ t.data.singles, Decodes single (writeSingle x) (f x)) :
    Decodes ofCbor t.toCbor ⟨t.dims, t.data.mapSingles f⟩ := by
  have hdims : Decodes (listOf int64Item) (writeList writeInt64 t.dims) t.dims :=
    decodes_list fun x _ => decodes_int64 x
  unfold ofCbor
  extract_lets step
  have hfields : FieldsRead step (none, none) _ (some t.dims, some (t.data.mapSingles f)) :=
    .once "dims" (fun s dims => (dims, s.2)) (by decide) (by simp [step]) hdims <|
    .once "data" (fun s data => (s.1, data)) (by decide) (by simp [step])
      (Payload.decodes ht) <|
    .nil _
  exact hfields.decodes_record.bind_pure rfl

end Tensor

namespace Attr

def singles : Attr → List Single
  | float value => [value]
  | floats values => values
  | tensor value => value.data.singles
  | int _ | string _ | ints _ | strings _ => []

def mapSingles (f : Single → Single) : Attr → Attr
  | float value => float (f value)
  | floats values => floats (values.map f)
  | tensor value => tensor ⟨value.dims, value.data.mapSingles f⟩
  | attr => attr

theorem singles_mapSingles (f : Single → Single) (a : Attr) :
    (a.mapSingles f).singles = a.singles.map f := by
  cases a with
  | tensor value => exact value.data.singles_mapSingles f
  | int | float | string | ints | floats | strings => rfl

theorem mapSingles_id (a : Attr) : a.mapSingles id = a := by
  cases a with
  | floats values => rw [mapSingles, List.map_id]
  | tensor value => rw [mapSingles, Payload.mapSingles_id]
  | int | float | string | ints | strings => rfl

theorem decodes_content {a : Attr} (ha : ∀ x ∈ a.singles, Decodes single (writeSingle x) (f x)) :
    Decodes (contentOfCbor (Bytes.ofText a.kind)) a.contentToCbor (a.mapSingles f) := by
  rw [contentOfCbor, nameText?_ofText]
  cases a with
  | int value => exact (decodes_int64 value).map int rfl
  | float value => exact (ha value List.mem_cons_self).map float rfl
  | string value => exact (decodes_text value).map string rfl
  | ints values => exact (decodes_list fun x _ => decodes_int64 x).map ints rfl
  | floats values => exact (decodes_map ha).map floats rfl
  | strings values => exact (decodes_list fun s _ => decodes_text s).map strings rfl
  | tensor value => exact (Tensor.decodes ha).map tensor rfl

theorem decodes {a : Attr} (ha : ∀ x ∈ a.singles, Decodes single (writeSingle x) (f x)) :
    Decodes ofCbor a.toCbor (a.mapSingles f) := by
  have hkind : a.kind.utf8ByteSize ≤ nameLimit := by cases a <;> simp only [kind] <;> decide
  exact (decodes_content ha).tagged hkind (by decide) (by decide) (by decide) _

end Attr

end Rereading

end OpGraph
