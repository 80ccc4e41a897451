import OpGraph.Cbor.Reader
import OpGraph.Cbor.Writer
import OpGraph.Stored.Values

/-!
The CBOR forms of tensors and attributes.
-/

namespace OpGraph

namespace Cbor

def writeSingle (x : Single) : Bytes := writeFloat x.value

def single : Reader Single := do return .ofValue (← float)

def int8 : Reader Int8 := do
  return Int8.ofInt (← intIn Int8.minValue.toInt Int8.maxValue.toInt)

def uint8 : Reader UInt8 := do return UInt8.ofNat (← intIn 0 (UInt8.size - 1)).toNat

def int32 : Reader Int32 := do
  return Int32.ofInt (← intIn Int32.minValue.toInt Int32.maxValue.toInt)

def int64 : Reader Int64 := do
  return Int64.ofInt (← intIn Int64.minValue.toInt Int64.maxValue.toInt)

def natBelow (limit : Nat) : Reader Nat := do return (← intIn 0 (limit - 1)).toNat

def singleItem : Item Single := ⟨single, fun b => some (.ofValue (.finite false b.toNat 0))⟩

def int8Item : Item Int8 := ⟨int8, fun b => (Datum.int b.toNat).int8?⟩

def uint8Item : Item UInt8 := ⟨uint8, some⟩

def int32Item : Item Int32 := ⟨int32, fun b => some (Int32.ofNat b.toNat)⟩

def int64Item : Item Int64 := ⟨int64, fun b => some (Int64.ofNat b.toNat)⟩

def writeInt64 (n : Int64) : Bytes := writeInt n.toInt

def nameText? (bytes : Bytes) : Option String :=
  String.fromUTF8? ⟨bytes.toArray⟩

def writeTagged (tagName contentName tag : String) (content : Bytes) : Bytes :=
  writeRecord [(tagName, writeText tag), (contentName, content)]

end Cbor

open Cbor

namespace Payload

def valuesToCbor : Payload → Bytes
  | float32 v => writeList writeSingle v
  | int8 v => writeList (fun x => writeInt x.toInt) v
  | uint8 v => writeList (fun x => writeNat x.toNat) v
  | int32 v => writeList (fun x => writeInt x.toInt) v
  | int64 v => writeList writeInt64 v

def toCbor (p : Payload) : Bytes :=
  writeTagged "type" "values" p.elem.name p.valuesToCbor

def valuesOfCbor (tag : Bytes) : Reader Payload :=
  match (nameText? tag).bind Elem.ofName? with
  | some .float32 => do return float32 (← listOf singleItem)
  | some .int8 => do return int8 (← listOf int8Item)
  | some .uint8 => do return uint8 (← listOf uint8Item)
  | some .int32 => do return int32 (← listOf int32Item)
  | some .int64 => do return int64 (← listOf int64Item)
  | _ => fail

def ofCbor : Reader Payload :=
  tagged "type" "values" valuesOfCbor fun tag content => do
    ofDatum? (.tagged "type" "values" (← nameText? tag) content)

end Payload

namespace Tensor

def toCbor (t : Tensor) : Bytes :=
  writeRecord [("dims", writeList writeInt64 t.dims), ("data", t.data.toCbor)]

def ofCbor : Reader Tensor := do
  let step : Bytes → Option Dims × Option Payload → Reader (Option Dims × Option Payload) :=
    fun key (dims, data) => do
      if isName key "dims" then return (← once (listOf int64Item) dims, data)
      else if isName key "data" then return (dims, ← once Payload.ofCbor data)
      else do
        skipItem
        return (dims, data)
  match ← record step (none, none) with
  | (some dims, some data) => return ⟨dims, data⟩
  | _ => fail

end Tensor

namespace Attr

def contentToCbor : Attr → Bytes
  | int v => writeInt64 v
  | float v => writeSingle v
  | string v => writeText v
  | ints v => writeList writeInt64 v
  | floats v => writeList writeSingle v
  | strings v => writeList writeText v
  | tensor v => v.toCbor

def toCbor (a : Attr) : Bytes :=
  writeTagged "type" "value" a.kind a.contentToCbor

def contentOfCbor (tag : Bytes) : Reader Attr :=
  match nameText? tag with
  | some "int" => do return int (← Cbor.int64)
  | some "float" => do return float (← Cbor.single)
  | some "string" => do return string (← Cbor.text)
  | some "ints" => do return ints (← listOf int64Item)
  | some "floats" => do return floats (← listOf singleItem)
  | some "strings" => do return strings (← listOf (.of Cbor.text))
  | some "tensor" => do return tensor (← Tensor.ofCbor)
  | _ => fail

def ofCbor : Reader Attr :=
  tagged "type" "value" contentOfCbor fun tag content => do
    ofDatum? (.tagged "type" "value" (← nameText? tag) content)

end Attr

end OpGraph
