/-!
Element types of tensors. Every element type has a numeric code, a lower-case name for texts and a
tag for stored data.
-/

namespace OpGraph

inductive Elem where
  | undefined
  | float32
  | uint8
  | int8
  | uint16
  | int16
  | int32
  | int64
  | string
  | bool
  | float16
  | float64
  | uint32
  | uint64
  | bfloat16
deriving DecidableEq, Repr

namespace Elem

/-- All element types, ascending by code. -/
def all : List Elem :=
  [undefined, float32, uint8, int8, uint16, int16, int32, int64, string, bool, float16, float64,
    uint32, uint64, bfloat16]

def code : Elem → Nat
  | undefined => 0
  | float32 => 1
  | uint8 => 2
  | int8 => 3
  | uint16 => 4
  | int16 => 5
  | int32 => 6
  | int64 => 7
  | string => 8
  | bool => 9
  | float16 => 10
  | float64 => 11
  | uint32 => 12
  | uint64 => 13
  | bfloat16 => 16

/-- The spelling of an element type in stored data. -/
def tag : Elem → String
  | undefined => "Undefined"
  | float32 => "Float32"
  | uint8 => "UInt8"
  | int8 => "Int8"
  | uint16 => "UInt16"
  | int16 => "Int16"
  | int32 => "Int32"
  | int64 => "Int64"
  | string => "String"
  | bool => "Bool"
  | float16 => "Float16"
  | float64 => "Float64"
  | uint32 => "UInt32"
  | uint64 => "UInt64"
  | bfloat16 => "BFloat16"

/-- The spelling of an element type in texts. -/
def name : Elem → String
  | undefined => "undefined"
  | float32 => "float32"
  | uint8 => "uint8"
  | int8 => "int8"
  | uint16 => "uint16"
  | int16 => "int16"
  | int32 => "int32"
  | int64 => "int64"
  | string => "string"
  | bool => "bool"
  | float16 => "float16"
  | float64 => "float64"
  | uint32 => "uint32"
  | uint64 => "uint64"
  | bfloat16 => "bfloat16"

/-- Bytes per element; strings and undefined elements have no fixed width and report 0. -/
def width : Elem → Nat
  | undefined | string => 0
  | bool | int8 | uint8 => 1
  | int16 | uint16 | float16 | bfloat16 => 2
  | int32 | uint32 | float32 => 4
  | int64 | uint64 | float64 => 8

def isSigned : Elem → Bool
  | int8 | int16 | int32 | int64 => true
  | _ => false

def isUnsigned : Elem → Bool
  | uint8 | uint16 | uint32 | uint64 => true
  | _ => false

def isInt (e : Elem) : Bool :=
  e.isSigned || e.isUnsigned

def isFloat : Elem → Bool
  | float16 | bfloat16 | float32 | float64 => true
  | _ => false

def ofCode? (code : Int) : Option Elem :=
  all.find? fun e => (e.code : Int) == code

def ofName? (name : String) : Option Elem :=
  all.find? fun e => e.name == name

def ofTag? (tag : String) : Option Elem :=
  all.find? fun e => e.tag == tag

/-- Element types are ordered by their codes. -/
instance : Ord Elem := ⟨fun x y => compare x.code y.code⟩

end Elem

end OpGraph
