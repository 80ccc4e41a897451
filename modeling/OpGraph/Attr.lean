import OpGraph.Tensor
import Std.Data.ExtTreeMap

/-!
Attributes of nodes.
-/

namespace OpGraph

/-- The value of an attribute. Floats are compared by their bit patterns. -/
inductive Attr where
  | int (value : Int64)
  | float (value : Single)
  | string (value : String)
  | ints (values : List Int64)
  | floats (values : List Single)
  | strings (values : List String)
  | tensor (value : Tensor)
deriving DecidableEq, Repr

/-- Attributes by name, ascending. -/
abbrev Attrs := Std.ExtTreeMap String Attr

namespace Attr

def int? : Attr → Option Int64
  | int v => some v
  | _ => none

def float? : Attr → Option Single
  | float v => some v
  | _ => none

def string? : Attr → Option String
  | string v => some v
  | _ => none

def ints? : Attr → Option (List Int64)
  | ints v => some v
  | _ => none

def tensor? : Attr → Option Tensor
  | tensor v => some v
  | _ => none

def intsText (values : List Int64) : String :=
  Text.bracketed (values.map fun v => toString v.toInt)

/-- The written form of a value; a tensor shows its type only. -/
def text : Attr → String
  | int v => toString v.toInt
  | float v => v.text
  | string v => Text.quote v
  | ints v => intsText v
  | floats v => Text.bracketed (v.map Single.text)
  | strings v => Text.quoteList v
  | tensor v => v.type.text

/-- The full written form of a value, which names its kind. -/
def dump : Attr → String
  | int v => "Int(" ++ toString v.toInt ++ ")"
  | float v => "Float(" ++ v.text ++ ")"
  | string v => "String(" ++ Text.quote v ++ ")"
  | ints v => "Ints(" ++ intsText v ++ ")"
  | floats v => "Floats(" ++ Text.bracketed (v.map Single.text) ++ ")"
  | strings v => "Strings(" ++ Text.quoteList v ++ ")"
  | tensor v => "Tensor(" ++ v.dump ++ ")"

end Attr

def Attrs.dump (attrs : Attrs) : String :=
  let items := attrs.toList.map fun (name, value) => Text.quote name ++ ": " ++ value.dump
  "\x7b" ++ ", ".intercalate items ++ "\x7d"

end OpGraph
