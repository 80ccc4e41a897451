import OpGraph.Bytes
import OpGraph.Number.Single

/-!
Data trees, the common form of stored values before they are read as a value of some type. The
readers here state which trees are accepted: a record may hold fields that nobody asked for but no
field twice, and may also be written as the list of its fields.
-/

namespace OpGraph

inductive Datum where
  | null
  | bool (value : Bool)
  | int (value : Int)
  | float (value : Number.Value)
  | text (value : String)
  | bytes (value : Bytes)
  | list (items : List Datum)
  /-- Fields in written order. A key that is no text is `none`. -/
  | record (fields : List (Option String × Datum))
  /-- Something well-formed that has no value, such as a number beyond every range. -/
  | unusable

namespace Datum

def object (fields : List (String × Datum)) : Datum :=
  .record (fields.map fun (key, value) => (some key, value))

/-- A variant with a value, as a record of one field. -/
def variant (tag : String) (content : Datum) : Datum :=
  .object [(tag, content)]

mutual

/-- Every part has a value and nothing is nested deeper than the given number of levels. -/
def isUsable : Nat → Datum → Bool
  | _, .null | _, .bool _ | _, .int _ | _, .float _ | _, .text _ | _, .bytes _ => true
  | _, .unusable => false
  | 0, .list _ | 0, .record _ => false
  | depth + 1, .list items => areUsable depth items
  | depth + 1, .record fields => fieldsUsable depth fields

def areUsable : Nat → List Datum → Bool
  | _, [] => true
  | depth, item :: rest => isUsable depth item && areUsable depth rest

def fieldsUsable : Nat → List (Option String × Datum) → Bool
  | _, [] => true
  | depth, (key, value) :: rest => key.isSome && isUsable depth value && fieldsUsable depth rest

end

/-! ### Simple values -/

def isNull : Datum → Bool
  | .null => true
  | _ => false

def bool? : Datum → Option Bool
  | .bool b => some b
  | _ => none

def intIn? (low high : Int) : Datum → Option Int
  | .int n => if low ≤ n ∧ n ≤ high then some n else none
  | _ => none

def natBelow? (limit : Nat) (d : Datum) : Option Nat :=
  (d.intIn? 0 (limit - 1)).map Int.toNat

def int8? (d : Datum) : Option Int8 :=
  (d.intIn? Int8.minValue.toInt Int8.maxValue.toInt).map Int8.ofInt

def uint8? (d : Datum) : Option UInt8 :=
  (d.natBelow? UInt8.size).map UInt8.ofNat

def int32? (d : Datum) : Option Int32 :=
  (d.intIn? Int32.minValue.toInt Int32.maxValue.toInt).map Int32.ofInt

def int64? (d : Datum) : Option Int64 :=
  (d.intIn? Int64.minValue.toInt Int64.maxValue.toInt).map Int64.ofInt

/-- The nearest single-precision number; integers are taken as well. -/
def single? : Datum → Option Single
  | .int n => some (.ofValue (.finite (n < 0) n.natAbs 0))
  | .float v => some (.ofValue v)
  | _ => none

/-- A text, or a byte string that holds one. -/
def text? : Datum → Option String
  | .text s => some s
  | .bytes b => String.fromUTF8? ⟨b.toArray⟩
  | _ => none

/-! ### Compound values -/

def listOf? {α : Type} (item : Datum → Option α) : Datum → Option (List α)
  | .list items => items.mapM item
  | _ => none

/-- `null` stands for a value that is left out. -/
def optional? {α : Type} (value : Datum → Option α) : Datum → Option (Option α)
  | .null => some none
  | d => (value d).map some

def pairOf? {α β : Type} (first : Datum → Option α) (second : Datum → Option β) :
    Datum → Option (α × β)
  | .list [a, b] => do return (← first a, ← second b)
  | _ => none

/-- All fields of a record whose values are of one kind. -/
def entries? {α : Type} (value : Datum → Option α) : Datum → Option (List (String × α))
  | .record fields => fields.mapM fun (key, d) => do return (← key, ← value d)
  | _ => none

/-- The value of a field, if it is there; no answer if it is there twice. -/
def field? (fields : List (Option String × Datum)) (name : String) : Option (Option Datum) :=
  match fields.filter fun (key, _) => key == some name with
  | [] => some none
  | [(_, value)] => some (some value)
  | _ => none

/--
The named fields of a record, in the order of the names. A list gives them by position and must
reach at least the first `least` of them.
-/
def fields? (names : List String) (least : Nat) : Datum → Option (List (Option Datum))
  | .record fields =>
    if fields.all fun (key, _) => key.isSome then names.mapM (field? fields) else none
  | .list items =>
    if least ≤ items.length ∧ items.length ≤ names.length then
      some (items.map some ++ List.replicate (names.length - items.length) none)
    else
      none
  | _ => none

def required? {α : Type} (value : Datum → Option α) (field : Option Datum) : Option α :=
  field.bind value

/-- A field that has a value of its own when it is left out. -/
def orElse? {α : Type} (value : Datum → Option α) (default : α) : Option Datum → Option α
  | none => some default
  | some d => value d

/-- A variant: a tag alone, or a record of one field. -/
def variant? : Datum → Option (String × Option Datum)
  | .text tag => some (tag, none)
  | .record [(some tag, content)] => some (tag, some content)
  | _ => none

def unitVariant? (d : Datum) : Option String := do
  match ← d.variant? with
  | (tag, none) => return tag
  | (tag, some content) => if content.isNull then return tag else none

/-- Of two fields the second one stands in front. -/
def isBefore (fields : List (Option String × Datum)) (first second : String) : Bool :=
  match fields.find? fun (key, _) => key == some first || key == some second with
  | some (key, _) => key == some second
  | none => false

/-- How deep a value may be nested that is read before its tag is known. -/
def depthLimit : Nat := 120

/--
A tagged value: a record with a field for the tag and one for the content, or the list of the two.
Content that stands in front of its tag has to be usable in all its parts.
-/
def tagged? (tagName contentName : String) (d : Datum) : Option (String × Datum) :=
  match d with
  | .list [tag, content] => do return (← tag.unitVariant?, content)
  | .record fields => do
    if !fields.all fun (key, _) => key.isSome then
      none
    else
      let tag ← (← field? fields tagName).bind unitVariant?
      let content ← ← field? fields contentName
      if isBefore fields tagName contentName && !content.isUsable depthLimit then
        none
      else
        return (tag, content)
  | _ => none

end Datum

end OpGraph
