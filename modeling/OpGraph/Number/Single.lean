import OpGraph.Number.Layout

/-!
Single-precision numbers, kept as their bit patterns. Two of them are equal iff their patterns are,
so `0.0` and `-0.0` differ and a `NaN` equals itself.
-/

namespace OpGraph

structure Single where
  bits : UInt32
deriving DecidableEq, Repr

namespace Single

open Number

def value (x : Single) : Value :=
  Format.single.read x.bits.toNat

/-- The nearest single-precision number. -/
def ofValue (v : Value) : Single :=
  ⟨UInt32.ofNat (Format.single.write v)⟩

def isNaN (x : Single) : Bool :=
  x.value.isNaN

def isFinite (x : Single) : Bool :=
  x.value.isFinite

/-- Both zeros are zero. -/
def isZero (x : Single) : Bool :=
  match x.value with
  | .finite _ m _ => m == 0
  | _ => false

/-- Equal as numbers: the zeros are equal, and a `NaN` equals nothing. -/
def equals (x y : Single) : Bool :=
  !x.isNaN && (x == y || x.isZero && y.isZero)

/-- The written form of a finite number in a layout. -/
def write? (layout : Layout) (x : Single) : Option String :=
  match x.value with
  | .finite negative m e => some (layout.write negative (Format.single.shortest m e))
  | _ => none

/-- Numbers in texts: positional from `0.0001` up to below `1e16`. -/
def textLayout : Layout := ⟨-4, 15, ""⟩

def text (x : Single) : String :=
  match x.value with
  | .nan .. => "NaN"
  | .infinity negative => if negative then "-inf" else "inf"
  | .finite negative m e => textLayout.write negative (Format.single.shortest m e)

/--
The power `2 ^ e`. Above the greatest exponent it is infinite; a negative power is the reciprocal of
the positive one, which is infinite, so that the reciprocal vanishes, below `-127`.
-/
def twoPow (e : Int) : Value :=
  if 127 < e then
    .infinity false
  else if e < -127 then
    .finite false 0 0
  else
    .finite false 1 e

/-- The exponent `e` of a number that equals `twoPow e`. -/
def log2? (x : Single) : Option Int :=
  match x.value with
  | .finite false m e =>
    let k := Nat.log2 m
    let lead := e + k
    if m = Nat.pow 2 k ∧ -127 ≤ lead then some lead else none
  | _ => none

/-- `mantissa * 2 ^ exponent` rounded to the nearest integer, a half away from zero. -/
def roundHalfUp (mantissa : Nat) (exponent : Int) : Nat :=
  if 0 ≤ exponent then
    mantissa * Nat.pow 2 exponent.toNat
  else
    let den := Nat.pow 2 (-exponent).toNat
    (2 * mantissa + den) / (2 * den)

/-- The number times a scale, as an integer from `-128` to `127`; what is not a number becomes 0. -/
def quantize (scale : Value) (x : Single) : Int8 :=
  match x.value, scale with
  | .nan .., _ | _, .nan .. => 0
  | .infinity negative, .infinity _ => saturated negative
  | .infinity negative, .finite _ m _ => if m = 0 then 0 else saturated negative
  | .finite negative m _, .infinity _ => if m = 0 then 0 else saturated negative
  | .finite negative m e, .finite _ n k =>
    let r := roundHalfUp (m * n) (e + k)
    if negative then
      Int8.ofInt (max (-128) (-(r : Int)))
    else
      Int8.ofInt (min 127 r)
where
  saturated (negative : Bool) : Int8 := if negative then -128 else 127

end Single

end OpGraph
