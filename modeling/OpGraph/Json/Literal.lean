import OpGraph.Word
import OpGraph.Datum

/-!
Number literals of JSON texts. A whole number that fits 64 bits is an integer; any other literal is
evaluated in double precision from a significand of at most 64 bits and a power of ten, with one
rounding for each of the two steps.
-/

namespace OpGraph.Json

open Number

structure Literal where
  negative : Bool
  whole : List Nat
  /-- The digits after the point; there is a point iff they are not empty. -/
  fraction : List Nat
  /-- The sign and the digits of the exponent, if there is one. -/
  exponent : Option (Bool × List Nat)

/-- A significand, the power of ten that goes with it, and whether it takes no more digits. -/
structure Significand where
  value : Nat
  scale : Int
  full : Bool

def Significand.takes (s : Significand) (digit : Nat) : Bool :=
  s.value * 10 + digit < Word.limit

/-- A whole digit. After the first one that does not fit, digits are only counted. -/
def Significand.pushWhole (s : Significand) (digit : Nat) : Significand :=
  if !s.full && s.takes digit then
    { s with value := s.value * 10 + digit }
  else
    { s with scale := s.scale + 1, full := true }

/-- A digit after the point. After the first one that does not fit, digits are dropped. -/
def Significand.pushFraction (s : Significand) (digit : Nat) : Significand :=
  if !s.full && s.takes digit then
    { s with value := s.value * 10 + digit, scale := s.scale - 1 }
  else
    { s with full := true }

def Literal.significand (l : Literal) : Significand :=
  let whole := l.whole.foldl Significand.pushWhole ⟨0, 0, false⟩
  l.fraction.foldl Significand.pushFraction { whole with full := false }

def decimalNat (digits : List Nat) : Nat :=
  digits.foldl (fun n d => n * 10 + d) 0

/-- The double-precision number nearest to `mantissa * 2 ^ exponent`. -/
def double (mantissa : Nat) (exponent : Int) : Value :=
  Format.double.read (Format.double.magnitude mantissa exponent)

def timesPow10 (m : Nat) (e : Int) (k : Nat) : Value :=
  match double (Nat.pow 10 k) 0 with
  | .finite _ p q => double (m * p) (e + q)
  | v => v

/-- The quotient is formed with 64 spare places and a last one that tells an inexact result. -/
def overPow10 (m : Nat) (e : Int) (k : Nat) : Value :=
  match double (Nat.pow 10 k) 0 with
  | .finite _ p q =>
    let shift := Nat.log2 p + 64
    let quotient := m * Nat.pow 2 shift / p
    let sticky := if m * Nat.pow 2 shift % p = 0 then 0 else 1
    double (2 * quotient + sticky) (e - q - shift - 1)
  | v => v

/--
Scales by a power of ten, in steps of `10 ^ 308` as far as it is below that; too large is no number.
-/
def scaled : Nat → Value → Int → Option Value
  | 0, v, _ => some v
  | fuel + 1, v, k =>
    match v with
    | .finite _ m e =>
      if m = 0 then some v
      else if k < -308 then scaled fuel (overPow10 m e 308) (k + 308)
      else if k < 0 then some (overPow10 m e k.natAbs)
      else if k ≤ 308 then
        match timesPow10 m e k.toNat with
        | .finite n m e => some (.finite n m e)
        | _ => none
      else none
    | _ => none

def withSign (negative : Bool) : Value → Value
  | .finite _ m e => .finite negative m e
  | v => v

/-- The power of ten of a literal; an exponent of 2^31 or more counts as that much. -/
def Literal.scale (l : Literal) (s : Significand) : Int :=
  match l.exponent with
  | none => s.scale
  | some (negative, digits) =>
    let n : Int := min (decimalNat digits) (Nat.pow 2 31)
    if negative then s.scale - n else s.scale + n

def Literal.isWhole (l : Literal) : Bool :=
  l.fraction.isEmpty && l.exponent.isNone

/-- What a literal stands for; a number beyond double precision is not usable. -/
def Literal.datum (l : Literal) : Datum :=
  let n := decimalNat l.whole
  if l.isWhole && !l.negative && n < UInt64.size then
    .int n
  else if l.isWhole && l.negative && 0 < n && n ≤ Nat.pow 2 63 then
    .int (-n)
  else
    let s := l.significand
    match scaled 8 (double s.value 0) (l.scale s) with
    | some v => .float (withSign l.negative v)
    | none => .unusable

end OpGraph.Json
