/-!
Binary floating-point formats. A bit pattern is read as an exact number and an exact number is
written as the nearest bit pattern, so that every conversion between formats goes through the exact
value.
-/

namespace OpGraph.Number

inductive Value where
  /-- Not a number; the payload fills the 52 places after the point from the left. -/
  | nan (negative : Bool) (payload : Nat)
  | infinity (negative : Bool)
  /-- The number `± mantissa * 2 ^ exponent`. -/
  | finite (negative : Bool) (mantissa : Nat) (exponent : Int)
deriving DecidableEq, Repr

/-- A format with a sign bit, `exponentBits` and `fractionBits`, from the highest bit down. -/
structure Format where
  exponentBits : Nat
  fractionBits : Nat
deriving DecidableEq, Repr

namespace Format

def half : Format := ⟨5, 10⟩

def single : Format := ⟨8, 23⟩

def double : Format := ⟨11, 52⟩

/-- The exponent of the last place of the smallest numbers. -/
def leastExponent (f : Format) : Int :=
  2 - Nat.pow 2 (f.exponentBits - 1) - f.fractionBits

/-- The bit pattern of positive infinity. -/
def infinityBits (f : Format) : Nat :=
  (Nat.pow 2 f.exponentBits - 1) * Nat.pow 2 f.fractionBits

def signBit (f : Format) : Nat :=
  Nat.pow 2 (f.exponentBits + f.fractionBits)

def read (f : Format) (bits : Nat) : Value :=
  let fraction := bits % Nat.pow 2 f.fractionBits
  let exponent := bits / Nat.pow 2 f.fractionBits % Nat.pow 2 f.exponentBits
  let negative := bits / f.signBit % 2 == 1
  if exponent = Nat.pow 2 f.exponentBits - 1 then
    if fraction = 0 then
      .infinity negative
    else
      .nan negative (fraction * Nat.pow 2 (52 - f.fractionBits))
  else if exponent = 0 then
    .finite negative fraction f.leastExponent
  else
    .finite negative (fraction + Nat.pow 2 f.fractionBits) (f.leastExponent + exponent - 1)

end Format

/-- The quotient rounded to the nearest integer, a half to the even one. -/
def divRoundEven (num den : Nat) : Nat :=
  let q := num / den
  let r := num % den
  if den < 2 * r ∨ (2 * r = den ∧ q % 2 = 1) then q + 1 else q

namespace Format

/--
The magnitude `mantissa * 2 ^ exponent` as a bit pattern without sign: the nearest number of the
format, of two equally near ones the even one, and infinity above the largest. The pattern is the
mantissa at the last place `q`, with `q` counted in units of the fraction field: a mantissa that
rounds up to the next power of two carries into the exponent field by itself.
-/
def magnitude (f : Format) (mantissa : Nat) (exponent : Int) : Nat :=
  if mantissa = 0 then
    0
  else
    let q := max (exponent + Nat.log2 mantissa - f.fractionBits) f.leastExponent
    let m :=
      if q ≤ exponent then
        mantissa * Nat.pow 2 (exponent - q).toNat
      else
        divRoundEven mantissa (Nat.pow 2 (q - exponent).toNat)
    min ((q - f.leastExponent).toNat * Nat.pow 2 f.fractionBits + m) f.infinityBits

/-- Writes a value as the nearest bit pattern; a payload loses its lowest places and is quiet. -/
def write (f : Format) : Value → Nat
  | .nan negative payload =>
    let quiet := Nat.pow 2 (f.fractionBits - 1)
    (if negative then f.signBit else 0) + f.infinityBits +
      (payload / Nat.pow 2 (52 - f.fractionBits) ||| quiet)
  | .infinity negative => (if negative then f.signBit else 0) + f.infinityBits
  | .finite negative mantissa exponent =>
    (if negative then f.signBit else 0) + f.magnitude mantissa exponent

end Format

namespace Value

def isNaN : Value → Bool
  | .nan .. => true
  | _ => false

def isFinite : Value → Bool
  | .finite .. => true
  | _ => false

end Value

end OpGraph.Number
