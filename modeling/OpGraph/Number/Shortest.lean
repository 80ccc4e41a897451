import OpGraph.Number.Format

/-!
Shortest decimals. Among the decimals that are read back as a given binary number the one with the
fewest digits is taken, and of several the one nearest to the number.
-/

namespace OpGraph.Number

/-- The decimal number `digits * 10 ^ exponent`. -/
structure Decimal where
  digits : Nat
  exponent : Int
deriving DecidableEq, Repr

namespace Shortest

/--
The reals that round to a binary number. All four are integers in units of a quarter of the number's
last place; the ends belong to the interval iff `closed`.
-/
structure Interval where
  low : Nat
  value : Nat
  high : Nat
  closed : Bool

/--
Below a power of two the next number is only half as far away, except at the smallest numbers.
-/
def interval (f : Format) (mantissa : Nat) (exponent : Int) : Interval where
  low := if mantissa = Nat.pow 2 f.fractionBits ∧ f.leastExponent < exponent then
    4 * mantissa - 1 else 4 * mantissa - 2
  value := 4 * mantissa
  high := 4 * mantissa + 2
  closed := mantissa % 2 == 0

/--
A decimal grid of step `10 ^ k` laid over the quarters of a last place: `d` steps and `x` quarters
are compared as `d * step` and `x * quarter`.
-/
structure Grid where
  step : Nat
  quarter : Nat

def grid (exponent k : Int) : Grid where
  step := Nat.pow 10 k.toNat * Nat.pow 2 (2 - exponent).toNat
  quarter := Nat.pow 10 (-k).toNat * Nat.pow 2 (exponent - 2).toNat

def Interval.holds (i : Interval) (g : Grid) (d : Nat) : Bool :=
  let x := d * g.step
  if i.closed then
    i.low * g.quarter ≤ x && x ≤ i.high * g.quarter
  else
    i.low * g.quarter < x && x < i.high * g.quarter

/-- Of the two neighbours of the value on the grid, the nearer one that lies in the interval. -/
def onGrid (i : Interval) (g : Grid) : Option Nat :=
  let v := i.value * g.quarter
  let d := v / g.step
  let below := v - d * g.step
  let above := (d + 1) * g.step - v
  match i.holds g d, i.holds g (d + 1) with
  | true, true => some (if above < below ∨ (above = below ∧ d % 2 = 1) then d + 1 else d)
  | true, false => some d
  | false, true => some (d + 1)
  | false, false => none

/-- The exponent of the leading decimal digit, found by stepping up or down from zero. -/
def leading (i : Interval) (exponent : Int) : Int :=
  up 400 0
where
  reaches (k : Int) : Bool :=
    let g := grid exponent k
    g.step ≤ i.value * g.quarter
  up : Nat → Int → Int
    | 0, k => k
    | fuel + 1, k => if reaches (k + 1) then up fuel (k + 1) else down 400 k
  down : Nat → Int → Int
    | 0, k => k
    | fuel + 1, k => if reaches k then k else down fuel (k - 1)

/-- Moves the zeros at the end of the digits into the exponent. -/
def trim : Nat → Decimal → Decimal
  | 0, d => d
  | fuel + 1, d =>
    if d.digits ≠ 0 ∧ d.digits % 10 = 0 then
      trim fuel ⟨d.digits / 10, d.exponent + 1⟩
    else
      d

/-- Tries one digit, then two, and so on; seventeen are enough for every format up to `double`. -/
def search (i : Interval) (exponent lead : Int) : Nat → Nat → Decimal
  | 0, _ => ⟨0, 0⟩
  | fuel + 1, n =>
    let k := lead - n
    match onGrid i (grid exponent k) with
    | some d => trim (n + 2) ⟨d, k⟩
    | none => search i exponent lead fuel (n + 1)

end Shortest

open Shortest in
/-- The shortest decimal of the number `mantissa * 2 ^ exponent` of the format. -/
def Format.shortest (f : Format) (mantissa : Nat) (exponent : Int) : Decimal :=
  if mantissa = 0 then
    ⟨0, 0⟩
  else
    let i := interval f mantissa exponent
    search i exponent (leading i exponent) 17 0

end OpGraph.Number
