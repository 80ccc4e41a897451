import OpGraph.Number.Shortest

/-!
Layouts of decimals: where positional notation ends and how an exponent is written.
-/

namespace OpGraph.Number

/-- The decisions of a written form of decimals. -/
structure Layout where
  /-- The least exponent of the leading digit that is written positionally. -/
  plainFrom : Int
  /-- The greatest exponent of the leading digit that is written positionally. -/
  plainTo : Int
  /-- The text in front of the digits of an exponent that is not negative. -/
  plus : String

def digitsText (n : Nat) : List Char :=
  Nat.toDigits 10 n

/-- Positional notation; a whole number keeps one place after the point. -/
def positional (digits : List Char) (lead : Int) : List Char :=
  if lead < 0 then
    ['0', '.'] ++ List.replicate (-lead - 1).toNat '0' ++ digits
  else
    let whole := lead.toNat + 1
    if digits.length ≤ whole then
      digits ++ List.replicate (whole - digits.length) '0' ++ ['.', '0']
    else
      digits.take whole ++ ['.'] ++ digits.drop whole

/-- One digit, the others after a point, then the exponent. -/
def scientific (plus : String) (digits : List Char) (lead : Int) : List Char :=
  let point := if digits.length ≤ 1 then [] else '.' :: digits.drop 1
  let sign := if lead < 0 then ['-'] else plus.toList
  digits.take 1 ++ point ++ ['e'] ++ sign ++ digitsText lead.natAbs

def Layout.write (layout : Layout) (negative : Bool) (d : Decimal) : String :=
  let digits := digitsText d.digits
  let lead := d.exponent + digits.length - 1
  let body :=
    if layout.plainFrom ≤ lead ∧ lead ≤ layout.plainTo then
      positional digits lead
    else
      scientific layout.plus digits lead
  String.ofList (if negative then '-' :: body else body)

end OpGraph.Number
