/-!
White space between items of a text.
-/

namespace OpGraph.Text

/-- The characters that separate words: the blanks, line and page breaks of all scripts. -/
def isBlank (c : Char) : Bool :=
  let n := c.toNat
  (9 ≤ n && n ≤ 13) || n == 0x20 || n == 0x85 || n == 0xa0 || n == 0x1680 ||
    (0x2000 ≤ n && n ≤ 0x200a) || n == 0x2028 || n == 0x2029 || n == 0x202f || n == 0x205f ||
    n == 0x3000

def trim (s : List Char) : List Char :=
  ((s.dropWhile isBlank).reverse.dropWhile isBlank).reverse

/-- Splits at every separator; between two neighbouring separators lies an empty item. -/
def splitAt (separator : Char) : List Char → List (List Char)
  | [] => [[]]
  | c :: rest =>
    match splitAt separator rest with
    | [] => [[c]]
    | item :: items => if c = separator then [] :: item :: items else (c :: item) :: items

/-- The items of a comma-separated list without surrounding blanks; empty items are dropped. -/
def commaItems (s : String) : List String :=
  ((splitAt ',' s.toList).map fun item => String.ofList (trim item)).filter fun item => item ≠ ""

end OpGraph.Text
