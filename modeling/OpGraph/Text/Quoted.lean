import OpGraph.Text.Printable

/-!
Quoted texts and bracketed lists, the forms in which strings and lists appear in messages.
-/

namespace OpGraph.Text

/-- The digits of a number to base 16, in lower case. -/
def hex (n : Nat) : String :=
  String.ofList (Nat.toDigits 16 n)

/-- Digits to base 16 with zeros in front up to the given width. -/
def hexPadded (width n : Nat) : String :=
  let digits := Nat.toDigits 16 n
  String.ofList (List.replicate (width - digits.length) '0' ++ digits)

/-- How one character of a quoted text is written. -/
def quoteChar (c : Char) : String :=
  if c = '"' then "\\\""
  else if c = '\\' then "\\\\"
  else if c = '\n' then "\\n"
  else if c = '\r' then "\\r"
  else if c = '\t' then "\\t"
  else if c.toNat = 0 then "\\0"
  else if isPrintable c then String.singleton c
  else "\\u\x7b" ++ hex c.toNat ++ "\x7d"

def quote (s : String) : String :=
  "\"" ++ String.join (s.toList.map quoteChar) ++ "\""

def bracketed (items : List String) : String :=
  "[" ++ ", ".intercalate items ++ "]"

/-- A list of strings as it appears in messages, such as `["a", "b"]`. -/
def quoteList (items : List String) : String :=
  bracketed (items.map quote)

end OpGraph.Text
