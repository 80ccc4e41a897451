import OpGraph.Json.Literal

/-!
Reading JSON texts. The reader works on bytes, so that a text that is not valid UTF-8 inside a value
nobody asks for can still be read. Every step of the recursion consumes a byte.
-/

namespace OpGraph.Json

def isSpace (b : UInt8) : Bool :=
  b == 32 || b == 9 || b == 10 || b == 13

def skipSpace (bytes : Bytes) : Bytes :=
  bytes.dropWhile isSpace

def isDigit (b : UInt8) : Bool :=
  48 ≤ b && b ≤ 57

def digitValue (b : UInt8) : Nat :=
  b.toNat - 48

/-- The digits at the front of a text and what follows them. -/
def digits (bytes : Bytes) : List Nat × Bytes :=
  ((bytes.takeWhile isDigit).map digitValue, bytes.dropWhile isDigit)

def hexValue? (b : UInt8) : Option Nat :=
  if 48 ≤ b ∧ b ≤ 57 then some (b.toNat - 48)
  else if 97 ≤ b ∧ b ≤ 102 then some (b.toNat - 87)
  else if 65 ≤ b ∧ b ≤ 70 then some (b.toNat - 55)
  else none

/-- Four digits to base 16. -/
def codeUnit? : Bytes → Option (Nat × Bytes)
  | a :: b :: c :: d :: rest => do
    let n := (← hexValue? a) * 4096 + (← hexValue? b) * 256 + (← hexValue? c) * 16 + (← hexValue? d)
    return (n, rest)
  | _ => none

/-- The second half of a surrogate pair, if it follows. -/
def lowHalf? : Bytes → Option (Nat × Bytes)
  | 92 :: 117 :: rest => do
    let (n, rest) ← codeUnit? rest
    if 0xdc00 ≤ n ∧ n ≤ 0xdfff then return (n, rest) else none
  | _ => none

def utf8 (c : Char) : Bytes :=
  c.toString.toUTF8.toList

/-- One piece of a string: the bytes it stands for, or `none` for half a surrogate pair. -/
def escape? : Bytes → Option (Option Bytes × Bytes)
  | 34 :: rest => some (some [34], rest)
  | 92 :: rest => some (some [92], rest)
  | 47 :: rest => some (some [47], rest)
  | 98 :: rest => some (some [8], rest)
  | 102 :: rest => some (some [12], rest)
  | 110 :: rest => some (some [10], rest)
  | 114 :: rest => some (some [13], rest)
  | 116 :: rest => some (some [9], rest)
  | 117 :: rest => do
    let (n, rest) ← codeUnit? rest
    if 0xd800 ≤ n ∧ n ≤ 0xdbff then
      match lowHalf? rest with
      | some (low, rest) =>
        return (some (utf8 (Char.ofNat (0x10000 + (n - 0xd800) * 0x400 + (low - 0xdc00)))), rest)
      | none => return (none, rest)
    else if 0xdc00 ≤ n ∧ n ≤ 0xdfff then
      return (none, rest)
    else
      return (some (utf8 (Char.ofNat n)), rest)
  | _ => none

/-- The bytes of a string up to its closing quote, latest first. -/
def stringBytes? : Nat → Bytes → Option Bytes → Option (Option Bytes × Bytes)
  | 0, _, _ => none
  | fuel + 1, bytes, done =>
    match bytes with
    | 34 :: rest => some (done, rest)
    | 92 :: rest => do
      let (piece, rest) ← escape? rest
      let done := do return (← piece).reverse ++ (← done)
      stringBytes? fuel rest done
    | b :: rest => if b < 32 then none else stringBytes? fuel rest (done.map (b :: ·))
    | [] => none

/-- A string after its opening quote; `none` inside if it has no value as a text. -/
def string? (bytes : Bytes) : Option (Option String × Bytes) := do
  let (done, rest) ← stringBytes? (bytes.length + 1) bytes (some [])
  let text := done.bind fun bs => String.fromUTF8? ⟨bs.reverse.toArray⟩
  return (text, rest)

/-- The digits before the point: a single zero, or no zero at the front. -/
def whole? (bytes : Bytes) : Option (List Nat × Bytes) :=
  match digits bytes with
  | ([], _) => none
  | (0 :: _ :: _, _) => none
  | (ds, rest) => some (ds, rest)

def fraction? : Bytes → Option (List Nat × Bytes)
  | 46 :: rest =>
    match digits rest with
    | ([], _) => none
    | (ds, rest) => some (ds, rest)
  | bytes => some ([], bytes)

def exponentDigits? (negative : Bool) (bytes : Bytes) : Option (Option (Bool × List Nat) × Bytes) :=
  match digits bytes with
  | ([], _) => none
  | (ds, rest) => some (some (negative, ds), rest)

def exponent? : Bytes → Option (Option (Bool × List Nat) × Bytes)
  | [] => some (none, [])
  | b :: rest =>
    if b == 101 || b == 69 then
      match rest with
      | 43 :: rest => exponentDigits? false rest
      | 45 :: rest => exponentDigits? true rest
      | rest => exponentDigits? false rest
    else
      some (none, b :: rest)

def number? (negative : Bool) (bytes : Bytes) : Option (Datum × Bytes) := do
  let (whole, rest) ← whole? bytes
  let (fraction, rest) ← fraction? rest
  let (exponent, rest) ← exponent? rest
  return (Literal.datum ⟨negative, whole, fraction, exponent⟩, rest)

def word? (word : String) (d : Datum) (bytes : Bytes) : Option (Datum × Bytes) :=
  let expected := word.toUTF8.toList
  if expected.isPrefixOf bytes then some (d, bytes.drop expected.length) else none

mutual

def value? : Nat → Bytes → Option (Datum × Bytes)
  | 0, _ => none
  | fuel + 1, bytes =>
    match skipSpace bytes with
    | 34 :: rest => do
      let (text, rest) ← string? rest
      return (match text with | some s => .text s | none => .unusable, rest)
    | 91 :: rest =>
      match skipSpace rest with
      | 93 :: rest => some (.list [], rest)
      | _ => do
        let (items, rest) ← items? fuel rest
        return (.list items, rest)
    | 123 :: rest =>
      match skipSpace rest with
      | 125 :: rest => some (.record [], rest)
      | _ => do
        let (fields, rest) ← fields? fuel rest
        return (.record fields, rest)
    | 116 :: rest => word? "rue" (.bool true) rest
    | 102 :: rest => word? "alse" (.bool false) rest
    | 110 :: rest => word? "ull" .null rest
    | 45 :: rest => number? true rest
    | rest => number? false rest

def items? : Nat → Bytes → Option (List Datum × Bytes)
  | 0, _ => none
  | fuel + 1, bytes => do
    let (item, rest) ← value? fuel bytes
    match skipSpace rest with
    | 93 :: rest => return ([item], rest)
    | 44 :: rest => do
      let (items, rest) ← items? fuel rest
      return (item :: items, rest)
    | _ => none

def fields? : Nat → Bytes → Option (List (Option String × Datum) × Bytes)
  | 0, _ => none
  | fuel + 1, bytes =>
    match skipSpace bytes with
    | 34 :: rest => do
      let (key, rest) ← string? rest
      match skipSpace rest with
      | 58 :: rest => do
        let (value, rest) ← value? fuel rest
        match skipSpace rest with
        | 125 :: rest => return ([(key, value)], rest)
        | 44 :: rest => do
          let (fields, rest) ← fields? fuel rest
          return ((key, value) :: fields, rest)
        | _ => none
      | _ => none
    | _ => none

end

/-- Reads a text that holds one value and nothing else. -/
def read? (bytes : Bytes) : Option Datum := do
  let (d, rest) ← value? (bytes.length + 1) bytes
  if (skipSpace rest).isEmpty then some d else none

end OpGraph.Json
