import OpGraph.Datum

/-!
Reading CBOR items. A reader takes what it needs from the front of a byte string. Tags in front of
an item say nothing about its value and are passed over; lengths may be indefinite.
-/

namespace OpGraph.Cbor

/-- A reader gives a value and the bytes that follow it. -/
abbrev Reader := StateT Bytes Option

def fail {α : Type} : Reader α := fun _ => none

def take (n : Nat) : Reader Bytes := fun bytes =>
  if n ≤ bytes.length then some (bytes.take n, bytes.drop n) else none

def remaining : Reader Nat := fun bytes => some (bytes.length, bytes)

/-- The start of an item. A length of `none` is indefinite: the item lasts until `stop`. -/
inductive Header where
  | positive (n : Nat)
  /-- The number `-1 - n`. -/
  | negative (n : Nat)
  | bytes (length : Option Nat)
  | text (length : Option Nat)
  | list (length : Option Nat)
  | record (length : Option Nat)
  | tag (n : Nat)
  | simple (n : Nat)
  | float (value : Number.Value)
  | stop

/-- The argument of a first byte: in the byte itself, in the bytes that follow, or `none`. -/
def argument (minor : Nat) : Reader (Option Nat) :=
  if minor < 24 then return some minor
  else if minor = 24 then do return some (Bytes.ofBigEndian (← take 1))
  else if minor = 25 then do return some (Bytes.ofBigEndian (← take 2))
  else if minor = 26 then do return some (Bytes.ofBigEndian (← take 4))
  else if minor = 27 then do return some (Bytes.ofBigEndian (← take 8))
  else if minor = 31 then return none
  else fail

def otherHeader (minor : Nat) : Reader Header := do
  match ← argument minor with
  | none => return .stop
  | some n =>
    if minor = 25 then return .float (Number.Format.half.read n)
    else if minor = 26 then return .float (Number.Format.single.read n)
    else if minor = 27 then return .float (Number.Format.double.read n)
    else return .simple n

def header : Reader Header := do
  let first := Bytes.ofBigEndian (← take 1)
  let minor := first % 32
  match first / 32 with
  | 0 => do
    let some n ← argument minor | fail
    return .positive n
  | 1 => do
    let some n ← argument minor | fail
    return .negative n
  | 2 => return .bytes (← argument minor)
  | 3 => return .text (← argument minor)
  | 4 => return .list (← argument minor)
  | 5 => return .record (← argument minor)
  | 6 => do
    let some n ← argument minor | fail
    return .tag n
  | _ => otherHeader minor

/-- The next header, which stays in front. -/
def peek : Reader Header := fun bytes => do
  let (h, _) ← header bytes
  return (h, bytes)

def passTags : Nat → Reader Header
  | 0 => fail
  | fuel + 1 => do
    match ← header with
    | .tag _ => passTags fuel
    | h => return h

/-- The next header after all tags; every tag takes a byte. -/
def untagged : Reader Header := do
  passTags (← remaining)

/-! ### Simple values -/

/-- The pieces of a string of indefinite length, which may be nested. -/
def pieces (text : Bool) : Nat → Nat → Reader (List Bytes)
  | 0, _ => fail
  | fuel + 1, depth => do
    match ← header, text with
    | .stop, _ => if depth ≤ 1 then return [] else pieces text fuel (depth - 1)
    | .bytes none, false | .text none, true => pieces text fuel (depth + 1)
    | .bytes (some n), false | .text (some n), true =>
      let piece ← take n
      return piece :: (← pieces text fuel depth)
    | _, _ => fail

/-- The content of a string whose header has been read. -/
def content (text : Bool) : Option Nat → Reader (List Bytes)
  | some n => do return [← take n]
  | none => do pieces text (← remaining) 1

def utf8 (bytes : Bytes) : Reader String :=
  match String.fromUTF8? ⟨bytes.toArray⟩ with
  | some s => return s
  | none => fail

/-- Every piece of a text is valid by itself. -/
def textContent (length : Option Nat) : Reader String := do
  let parts ← (← content true length).mapM utf8
  return String.join parts

def text : Reader String := do
  match ← untagged with
  | .text length => textContent length
  | _ => fail

/-- The greatest length of a name. -/
def nameLimit : Nat := 4096

/-- A name of a field or variant, as bytes; it may also be written as a byte string. -/
def name : Reader Bytes := do
  match ← untagged with
  | .text (some n) =>
    if n ≤ nameLimit then
      let bytes ← take n
      let _ ← utf8 bytes
      return bytes
    else
      fail
  | .bytes (some n) => if n ≤ nameLimit then take n else fail
  | _ => fail

def isName (bytes : Bytes) (name : String) : Bool :=
  bytes == name.toUTF8.toList

def bool : Reader Bool := do
  match ← untagged with
  | .simple 20 => return false
  | .simple 21 => return true
  | _ => fail

def float : Reader Number.Value := do
  match ← untagged with
  | .float v => return v
  | _ => fail

/-- A large integer is a byte string, highest byte first, of at most 16 bytes after the zeros. -/
def largeInt (negative : Bool) : Reader Int := do
  match ← header with
  | .bytes length =>
    let bytes := ((← content false length).flatten).dropWhile (· == 0)
    if bytes.length ≤ 16 then
      let n : Int := Bytes.ofBigEndian bytes
      return if negative then -1 - n else n
    else
      fail
  | _ => fail

def intPastTags : Nat → Reader Int
  | 0 => fail
  | fuel + 1 => do
    match ← header with
    | .positive n => return n
    | .negative n => return -1 - n
    | .tag 2 => largeInt false
    | .tag 3 => largeInt true
    | .tag _ => intPastTags fuel
    | _ => fail

def intIn (low high : Int) : Reader Int := do
  let n ← intPastTags (← remaining)
  if low ≤ n ∧ n ≤ high then return n else fail

/-! ### Compound values -/

/-- How the items of a list are read, and what a single byte stands for among them. -/
structure Item (α : Type) where
  read : Reader α
  ofByte : UInt8 → Option α

/-- Items that are never bytes. -/
def Item.of {α : Type} (read : Reader α) : Item α := ⟨read, fun _ => none⟩

def times {α : Type} (read : Reader α) : Nat → Reader (List α)
  | 0 => return []
  | n + 1 => do
    let a ← read
    return a :: (← times read n)

def untilStop {α : Type} (read : Reader α) : Nat → Reader (List α)
  | 0 => fail
  | fuel + 1 => do
    match ← peek with
    | .stop =>
      let _ ← header
      return []
    | _ =>
      let a ← read
      return a :: (← untilStop read fuel)

/-- The items of a list whose header has been read. More items than bytes cannot be. -/
def items {α : Type} (read : Reader α) : Option Nat → Reader (List α)
  | some n => do if n ≤ (← remaining) then times read n else fail
  | none => do untilStop read (← remaining)

/-- A list, or a byte string for a list of small numbers. -/
def listOf {α : Type} (item : Item α) : Reader (List α) := do
  match ← untagged with
  | .list length => items item.read length
  | .bytes length =>
    let bytes := (← content false length).flatten
    match bytes.mapM item.ofByte with
    | some values => return values
    | none => fail
  | _ => fail

/-- What is left of a list or record: a number of items, or all up to `stop`. -/
abbrev Rest := Option Nat

/-- Steps to the next item, if there is one. -/
def next : Rest → Reader (Option Rest)
  | some 0 => return none
  | some (n + 1) => return some (some n)
  | none => do
    match ← peek with
    | .stop =>
      let _ ← header
      return none
    | _ => return some none

/-- An item that has to be there. -/
def nextItem {α : Type} (read : Reader α) (rest : Rest) : Reader (α × Rest) := do
  match ← next rest with
  | none => fail
  | some rest => return (← read, rest)

/-- A list of two; whatever follows the two is left. -/
def pairOf {α β : Type} (first : Reader α) (second : Reader β) : Reader (α × β) := do
  match ← untagged with
  | .list length =>
    let (a, rest) ← nextItem first length
    let (b, _) ← nextItem second rest
    return (a, b)
  | _ => fail

mutual

/-- Reads any item as a tree; a tagged item has no tree. -/
def datum : Nat → Reader Datum
  | 0 => fail
  | fuel + 1 => do
    match ← header with
    | .positive n => return .int n
    | .negative n => if n < Nat.pow 2 63 then return .int (-1 - n) else fail
    | .bytes length => return .bytes (← content false length).flatten
    | .text length => return .text (← textContent length)
    | .list length => return .list (← datums fuel length)
    | .record length => return .record (← datumFields fuel length)
    | .simple 20 => return .bool false
    | .simple 21 => return .bool true
    | .simple 22 | .simple 23 => return .null
    | .float v => return .float v
    | _ => fail

def datums : Nat → Rest → Reader (List Datum)
  | 0, _ => fail
  | fuel + 1, rest => do
    match ← next rest with
    | none => return []
    | some rest =>
      let d ← datum fuel
      return d :: (← datums fuel rest)

def datumFields : Nat → Rest → Reader (List (Option String × Datum))
  | 0, _ => fail
  | fuel + 1, rest => do
    match ← next rest with
    | none => return []
    | some rest =>
      let key ← datum fuel
      let value ← datum fuel
      return (key.text?, value) :: (← datumFields fuel rest)

end

mutual

def skip : Nat → Reader Unit
  | 0 => fail
  | fuel + 1 => do
    match ← header with
    | .bytes length => let _ ← content false length
    | .text length => let _ ← textContent length
    | .list length => skipItems fuel 1 length
    | .record length => skipItems fuel 2 length
    | .tag _ => skip fuel
    | .simple n => if 20 ≤ n ∧ n ≤ 23 then return () else fail
    | .positive _ | .negative _ | .float _ => return ()
    | .stop => fail

/-- Passes over the items of a list, or over the keys and values of a record. -/
def skipItems : Nat → Nat → Rest → Reader Unit
  | 0, _, _ => fail
  | fuel + 1, width, rest => do
    match ← next rest with
    | none => return ()
    | some rest =>
      skip fuel
      if width = 2 then skip fuel
      skipItems fuel width rest

end

/-- Passes over the next item. Every step of the recursion takes a byte or ends a list. -/
def skipItem : Reader Unit := do
  skip (2 * (← remaining) + 2)

def anyDatum : Reader Datum := do
  datum (2 * (← remaining) + 2)

/-- Reads a field that must not have been read before. -/
def once {α : Type} (read : Reader α) : Option α → Reader (Option α)
  | none => some <$> read
  | some _ => fail

/-- Reads the fields of a record one by one; the step decides by the name. -/
def fieldsLoop {σ : Type} (step : Bytes → σ → Reader σ) : Nat → Rest → σ → Reader σ
  | 0, _, _ => fail
  | fuel + 1, rest, s => do
    match ← next rest with
    | none => return s
    | some rest =>
      let key ← name
      let s ← step key s
      fieldsLoop step fuel rest s

def fields {σ : Type} (step : Bytes → σ → Reader σ) (length : Option Nat) (start : σ) :
    Reader σ := do
  fieldsLoop step ((← remaining) + 1) length start

def record {σ : Type} (step : Bytes → σ → Reader σ) (start : σ) : Reader σ := do
  match ← untagged with
  | .record length => fields step length start
  | _ => fail

/-- The tag of a variant; its content, if it has one, comes next. -/
def variant : Reader Bytes := do
  let before ← get
  match ← untagged with
  | .record (some 1) => name
  | .text _ => do
    set before
    name
  | _ => fail

/-! ### Tagged values -/

/-- The next field that is the tag (`true`) or the content (`false`); others are passed over. -/
def relevant (tagName contentName : String) : Nat → Rest → Reader (Option (Bool × Rest))
  | 0, _ => fail
  | fuel + 1, rest => do
    match ← next rest with
    | none => return none
    | some rest =>
      let key ← name
      if isName key tagName then return some (true, rest)
      else if isName key contentName then return some (false, rest)
      else do
        skipItem
        relevant tagName contentName fuel rest

/-- No second tag or content follows. -/
def noMore (tagName contentName : String) (rest : Rest) : Reader Unit := do
  match ← relevant tagName contentName ((← remaining) + 1) rest with
  | none => return ()
  | some _ => fail

/--
A record with a tag and a content. Content that follows its tag is read by `known`; content in front
of it is kept as a tree until the tag is known.
-/
def tagged {α : Type} (tagName contentName : String) (known : Bytes → Reader α)
    (kept : Bytes → Datum → Option α) : Reader α := do
  match ← untagged with
  | .record length =>
    match ← relevant tagName contentName ((← remaining) + 1) length with
    | none => fail
    | some (true, rest) =>
      let tag ← variant
      match ← relevant tagName contentName ((← remaining) + 1) rest with
      | some (false, rest) =>
        let a ← known tag
        noMore tagName contentName rest
        return a
      | _ => fail
    | some (false, rest) =>
      let content ← anyDatum
      match ← relevant tagName contentName ((← remaining) + 1) rest with
      | some (true, rest) =>
        let tag ← variant
        let some a := kept tag content | fail
        noMore tagName contentName rest
        return a
      | _ => fail
  | _ => fail

end OpGraph.Cbor
