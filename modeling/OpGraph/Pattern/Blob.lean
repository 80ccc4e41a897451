import OpGraph.Cbor.Values
import OpGraph.Hash64
import OpGraph.Pattern.Basic

/-!
The binary form of patterns. A blob is self-describing: it holds a format name, a version, the root,
all entries in order and the names. Reading refuses every blob that no builder could have made, so
that a pattern read back behaves like the one that was written.
-/

namespace OpGraph

inductive BlobFlaw where
  | rootOutside (root : PatternId) (size : Nat)
  | childNotBefore (id child : PatternId)
  | operandFlags (id : PatternId) (operands flags : Nat)
  | attrsUnsorted (id : PatternId)
  | noAlternatives (id : PatternId)
  | nameOutside (name : String) (id : PatternId) (size : Nat)
  | duplicateName (name : String) (id : PatternId)
deriving DecidableEq

def BlobFlaw.message : BlobFlaw → String
  | rootOutside root size => "root " ++ root.text ++ " outside " ++ toString size ++ " entries"
  | childNotBefore id child =>
    id.text ++ " refers to " ++ child.text ++ ", children must precede parents"
  | operandFlags id operands flags =>
    id.text ++ " has " ++ toString operands ++ " operands but " ++ toString flags ++
      " optional flags"
  | attrsUnsorted id => id.text ++ " attribute constraints are not sorted and unique"
  | noAlternatives id => id.text ++ " has no alternatives"
  | nameOutside name id size =>
    "name '" ++ name ++ "' on " ++ id.text ++ " outside " ++ toString size ++ " entries"
  | duplicateName name id => "duplicate name entry '" ++ name ++ "' on " ++ id.text

inductive PatternError where
  /-- The bytes are no blob at all. -/
  | undecodable
  | format (found : String)
  | version (found : Nat)
  | malformed (flaw : BlobFlaw)
deriving DecidableEq

def PatternError.message? : PatternError → Option String
  | undecodable => none
  | format found => some ("not a pattern blob: format tag '" ++ found ++ "'")
  | version found => some ("unsupported pattern blob version " ++ toString found)
  | malformed flaw => some ("malformed pattern blob: " ++ flaw.message)

open Cbor

namespace PatternKind

def writeId (id : PatternId) : Bytes := writeNat id.index

def readId : Reader PatternId := do return ⟨← natBelow UInt32.size⟩

def idItem : Item PatternId := ⟨readId, fun b => some ⟨b.toNat⟩⟩

def writeVariant (tag : String) (content : Bytes) : Bytes :=
  writeRecord [(tag, content)]

def toCbor : PatternKind → Bytes
  | wildcard => writeText "Wildcard"
  | constant => writeText "Constant"
  | graphInput => writeText "GraphInput"
  | node key operands optional attrs =>
    writeVariant "Node" (writeRecord [
      ("op_type", writeText key.opType),
      ("domain", writeText key.domain),
      ("operands", writeList writeId operands),
      ("optional", writeList writeBool optional),
      ("attrs", writeList (fun (name, value) =>
        head 4 2 ++ writeText name ++ Attr.toCbor value) attrs)])
  | commutable key lhs rhs =>
    writeVariant "Commutable" (writeRecord [
      ("op_type", writeText key.opType),
      ("domain", writeText key.domain),
      ("lhs", writeId lhs),
      ("rhs", writeId rhs)])
  | anyOf items => writeVariant "Or" (writeList writeId items)
  | allOf items => writeVariant "Sequence" (writeList writeId items)

structure NodeFields where
  opType : Option String
  domain : Option String
  operands : Option (List PatternId)
  optional : Option (List Bool)
  attrs : Option (List (String × Attr))

def nodeStep (key : Bytes) (f : NodeFields) : Reader NodeFields := do
  if isName key "op_type" then return { f with opType := ← once text f.opType }
  else if isName key "domain" then return { f with domain := ← once text f.domain }
  else if isName key "operands" then return { f with operands := ← once (listOf idItem) f.operands }
  else if isName key "optional" then
    return { f with optional := ← once (listOf (.of bool)) f.optional }
  else if isName key "attrs" then
    return { f with attrs := ← once (listOf (.of (pairOf text Attr.ofCbor))) f.attrs }
  else do
    skipItem
    return f

/-- The fields of a node entry, by name or by position. -/
def readNode : Reader PatternKind := do
  match ← header with
  | .record length =>
    match ← fields nodeStep length ⟨none, none, none, none, none⟩ with
    | ⟨some opType, some domain, some operands, some optional, some attrs⟩ =>
      return node ⟨domain, opType⟩ operands optional attrs
    | _ => fail
  | .list length =>
    let (opType, rest) ← nextItem text length
    let (domain, rest) ← nextItem text rest
    let (operands, rest) ← nextItem (listOf idItem) rest
    let (optional, rest) ← nextItem (listOf (.of bool)) rest
    let (attrs, _) ← nextItem (listOf (.of (pairOf text Attr.ofCbor))) rest
    return node ⟨domain, opType⟩ operands optional attrs
  | _ => fail

structure PairFields where
  opType : Option String
  domain : Option String
  lhs : Option PatternId
  rhs : Option PatternId

def pairStep (key : Bytes) (f : PairFields) : Reader PairFields := do
  if isName key "op_type" then return { f with opType := ← once text f.opType }
  else if isName key "domain" then return { f with domain := ← once text f.domain }
  else if isName key "lhs" then return { f with lhs := ← once readId f.lhs }
  else if isName key "rhs" then return { f with rhs := ← once readId f.rhs }
  else do
    skipItem
    return f

def readPair : Reader PatternKind := do
  match ← header with
  | .record length =>
    match ← fields pairStep length ⟨none, none, none, none⟩ with
    | ⟨some opType, some domain, some lhs, some rhs⟩ => return commutable ⟨domain, opType⟩ lhs rhs
    | _ => fail
  | .list length =>
    let (opType, rest) ← nextItem text length
    let (domain, rest) ← nextItem text rest
    let (lhs, rest) ← nextItem readId rest
    let (rhs, _) ← nextItem readId rest
    return commutable ⟨domain, opType⟩ lhs rhs
  | _ => fail

def ofCbor : Reader PatternKind := do
  match nameText? (← variant) with
  | some "Wildcard" => return wildcard
  | some "Constant" => return constant
  | some "GraphInput" => return graphInput
  | some "Node" => readNode
  | some "Commutable" => readPair
  | some "Or" => return anyOf (← listOf idItem)
  | some "Sequence" => return allOf (← listOf idItem)
  | _ => fail

end PatternKind

/-- What a blob holds. -/
structure PatternBlob where
  format : String
  version : Nat
  root : PatternId
  kinds : List PatternKind
  names : List (PatternId × String)

namespace PatternBlob

def formatName : String := "graft-pattern"

def formatVersion : Nat := 1

def toBytes (b : PatternBlob) : Bytes :=
  writeRecord [
    ("format", writeText b.format),
    ("version", writeNat b.version),
    ("root", PatternKind.writeId b.root),
    ("kinds", writeList PatternKind.toCbor b.kinds),
    ("names", writeList (fun (id, name) =>
      head 4 2 ++ PatternKind.writeId id ++ writeText name) b.names)]

structure Fields where
  format : Option String
  version : Option Nat
  root : Option PatternId
  kinds : Option (List PatternKind)
  names : Option (List (PatternId × String))

def step (key : Bytes) (f : Fields) : Reader Fields := do
  if isName key "format" then return { f with format := ← once text f.format }
  else if isName key "version" then
    return { f with version := ← once (natBelow UInt32.size) f.version }
  else if isName key "root" then return { f with root := ← once PatternKind.readId f.root }
  else if isName key "kinds" then
    return { f with kinds := ← once (listOf (.of PatternKind.ofCbor)) f.kinds }
  else if isName key "names" then
    return { f with names := ← once (listOf (.of (pairOf PatternKind.readId text))) f.names }
  else do
    skipItem
    return f

def reader : Reader PatternBlob := do
  match ← record step ⟨none, none, none, none, none⟩ with
  | ⟨some format, some version, some root, some kinds, some names⟩ =>
    return ⟨format, version, root, kinds, names⟩
  | _ => fail

/-- Reads a blob; bytes after it do not matter. -/
def ofBytes? (bytes : Bytes) : Option PatternBlob :=
  (reader bytes).map Prod.fst

def isSorted : List (String × Attr) → Bool
  | (a, _) :: (b, y) :: rest => decide (a < b) && isSorted ((b, y) :: rest)
  | _ => true

def kindFlaw? (id : PatternId) (kind : PatternKind) : Option BlobFlaw :=
  match kind.children.find? fun child => id.index ≤ child.index with
  | some child => some (.childNotBefore id child)
  | none =>
    match kind with
    | .node _ operands optional attrs =>
      if operands.length ≠ optional.length then
        some (.operandFlags id operands.length optional.length)
      else if !isSorted attrs then
        some (.attrsUnsorted id)
      else
        none
    | .anyOf [] | .allOf [] => some (.noAlternatives id)
    | _ => none

/-- What is wrong with the names: one outside the table, or one that is there twice. -/
def nameFlaw? (size : Nat) : List (PatternId × String) → List (PatternId × String) → Option BlobFlaw
  | _, [] => none
  | seen, (id, name) :: rest =>
    if size ≤ id.index then
      some (.nameOutside name id size)
    else if seen.any fun (i, n) => i == id || n == name then
      some (.duplicateName name id)
    else
      nameFlaw? size ((id, name) :: seen) rest

def flaw? (b : PatternBlob) : Option BlobFlaw :=
  let size := b.kinds.length
  if size ≤ b.root.index then
    some (.rootOutside b.root size)
  else
    (b.kinds.zipIdx.findSome? fun (kind, i) => kindFlaw? ⟨i⟩ kind) <|> nameFlaw? size [] b.names

/-- The pattern of a blob without flaws. -/
def toPattern (b : PatternBlob) : Pattern where
  kinds := b.kinds.toArray
  names := b.names.foldl (fun names (id, name) => names.setIfInBounds id.index (some name))
    (Array.replicate b.kinds.length none)
  root := b.root

end PatternBlob

namespace Pattern

def toBlob (p : Pattern) : PatternBlob where
  format := PatternBlob.formatName
  version := PatternBlob.formatVersion
  root := p.root
  kinds := p.kinds.toList
  names := p.names.toList.zipIdx.filterMap fun (name, i) => name.map fun name => (⟨i⟩, name)

def toBytes (p : Pattern) : Bytes :=
  p.toBlob.toBytes

def ofBytes (bytes : Bytes) : Except PatternError Pattern :=
  match PatternBlob.ofBytes? bytes with
  | none => .error .undecodable
  | some b =>
    if b.format ≠ PatternBlob.formatName then
      .error (.format b.format)
    else if b.version ≠ PatternBlob.formatVersion then
      .error (.version b.version)
    else
      match b.flaw? with
      | some flaw => .error (.malformed flaw)
      | none => .ok b.toPattern

/-- A hash of the binary form; equal patterns have equal fingerprints. -/
def fingerprint (p : Pattern) : UInt64 :=
  hash64 0 p.toBytes

end Pattern

end OpGraph
