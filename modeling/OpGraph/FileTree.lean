import OpGraph.Bytes
import OpGraph.Text.Blank
import Std.Data.ExtTreeMap
import Std.Data.ExtTreeSet

/-!
A tree of directories and files as a value. Paths are relative to its top and their parts are
divided by `/`; `.` and an empty part stay where they are and `..` goes up one level.
-/

namespace OpGraph

inductive FileError where
  | missing
  /-- A directory stands in place of a file, or a file in place of a directory. -/
  | misplaced
deriving DecidableEq

namespace Path

def parts (path : String) : List String :=
  (Text.splitAt '/' path.toList).map String.ofList

/-- A path below another one; a path that starts at the top stands for itself. -/
def join (base path : String) : String :=
  if path.startsWith "/" || base = "" then path
  else if base.endsWith "/" then base ++ path
  else base ++ "/" ++ path

/-- The path without its last part, empty if there is only one. -/
def parent (path : String) : String :=
  "/".intercalate ((parts path).filter fun part => part ≠ "" ∧ part ≠ ".").dropLast

end Path

/--
Places are written as the parts from the top down, divided by `/`; the top itself is not listed.
-/
structure FileTree where
  files : Std.ExtTreeMap String Bytes
  directories : Std.ExtTreeSet String
deriving DecidableEq

namespace FileTree

def empty : FileTree := ⟨∅, ∅⟩

variable (t : FileTree)

/-- The place that a list of parts leads to. -/
def place (parts : List String) : String :=
  "/".intercalate parts

def isDirectory (spot : List String) : Bool :=
  spot.isEmpty || t.directories.contains (place spot)

def file? (spot : List String) : Option Bytes :=
  t.files[place spot]?

def advance (spot : List String) (part : String) : List String :=
  if part = "" ∨ part = "." then spot
  else if part = ".." then spot.dropLast
  else spot ++ [part]

def notDirectory (spot : List String) : FileError :=
  if (t.file? spot).isSome then .misplaced else .missing

/-- Follows a path; all but the last place have to be directories. -/
def walk (spot : List String) : List String → Except FileError (List String)
  | [] => .ok spot
  | part :: rest =>
    if t.isDirectory spot then walk (advance spot part) rest else .error (t.notDirectory spot)

def read (path : String) : Except FileError Bytes := do
  let spot ← t.walk [] (Path.parts path)
  if t.isDirectory spot then
    throw .misplaced
  match t.file? spot with
  | some bytes => return bytes
  | none => throw .missing

/-- Writes a file anew; its directory has to be there. -/
def write (path : String) (bytes : Bytes) : Except FileError FileTree := do
  let spot ← t.walk [] (Path.parts path)
  if t.isDirectory spot then
    throw .misplaced
  return { t with files := t.files.insert (place spot) bytes }

/-- Makes a directory at a place whose parent is there, unless it exists. -/
def makeDirectory (spot : List String) : Except FileError FileTree :=
  if t.isDirectory spot then .ok t
  else if (t.file? spot).isSome then .error .misplaced
  else .ok { t with directories := t.directories.insert (place spot) }

/-- Makes all directories along a path. -/
def makeAlong (t : FileTree) (spot : List String) : List String → Except FileError FileTree
  | [] => t.makeDirectory spot
  | part :: rest => do makeAlong (← t.makeDirectory spot) (advance spot part) rest

def makeDirectories (path : String) : Except FileError FileTree :=
  t.makeAlong [] (Path.parts path)

/-- All files by place, ascending. -/
def listing : List (String × Bytes) :=
  t.files.toList

end FileTree

end OpGraph
