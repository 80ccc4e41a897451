import OpGraph.FileTree
import OpGraph.Json.Reader
import OpGraph.Json.Writer
import OpGraph.Stored.Model

/-!
Model files. A model is written as a JSON text and its external bytes as a file of their own, whose
path is taken from the directory of the model.
-/

namespace OpGraph

namespace Model

/-- The path of the file with the external bytes of the model at `path`. -/
def externalPath (path external : String) : String :=
  Path.join (Path.parent path) external

def toBytes (m : Model) : Bytes :=
  (Json.prettyText 0 m.toDatum).toUTF8.toList

def ofBytes? (bytes : Bytes) : Option Model := do
  ofDatum? (← Json.read? bytes)

def readFile (files : FileTree) (path : String) : Except (Failure ModelError) Bytes :=
  match files.read path with
  | .ok bytes => .ok bytes
  | .error _ => .error (.error .file)

def externalBytes (files : FileTree) (path : String) (m : Model) :
    Except (Failure ModelError) (Option Bytes) :=
  match m.externalData with
  | none => .ok none
  | some external => some <$> readFile files (externalPath path external)

end Model

/-- A change of files that may end in an error; the files are kept also then. -/
abbrev FileEdit (ε α : Type) := EStateM (Failure ε) FileTree α

namespace Graph

def writeFile (path : String) (bytes : Bytes) : FileEdit ModelError Unit := fun files =>
  match files.write path bytes with
  | .ok files => .ok () files
  | .error _ => .error (.error .file) files

/-- Writes the external bytes, if there are any, and then the model. -/
def save (g : Graph) (path : String) (external : Option String) (threshold : Nat) :
    FileEdit ModelError Unit := do
  match g.toModel external threshold with
  | .error fault => throw (.fault fault)
  | .ok (model, bytes) =>
    if let some external := model.externalData then
      writeFile (Model.externalPath path external) bytes
    writeFile path model.toBytes

def load (files : FileTree) (path : String) : Except (Failure ModelError) Graph := do
  let bytes ← Model.readFile files path
  match Model.ofBytes? bytes with
  | none => throw (.error .undecodable)
  | some model =>
    if !model.isKnown then
      throw (.error (.format path model.format model.version))
    model.toGraph (← model.externalBytes files path)

end Graph

end OpGraph
