import OpGraph.FileTree

/-!
Stores of named blobs. A store keeps its blobs in memory or as files below a directory.
-/

namespace OpGraph

structure Storage where
  files : FileTree
  blobs : Std.ExtTreeMap String Bytes
deriving DecidableEq

def Storage.empty : Storage := ⟨.empty, ∅⟩

inductive Store where
  | memory
  | directory (root : String)
deriving DecidableEq

namespace Store

def read (store : Store) (path : String) (s : Storage) : Except FileError (Option Bytes) :=
  match store with
  | memory => .ok s.blobs[path]?
  | directory root =>
    match s.files.read (Path.join root path) with
    | .ok bytes => .ok (some bytes)
    | .error .missing => .ok none
    | .error error => .error error

def changeFiles (change : FileTree → Except FileError FileTree) : EStateM FileError Storage Unit :=
  fun s =>
    match change s.files with
    | .ok files => .ok () { s with files := files }
    | .error error => .error error s

/-- Writes a blob; the directories on its way are made. -/
def write (store : Store) (path : String) (bytes : Bytes) : EStateM FileError Storage Unit :=
  match store with
  | memory => modify fun s => { s with blobs := s.blobs.insert path bytes }
  | directory root => do
    let path := Path.join root path
    changeFiles fun files => files.makeDirectories (Path.parent path)
    changeFiles fun files => files.write path bytes

end Store

end OpGraph
