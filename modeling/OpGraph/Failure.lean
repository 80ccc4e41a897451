import OpGraph.Operator
import OpGraph.Provenance.Anchor

/-!
How an operation can fail. An error is an answer: the caller gets it and may go on. A fault is a
broken precondition, a mistake of the calling code; nothing goes on after it.
-/

namespace OpGraph

inductive GraphError where
  | unknownArg (name : String)
  | duplicateArg (name : String)
  | duplicateNode (name : String)
  /-- The arg already gets its value from somewhere else. -/
  | alreadyProduced (name producer : String)
  /-- A node reads an arg that gets its value from nowhere. -/
  | dangling (node input : String)
  /-- The nodes lie on a cycle or behind one. -/
  | cycle (nodes : List String)
  | tensor (error : TensorError)
deriving DecidableEq

def GraphError.message : GraphError → String
  | unknownArg name => "unknown node-arg '" ++ name ++ "'"
  | duplicateArg name => "node-arg '" ++ name ++ "' already exists"
  | duplicateNode name => "node '" ++ name ++ "' already exists"
  | alreadyProduced name producer =>
    "node-arg '" ++ name ++ "' is already produced by node '" ++ producer ++ "'"
  | dangling node input =>
    "node '" ++ node ++ "' reads '" ++ input ++
      "' which has no producer, graph input or initializer"
  | cycle nodes => "graph contains a cycle through nodes " ++ Text.quoteList nodes
  | tensor error => error.message

inductive DraftFlaw where
  | noOpType
  | tooManyInputs (key : OpKey) (most given : Nat)
  | missingOperand (key : OpKey) (slot : Nat)
  | deadInput (key : OpKey) (arg : ArgId)
  | deadAnchor (key : OpKey) (arg : ArgId)
  | badTranspose (key : OpKey) (order : List Int64) (rank : Option Nat)
  | shapeConflict (key : OpKey) (explicit anchored : Dims)
  | badOutput (slot : Nat) (name : String) (error : GraphError)
  | badNode (name : String) (error : GraphError)
deriving DecidableEq

/-- The text of a failed comparison, with both sides. -/
def comparisonText (message left right : String) : String :=
  "assertion `left == right` failed: " ++ message ++ "\n  left: " ++ left ++ "\n right: " ++ right

def DraftFlaw.message (pass : String) : DraftFlaw → String
  | noOpType => "pass '" ++ pass ++ "' built a node without op type"
  | tooManyInputs key most given =>
    "pass '" ++ pass ++ "': " ++ key.text ++ " takes at most " ++ toString most ++
      " inputs, got " ++ toString given
  | missingOperand key slot =>
    "pass '" ++ pass ++ "': required operand " ++ toString slot ++ " of " ++ key.text ++
      " is missing"
  | deadInput key arg =>
    "pass '" ++ pass ++ "': input " ++ arg.text ++ " of " ++ key.text ++ " is not live"
  | deadAnchor key arg =>
    "pass '" ++ pass ++ "': anchor " ++ arg.text ++ " of " ++ key.text ++ " is not live"
  | badTranspose key order rank =>
    let rank := match rank with
      | some n => "Some(" ++ toString n ++ ")"
      | none => "None"
    "pass '" ++ pass ++ "': transpose anchor " ++ Attr.intsText order ++ " of " ++ key.text ++
      " does not permute a rank " ++ rank ++ " tensor"
  | shapeConflict key explicit anchored =>
    comparisonText ("pass '" ++ pass ++ "': shape of " ++ key.text ++ " conflicts with its anchor")
      (Attr.intsText explicit) (Attr.intsText anchored)
  | badOutput slot name error =>
    "pass '" ++ pass ++ "': output " ++ toString slot ++ " of '" ++ name ++ "': " ++ error.message
  | badNode name error => "pass '" ++ pass ++ "': cannot add '" ++ name ++ "': " ++ error.message

/-- What is wrong with a request to a pattern builder. -/
inductive PatternFlaw where
  | unknownChild (child : PatternId) (size : Nat)
  | emptyAlternation
  | emptySequence
  | unknownPattern (id : PatternId)
  | nameTaken (name : String) (owner id : PatternId)
  | alreadyNamed (id : PatternId) (existing name : String)
  | rootOutside (root : PatternId) (size : Nat)
  /-- The stand-in for a handle that starts over after `2 ^ 32` entries. -/
  | tableFull
  /-- An entry does not precede the entry that refers to it. -/
  | notPreceding (id : PatternId)
deriving DecidableEq

def PatternFlaw.message : PatternFlaw → String
  | unknownChild child size =>
    "unknown child pattern " ++ child.text ++ " (builder has " ++ toString size ++ ")"
  | emptyAlternation => "empty alternation"
  | emptySequence => "empty sequence"
  | unknownPattern id => "unknown pattern " ++ id.text
  | nameTaken name owner id =>
    comparisonText ("pattern name '" ++ name ++ "' already used by " ++ owner.text)
      (toString owner.index) (toString id.index)
  | alreadyNamed id existing name =>
    comparisonText ("pattern " ++ id.text ++ " already named '" ++ existing ++ "'")
      (Text.quote existing) (Text.quote name)
  | rootOutside root size =>
    "pattern root " ++ root.text ++ " outside table of " ++ toString size ++ " entries"
  | tableFull => "pattern table is full"
  | notPreceding id => "pattern " ++ id.text ++ " does not precede its parent"

/-- A broken precondition. -/
inductive Fault where
  | staleNode (node : NodeId)
  | staleArg (arg : ArgId)
  | staleUses (old new : ArgId)
  | producedInitializer (name : String)
  | outOfRange (length index : Nat)
  | overflow (operation : Overflow)
  | producedTwice (arg first second : String)
  | producersDiffer (graph : String)
  | consumersDiffer (graph : String)
  | notAcyclic (graph : String) (error : GraphError)
  | draft (pass : String) (flaw : DraftFlaw)
  | noMetadata (kind : Anchor)
  | pattern (flaw : PatternFlaw)
  | budget (most : Nat) (chain rule node : String)
deriving DecidableEq

def Fault.message : Fault → String
  | staleNode node => "stale node handle " ++ node.text
  | staleArg arg => "stale arg handle " ++ arg.text
  | staleUses old new =>
    "stale arg handle in replace_all_uses(" ++ old.text ++ ", " ++ new.text ++ ")"
  | producedInitializer name => "cannot make produced arg " ++ name ++ " an initializer"
  | outOfRange length index =>
    "index out of bounds: the len is " ++ toString length ++ " but the index is " ++ toString index
  | overflow operation => operation.message
  | producedTwice arg first second =>
    "arg " ++ arg ++ " produced by both " ++ first ++ " and " ++ second
  | producersDiffer graph => "producer index out of sync in graph '" ++ graph ++ "'"
  | consumersDiffer graph => "consumer index out of sync in graph '" ++ graph ++ "'"
  | notAcyclic graph error => "graph '" ++ graph ++ "' is not a DAG: " ++ error.message
  | draft pass flaw => flaw.message pass
  | noMetadata kind => "set_anchor_point2 takes a metadata anchor, got " ++ kind.text
  | pattern flaw => flaw.message
  | budget most chain rule node =>
    "rewrite budget (" ++ toString most ++ ") exceeded in chain '" ++ chain ++ "': rule '" ++
      rule ++ "' still firing on node '" ++ node ++ "'; rules may be creating an infinite loop"

/-- A failed operation ends in an error of its own kind or in a fault. -/
inductive Failure (ε : Type) where
  | error (e : ε)
  | fault (f : Fault)
deriving DecidableEq

namespace Failure

variable {ε ε' α : Type}

/-- The same failure with the error seen from a caller. -/
def mapError (f : ε → ε') : Failure ε → Failure ε'
  | .error e => .error (f e)
  | .fault x => .fault x

/-- An operation that can only fail by a fault. -/
def ofFault : Except Fault α → Except (Failure ε) α
  | .ok a => .ok a
  | .error f => .error (.fault f)

/-- A calculation that must not overflow. -/
def ofOverflow : Except Overflow α → Except (Failure ε) α
  | .ok a => .ok a
  | .error o => .error (.fault (.overflow o))

end Failure

/-- Reports an overflow as a fault. -/
def Fault.ofOverflow {α : Type} : Except Overflow α → Except Fault α
  | .ok a => .ok a
  | .error o => .error (.overflow o)

end OpGraph
