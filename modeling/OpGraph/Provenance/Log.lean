import OpGraph.Provenance.Anchor

/-!
The provenance log: for every arg the events that were recorded on it, oldest first. An event may
name the arg from which the tensor derives; these links are followed to collect a whole history, and
may form cycles.
-/

namespace OpGraph

/--
One record on an arg: derived from `source` by `kind`, or only a remark if there is no source.
-/
structure Event where
  source : Option ArgId
  kind : Anchor
  pass : String
deriving DecidableEq

def Event.text (e : Event) : String :=
  match e.source with
  | some source => e.kind.text ++ " from " ++ source.text ++ " by " ++ e.pass
  | none => e.kind.text ++ " by " ++ e.pass

structure Log where
  entries : Std.ExtTreeMap ArgId (List Event)
deriving DecidableEq

namespace Log

def empty : Log := ⟨∅⟩

/-- The events recorded on an arg, oldest first. -/
def events (log : Log) (arg : ArgId) : List Event :=
  log.entries.getD arg []

def record (log : Log) (arg : ArgId) (event : Event) : Log :=
  ⟨log.entries.insert arg (log.events arg ++ [event])⟩

def annotate (log : Log) (arg : ArgId) (kind : Anchor) (pass : String) : Log :=
  log.record arg ⟨none, kind, pass⟩

def size (log : Log) : Nat :=
  log.entries.size

/-- The args that the events of an arg derive it from, in recorded order. -/
def sources (log : Log) (arg : ArgId) : List ArgId :=
  (log.events arg).filterMap Event.source

/-- What a walk through the log has collected so far. -/
structure Walk where
  seen : Std.ExtTreeSet ArgId
  lineage : Lineage

/--
Walks from an arg through its sources, ancestors first, and visits every arg once. The args on the
way down are distinct and all but the last have events, so `size + 1` levels are enough.
-/
def walk (log : Log) : Nat → ArgId → Walk → Walk
  | 0, _, w => w
  | fuel + 1, arg, w =>
    if arg ∈ w.seen then
      w
    else
      let sources := log.sources arg
      let w := sources.foldl (fun w source => walk log fuel source w)
        { w with seen := w.seen.insert arg }
      let origin := if sources.isEmpty then w.lineage.origin <|> some arg else w.lineage.origin
      { w with lineage := ⟨origin, w.lineage.steps ++ (log.events arg).map Event.kind⟩ }

/-- The full history of an arg: the events of all ancestors, then its own. -/
def chain (log : Log) (arg : ArgId) : Lineage :=
  let l := (walk log (log.size + 1) arg ⟨∅, ⟨none, []⟩⟩).lineage
  ⟨l.origin <|> some arg, l.steps⟩

/-- The root of an arg's history; an arg that was never anchored is its own root. -/
def origin (log : Log) (arg : ArgId) : ArgId :=
  (log.chain arg).origin.getD arg

/-- The latest fix-point in the history of an arg. -/
def fixPoint? (log : Log) (arg : ArgId) : Option Int64 :=
  (log.chain arg).fixPoint?

/-- Adds an arg and all its ancestors to a set. -/
def reach (log : Log) : Nat → ArgId → Std.ExtTreeSet ArgId → Std.ExtTreeSet ArgId
  | 0, _, seen => seen
  | fuel + 1, arg, seen =>
    if arg ∈ seen then
      seen
    else
      (log.sources arg).foldl (fun seen source => reach log fuel source seen) (seen.insert arg)

/-- The given args and all their ancestors. -/
def reachable (log : Log) (args : List ArgId) : Std.ExtTreeSet ArgId :=
  args.foldl (fun seen arg => reach log (log.size + 1) arg seen) ∅

/-- Keeps only the events of live args and of their ancestors. -/
def retainReachable (log : Log) (live : List ArgId) : Log :=
  let reachable := log.reachable live
  ⟨log.entries.filter fun arg _ => reachable.contains arg⟩

/-- The history of an arg and its own events, one a line. -/
def text (log : Log) (arg : ArgId) : String :=
  let lines := (log.events arg).zipIdx.map fun (e, i) => "\n  [" ++ toString i ++ "] " ++ e.text
  arg.text ++ ": " ++ (log.chain arg).text ++ String.join lines

end Log

end OpGraph
