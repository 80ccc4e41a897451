import OpGraph.Datum
import OpGraph.Text.Quoted

/-!
Writing JSON texts, in a compact form and in one with a line for every item.
-/

namespace OpGraph.Json

def escapeChar (c : Char) : String :=
  if c = '"' then "\\\""
  else if c = '\\' then "\\\\"
  else if c.toNat = 8 then "\\b"
  else if c.toNat = 12 then "\\f"
  else if c = '\n' then "\\n"
  else if c = '\r' then "\\r"
  else if c = '\t' then "\\t"
  else if c.toNat < 32 then "\\u" ++ Text.hexPadded 4 c.toNat
  else String.singleton c

def stringText (s : String) : String :=
  "\"" ++ String.join (s.toList.map escapeChar) ++ "\""

/-- Numbers in stored texts: positional from `0.000001` up to below `1e13`. -/
def numberLayout : Number.Layout := ⟨-6, 12, "+"⟩

/-- A number in single precision; what is not finite is written as `null`. -/
def floatText (v : Number.Value) : String :=
  ((Single.ofValue v).write? numberLayout).getD "null"

/-- Values without parts; the others have forms of their own. -/
def simpleText : Datum → String
  | .bool b => if b then "true" else "false"
  | .int n => toString n
  | .float v => floatText v
  | .text s => stringText s
  | _ => "null"

mutual

def compactText : Datum → String
  | .list items => "[" ++ ",".intercalate (compactItems items) ++ "]"
  | .record fields => "\x7b" ++ ",".intercalate (compactFields fields) ++ "\x7d"
  | d => simpleText d

def compactItems : List Datum → List String
  | [] => []
  | item :: rest => compactText item :: compactItems rest

def compactFields : List (Option String × Datum) → List String
  | [] => []
  | (key, value) :: rest =>
    (stringText (key.getD "") ++ ":" ++ compactText value) :: compactFields rest

end

/-- A line break and two blanks for every level. -/
def newLine (level : Nat) : String :=
  "\n" ++ String.ofList (List.replicate (2 * level) ' ')

/-- Items between two marks, each on a line of its own. -/
def block (level : Nat) (opening closing : String) (items : List String) : String :=
  if items.isEmpty then
    opening ++ closing
  else
    opening ++ newLine (level + 1) ++ ("," ++ newLine (level + 1)).intercalate items ++
      newLine level ++ closing

mutual

def prettyText (level : Nat) : Datum → String
  | .list items => block level "[" "]" (prettyItems (level + 1) items)
  | .record fields => block level "\x7b" "\x7d" (prettyFields (level + 1) fields)
  | d => simpleText d

def prettyItems (level : Nat) : List Datum → List String
  | [] => []
  | item :: rest => prettyText level item :: prettyItems level rest

def prettyFields (level : Nat) : List (Option String × Datum) → List String
  | [] => []
  | (key, value) :: rest =>
    (stringText (key.getD "") ++ ": " ++ prettyText level value) :: prettyFields level rest

end

end OpGraph.Json
