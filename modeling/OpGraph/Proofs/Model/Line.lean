import Mathlib.Tactic.MkIffOfInductiveProp
import OpGraph.Hash64
import OpGraph.Model.Basic
import OpGraph.Proofs.Text.Shown

/-!
The lines of a canonical text. If names contain none of the marks that a line is divided by, a line
tells what it shows of an arg, of the digest of an initializer or of a node.
-/

namespace OpGraph

open Text

def Text.dividers : List Char :=
  [' ', '\n', ':', ',', '=', '(', ')', '[', ']']

def Text.Plain (s : String) : Prop :=
  ∀ c ∈ s.toList, c ∉ dividers

instance (s : String) : Decidable (Plain s) :=
  List.decidableBAll (fun c => c ∉ dividers) s.toList

variable {rest rest' : List Char}

theorem Text.Plain.append_inj {s s' : String} (h : Plain s) (h' : Plain s') (marks : List Char)
    (hmarks : marks ⊆ dividers) (hrest : Follows marks rest) (hrest' : Follows marks rest')
    (heq : s.toList ++ rest = s'.toList ++ rest') : s = s' ∧ rest = rest' := by
  obtain ⟨hchars, hrests⟩ := append_inj_of_follows (fun c hc hmark => h c hc (hmarks hmark))
    (fun c hc hmark => h' c hc (hmarks hmark)) hrest hrest' heq
  exact ⟨String.toList_inj.mp hchars, hrests⟩

theorem Text.Plain.not_follows {s : String} (h : Plain s) {c : Char} {marks : List Char}
    (hmarks : marks ⊆ dividers) (hc : c ∉ marks) : ¬Follows marks (s.toList ++ c :: rest) := by
  intro hfollows
  cases hs : s.toList with
  | nil =>
    rw [hs] at hfollows
    exact hc (follows_cons.mp hfollows)
  | cons first others =>
    rw [hs] at hfollows
    exact h first (hs ▸ List.mem_cons_self) (hmarks (follows_cons.mp hfollows))

theorem OpKey.toList_text (key : OpKey) : key.text.toList =
    if key.domain = "" then key.opType.toList
    else key.domain.toList ++ (':' :: ':' :: key.opType.toList) := by
  rw [text]
  split
  · rfl
  · simp

theorem OpKey.text_append_inj {key key' : OpKey} (h : Plain key.domain ∧ Plain key.opType)
    (h' : Plain key'.domain ∧ Plain key'.opType) (hrest : Follows ['('] rest)
    (hrest' : Follows ['('] rest') (heq : key.text.toList ++ rest = key'.text.toList ++ rest') :
    key = key' ∧ rest = rest' := by
  have hwide : ∀ {rest : List Char}, Follows ['('] rest → Follows [':', '('] rest :=
    fun hrest c hc => List.mem_cons_of_mem _ (hrest c hc)
  -- A type alone is not followed by a colon.
  have halone : ∀ {s domain : String} {rest tail : List Char}, Plain s → Plain domain →
      Follows ['('] rest → s.toList ++ rest ≠ domain.toList ++ ':' :: tail := by
    intro s domain rest tail hs hdomain hrest heq
    obtain ⟨-, rfl⟩ := hs.append_inj hdomain [':', '('] (by decide) (hwide hrest) (by simp) heq
    exact absurd (follows_cons.mp hrest) (by decide)
  rw [toList_text, toList_text] at heq
  cases key with
  | mk domain opType =>
  cases key' with
  | mk domain' opType' =>
  split at heq <;> split at heq
  · next hempty hempty' =>
    obtain ⟨htype, hrests⟩ := h.2.append_inj h'.2 ['('] (by decide) hrest hrest' heq
    exact ⟨OpKey.mk.injEq .. ▸ ⟨hempty.trans hempty'.symm, htype⟩, hrests⟩
  · rw [List.append_assoc] at heq
    exact absurd heq (halone h.2 h'.1 hrest)
  · rw [List.append_assoc] at heq
    exact absurd heq.symm (halone h'.2 h.1 hrest')
  · simp only [List.append_assoc, List.cons_append] at heq
    obtain ⟨hdomain, heq⟩ := h.1.append_inj h'.1 [':'] (by decide) (by simp) (by simp) heq
    simp only [List.cons.injEq, true_and] at heq
    obtain ⟨htype, hrests⟩ := h.2.append_inj h'.2 ['('] (by decide) hrest hrest' heq
    exact ⟨OpKey.mk.injEq .. ▸ ⟨hdomain, htype⟩, hrests⟩

/-! ### Args -/

namespace ModelArg

def text (arg : ModelArg) : String :=
  arg.name ++ ": " ++ arg.type.text

def shown (arg : ModelArg) : ModelArg :=
  ⟨arg.name, arg.type.shown⟩

variable {arg arg' : ModelArg}

theorem text_append_inj (h : Plain arg.name) (h' : Plain arg'.name)
    (heq : arg.text.toList ++ rest = arg'.text.toList ++ rest') :
    arg.shown = arg'.shown ∧ rest = rest' := by
  simp only [text, String.toList_append, List.append_assoc] at heq
  obtain ⟨hname, heq⟩ := h.append_inj h' [':'] (by decide) (by simp) (by simp) heq
  obtain ⟨htype, hrests⟩ := TensorType.text_append_inj (List.append_cancel_left heq)
  exact ⟨by rw [shown, shown, hname, htype], hrests⟩

theorem text_shown (arg : ModelArg) : arg.shown.text = arg.text := by
  rw [text, text, shown, TensorType.text_shown]

end ModelArg

/-! ### Slots -/

def ModelArg.slotText : Option ModelArg → String
  | none => "_"
  | some arg => arg.text

def SlotPlain (slot : Option ModelArg) : Prop :=
  ∀ arg ∈ slot, Plain arg.name

instance (slot : Option ModelArg) : Decidable (SlotPlain slot) :=
  Option.decidableForallMem slot

theorem slots_tell : Tells SlotPlain [',', ')'] (fun slot => (ModelArg.slotText slot).toList)
    (Option.map ModelArg.shown) := by
  -- An underscore alone is not followed by a colon.
  have halone : ∀ {arg : ModelArg} {rest rest' : List Char}, Plain arg.name →
      Follows [',', ')'] rest → "_".toList ++ rest ≠ arg.text.toList ++ rest' := by
    intro arg rest rest' harg hrest heq
    have hunderscore : Plain "_" := by decide
    simp only [ModelArg.text, String.toList_append, List.append_assoc] at heq
    obtain ⟨-, rfl⟩ := hunderscore.append_inj harg [':', ',', ')'] (by decide)
      (fun c hc => List.mem_cons_of_mem _ (hrest c hc)) (by simp) heq
    exact absurd (follows_cons.mp hrest) (by decide)
  intro slot slot' rest rest' h h' hrest hrest' heq
  cases slot with
  | none =>
    cases slot' with
    | none => exact ⟨rfl, List.append_cancel_left heq⟩
    | some arg' => exact absurd heq (halone (h' arg' rfl) hrest)
  | some arg =>
    cases slot' with
    | none => exact absurd heq.symm (halone (h arg rfl) hrest')
    | some arg' =>
      obtain ⟨hshown, hrests⟩ := ModelArg.text_append_inj (h arg rfl) (h' arg' rfl) heq
      exact ⟨congrArg some hshown, hrests⟩

theorem slotTexts_tell : Tells (fun slots => ∀ slot ∈ slots, SlotPlain slot) [')']
    (joined [',', ' '] fun slot => (ModelArg.slotText slot).toList)
    (List.map (Option.map ModelArg.shown)) := by
  refine slots_tell.joined (by decide) ?_
  intro slot h rest
  cases slot with
  | none => exact fun hfollows => absurd (follows_cons.mp hfollows) (by decide)
  | some arg =>
    simp only [ModelArg.slotText, ModelArg.text, String.toList_append, List.append_assoc]
    exact (h arg rfl).not_follows (by decide) (by decide)

theorem ModelArg.slotText_shown (slot : Option ModelArg) :
    ModelArg.slotText (slot.map ModelArg.shown) = ModelArg.slotText slot := by
  cases slot with
  | none => rfl
  | some arg => exact arg.text_shown

/-! ### Nodes -/

def Attr.entryText (entry : String × Attr) : String :=
  entry.1 ++ "=" ++ entry.2.text

theorem entries_tell :
    Tells (fun entries : List (String × Attr) => ∀ entry ∈ entries, Plain entry.1)
    [']'] (joined [',', ' '] fun entry => (Attr.entryText entry).toList)
    (List.map fun entry => (entry.1, entry.2.shown)) := by
  have hentry : Tells (fun entry : String × Attr => Plain entry.1) [',', ']']
      (fun entry => (Attr.entryText entry).toList) fun entry => (entry.1, entry.2.shown) := by
    intro entry entry' rest rest' h h' hrest hrest' heq
    simp only [Attr.entryText, String.toList_append, List.append_assoc] at heq
    obtain ⟨hname, heq⟩ := h.append_inj h' ['='] (by decide) (by simp) (by simp) heq
    obtain ⟨hvalue, hrests⟩ := Attr.tells trivial trivial hrest hrest' (List.append_cancel_left heq)
    exact ⟨Prod.ext hname hvalue, hrests⟩
  refine hentry.joined (by decide) ?_
  intro entry h rest
  simp only [Attr.entryText, String.toList_append, List.append_assoc]
  exact h.not_follows (by decide) (by decide)

structure NodeContent where
  name : String
  key : OpKey
  inputs : List (Option ModelArg)
  outputs : List (Option ModelArg)
  attrs : Attrs
deriving DecidableEq

namespace NodeContent

@[mk_iff]
structure Plain (node : NodeContent) : Prop where
  name : Text.Plain node.name
  key : Text.Plain node.key.domain ∧ Text.Plain node.key.opType
  inputs : ∀ slot ∈ node.inputs, SlotPlain slot
  outputs : ∀ slot ∈ node.outputs, SlotPlain slot
  attrs : ∀ entry ∈ node.attrs.toList, Text.Plain entry.1

instance (node : NodeContent) : Decidable node.Plain :=
  decidable_of_iff' _ node.plain_iff

def shown (node : NodeContent) : NodeContent :=
  ⟨node.name, node.key, node.inputs.map (Option.map ModelArg.shown),
    node.outputs.map (Option.map ModelArg.shown), node.attrs.map fun _ value => value.shown⟩

def text (node : NodeContent) : String :=
  node.name ++ " " ++ node.key.text ++ "(" ++
    ", ".intercalate (node.inputs.map ModelArg.slotText) ++ ") -> (" ++
    ", ".intercalate (node.outputs.map ModelArg.slotText) ++ ") [" ++
    ", ".intercalate (node.attrs.toList.map Attr.entryText) ++ "]"

theorem text_append_inj {node node' : NodeContent} (h : node.Plain) (h' : node'.Plain)
    (heq : node.text.toList ++ rest = node'.text.toList ++ rest') :
    node.shown = node'.shown ∧ rest = rest' := by
  have hjoined : ∀ {α : Type} (write : α → String) (items : List α),
      (", ".intercalate (items.map write)).toList =
        joined [',', ' '] (fun a => (write a).toList) items := by
    intro α write items
    rw [String.toList_intercalate, joined, List.map_map]
    rfl
  simp only [text, String.toList_append, List.append_assoc, hjoined] at heq
  obtain ⟨hname, heq⟩ := h.name.append_inj h'.name [' '] (by decide) (by simp) (by simp) heq
  obtain ⟨hkey, heq⟩ := OpKey.text_append_inj h.key h'.key (by simp) (by simp)
    (List.append_cancel_left heq)
  obtain ⟨hinputs, heq⟩ := slotTexts_tell h.inputs h'.inputs (by simp) (by simp)
    (List.append_cancel_left heq)
  obtain ⟨houtputs, heq⟩ := slotTexts_tell h.outputs h'.outputs (by simp) (by simp)
    (List.append_cancel_left heq)
  obtain ⟨hentries, heq⟩ := entries_tell h.attrs h'.attrs (by simp) (by simp)
    (List.append_cancel_left heq)
  have hattrs : (node.attrs.map fun _ value => value.shown) =
      node'.attrs.map fun _ value => value.shown := by
    rw [← Std.ExtTreeMap.toList_inj, Std.ExtTreeMap.toList_map, Std.ExtTreeMap.toList_map]
    exact hentries
  exact ⟨by rw [shown, shown, hname, hkey, hinputs, houtputs, hattrs], List.append_cancel_left heq⟩

theorem text_shown (node : NodeContent) : node.shown.text = node.text := by
  have hslots : ∀ slots : List (Option ModelArg),
      (slots.map (Option.map ModelArg.shown)).map ModelArg.slotText =
        slots.map ModelArg.slotText := by
    intro slots
    rw [List.map_map]
    exact List.map_congr_left fun slot _ => ModelArg.slotText_shown slot
  have hentries :
      node.shown.attrs.toList.map Attr.entryText = node.attrs.toList.map Attr.entryText := by
    rw [shown, Std.ExtTreeMap.toList_map, List.map_map]
    exact List.map_congr_left fun entry _ => congrArg (entry.1 ++ "=" ++ ·) entry.2.text_shown
  rw [text, text, hentries, shown, hslots, hslots]

end NodeContent

/-! ### Lines -/

inductive Line where
  | input (arg : ModelArg)
  | output (arg : ModelArg)
  | initializer (arg : ModelArg) (digest : UInt64)
  | node (content : NodeContent)

namespace Line

def text : Line → String
  | input arg => "input " ++ arg.text
  | output arg => "output " ++ arg.text
  | initializer arg digest => "initializer " ++ arg.text ++ " #" ++ hexPadded 16 digest.toNat
  | node content => "node " ++ content.text

def shown : Line → Line
  | input arg => input arg.shown
  | output arg => output arg.shown
  | initializer arg digest => initializer arg.shown digest
  | node content => node content.shown

def Plain : Line → Prop
  | input arg | output arg | initializer arg _ => Text.Plain arg.name
  | node content => content.Plain

theorem tells : Tells Plain ['\n'] (fun line => line.text.toList) shown := by
  intro line line' rest rest' h h' hrest hrest' heq
  cases line with
  | input arg =>
    cases line' with
    | input arg' =>
      simp only [text, String.toList_append, List.append_assoc] at heq
      obtain ⟨harg, hrests⟩ := ModelArg.text_append_inj h h' (List.append_cancel_left heq)
      exact ⟨congrArg input harg, hrests⟩
    | _ => simp [text] at heq
  | output arg =>
    cases line' with
    | output arg' =>
      simp only [text, String.toList_append, List.append_assoc] at heq
      obtain ⟨harg, hrests⟩ := ModelArg.text_append_inj h h' (List.append_cancel_left heq)
      exact ⟨congrArg output harg, hrests⟩
    | _ => simp [text] at heq
  | initializer arg digest =>
    cases line' with
    | initializer arg' digest' =>
      simp only [text, String.toList_append, List.append_assoc] at heq
      obtain ⟨harg, heq⟩ := ModelArg.text_append_inj h h' (List.append_cancel_left heq)
      have hmarks : (['\n'].all fun c => !isTokenChar c) = true := by decide
      obtain ⟨hdigits, hrests⟩ := (token_hexPadded 16 _).append_inj (token_hexPadded 16 _) hmarks
        hrest hrest' (List.append_cancel_left heq)
      have hdigest := UInt64.toNat_inj.mp (hexPadded_injective (String.toList_inj.mp hdigits))
      exact ⟨by rw [shown, shown, harg, hdigest], hrests⟩
    | _ => simp [text] at heq
  | node content =>
    cases line' with
    | node content' =>
      simp only [text, String.toList_append, List.append_assoc] at heq
      obtain ⟨hnode, hrests⟩ := NodeContent.text_append_inj h h' (List.append_cancel_left heq)
      exact ⟨congrArg node hnode, hrests⟩
    | _ => simp [text] at heq

end Line

end OpGraph
