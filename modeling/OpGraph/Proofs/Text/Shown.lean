import OpGraph.Attr
import OpGraph.Proofs.Text.Tells

/-!
What texts show of types and attributes. An extent below zero is a question mark, and so is an
unknown shape; of an attribute that holds a tensor only the type is written, and an empty list does
not say of what. Texts show everything else: they are equal iff the shown forms are.
-/

namespace OpGraph

open Number Text

/-! ### Types -/

theorem Elem.ofName?_name (e : Elem) : ofName? e.name = some e := by
  cases e <;> decide

theorem Elem.name_ne_nil (e : Elem) : e.name.toList ≠ [] := by
  cases e <;> decide

theorem Elem.token_name (e : Elem) : Token e.name.toList := by
  cases e <;> simp [Token, name, isTokenChar]

namespace TensorType

def shownExtent (d : Int64) : Int64 :=
  if d < 0 then -1 else d

/-- The extents that are written; an unknown shape is written as one unknown extent. -/
def axes (ty : TensorType) : Dims :=
  (ty.shape.getD [-1]).map shownExtent

def shown (ty : TensorType) : TensorType :=
  ⟨ty.elem, if ty.axes = [-1] then none else some ty.axes⟩

variable {ty ty' : TensorType}

theorem shown_eq_iff : ty.shown = ty'.shown ↔ ty.elem = ty'.elem ∧ ty.axes = ty'.axes := by
  rw [shown, shown, TensorType.mk.injEq]
  constructor
  · rintro ⟨helem, haxes⟩
    refine ⟨helem, ?_⟩
    split at haxes <;> split at haxes <;> simp_all
  · rintro ⟨helem, haxes⟩
    exact ⟨helem, by rw [haxes]⟩

theorem axes_axes (elem : Elem) : axes ⟨elem, some ty.axes⟩ = ty.axes := by
  have hidem : ∀ d : Int64, shownExtent (shownExtent d) = shownExtent d := by
    intro d
    by_cases h : d < 0
    · rw [show shownExtent d = -1 from if_pos h]
      decide
    · rw [show shownExtent d = d from if_neg h]
      exact if_neg h
  rw [axes, axes, Option.getD_some, List.map_map]
  exact List.map_congr_left fun d _ => hidem d

theorem extentText_shownExtent (d : Int64) : extentText (shownExtent d) = extentText d := by
  rw [shownExtent]
  split
  · next h => rw [extentText, extentText, if_pos h, if_pos (by decide)]
  · rfl

theorem toList_extentText (d : Int64) :
    (extentText d).toList = if d < 0 then ['?'] else integerText d.toInt := by
  rw [extentText]
  split
  · rfl
  · exact toList_toString_int _

theorem token_extentText (d : Int64) : Token (extentText d).toList := by
  rw [toList_extentText]
  split
  · simp [Token, isTokenChar]
  · exact token_integerText _

theorem extentText_ne_nil (d : Int64) : (extentText d).toList ≠ [] := by
  rw [toList_extentText]
  split
  · exact List.cons_ne_nil _ _
  · exact integerText_ne_nil _

theorem shownExtent_of_extentText {d d' : Int64}
    (heq : (extentText d).toList = (extentText d').toList) : shownExtent d = shownExtent d' := by
  have hmark : ∀ n : Int, ['?'] ≠ integerText n := by
    intro n h
    have hc := integerText_chars (h ▸ List.mem_singleton_self '?')
    revert hc
    decide
  rw [toList_extentText, toList_extentText] at heq
  rw [shownExtent, shownExtent]
  split at heq <;> split at heq
  · next hd hd' => rw [if_pos hd, if_pos hd']
  · exact absurd heq (hmark _)
  · exact absurd heq.symm (hmark _)
  · next hd hd' =>
    rw [if_neg hd, if_neg hd']
    exact Int64.toInt_inj.mp (integerText_injective heq)

theorem extents_tell : Tells (fun dims : Dims => ∀ d ∈ dims, True) [']']
    (joined [','] fun d => (extentText d).toList) (List.map shownExtent) := by
  have htells : Tells (fun _ : Int64 => True) [',', ']'] (fun d => (extentText d).toList)
      shownExtent :=
    tells_of_injective (fun d _ => (token_extentText d).unmarked (by decide))
      fun _ _ _ _ => shownExtent_of_extentText
  refine htells.joined (by decide) ?_
  intro d _ rest hfollows
  obtain ⟨first, others, hfirst⟩ := List.exists_cons_of_ne_nil (extentText_ne_nil d)
  rw [hfirst, List.cons_append, follows_cons] at hfollows
  have htoken := token_extentText d
  rw [hfirst] at htoken
  exact htoken.unmarked (by decide) first List.mem_cons_self hfollows

theorem toList_text (ty : TensorType) : ty.text.toList = ty.elem.name.toList ++
    '[' :: (joined [','] (fun d => (extentText d).toList) (ty.shape.getD [-1]) ++ [']']) := by
  rw [text]
  split
  · next h => simp [h, joined, extentText]
  · next dims h => simp [h, joined, String.toList_intercalate, Function.comp_def]

theorem text_append_inj {rest rest' : List Char}
    (heq : ty.text.toList ++ rest = ty'.text.toList ++ rest') :
    ty.shown = ty'.shown ∧ rest = rest' := by
  rw [toList_text, toList_text] at heq
  simp only [List.append_assoc, List.cons_append] at heq
  have hbracket : (['['].all fun c => !isTokenChar c) = true := by decide
  obtain ⟨hnames, heq⟩ :=
    ty.elem.token_name.append_inj ty'.elem.token_name hbracket (by simp) (by simp) heq
  obtain ⟨haxes, heq⟩ := extents_tell (by simp) (by simp) (by simp) (by simp) (List.cons.inj heq).2
  have helem : some ty.elem = some ty'.elem := by
    rw [← Elem.ofName?_name, String.toList_inj.mp hnames, Elem.ofName?_name]
  exact ⟨shown_eq_iff.mpr ⟨Option.some.inj helem, haxes⟩, (List.cons.inj heq).2⟩

theorem text_eq_of_axes (helem : ty.elem = ty'.elem) (haxes : ty.axes = ty'.axes) :
    ty.text = ty'.text := by
  have hwritten : ∀ ty : TensorType,
      joined [','] (fun d => (extentText d).toList) (ty.shape.getD [-1]) =
        joined [','] (fun d => (extentText d).toList) ty.axes := by
    intro ty
    rw [joined, joined, axes, List.map_map]
    exact congrArg _ (List.map_congr_left fun d _ => by rw [Function.comp, extentText_shownExtent])
  rw [← String.toList_inj, toList_text, toList_text, hwritten ty, hwritten ty', helem, haxes]

theorem text_shown (ty : TensorType) : ty.shown.text = ty.text := by
  have haxes : ty.shown.axes = ty.axes := by
    rw [shown]
    split
    · next h => exact h.symm
    · exact axes_axes _
  have helem : ty.shown.elem = ty.elem := rfl
  exact text_eq_of_axes helem haxes

end TensorType

/-! ### Attributes -/

def Payload.empty (elem : Elem) : Payload :=
  (ofBytes? elem []).getD (uint8 [])

theorem Payload.elem_empty (data : Payload) : (Payload.empty data.elem).elem = data.elem := by
  cases data <;> rfl

namespace Attr

def shown : Attr → Attr
  | int v => int v
  | float v => float v.shown
  | string v => string v
  | ints v => ints v
  | floats v => if v = [] then ints [] else floats (v.map Single.shown)
  | strings v => if v = [] then ints [] else strings v
  | tensor v => tensor ⟨v.type.axes, .empty v.elem⟩

def chars (a : Attr) : List Char :=
  a.text.toList

def isScalar : Attr → Bool
  | int _ | float _ | string _ => true
  | _ => false

def isList : Attr → Bool
  | ints _ | floats _ | strings _ => true
  | _ => false

def items : Attr → List Attr
  | ints v => v.map int
  | floats v => v.map float
  | strings v => v.map string
  | _ => []

theorem toList_bracketed (texts : List String) :
    (bracketed texts).toList =
      '[' :: ([',', ' '].intercalate (texts.map String.toList) ++ [']']) := by
  simp [bracketed, String.toList_intercalate]

theorem chars_of_isList {a : Attr} (ha : a.isList = true) :
    a.chars = '[' :: (joined [',', ' '] chars a.items ++ [']']) := by
  cases a with
  | ints v =>
    rw [chars, text, intsText, toList_bracketed, joined, items, List.map_map, List.map_map]
    rfl
  | floats v =>
    rw [chars, text, toList_bracketed, joined, items, List.map_map, List.map_map]
    rfl
  | strings v =>
    rw [chars, text, quoteList, toList_bracketed, joined, items, List.map_map, List.map_map]
    rfl
  | _ => cases ha

def lead : Attr → List Char
  | int v => integerText v.toInt
  | float v => v.text.toList
  | tensor v => v.elem.name.toList
  | _ => []

def opening : Attr → Option Char
  | int _ | float _ => none
  | string _ => some '"'
  | _ => some '['

theorem opening_mem {a : Attr} {c : Char} (hc : a.opening = some c) : c ∈ ['"', '['] := by
  cases a <;> cases hc <;> decide

theorem exists_tail (a : Attr) :
    ∃ tail, a.chars = a.lead ++ tail ∧ tail.head? = a.opening := by
  cases a with
  | int v => exact ⟨[], by rw [chars, text, toList_toString_int, lead, List.append_nil], rfl⟩
  | float v => exact ⟨[], (List.append_nil _).symm, rfl⟩
  | string v => exact ⟨_, toList_quote v, rfl⟩
  | ints v => exact ⟨_, chars_of_isList rfl, rfl⟩
  | floats v => exact ⟨_, chars_of_isList rfl, rfl⟩
  | strings v => exact ⟨_, chars_of_isList rfl, rfl⟩
  | tensor v => exact ⟨_, v.type.toList_text, rfl⟩

theorem token_lead (a : Attr) : Token a.lead := by
  cases a with
  | int v => exact token_integerText _
  | float v => exact token_single v
  | tensor v => exact v.elem.token_name
  | _ => exact nofun

theorem lead_eq {a a' : Attr} {rest rest' : List Char} (hrest : Follows [',', ']'] rest)
    (hrest' : Follows [',', ']'] rest') (heq : a.chars ++ rest = a'.chars ++ rest') :
    a.lead = a'.lead ∧ a.opening = a'.opening := by
  obtain ⟨tail, hchars, hhead⟩ := a.exists_tail
  obtain ⟨tail', hchars', hhead'⟩ := a'.exists_tail
  have hfollows : ∀ {a : Attr} {tail rest : List Char}, tail.head? = a.opening →
      Follows [',', ']'] rest → Follows [',', ']', '"', '['] (tail ++ rest) := by
    intro a tail rest hhead hrest c hc
    rw [List.head?_append, hhead, Option.mem_def, Option.or_eq_some_iff] at hc
    rcases hc with hc | ⟨-, hc⟩
    · exact List.mem_append_right [',', ']'] (opening_mem hc)
    · exact List.mem_append_left ['"', '['] (hrest c hc)
  rw [hchars, hchars', List.append_assoc, List.append_assoc] at heq
  obtain ⟨hlead, htail⟩ := a.token_lead.append_inj a'.token_lead (by decide)
    (hfollows hhead hrest) (hfollows hhead' hrest') heq
  refine ⟨hlead, ?_⟩
  have hheads := congrArg List.head? htail
  rw [List.head?_append, List.head?_append, hhead, hhead'] at hheads
  have hdisjoint : ∀ c ∈ ['"', '['], c ∉ [',', ']'] := by simp
  cases hopen : a.opening with
  | none =>
    cases hopen' : a'.opening with
    | none => rfl
    | some c =>
      rw [hopen, hopen', Option.none_or, Option.some_or] at hheads
      exact absurd (hrest c hheads) (hdisjoint c (opening_mem hopen'))
  | some c =>
    cases hopen' : a'.opening with
    | none =>
      rw [hopen, hopen', Option.none_or, Option.some_or] at hheads
      exact absurd (hrest' c hheads.symm) (hdisjoint c (opening_mem hopen))
    | some c' =>
      rw [hopen, hopen', Option.some_or, Option.some_or] at hheads
      exact hheads

theorem scalars_tell : Tells (fun a : Attr => a.isScalar = true) [',', ']'] chars shown := by
  intro a a' rest rest' ha ha' hrest hrest' heq
  obtain ⟨hlead, hopen⟩ := lead_eq hrest hrest' heq
  cases a with
  | int v =>
    cases a' with
    | int v' =>
      obtain rfl := Int64.toInt_inj.mp (integerText_injective hlead)
      exact ⟨rfl, List.append_cancel_left heq⟩
    | float v' => exact absurd hlead.symm (single_ne_integerText _ _)
    | string v' => cases hopen
    | _ => cases ha'
  | float v =>
    cases a' with
    | int v' => exact absurd hlead (single_ne_integerText _ _)
    | float v' =>
      have htext := String.toList_inj.mp hlead
      rw [chars, chars, text, text, htext] at heq
      exact ⟨congrArg float (Single.text_eq_iff.mp htext), List.append_cancel_left heq⟩
    | string v' => cases hopen
    | _ => cases ha'
  | string v =>
    cases a' with
    | int v' => cases hopen
    | float v' => cases hopen
    | string v' =>
      obtain ⟨rfl, hrests⟩ := quote_append_inj heq
      exact ⟨rfl, hrests⟩
    | _ => cases ha'
  | _ => cases ha

theorem exists_first (a : Attr) : ∃ first rest, a.chars = first :: rest ∧ first ≠ ']' := by
  obtain ⟨tail, hchars, hhead⟩ := a.exists_tail
  have hopening : a.lead = [] → a.opening ≠ none := by
    cases a with
    | int v => exact fun h => absurd h (integerText_ne_nil _)
    | float v => exact fun h => absurd h (single_ne_nil v)
    | _ => exact fun _ => nofun
  cases hlead : a.lead with
  | nil =>
    obtain ⟨first, hfirst⟩ := Option.ne_none_iff_exists'.mp (hopening hlead)
    obtain ⟨others, rfl⟩ := List.head?_eq_some_iff.mp (hhead.trans hfirst)
    refine ⟨first, others, by rw [hchars, hlead, List.nil_append], ?_⟩
    rintro rfl
    exact absurd (opening_mem hfirst) (by decide)
  | cons first others =>
    refine ⟨first, others ++ tail, by rw [hchars, hlead, List.cons_append], ?_⟩
    have hunmarked : ∀ c ∈ a.lead, c ∉ [']'] := a.token_lead.unmarked (by decide)
    rw [hlead] at hunmarked
    exact fun h => hunmarked first List.mem_cons_self (List.mem_singleton.mpr h)

theorem items_tell : Tells (fun items : List Attr => ∀ a ∈ items, a.isScalar = true) [']']
    (joined [',', ' '] chars) (List.map shown) := by
  refine scalars_tell.joined (by decide) ?_
  intro a ha rest hfollows
  obtain ⟨first, others, hchars, hfirst⟩ := a.exists_first
  rw [hchars, List.cons_append, follows_cons, List.mem_singleton] at hfollows
  exact hfirst hfollows

theorem isScalar_of_mem_items {a : Attr} : ∀ item ∈ a.items, item.isScalar = true := by
  intro item hitem
  cases a with
  | ints v =>
    obtain ⟨x, -, rfl⟩ := List.mem_map.mp hitem
    rfl
  | floats v =>
    obtain ⟨x, -, rfl⟩ := List.mem_map.mp hitem
    rfl
  | strings v =>
    obtain ⟨x, -, rfl⟩ := List.mem_map.mp hitem
    rfl
  | _ => cases hitem

def ofItems (items : List Attr) : Attr :=
  match items.head? with
  | some (float _) => floats (items.filterMap float?)
  | some (string _) => strings (items.filterMap string?)
  | _ => ints (items.filterMap int?)

theorem shown_eq_ofItems {a : Attr} (ha : a.isList = true) :
    a.shown = ofItems (a.items.map shown) := by
  cases a with
  | ints v =>
    cases v with
    | nil => rfl
    | cons x v => simp [shown, items, ofItems, int?, Function.comp_def]
  | floats v =>
    cases v with
    | nil => rfl
    | cons x v => simp [shown, items, ofItems, float?, Function.comp_def]
  | strings v =>
    cases v with
    | nil => rfl
    | cons x v => simp [shown, items, ofItems, string?, Function.comp_def]
  | _ => cases ha

theorem isScalar_eq (a : Attr) : a.isScalar = (a.opening != some '[') := by
  cases a <;> rfl

theorem isList_iff (a : Attr) : a.isList = true ↔ a.lead = [] ∧ a.opening = some '[' := by
  cases a with
  | tensor v => exact ⟨nofun, fun h => absurd h.1 v.elem.name_ne_nil⟩
  | _ => simp [isList, lead, opening]

theorem tells : Tells (fun _ : Attr => True) [',', ']'] chars shown := by
  intro a a' rest rest' _ _ hrest hrest' heq
  obtain ⟨hlead, hopen⟩ := lead_eq hrest hrest' heq
  have hscalar : a.isScalar = a'.isScalar := by
    rw [isScalar_eq, isScalar_eq, hopen]
  have hlist : a.isList = a'.isList := by
    rw [Bool.eq_iff_iff, isList_iff, isList_iff, hlead, hopen]
  cases ha : a.isScalar with
  | true => exact scalars_tell ha (hscalar.symm.trans ha) hrest hrest' heq
  | false =>
    have ha' := hscalar.symm.trans ha
    cases hitems : a.isList with
    | true =>
      have hitems' := hlist.symm.trans hitems
      rw [chars_of_isList hitems, chars_of_isList hitems'] at heq
      simp only [List.cons_append, List.append_assoc, List.cons.injEq, true_and] at heq
      obtain ⟨hshown, heq⟩ := items_tell isScalar_of_mem_items isScalar_of_mem_items (by simp)
        (by simp) heq
      rw [shown_eq_ofItems hitems, shown_eq_ofItems hitems', hshown]
      exact ⟨rfl, (List.cons.inj heq).2⟩
    | false =>
      have hitems' := hlist.symm.trans hitems
      cases a with
      | tensor v =>
        cases a' with
        | tensor v' =>
          obtain ⟨hshown, hrests⟩ := TensorType.text_append_inj heq
          obtain ⟨helem, haxes⟩ := TensorType.shown_eq_iff.mp hshown
          refine ⟨?_, hrests⟩
          rw [shown, shown, haxes, show v.elem = v'.elem from helem]
        | int | float | string => cases ha'
        | ints | floats | strings => cases hitems'
      | int | float | string => cases ha
      | ints | floats | strings => cases hitems

theorem text_shown (a : Attr) : a.shown.text = a.text := by
  cases a with
  | float v => exact v.text_shown
  | floats v =>
    rw [shown]
    split
    · next h => rw [h]; rfl
    · rw [text, text, List.map_map]
      exact congrArg bracketed (List.map_congr_left fun x _ => x.text_shown)
  | strings v =>
    rw [shown]
    split
    · next h => rw [h]; rfl
    · rfl
  | tensor v =>
    have hshown : (Tensor.mk v.type.axes (.empty v.elem)).type.text = v.type.text :=
      TensorType.text_eq_of_axes v.data.elem_empty (TensorType.axes_axes _)
    exact hshown
  | _ => rfl

end Attr

end OpGraph
