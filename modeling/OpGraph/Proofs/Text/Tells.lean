import Mathlib.Data.List.Basic
import OpGraph.Proofs.Number.Layout
import OpGraph.Text.Hex
import OpGraph.Text.Quoted

/-!
Texts that can be taken apart again. A part tells what it shows if no text that begins with it can
be read in another way, as long as the part is followed by one of its marks or by the end. Parts
that contain none of their marks tell what they show, and so do lists of parts and quoted texts.
-/

namespace OpGraph.Text

open Number

variable {α β : Type} {P : α → Prop} {marks : List Char} {write : α → List Char} {shown : α → β}

def Follows (marks rest : List Char) : Prop :=
  ∀ c ∈ rest.head?, c ∈ marks

/-- In front of a mark or the end, parts are written alike only if they show the same. -/
def Tells (P : α → Prop) (marks : List Char) (write : α → List Char) (shown : α → β) : Prop :=
  ∀ ⦃a a' : α⦄ ⦃rest rest' : List Char⦄, P a → P a' → Follows marks rest → Follows marks rest' →
    write a ++ rest = write a' ++ rest' → shown a = shown a' ∧ rest = rest'

@[simp]
theorem follows_nil (marks : List Char) : Follows marks [] := nofun

@[simp]
theorem follows_cons {c : Char} {rest : List Char} : Follows marks (c :: rest) ↔ c ∈ marks := by
  simp [Follows]

theorem takeWhile_append_of_follows {chars rest : List Char} (hchars : ∀ c ∈ chars, c ∉ marks)
    (hrest : Follows marks rest) : (chars ++ rest).takeWhile (· ∉ marks) = chars := by
  rw [List.takeWhile_append_of_pos (by simpa using hchars)]
  cases rest with
  | nil => simp
  | cons c rest => simp [follows_cons.mp hrest]

theorem append_inj_of_follows {chars chars' rest rest' : List Char}
    (hchars : ∀ c ∈ chars, c ∉ marks)
    (hchars' : ∀ c ∈ chars', c ∉ marks) (hrest : Follows marks rest) (hrest' : Follows marks rest')
    (heq : chars ++ rest = chars' ++ rest') : chars = chars' ∧ rest = rest' := by
  have hsame := congrArg (List.takeWhile (· ∉ marks)) heq
  rw [takeWhile_append_of_follows hchars hrest, takeWhile_append_of_follows hchars' hrest'] at hsame
  subst hsame
  exact ⟨rfl, List.append_cancel_left heq⟩

theorem tells_of_injective (hmarks : ∀ a, P a → ∀ c ∈ write a, c ∉ marks)
    (hinjective : ∀ a a', P a → P a' → write a = write a' → shown a = shown a') :
    Tells P marks write shown := by
  intro a a' rest rest' ha ha' hrest hrest' heq
  obtain ⟨hwrite, hrests⟩ := append_inj_of_follows (hmarks a ha) (hmarks a' ha') hrest hrest' heq
  exact ⟨hinjective a a' ha ha' hwrite, hrests⟩

/-! ### Lists -/

def behind (sep : List Char) (write : α → List Char) (items : List α) : List Char :=
  items.flatMap fun a => sep ++ write a

def joined (sep : List Char) (write : α → List Char) (items : List α) : List Char :=
  sep.intercalate (items.map write)

theorem behind_cons (sep : List Char) (write : α → List Char) (a : α) (items : List α) :
    behind sep write (a :: items) = sep ++ (write a ++ behind sep write items) :=
  List.append_assoc ..

theorem joined_cons (sep : List Char) (write : α → List Char) (a : α) (items : List α) :
    joined sep write (a :: items) = write a ++ behind sep write items := by
  induction items generalizing a with
  | nil => simp [joined, behind]
  | cons other items ih =>
    have hjoined := ih other
    rw [joined, List.map_cons] at hjoined ⊢
    rw [List.map_cons, List.intercalate_cons_cons, hjoined, behind_cons, List.append_assoc]

theorem follows_behind {mark : Char} {gap rest : List Char} (items : List α)
    (hrest : Follows marks rest) :
    Follows (mark :: marks) (behind (mark :: gap) write items ++ rest) := by
  cases items with
  | nil => exact fun c hc => List.mem_cons_of_mem _ (hrest c hc)
  | cons a items => exact follows_cons.mpr List.mem_cons_self

section Lists

variable {mark : Char} {gap : List Char} (h : Tells P (mark :: marks) write shown)
  (hmark : mark ∉ marks)

include h hmark

theorem Tells.behind :
    Tells (fun items => ∀ a ∈ items, P a) marks (behind (mark :: gap) write) (List.map shown) := by
  intro items items' rest rest' hitems hitems' hrest hrest' heq
  induction items generalizing items' with
  | nil =>
    cases items' with
    | nil => exact ⟨rfl, heq⟩
    | cons a' items' =>
      change rest = _ at heq
      subst heq
      exact absurd (follows_cons.mp hrest) hmark
  | cons a items ih =>
    cases items' with
    | nil =>
      change _ = rest' at heq
      subst heq
      exact absurd (follows_cons.mp hrest') hmark
    | cons a' items' =>
      rw [List.forall_mem_cons] at hitems hitems'
      simp only [behind_cons, List.append_assoc, List.append_cancel_left_eq] at heq
      obtain ⟨hshown, heq⟩ := h hitems.1 hitems'.1 (follows_behind items hrest)
        (follows_behind items' hrest') heq
      obtain ⟨hmap, hrests⟩ := ih hitems.2 hitems'.2 heq
      exact ⟨by rw [List.map_cons, List.map_cons, hshown, hmap], hrests⟩

theorem Tells.joined (hopens : ∀ a, P a → ∀ rest, ¬Follows marks (write a ++ rest)) :
    Tells (fun items => ∀ a ∈ items, P a) marks (joined (mark :: gap) write) (List.map shown) := by
  have hbehind : Tells _ marks (Text.behind (mark :: gap) write) _ := h.behind hmark
  intro items items' rest rest' hitems hitems' hrest hrest' heq
  cases items with
  | nil =>
    cases items' with
    | nil => exact ⟨rfl, heq⟩
    | cons a' items' =>
      rw [joined_cons, List.append_assoc] at heq
      change rest = _ at heq
      subst heq
      exact absurd hrest (hopens a' (hitems' a' List.mem_cons_self) _)
  | cons a items =>
    cases items' with
    | nil =>
      rw [joined_cons, List.append_assoc] at heq
      change _ = rest' at heq
      subst heq
      exact absurd hrest' (hopens a (hitems a List.mem_cons_self) _)
    | cons a' items' =>
      -- The first item also stands behind a separator once one is put in front of both lists.
      apply hbehind hitems hitems' hrest hrest'
      simpa only [joined_cons, behind_cons, List.append_assoc, List.append_cancel_left_eq] using heq

end Lists

/-! ### Tokens -/

def isTokenChar (c : Char) : Bool :=
  c.isAlphanum || c == '.' || c == '-' || c == '?'

def Token (chars : List Char) : Prop :=
  ∀ c ∈ chars, isTokenChar c = true

theorem isTokenChar_of_isDigit {c : Char} (hc : c.isDigit = true) : isTokenChar c = true := by
  rw [isTokenChar, Char.isAlphanum, hc, Bool.or_true]
  rfl

theorem Token.unmarked {chars : List Char} (h : Token chars)
    (hmarks : (marks.all fun c => !isTokenChar c) = true) : ∀ c ∈ chars, c ∉ marks := by
  intro c hc hmark
  have hnot := List.all_eq_true.mp hmarks c hmark
  rw [h c hc] at hnot
  cases hnot

theorem Token.append_inj {chars chars' rest rest' : List Char} (h : Token chars) (h' : Token chars')
    (hmarks : (marks.all fun c => !isTokenChar c) = true) (hrest : Follows marks rest)
    (hrest' : Follows marks rest') (heq : chars ++ rest = chars' ++ rest') :
    chars = chars' ∧ rest = rest' :=
  append_inj_of_follows (h.unmarked hmarks) (h'.unmarked hmarks) hrest hrest' heq

theorem toList_toString_int (n : Int) : (toString n).toList = integerText n := by
  rw [Int.toString_eq_repr, Int.repr_eq_if, integerText, digitsText]
  split
  · next h =>
    rw [if_neg (by omega), Nat.toList_repr, List.nil_append, show n.toNat = n.natAbs by omega]
  · next h =>
    rw [if_pos (by omega), String.toList_append, Nat.toList_repr,
      show (-n).toNat = n.natAbs by omega]
    rfl

theorem integerText_chars {n : Int} {c : Char} (hc : c ∈ integerText n) :
    c.isDigit = true ∨ c = '-' := by
  rcases List.mem_append.mp hc with hc | hc
  · split at hc
    · exact .inr (List.mem_singleton.mp hc)
    · cases hc
  · exact .inl (digits_digitsText _ c hc)

theorem token_integerText (n : Int) : Token (integerText n) := by
  intro c hc
  rcases integerText_chars hc with hdigit | rfl
  · exact isTokenChar_of_isDigit hdigit
  · rfl

theorem integerText_injective {m n : Int} (heq : integerText m = integerText n) : m = n := by
  rw [← readInteger_integerText m, heq, readInteger_integerText]

theorem integerText_ne_nil (n : Int) : integerText n ≠ [] :=
  List.append_ne_nil_of_right_ne_nil _ Nat.toDigits_ne_nil

theorem token_single (x : Single) : Token x.text.toList := by
  intro c hc
  rcases Single.text_chars hc with hnumeric | hletter
  · simp only [isNumeric, Bool.or_eq_true, beq_iff_eq] at hnumeric
    rcases hnumeric with ((hdigit | rfl) | rfl) | rfl
    · exact isTokenChar_of_isDigit hdigit
    all_goals rfl
  · have hletters : (['N', 'a', 'i', 'n', 'f'].all isTokenChar) = true := by decide
    exact List.all_eq_true.mp hletters c hletter

theorem single_ne_nil (x : Single) : x.text.toList ≠ [] := by
  obtain ⟨c, hc, -⟩ := x.text_mark
  exact List.ne_nil_of_mem hc

theorem single_ne_integerText (x : Single) (n : Int) : x.text.toList ≠ integerText n := by
  obtain ⟨c, hc, hdigit, hminus⟩ := x.text_mark
  intro heq
  rw [heq] at hc
  rcases integerText_chars hc with h | h
  · rw [hdigit] at h
    cases h
  · exact hminus h

theorem hexDigit?_digitChar {n : Nat} (hn : n < 16) :
    hexDigit? n.digitChar = some n ∧ isTokenChar n.digitChar = true := by
  revert n
  decide

theorem token_toDigits (n : Nat) : Token (Nat.toDigits 16 n) := by
  induction n using Nat.strongRecOn with
  | ind n ih =>
    rw [Nat.toDigits_eq_if (by decide)]
    split
    · next hn => simpa [Token] using (hexDigit?_digitChar hn).2
    · next hn =>
      have hdigit := hexDigit?_digitChar (Nat.mod_lt n (by decide : 0 < 16))
      exact List.forall_mem_append.mpr ⟨ih (n / 16) (by omega), by simpa using hdigit.2⟩

theorem natOfHex?_toDigits (k n : Nat) :
    natOfHex? (List.replicate k '0' ++ Nat.toDigits 16 n) = some n := by
  have hzeros : (List.replicate k '0').foldlM
      (fun n c => (hexDigit? c).map fun digit => 16 * n + digit) 0 = some 0 := by
    induction k with
    | zero => rfl
    | succ k ih => exact ih
  have hdigits : (Nat.toDigits 16 n).foldlM
      (fun n c => (hexDigit? c).map fun digit => 16 * n + digit) 0 = some n := by
    induction n using Nat.strongRecOn with
    | ind n ih =>
      rw [Nat.toDigits_eq_if (by decide)]
      split
      · next hn => simp [(hexDigit?_digitChar hn).1]
      · next hn =>
        rw [List.foldlM_append, ih _ (by omega)]
        simp [(hexDigit?_digitChar (Nat.mod_lt n (by decide : 0 < 16))).1, Nat.div_add_mod]
  have hne : (List.replicate k '0' ++ Nat.toDigits 16 n).isEmpty = false := by
    simp
  rw [natOfHex?, hne, if_neg Bool.false_ne_true, List.foldlM_append, hzeros]
  exact hdigits

theorem token_hexPadded (width n : Nat) : Token (hexPadded width n).toList := by
  rw [hexPadded, String.toList_ofList]
  exact List.forall_mem_append.mpr
    ⟨fun c hc => isTokenChar_of_isDigit (digits_zeros _ c hc), token_toDigits n⟩

theorem hexPadded_injective {width m n : Nat} (heq : hexPadded width m = hexPadded width n) :
    m = n := by
  have hread : ∀ n, natOfHex? (hexPadded width n).toList = some n := fun n => by
    rw [hexPadded, String.toList_ofList, natOfHex?_toDigits]
  exact Option.some.inj ((hread m).symm.trans (heq ▸ hread n))

theorem length_hexPadded {width n : Nat} (hwidth : 0 < width) (hn : n < 16 ^ width) :
    (hexPadded width n).toList.length = width := by
  have hle : (Nat.toDigits 16 n).length ≤ width :=
    (Nat.length_toDigits_le_iff (by decide) hwidth).mpr hn
  rw [hexPadded, String.toList_ofList, List.length_append, List.length_replicate,
    Nat.sub_add_cancel hle]

/-! ### Quoted texts -/

def escapes : List (Char × Char) :=
  [('"', '"'), ('\\', '\\'), ('\n', 'n'), ('\r', 'r'), ('\t', 't'), ('\x00', '0')]

/-- The ways to write a character in a quoted text. -/
inductive Escaped (c : Char) : List Char → Prop where
  | plain (hquote : c ≠ '"') (hslash : c ≠ '\\') : Escaped c [c]
  | letter {x : Char} (hx : (c, x) ∈ escapes) : Escaped c ['\\', x]
  | code : Escaped c ('\\' :: 'u' :: '\x7b' :: (Nat.toDigits 16 c.toNat ++ ['\x7d']))

theorem escaped_quoteChar (c : Char) : Escaped c (quoteChar c).toList := by
  by_cases hletter : ∃ x, (c, x) ∈ escapes
  · simp only [escapes, List.mem_cons, Prod.mk.injEq, List.not_mem_nil, or_false] at hletter
    obtain ⟨x, ⟨rfl, rfl⟩ | ⟨rfl, rfl⟩ | ⟨rfl, rfl⟩ | ⟨rfl, rfl⟩ | ⟨rfl, rfl⟩ | ⟨rfl, rfl⟩⟩ :=
      hletter
    all_goals exact .letter (by decide)
  · have hne : ∀ {d x : Char}, (d, x) ∈ escapes → c ≠ d := fun hd h => hletter ⟨_, h ▸ hd⟩
    have hquote : c ≠ '"' := hne (x := '"') (by decide)
    have hslash : c ≠ '\\' := hne (x := '\\') (by decide)
    have hzero : c.toNat ≠ 0 := fun h =>
      hne (d := '\x00') (x := '0') (by decide) (Char.toNat_inj.mp h)
    rw [quoteChar, if_neg hquote, if_neg hslash, if_neg (hne (x := 'n') (by decide)),
      if_neg (hne (x := 'r') (by decide)), if_neg (hne (x := 't') (by decide)), if_neg hzero]
    split
    · rw [String.toList_singleton]
      exact .plain hquote hslash
    · simpa [hex] using Escaped.code (c := c)

theorem Escaped.append_inj {c c' : Char} {chars chars' rest rest' : List Char} (h : Escaped c chars)
    (h' : Escaped c' chars') (heq : chars ++ rest = chars' ++ rest') : c = c' ∧ rest = rest' := by
  have hletter : ∀ {c x : Char}, (c, x) ∈ escapes → x ≠ 'u' := by
    rintro c x hx rfl
    simp [escapes] at hx
  cases h with
  | plain hquote hslash =>
    cases h' with
    | plain => exact List.cons.inj heq
    | letter => exact absurd (List.cons.inj heq).1 hslash
    | code => exact absurd (List.cons.inj heq).1 hslash
  | letter hx =>
    cases h' with
    | plain hquote' hslash' => exact absurd (List.cons.inj heq).1.symm hslash'
    | letter hx' =>
      obtain ⟨hletters, hrest⟩ := List.cons.inj (List.cons.inj heq).2
      have hunique : ∀ p ∈ escapes, ∀ q ∈ escapes, p.2 = q.2 → p.1 = q.1 := by decide
      exact ⟨hunique _ hx _ hx' hletters, hrest⟩
    | code => exact absurd (List.cons.inj (List.cons.inj heq).2).1 (hletter hx)
  | code =>
    cases h' with
    | plain hquote' hslash' => exact absurd (List.cons.inj heq).1.symm hslash'
    | letter hx' => exact absurd (List.cons.inj (List.cons.inj heq).2).1.symm (hletter hx')
    | code =>
      simp only [List.cons_append, List.append_assoc, List.cons.injEq, true_and] at heq
      have hmarks : (['\x7d'].all fun c => !isTokenChar c) = true := by decide
      obtain ⟨hdigits, hrest⟩ :=
        (token_toDigits _).append_inj (token_toDigits _) hmarks (by simp) (by simp) heq
      have hcodes : some c.toNat = some c'.toNat := calc
        some c.toNat = natOfHex? (Nat.toDigits 16 c.toNat) := (natOfHex?_toDigits 0 _).symm
        _ = natOfHex? (Nat.toDigits 16 c'.toNat) := congrArg natOfHex? hdigits
        _ = some c'.toNat := natOfHex?_toDigits 0 _
      exact ⟨Char.toNat_inj.mp (Option.some.inj hcodes), (List.cons.inj hrest).2⟩

theorem Escaped.ne_quote {c : Char} {chars rest rest' : List Char} (h : Escaped c chars) :
    chars ++ rest ≠ '"' :: rest' := by
  intro heq
  cases h with
  | plain hquote => exact hquote (List.cons.inj heq).1
  | letter => exact absurd (List.cons.inj heq).1 (by decide)
  | code => exact absurd (List.cons.inj heq).1 (by decide)

theorem quoteChars_append_inj {chars chars' rest rest' : List Char}
    (heq : (chars.flatMap fun c => (quoteChar c).toList) ++ '"' :: rest =
      (chars'.flatMap fun c => (quoteChar c).toList) ++ '"' :: rest') :
    chars = chars' ∧ rest = rest' := by
  induction chars generalizing chars' with
  | nil =>
    cases chars' with
    | nil => exact ⟨rfl, (List.cons.inj heq).2⟩
    | cons c' chars' =>
      rw [List.flatMap_cons, List.append_assoc] at heq
      exact absurd heq.symm (escaped_quoteChar c').ne_quote
  | cons c chars ih =>
    rw [List.flatMap_cons, List.append_assoc] at heq
    cases chars' with
    | nil => exact absurd heq (escaped_quoteChar c).ne_quote
    | cons c' chars' =>
      rw [List.flatMap_cons, List.append_assoc] at heq
      obtain ⟨hc, htail⟩ := (escaped_quoteChar c).append_inj (escaped_quoteChar c') heq
      obtain ⟨hchars, hrest⟩ := ih htail
      exact ⟨by rw [hc, hchars], hrest⟩

theorem toList_quote (s : String) :
    (quote s).toList = '"' :: (s.toList.flatMap fun c => (quoteChar c).toList) ++ ['"'] := by
  simp [quote, List.flatMap_map]

theorem quote_append_inj {s s' : String} {rest rest' : List Char}
    (heq : (quote s).toList ++ rest = (quote s').toList ++ rest') : s = s' ∧ rest = rest' := by
  rw [toList_quote, toList_quote, List.append_assoc, List.append_assoc] at heq
  obtain ⟨hchars, hrest⟩ := quoteChars_append_inj (List.cons.inj heq).2
  exact ⟨String.toList_inj.mp hchars, hrest⟩

end OpGraph.Text
