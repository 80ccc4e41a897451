import OpGraph.Number.Single
import OpGraph.Proofs.Number.Exact
import OpGraph.Proofs.Number.Shortest

/-!
Written numbers tell numbers apart. A written decimal is a numeral, which is read by its digits, the
places after the point and the exponent, wherever the layout put the point. So two numbers are
written alike only if their decimals are equal, and shortest decimals are equal only for equal
numbers.
-/

namespace OpGraph.Number

variable {whole places point body : List Char}

/-! ### Digits -/

def Digits (chars : List Char) : Prop :=
  ∀ c ∈ chars, c.isDigit = true

def readDigits (digits : List Char) : Nat :=
  Nat.ofDigitChars 10 digits 0

theorem digits_digitsText (n : Nat) : Digits (digitsText n) := fun _ hc =>
  Nat.isDigit_of_mem_toDigits (by decide) (by decide) hc

theorem digits_zeros (k : Nat) : Digits (List.replicate k '0') := by
  intro c hc
  rw [(List.mem_replicate.mp hc).2]
  rfl

theorem Digits.append (hwhole : Digits whole) (hplaces : Digits places) :
    Digits (whole ++ places) :=
  List.forall_mem_append.mpr ⟨hwhole, hplaces⟩

theorem Digits.take (h : Digits whole) (k : Nat) : Digits (whole.take k) := fun c hc =>
  h c (List.mem_of_mem_take hc)

theorem Digits.drop (h : Digits whole) (k : Nat) : Digits (whole.drop k) := fun c hc =>
  h c (List.mem_of_mem_drop hc)

theorem Digits.ne {c mark : Char} (h : Digits whole) (hc : c ∈ whole)
    (hmark : mark.isDigit = false) : c ≠ mark := by
  rintro rfl
  rw [h c hc] at hmark
  cases hmark

theorem readDigits_digitsText (n : Nat) : readDigits (digitsText n) = n :=
  Nat.ofDigitChars_ten_toDigits

theorem readDigits_append (whole places : List Char) :
    readDigits (whole ++ places) = Nat.ofDigitChars 10 places (readDigits whole) :=
  Nat.ofDigitChars_append 0

theorem readDigits_zeros_append (k : Nat) (digits : List Char) :
    readDigits (List.replicate k '0' ++ digits) = readDigits digits := by
  rw [readDigits_append, readDigits, Nat.ofDigitChars_replicate_zero, Nat.mul_zero, readDigits]

theorem readDigits_append_zeros (digits : List Char) (k : Nat) :
    readDigits (digits ++ List.replicate k '0') = 10 ^ k * readDigits digits := by
  rw [readDigits_append, Nat.ofDigitChars_replicate_zero]

theorem readDigits_zeros_point (digits : List Char) (k : Nat) :
    (readDigits (digits ++ List.replicate k '0' ++ ['0']) : ℚ) * 10 ^ (-((1 : Nat) : Int)) =
      readDigits digits * 10 ^ (k : Int) := by
  have hzeros : digits ++ List.replicate k '0' ++ ['0'] = digits ++ List.replicate (k + 1) '0' := by
    rw [List.append_assoc, List.replicate_succ']
  rw [hzeros, readDigits_append_zeros, zpow_natCast]
  push_cast
  rw [pow_succ, zpow_neg, zpow_one]
  ring

/-! ### Numerals -/

def integerText (n : Int) : List Char :=
  (if n < 0 then ['-'] else []) ++ digitsText n.natAbs

inductive Numeral : List Char → ℚ → Prop where
  | plain {whole places : List Char} (hne : whole ≠ []) (hwhole : Digits whole)
    (hplaces : Digits places) : Numeral (whole ++ '.' :: places)
      (readDigits (whole ++ places) * 10 ^ (-(places.length : Int)))
  | power {whole places point : List Char} (hne : whole ≠ []) (hwhole : Digits whole)
    (hplaces : Digits places) (hpoint : point = [] ∧ places = [] ∨ point = '.' :: places)
    (lead : Int) : Numeral (whole ++ point ++ 'e' :: integerText lead)
      (readDigits (whole ++ places) * 10 ^ (lead - places.length))

def readInteger (chars : List Char) : Int :=
  if chars.head? = some '-' then -readDigits chars.tail else readDigits chars

def readDecimal (chars : List Char) : ℚ :=
  let mantissa := chars.takeWhile (· != 'e')
  let exponent := readInteger (chars.dropWhile (· != 'e')).tail
  let places := (mantissa.dropWhile (· != '.')).tail
  readDigits (mantissa.takeWhile (· != '.') ++ places) * 10 ^ (exponent - places.length)

theorem readInteger_integerText (n : Int) : readInteger (integerText n) = n := by
  have hhead : (digitsText n.natAbs).head? ≠ some '-' := fun h =>
    (digits_digitsText _).ne (List.mem_of_head? h) rfl rfl
  rw [integerText]
  by_cases hneg : n < 0
  · rw [if_pos hneg, List.singleton_append, readInteger, List.head?_cons, if_pos rfl,
      List.tail_cons, readDigits_digitsText]
    omega
  · rw [if_neg hneg, List.nil_append, readInteger, if_neg hhead, readDigits_digitsText]
    omega

theorem readDecimal_append {exponent tail : List Char} (hwhole : Digits whole)
    (hplaces : Digits places) (hpoint : point = [] ∧ places = [] ∨ point = '.' :: places)
    (htail : tail = [] ∧ exponent = [] ∨ tail = 'e' :: exponent) :
    readDecimal (whole ++ point ++ tail) =
      readDigits (whole ++ places) * 10 ^ (readInteger exponent - places.length) := by
  have hmantissa : ∀ c ∈ whole ++ point, (c != 'e') = true := by
    intro c hc
    rw [bne_iff_ne]
    rcases List.mem_append.mp hc with hc | hc
    · exact hwhole.ne hc rfl
    · rcases hpoint with ⟨rfl, -⟩ | rfl
      · cases hc
      · rcases List.mem_cons.mp hc with rfl | hc
        · decide
        · exact hplaces.ne hc rfl
  have hpointless : ∀ c ∈ whole, (c != '.') = true := fun c hc => bne_iff_ne.mpr (hwhole.ne hc rfl)
  have htake : (whole ++ point ++ tail).takeWhile (· != 'e') = whole ++ point := by
    rw [List.takeWhile_append_of_pos hmantissa]
    rcases htail with ⟨rfl, -⟩ | rfl <;> simp
  have hdrop : ((whole ++ point ++ tail).dropWhile (· != 'e')).tail = exponent := by
    rw [List.dropWhile_append_of_pos hmantissa]
    rcases htail with ⟨rfl, rfl⟩ | rfl <;> simp
  have hwholes : (whole ++ point).takeWhile (· != '.') = whole := by
    rw [List.takeWhile_append_of_pos hpointless]
    rcases hpoint with ⟨rfl, -⟩ | rfl <;> simp
  have hrest : ((whole ++ point).dropWhile (· != '.')).tail = places := by
    rw [List.dropWhile_append_of_pos hpointless]
    rcases hpoint with ⟨rfl, rfl⟩ | rfl <;> simp
  simp only [readDecimal, htake, hdrop, hwholes, hrest]

def isNumeric (c : Char) : Bool :=
  c.isDigit || c == '.' || c == 'e' || c == '-'

theorem Digits.isNumeric (h : Digits whole) : ∀ c ∈ whole, isNumeric c = true := by
  intro c hc
  rw [Number.isNumeric, h c hc]
  rfl

namespace Numeral

variable {x : ℚ}

theorem readDecimal_eq (h : Numeral body x) : readDecimal body = x := by
  cases h with
  | plain hne hwhole hplaces =>
    have hread := readDecimal_append hwhole hplaces (.inr rfl) (.inl ⟨rfl, rfl⟩)
    rw [List.append_nil] at hread
    rw [hread, ← zero_sub]
    rfl
  | power hne hwhole hplaces hpoint lead =>
    rw [readDecimal_append hwhole hplaces hpoint (.inr rfl), readInteger_integerText]

theorem head_isDigit (h : Numeral body x) : ∃ first rest, body = first :: rest ∧
    first.isDigit = true := by
  have hhead : ∀ {whole : List Char} (rest : List Char), whole ≠ [] → Digits whole →
      ∃ first rest', whole ++ rest = first :: rest' ∧ first.isDigit = true := by
    intro whole rest hne hwhole
    obtain ⟨first, others, rfl⟩ := List.exists_cons_of_ne_nil hne
    exact ⟨first, others ++ rest, rfl, hwhole first List.mem_cons_self⟩
  cases h with
  | plain hne hwhole hplaces => exact hhead _ hne hwhole
  | power hne hwhole hplaces hpoint lead =>
    rw [List.append_assoc]
    exact hhead _ hne hwhole

theorem mark_mem (h : Numeral body x) : '.' ∈ body ∨ 'e' ∈ body := by
  cases h with
  | plain => exact .inl (by simp)
  | power => exact .inr (by simp)

theorem isNumeric (h : Numeral body x) : ∀ c ∈ body, isNumeric c = true := by
  cases h with
  | plain hne hwhole hplaces =>
    rw [List.forall_mem_append, List.forall_mem_cons]
    exact ⟨hwhole.isNumeric, rfl, hplaces.isNumeric⟩
  | power hne hwhole hplaces hpoint lead =>
    have hmarks : ∀ c ∈ integerText lead, Number.isNumeric c = true := by
      rw [integerText, List.forall_mem_append]
      refine ⟨?_, (digits_digitsText _).isNumeric⟩
      split
      · simp [Number.isNumeric]
      · simp
    rw [List.forall_mem_append, List.forall_mem_append, List.forall_mem_cons]
    refine ⟨⟨hwhole.isNumeric, ?_⟩, rfl, hmarks⟩
    rcases hpoint with ⟨rfl, -⟩ | rfl
    · simp
    · rw [List.forall_mem_cons]
      exact ⟨rfl, hplaces.isNumeric⟩

end Numeral

/-! ### Layouts -/

theorem numeral_positional {digits : List Char} (hdigits : Digits digits) (hne : digits ≠ [])
    (lead : Int) : Numeral (positional digits lead)
      (readDigits digits * 10 ^ (lead + 1 - digits.length)) := by
  rw [positional]
  split
  · next hneg =>
    -- A zero, the point, then more zeros in front of the digits.
    have hvalue : readDigits (['0'] ++ (List.replicate (-lead - 1).toNat '0' ++ digits)) =
        readDigits digits :=
      (readDigits_zeros_append 1 _).trans (readDigits_zeros_append _ _)
    have hnumeral := Numeral.plain (List.cons_ne_nil '0' []) (digits_zeros 1)
      ((digits_zeros (-lead - 1).toNat).append hdigits)
    rw [hvalue, List.length_append, List.length_replicate] at hnumeral
    have hexponent :
        lead + 1 - digits.length = -(((-lead - 1).toNat + digits.length : Nat) : Int) := by
      omega
    rw [hexponent]
    exact hnumeral
  · next hnonneg =>
    dsimp only
    split
    · next hlong =>
      -- All digits and more zeros in front of the point, and one zero after it.
      obtain ⟨k, hk⟩ := Nat.exists_eq_add_of_le hlong
      have hnumeral := Numeral.plain (List.append_ne_nil_of_left_ne_nil hne (List.replicate k '0'))
        (hdigits.append (digits_zeros k)) (digits_zeros 1)
      have hexponent : lead + 1 - digits.length = k := by
        omega
      rw [show lead.toNat + 1 - digits.length = k by omega, hexponent, ← readDigits_zeros_point]
      exact hnumeral
    · next hshort =>
      -- The digits themselves, with the point among them.
      have htake : digits.take (lead.toNat + 1) ≠ [] := by
        simpa using hne
      have hnumeral := Numeral.plain htake (hdigits.take _) (hdigits.drop (lead.toNat + 1))
      have hexponent :
          lead + 1 - digits.length = -((digits.length - (lead.toNat + 1) : Nat) : Int) := by
        omega
      rw [List.take_append_drop, List.length_drop] at hnumeral
      rw [hexponent, List.append_assoc]
      exact hnumeral

theorem numeral_scientific {digits : List Char} (hdigits : Digits digits) (hne : digits ≠ [])
    (lead : Int) : Numeral (scientific "" digits lead)
      (readDigits digits * 10 ^ (lead + 1 - digits.length)) := by
  have hlength : 0 < digits.length := List.length_pos_iff.mpr hne
  have htake : digits.take 1 ≠ [] := by
    simpa using hne
  have hpoint : (if digits.length ≤ 1 then [] else '.' :: digits.drop 1) = [] ∧ digits.drop 1 = [] ∨
      (if digits.length ≤ 1 then [] else '.' :: digits.drop 1) = '.' :: digits.drop 1 := by
    split
    · next hone => exact .inl ⟨rfl, List.drop_eq_nil_of_le hone⟩
    · exact .inr rfl
  have hnumeral := Numeral.power htake (hdigits.take 1) (hdigits.drop 1) hpoint lead
  have hexponent : lead + 1 - digits.length = lead - (digits.length - 1 : Nat) := by
    omega
  rw [List.take_append_drop, List.length_drop, ← hexponent] at hnumeral
  simpa [scientific, integerText] using hnumeral

def Layout.unsigned (layout : Layout) (d : Decimal) : List Char :=
  let digits := digitsText d.digits
  let lead := d.exponent + digits.length - 1
  if layout.plainFrom ≤ lead ∧ lead ≤ layout.plainTo then
    positional digits lead
  else
    scientific layout.plus digits lead

theorem Layout.toList_write (layout : Layout) (negative : Bool) (d : Decimal) :
    (layout.write negative d).toList = (if negative then ['-'] else []) ++ layout.unsigned d := by
  cases negative <;> exact String.toList_ofList

theorem Layout.numeral_unsigned {layout : Layout} (hplus : layout.plus = "") (d : Decimal) :
    Numeral (layout.unsigned d) d.value := by
  have hvalue : d.value = readDigits (digitsText d.digits) *
      10 ^ (d.exponent + (digitsText d.digits).length - 1 + 1 - (digitsText d.digits).length) := by
    rw [readDigits_digitsText, Decimal.value]
    congr 2
    omega
  rw [hvalue, Layout.unsigned, hplus]
  split
  · exact numeral_positional (digits_digitsText _) Nat.toDigits_ne_nil _
  · exact numeral_scientific (digits_digitsText _) Nat.toDigits_ne_nil _

theorem Layout.eq_of_write {layout : Layout} (hplus : layout.plus = "") {negative negative' : Bool}
    {d d' : Decimal} (heq : layout.write negative d = layout.write negative' d') :
    negative = negative' ∧ d.value = d'.value := by
  have hchars := congrArg String.toList heq
  rw [toList_write, toList_write] at hchars
  have hread : layout.unsigned d = layout.unsigned d' → d.value = d'.value := fun h => by
    rw [← (numeral_unsigned hplus d).readDecimal_eq, h, (numeral_unsigned hplus d').readDecimal_eq]
  have hminus : ∀ (a b : Decimal), ['-'] ++ layout.unsigned a ≠ layout.unsigned b := by
    intro a b h
    obtain ⟨first, rest, hbody, hdigit⟩ := (numeral_unsigned hplus b).head_isDigit
    rw [hbody, List.singleton_append, List.cons.injEq] at h
    rw [← h.1] at hdigit
    cases hdigit
  cases negative <;> cases negative'
  · exact ⟨rfl, hread hchars⟩
  · exact absurd hchars.symm (hminus d' d)
  · exact absurd hchars (hminus d d')
  · exact ⟨rfl, hread (List.cons.inj hchars).2⟩

theorem Format.canonical_of_read {f : Format} {bits : Nat} {negative : Bool} {m : Nat} {e : Int}
    (h : f.read bits = .finite negative m e) : f.Canonical m e := by
  have hfraction : bits % Nat.pow 2 f.fractionBits < 2 ^ f.fractionBits :=
    Nat.mod_lt _ (Nat.two_pow_pos _)
  have hsucc : 2 ^ (f.fractionBits + 1) = 2 ^ f.fractionBits * 2 := pow_succ ..
  rw [Format.read] at h
  split at h
  · split at h <;> cases h
  · split at h
    · cases h
      exact ⟨by omega, le_refl _, .inr rfl⟩
    · next hsubnormal =>
      cases h
      refine ⟨?_, by omega, .inl (Nat.le_add_left ..)⟩
      rw [hsucc, Nat.mul_two]
      exact Nat.add_lt_add_right hfraction _

end OpGraph.Number

namespace OpGraph.Single

open Number

variable {x y : Single}

/-- What a text shows of a number: every `NaN` is written alike. -/
def shown (x : Single) : Single :=
  if x.isNaN then ⟨0x7fc00000⟩ else x

theorem numeral_text (hx : x.isFinite = true) : ∃ (negative : Bool) (body : List Char) (value : ℚ),
    Numeral body value ∧ x.text.toList = (if negative then ['-'] else []) ++ body := by
  rw [isFinite] at hx
  rw [text]
  cases hvalue : x.value with
  | nan => rw [hvalue] at hx; cases hx
  | infinity => rw [hvalue] at hx; cases hx
  | finite negative m e =>
    exact ⟨negative, _, _, Layout.numeral_unsigned rfl _, Layout.toList_write _ negative _⟩

theorem isNumeric_text (hx : x.isFinite = true) : ∀ c ∈ x.text.toList, isNumeric c = true := by
  obtain ⟨negative, body, value, hnumeral, htext⟩ := numeral_text hx
  rw [htext, List.forall_mem_append]
  exact ⟨by cases negative <;> simp [isNumeric], hnumeral.isNumeric⟩

theorem text_of_not_finite (hx : x.isFinite = false) :
    x.text ∈ ["NaN", "inf", "-inf"] ∧ ∃ c ∈ x.text.toList, isNumeric c = false := by
  rw [isFinite] at hx
  rw [text]
  cases hvalue : x.value with
  | nan => exact ⟨by simp, 'N', by simp, by decide⟩
  | infinity negative =>
    cases negative
    · exact ⟨by simp, 'i', by decide, by decide⟩
    · exact ⟨by simp, 'i', by decide, by decide⟩
  | finite => rw [hvalue] at hx; cases hx

theorem text_chars {c : Char} (hc : c ∈ x.text.toList) :
    isNumeric c = true ∨ c ∈ ['N', 'a', 'i', 'n', 'f'] := by
  cases hx : x.isFinite with
  | true => exact .inl (isNumeric_text hx c hc)
  | false =>
    have hwords : ∀ word ∈ ["NaN", "inf", "-inf"],
        (word.toList.all fun c => isNumeric c || ['N', 'a', 'i', 'n', 'f'].contains c) = true := by
      decide
    have hword := List.all_eq_true.mp (hwords _ (text_of_not_finite hx).1) c hc
    simpa only [Bool.or_eq_true, List.contains_iff_mem] using hword

theorem text_mark (x : Single) : ∃ c ∈ x.text.toList, c.isDigit = false ∧ c ≠ '-' := by
  cases hx : x.isFinite with
  | true =>
    obtain ⟨negative, body, value, hnumeral, htext⟩ := numeral_text hx
    rw [htext]
    rcases hnumeral.mark_mem with hmark | hmark
    · exact ⟨'.', List.mem_append_right _ hmark, by decide, by decide⟩
    · exact ⟨'e', List.mem_append_right _ hmark, by decide, by decide⟩
  | false =>
    obtain ⟨c, hc, hmark⟩ := (text_of_not_finite hx).2
    simp only [isNumeric, Bool.or_eq_false_iff, beq_eq_false_iff_ne] at hmark
    exact ⟨c, hc, hmark.1.1.1, hmark.2⟩

theorem isFinite_eq_of_text (heq : x.text = y.text) : x.isFinite = y.isFinite := by
  have hnot : ∀ {x y : Single}, x.text = y.text → x.isFinite = true → y.isFinite ≠ false := by
    intro x y heq hx hy
    obtain ⟨c, hc, hmark⟩ := (text_of_not_finite hy).2
    rw [← heq] at hc
    rw [isNumeric_text hx c hc] at hmark
    cases hmark
  cases hx : x.isFinite <;> cases hy : y.isFinite
  · rfl
  · exact absurd hx (hnot heq.symm hy)
  · exact absurd hy (hnot heq hx)
  · rfl

theorem value_eq_of_text (heq : x.text = y.text) :
    x.isNaN = y.isNaN ∧ (x.isNaN = false → x.value = y.value) := by
  have hfinite := isFinite_eq_of_text heq
  rw [isFinite, isFinite] at hfinite
  rw [isNaN, isNaN]
  rw [text, text] at heq
  cases hx : x.value with
  | nan negative payload =>
    cases hy : y.value with
    | nan => exact ⟨rfl, nofun⟩
    | infinity negative' =>
      rw [hx, hy] at heq
      cases negative' <;> simp at heq
    | finite => rw [hx, hy] at hfinite; cases hfinite
  | infinity negative =>
    cases hy : y.value with
    | nan =>
      rw [hx, hy] at heq
      cases negative <;> simp at heq
    | infinity negative' =>
      rw [hx, hy] at heq
      cases negative <;> cases negative' <;> simp [Value.isNaN] at heq ⊢
    | finite => rw [hx, hy] at hfinite; cases hfinite
  | finite negative m e =>
    cases hy : y.value with
    | nan => rw [hx, hy] at hfinite; cases hfinite
    | infinity => rw [hx, hy] at hfinite; cases hfinite
    | finite negative' m' e' =>
      rw [hx, hy] at heq
      obtain ⟨rfl, hvalue⟩ := Layout.eq_of_write rfl heq
      obtain ⟨rfl, rfl⟩ := Format.eq_of_shortest (Format.canonical_of_read hx)
        (Format.canonical_of_read hy) (by decide) (by norm_num [Format.single]) hvalue
      exact ⟨rfl, fun _ => rfl⟩

theorem text_shown (x : Single) : x.shown.text = x.text := by
  have htext : ∀ x : Single, x.isNaN = true → x.text = "NaN" := by
    intro x hx
    rw [isNaN] at hx
    rw [text]
    cases hvalue : x.value with
    | nan => rfl
    | infinity => rw [hvalue] at hx; cases hx
    | finite => rw [hvalue] at hx; cases hx
  rw [shown]
  split
  · next hx => rw [htext x hx, htext _ (by decide)]
  · rfl

theorem text_eq_iff : x.text = y.text ↔ x.shown = y.shown := by
  constructor
  · intro heq
    obtain ⟨hnan, hvalue⟩ := value_eq_of_text heq
    rw [shown, shown, ← hnan]
    cases hx : x.isNaN with
    | true => rfl
    | false => exact (ofValue_value hx).symm.trans (hvalue hx ▸ ofValue_value (hnan ▸ hx))
  · intro heq
    rw [← text_shown x, heq, text_shown y]

end OpGraph.Single
