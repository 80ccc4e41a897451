import Mathlib.Algebra.Group.Nat.Defs
import OpGraph.Number.Single

/-!
Numbers that a format holds exactly. Writing one of them loses nothing, so two of them with the same
bit pattern are the same number, and every other format writes them alike.
-/

namespace OpGraph.Number

theorem divRoundEven_mul (num den : Nat) {k : Nat} (hk : 0 < k) :
    divRoundEven (num * k) (den * k) = divRoundEven num den := by
  have hlt : den * k < 2 * (num % den * k) ↔ den < 2 * (num % den) := by
    rw [← Nat.mul_assoc, Nat.mul_lt_mul_right hk]
  have heq : 2 * (num % den * k) = den * k ↔ 2 * (num % den) = den := by
    rw [← Nat.mul_assoc, Nat.mul_right_cancel_iff hk]
  simp only [divRoundEven, Nat.mul_div_mul_right _ _ hk, Nat.mul_mod_mul_right, hlt, heq]

theorem divRoundEven_of_mul (q : Nat) {den : Nat} (hden : 0 < den) :
    divRoundEven (q * den) den = q := by
  simp only [divRoundEven, Nat.mul_div_cancel _ hden, Nat.mul_mod_left]
  rw [if_neg]
  omega

/-- The number `m * 2 ^ e` in units of `2 ^ q`. -/
def unitsOf (q : Int) (m : Nat) (e : Int) : Nat :=
  if q ≤ e then m * 2 ^ (e - q).toNat else divRoundEven m (2 ^ (q - e).toNat)

theorem unitsOf_double (q : Int) (m : Nat) (e : Int) :
    unitsOf q (2 * m) (e - 1) = unitsOf q m e := by
  unfold unitsOf
  rw [Nat.mul_comm 2 m]
  by_cases hle : q ≤ e - 1
  · have hpow : (e - q).toNat = (e - 1 - q).toNat + 1 := by omega
    rw [if_pos hle, if_pos (by omega), hpow, Nat.pow_succ, Nat.mul_assoc, Nat.mul_comm 2]
  · rw [if_neg hle]
    by_cases heq : q = e
    · subst heq
      have hone : (q - (q - 1)).toNat = 1 := by omega
      rw [if_pos (Int.le_refl q), hone, Int.sub_self, Nat.pow_one,
        divRoundEven_of_mul m (by decide)]
      exact (Nat.mul_one m).symm
    · have hpow : (q - (e - 1)).toNat = (q - e).toNat + 1 := by omega
      rw [if_neg (by omega), hpow, Nat.pow_succ, divRoundEven_mul _ _ (by decide)]

theorem div_of_lt_mul_two {n d : Nat} (h : n < d * 2) : n / d = if d ≤ n then 1 else 0 := by
  split
  · next hle => exact Nat.div_eq_of_lt_le (by omega) (by omega)
  · next hlt => exact Nat.div_eq_of_lt (by omega)

namespace Format

variable {f : Format}

def lastPlace (f : Format) (m : Nat) (e : Int) : Int :=
  max (e + Nat.log2 m - f.fractionBits) f.leastExponent

theorem magnitude_of_ne_zero {m : Nat} (hm : m ≠ 0) (e : Int) :
    f.magnitude m e = min ((f.lastPlace m e - f.leastExponent).toNat * 2 ^ f.fractionBits +
      unitsOf (f.lastPlace m e) m e) f.infinityBits := by
  rw [magnitude, if_neg hm]
  rfl

theorem magnitude_zero (e : Int) : f.magnitude 0 e = 0 :=
  if_pos rfl

theorem magnitude_double (m : Nat) (e : Int) :
    f.magnitude (2 * m) (e - 1) = f.magnitude m e := by
  by_cases hm : m = 0
  · rw [hm, magnitude_zero, magnitude_zero]
  · have hplace : f.lastPlace (2 * m) (e - 1) = f.lastPlace m e := by
      rw [lastPlace, lastPlace, Nat.log2_two_mul hm]
      omega
    rw [magnitude_of_ne_zero hm, magnitude_of_ne_zero (by omega), hplace, unitsOf_double]

/-- A magnitude depends on the number alone, not on how it is split. -/
theorem magnitude_shift (m : Nat) (e : Int) (k : Nat) :
    f.magnitude (m * 2 ^ k) (e - k) = f.magnitude m e := by
  induction k with
  | zero => simp
  | succ k ih =>
    have hm : m * 2 ^ (k + 1) = 2 * (m * 2 ^ k) := by
      rw [Nat.pow_succ, ← Nat.mul_assoc, Nat.mul_comm]
    have he : e - (k + 1 : Nat) = e - k - 1 := by omega
    rw [hm, he, magnitude_double, ih]

/-! ### Numbers that a format holds -/

/-- The format holds the number `m * 2 ^ e` without rounding. -/
structure Holds (f : Format) (m : Nat) (e : Int) : Prop where
  mantissa_lt : m < 2 ^ (f.fractionBits + 1)
  least_le : f.leastExponent ≤ e
  le_greatest : e + 3 ≤ f.leastExponent + (2 ^ f.exponentBits : Nat)

/--
The two fields of a bit pattern: what stands before the fraction, and the mantissa with its lead.
-/
structure Fields (f : Format) (m : Nat) (e : Int) (place units : Nat) : Prop where
  magnitude_eq : f.magnitude m e = place * 2 ^ f.fractionBits + units
  place_le : place + 3 ≤ 2 ^ f.exponentBits
  units_lt : units < 2 ^ (f.fractionBits + 1)
  normal : place = 0 ∨ 2 ^ f.fractionBits ≤ units
  units_eq : ∃ k : Nat, units = m * 2 ^ k ∧ f.leastExponent + place + k = e

theorem pattern_lt {place units : Nat} (hplace : place + 3 ≤ 2 ^ f.exponentBits)
    (hunits : units < 2 ^ (f.fractionBits + 1)) :
    place * 2 ^ f.fractionBits + units < f.infinityBits := by
  have htop : (place + 2) * 2 ^ f.fractionBits ≤ f.infinityBits :=
    Nat.mul_le_mul_right _ (by rw [Nat.pow_eq]; omega)
  rw [Nat.pow_succ] at hunits
  rw [Nat.add_mul] at htop
  omega

section Holds

variable {m m' : Nat} {e e' : Int}

theorem lastPlace_le (h : f.Holds m e) (hm : m ≠ 0) : f.lastPlace m e ≤ e := by
  have hlog : m.log2 < f.fractionBits + 1 := (Nat.log2_lt hm).mpr h.mantissa_lt
  have hleast := h.least_le
  rw [lastPlace]
  omega

theorem fields_of_holds (h : f.Holds m e) (hm : m ≠ 0) :
    ∃ place units, f.Fields m e place units := by
  have hle := lastPlace_le h hm
  have hgreatest := h.le_greatest
  have hlast : f.lastPlace m e = max (e + m.log2 - f.fractionBits) f.leastExponent := rfl
  have hmagnitude := magnitude_of_ne_zero (f := f) hm e
  rw [unitsOf, if_pos hle] at hmagnitude
  generalize hplace : (f.lastPlace m e - f.leastExponent).toNat = place at hmagnitude
  generalize hk : (e - f.lastPlace m e).toNat = k at hmagnitude
  have hunits : m * 2 ^ k < 2 ^ (f.fractionBits + 1) := by
    calc m * 2 ^ k < 2 ^ (m.log2 + 1) * 2 ^ k :=
          Nat.mul_lt_mul_of_pos_right Nat.lt_log2_self (Nat.two_pow_pos k)
      _ = 2 ^ (m.log2 + 1 + k) := (Nat.pow_add 2 _ _).symm
      _ ≤ 2 ^ (f.fractionBits + 1) := Nat.pow_le_pow_right (by decide) (by omega)
  refine ⟨place, m * 2 ^ k, ?_, by omega, hunits, ?_, k, rfl, by omega⟩
  · rw [hmagnitude, Nat.min_eq_left (Nat.le_of_lt (pattern_lt (by omega) hunits))]
  · by_cases hzero : place = 0
    · exact .inl hzero
    · right
      calc 2 ^ f.fractionBits = 2 ^ (m.log2 + k) := by congr 1; omega
        _ = 2 ^ m.log2 * 2 ^ k := Nat.pow_add 2 _ _
        _ ≤ m * 2 ^ k := Nat.mul_le_mul_right _ (Nat.log2_self_le hm)

theorem Fields.unique {place units place' units' : Nat} (h : f.Fields m e place units)
    (h' : f.Fields m' e' place' units') (heq : f.magnitude m e = f.magnitude m' e') :
    place = place' ∧ units = units' := by
  rw [h.magnitude_eq, h'.magnitude_eq] at heq
  have hlt := h.units_lt
  have hlt' := h'.units_lt
  have hnormal := h.normal
  have hnormal' := h'.normal
  have hpos : 0 < 2 ^ f.fractionBits := Nat.two_pow_pos _
  rw [Nat.pow_succ] at hlt hlt'
  generalize 2 ^ f.fractionBits = d at *
  -- The field before the fraction counts the lead of the mantissa.
  have hdiv : (place * d + units) / d = (place' * d + units') / d := by rw [heq]
  rw [Nat.add_comm, Nat.add_mul_div_right _ _ hpos, Nat.add_comm, Nat.add_comm (place' * d),
    Nat.add_mul_div_right _ _ hpos] at hdiv
  have hplace : place = place' := by
    rw [div_of_lt_mul_two hlt, div_of_lt_mul_two hlt'] at hdiv
    grind
  subst hplace
  exact ⟨rfl, Nat.add_left_cancel heq⟩

theorem magnitude_eq_zero_iff (h : f.Holds m e) : f.magnitude m e = 0 ↔ m = 0 := by
  constructor
  · intro hzero
    apply Decidable.byContradiction
    intro hm
    obtain ⟨place, units, hfields⟩ := fields_of_holds h hm
    obtain ⟨k, hunits, -⟩ := hfields.units_eq
    have hpos : 0 < m * 2 ^ k := Nat.mul_pos (Nat.pos_of_ne_zero hm) (Nat.two_pow_pos k)
    rw [hfields.magnitude_eq] at hzero
    omega
  · rintro rfl
    exact magnitude_zero e

theorem magnitude_lt (h : f.Holds m e) : f.magnitude m e < f.infinityBits := by
  by_cases hm : m = 0
  · have hroom : 0 + 3 ≤ 2 ^ f.exponentBits := by
      have := h.least_le
      have := h.le_greatest
      omega
    have := pattern_lt hroom h.mantissa_lt
    rw [hm, magnitude_zero]
    omega
  · obtain ⟨place, units, hfields⟩ := fields_of_holds h hm
    rw [hfields.magnitude_eq]
    exact pattern_lt hfields.place_le hfields.units_lt

theorem magnitude_congr (h : f.Holds m e) (h' : f.Holds m' e')
    (heq : f.magnitude m e = f.magnitude m' e') (f' : Format) :
    f'.magnitude m e = f'.magnitude m' e' := by
  have hzero : m = 0 ↔ m' = 0 := by
    rw [← magnitude_eq_zero_iff h, heq, magnitude_eq_zero_iff h']
  by_cases hm : m = 0
  · rw [hm, hzero.mp hm, magnitude_zero, magnitude_zero]
  · have hm' : m' ≠ 0 := mt hzero.mpr hm
    obtain ⟨place, units, hfields⟩ := fields_of_holds h hm
    obtain ⟨place', units', hfields'⟩ := fields_of_holds h' hm'
    obtain ⟨rfl, rfl⟩ := hfields.unique hfields' heq
    obtain ⟨k, hk, he⟩ := hfields.units_eq
    obtain ⟨k', hk', he'⟩ := hfields'.units_eq
    -- The one with the longer shift has the shorter mantissa.
    have hshift : ∀ {m m' : Nat} {e e' : Int} {k k' : Nat}, k ≤ k' → m * 2 ^ k = m' * 2 ^ k' →
        e - k = e' - k' → f'.magnitude m e = f'.magnitude m' e' := by
      intro m m' e e' k k' hle hunits hexp
      have hm : m = m' * 2 ^ (k' - k) := by
        apply Nat.eq_of_mul_eq_mul_right (Nat.two_pow_pos k)
        rw [hunits, Nat.mul_assoc, ← Nat.pow_add, Nat.sub_add_cancel hle]
      have he : e = e' - (k' - k : Nat) := by omega
      rw [hm, he, magnitude_shift]
    rcases Nat.le_total k k' with hle | hle
    · exact hshift hle (hk ▸ hk') (by omega)
    · exact (hshift hle (hk' ▸ hk) (by omega)).symm

theorem magnitude_of_normal {place units : Nat} (hplace : place + 3 ≤ 2 ^ f.exponentBits)
    (hunits : units < 2 ^ (f.fractionBits + 1)) (hnormal : place = 0 ∨ 2 ^ f.fractionBits ≤ units) :
    f.magnitude units (f.leastExponent + place) = place * 2 ^ f.fractionBits + units := by
  have hholds : f.Holds units (f.leastExponent + place) := ⟨hunits, by omega, by omega⟩
  by_cases hzero : units = 0
  · have := Nat.two_pow_pos f.fractionBits
    obtain rfl : place = 0 := by omega
    rw [hzero, magnitude_zero]
    omega
  · obtain ⟨place', units', hfields⟩ := fields_of_holds hholds hzero
    obtain ⟨k, rfl, hk⟩ := hfields.units_eq
    have hlt := hfields.units_lt
    obtain rfl : k = 0 := by
      apply Decidable.byContradiction
      intro hne
      have hle : units * 2 ^ 1 ≤ units * 2 ^ k :=
        Nat.mul_le_mul_left _ (Nat.pow_le_pow_right (by decide) (by omega))
      rw [Nat.pow_succ] at hlt
      omega
    obtain rfl : place' = place := by omega
    rw [hfields.magnitude_eq, Nat.pow_zero, Nat.mul_one]

end Holds

/-! ### Values -/

def HoldsValue (f : Format) : Value → Prop
  | .nan .. => False
  | .infinity _ => True
  | .finite _ m e => f.Holds m e

theorem magnitude_le (m : Nat) (e : Int) : f.magnitude m e ≤ f.infinityBits := by
  rw [magnitude]
  split
  · exact Nat.zero_le _
  · exact Nat.min_le_right _ _

theorem signBit_eq (f : Format) : f.signBit = 2 ^ f.exponentBits * 2 ^ f.fractionBits :=
  Nat.pow_add 2 _ _

theorem infinityBits_add (f : Format) : f.infinityBits + 2 ^ f.fractionBits = f.signBit := by
  have hpos : 1 ≤ 2 ^ f.exponentBits := Nat.two_pow_pos _
  rw [signBit_eq, infinityBits, Nat.pow_eq, Nat.pow_eq, ← Nat.succ_mul]
  congr 1
  omega

theorem write_eq {v : Value} (hv : v.isNaN = false) : ∃ (negative : Bool) (m : Nat),
    m ≤ f.infinityBits ∧ f.write v = (if negative then f.signBit else 0) + m := by
  cases v with
  | nan negative payload => cases hv
  | infinity negative => exact ⟨negative, f.infinityBits, Nat.le_refl _, rfl⟩
  | finite negative m e => exact ⟨negative, f.magnitude m e, magnitude_le m e, rfl⟩

theorem write_lt {v : Value} (hv : v.isNaN = false) : f.write v < 2 * f.signBit := by
  obtain ⟨negative, m, hm, hwrite⟩ := write_eq (f := f) hv
  have := infinityBits_add f
  have := Nat.two_pow_pos f.fractionBits
  rw [hwrite]
  split <;> omega

theorem write_congr {v w : Value} (hv : f.HoldsValue v) (hw : f.HoldsValue w)
    (heq : f.write v = f.write w) (f' : Format) : f'.write v = f'.write w := by
  have hsign := infinityBits_add f
  have hpos := Nat.two_pow_pos f.fractionBits
  cases v with
  | nan => exact hv.elim
  | infinity negative =>
    cases w with
    | nan => exact hw.elim
    | infinity negative' =>
      simp only [write] at heq ⊢
      cases negative <;> cases negative' <;> simp at heq ⊢ <;> omega
    | finite negative' m' e' =>
      have := magnitude_lt hw
      simp only [write] at heq
      split at heq <;> split at heq <;> omega
  | finite negative m e =>
    have hlt := magnitude_lt hv
    cases w with
    | nan => exact hw.elim
    | infinity negative' =>
      simp only [write] at heq
      split at heq <;> split at heq <;> omega
    | finite negative' m' e' =>
      have hlt' := magnitude_lt hw
      have hboth : negative = negative' ∧ f.magnitude m e = f.magnitude m' e' := by
        simp only [write] at heq
        cases negative <;> cases negative' <;> simp at heq ⊢ <;> omega
      rw [write, write, hboth.1, magnitude_congr hv hw hboth.2]

/-! ### Bit patterns -/

section Bits

structure Splits (f : Format) (bits : Nat) (negative : Bool) (exponent fraction : Nat) : Prop where
  bits_eq : bits = (if negative then f.signBit else 0) + (exponent * 2 ^ f.fractionBits + fraction)
  exponent_lt : exponent < 2 ^ f.exponentBits
  fraction_lt : fraction < 2 ^ f.fractionBits
  read_eq : f.read bits =
    if exponent = 2 ^ f.exponentBits - 1 then
      if fraction = 0 then
        .infinity negative
      else
        .nan negative (fraction * 2 ^ (52 - f.fractionBits))
    else if exponent = 0 then
      .finite negative fraction f.leastExponent
    else
      .finite negative (fraction + 2 ^ f.fractionBits) (f.leastExponent + exponent - 1)

theorem splits_of_lt {bits : Nat} (hbits : bits < 2 * f.signBit) :
    ∃ negative exponent fraction, f.Splits bits negative exponent fraction := by
  refine ⟨bits / f.signBit % 2 == 1, bits / 2 ^ f.fractionBits % 2 ^ f.exponentBits,
    bits % 2 ^ f.fractionBits, ?_, Nat.mod_lt _ (Nat.two_pow_pos _),
    Nat.mod_lt _ (Nat.two_pow_pos _), rfl⟩
  have hpos : 0 < f.signBit := Nat.two_pow_pos _
  have hsign : bits / f.signBit < 2 := Nat.div_lt_of_lt_mul (by omega)
  have hdiv := Nat.div_add_mod bits f.signBit
  have hmod : bits % f.signBit = bits % 2 ^ f.fractionBits +
      2 ^ f.fractionBits * (bits / 2 ^ f.fractionBits % 2 ^ f.exponentBits) := by
    rw [signBit_eq, Nat.mul_comm, Nat.mod_mul]
  rw [hmod, Nat.mul_comm (2 ^ f.fractionBits)] at hdiv
  have htwo : ∀ q < 2, q = 0 ∨ q = 1 := by omega
  rcases htwo _ hsign with hzero | hone
  · rw [hzero] at hdiv ⊢
    rw [if_neg (by decide)]
    omega
  · rw [hone] at hdiv ⊢
    rw [if_pos (by decide)]
    omega

variable {bits : Nat} {negative : Bool} {exponent fraction : Nat}

theorem Splits.holdsValue (h : f.Splits bits negative exponent fraction)
    (hroom : 2 ≤ f.exponentBits) (hnan : (f.read bits).isNaN = false) :
    f.HoldsValue (f.read bits) := by
  have hpow : 2 ^ 2 ≤ 2 ^ f.exponentBits := Nat.pow_le_pow_right (by decide) hroom
  have hexponent := h.exponent_lt
  have hfraction := h.fraction_lt
  rw [h.read_eq] at hnan ⊢
  split
  · next hall =>
    split
    · trivial
    · next hne =>
      rw [if_pos hall, if_neg hne] at hnan
      cases hnan
  · split
    · exact ⟨by rw [Nat.pow_succ]; omega, Int.le_refl _, by omega⟩
    · exact ⟨by rw [Nat.pow_succ]; omega, by omega, by omega⟩

theorem Splits.write_read (h : f.Splits bits negative exponent fraction)
    (hroom : 2 ≤ f.exponentBits) (hnan : (f.read bits).isNaN = false) :
    f.write (f.read bits) = bits := by
  have hpow : 2 ^ 2 ≤ 2 ^ f.exponentBits := Nat.pow_le_pow_right (by decide) hroom
  have hexponent := h.exponent_lt
  have hfraction := h.fraction_lt
  have hsign := infinityBits_add f
  rw [h.read_eq] at hnan
  rw [h.read_eq, h.bits_eq]
  split
  · next hall =>
    split
    · next hzero =>
      rw [hzero, hall]
      rfl
    · next hne =>
      rw [if_pos hall, if_neg hne] at hnan
      cases hnan
  · next hsome =>
    split
    · next hzero =>
      have hmagnitude : f.magnitude fraction (f.leastExponent + (0 : Nat)) =
          0 * 2 ^ f.fractionBits + fraction :=
        magnitude_of_normal (by omega) (by rw [Nat.pow_succ]; omega) (.inl rfl)
      rw [hzero, ← hmagnitude]
      exact congrArg _ (congrArg _ (Int.add_zero _).symm)
    · next hne =>
      have hplace : f.leastExponent + exponent - 1 = f.leastExponent + (exponent - 1 : Nat) := by
        omega
      rw [hplace, write, magnitude_of_normal (by omega) (by rw [Nat.pow_succ]; omega)
        (.inr (by omega))]
      obtain ⟨k, rfl⟩ := Nat.exists_eq_succ_of_ne_zero hne
      rw [Nat.succ_sub_one, Nat.succ_mul]
      omega

theorem isNaN_read_write {v : Value} (hv : v.isNaN = false) :
    (f.read (f.write v)).isNaN = false := by
  obtain ⟨negative, exponent, fraction, h⟩ := splits_of_lt (f := f) (write_lt hv)
  obtain ⟨negative', m, hm, hwrite⟩ := write_eq (f := f) hv
  have hsign := infinityBits_add f
  have hexponent := h.exponent_lt
  have hfraction := h.fraction_lt
  have hinfinity : f.infinityBits = (2 ^ f.exponentBits - 1) * 2 ^ f.fractionBits := rfl
  rw [h.read_eq]
  split
  · next hall =>
    -- The greatest exponent leaves no room for a fraction.
    have hbits := h.bits_eq
    rw [hwrite, hall, ← hinfinity] at hbits
    have hzero : fraction = 0 := by
      split at hbits <;> split at hbits <;> omega
    rw [if_pos hzero]
    rfl
  · split <;> rfl

end Bits

/-! ### `NaN`s -/

def PayloadFits : Value → Prop
  | .nan _ payload => payload < 2 ^ 52
  | .infinity _ | .finite .. => True

theorem Splits.payloadFits {bits exponent fraction : Nat} {negative : Bool}
    (h : f.Splits bits negative exponent fraction) (hfraction : f.fractionBits ≤ 52) :
    PayloadFits (f.read bits) := by
  rw [h.read_eq]
  split
  · split
    · trivial
    · calc fraction * 2 ^ (52 - f.fractionBits)
          < 2 ^ f.fractionBits * 2 ^ (52 - f.fractionBits) :=
            Nat.mul_lt_mul_of_pos_right h.fraction_lt (Nat.two_pow_pos _)
        _ = 2 ^ 52 := by rw [← Nat.pow_add, Nat.add_sub_cancel' hfraction]
  · split <;> trivial

theorem write_nan {v : Value} (hv : v.isNaN = true) (hpayload : PayloadFits v)
    (hpos : 0 < f.fractionBits) (hfraction : f.fractionBits ≤ 52) :
    f.write v < 2 * f.signBit ∧ (f.read (f.write v)).isNaN = true := by
  cases v with
  | infinity | finite => cases hv
  | nan negative payload =>
    have hsign := infinityBits_add f
    have hquiet : 2 ^ (f.fractionBits - 1) < 2 ^ f.fractionBits :=
      Nat.pow_lt_pow_right (by decide) (by omega)
    have htop : payload / 2 ^ (52 - f.fractionBits) < 2 ^ f.fractionBits := by
      rw [Nat.div_lt_iff_lt_mul (Nat.two_pow_pos _), ← Nat.pow_add, Nat.add_sub_cancel' hfraction]
      exact hpayload
    have hbits : f.write (.nan negative payload) = (if negative then f.signBit else 0) +
        (f.infinityBits + (payload / 2 ^ (52 - f.fractionBits) ||| 2 ^ (f.fractionBits - 1))) :=
      Nat.add_assoc _ _ _
    have hlt := Nat.or_lt_two_pow htop hquiet
    have hne : 2 ^ (f.fractionBits - 1) ≤
        payload / 2 ^ (52 - f.fractionBits) ||| 2 ^ (f.fractionBits - 1) := Nat.right_le_or
    have hone := Nat.two_pow_pos (f.fractionBits - 1)
    generalize payload / 2 ^ (52 - f.fractionBits) ||| 2 ^ (f.fractionBits - 1) = low at *
    have hbound : f.write (.nan negative payload) < 2 * f.signBit := by
      rw [hbits]
      split <;> omega
    refine ⟨hbound, ?_⟩
    obtain ⟨negative', exponent, fraction, h⟩ := splits_of_lt hbound
    have heq := h.bits_eq
    have hrest := h.fraction_lt
    rw [hbits] at heq
    have hinfinity : f.infinityBits = (2 ^ f.exponentBits - 1) * 2 ^ f.fractionBits := rfl
    have hall : exponent = 2 ^ f.exponentBits - 1 := by
      -- A smaller exponent stands for less than infinity.
      apply Decidable.byContradiction
      intro hless
      have hexponent := h.exponent_lt
      have hle : (exponent + 1) * 2 ^ f.fractionBits ≤ f.infinityBits :=
        Nat.mul_le_mul_right _ (by rw [Nat.pow_eq]; omega)
      rw [Nat.succ_mul] at hle
      split at heq <;> split at heq <;> omega
    rw [h.read_eq, if_pos hall, if_neg]
    · rfl
    · rw [hall, ← hinfinity] at heq
      split at heq <;> split at heq <;> omega

/-! ### The three formats -/

theorem Holds.of_le {f' : Format} {m : Nat} {e : Int} (h : f.Holds m e)
    (hfraction : f.fractionBits ≤ f'.fractionBits) (hleast : f'.leastExponent ≤ f.leastExponent)
    (hgreatest : f.leastExponent + (2 ^ f.exponentBits : Nat) ≤
      f'.leastExponent + (2 ^ f'.exponentBits : Nat)) : f'.Holds m e where
  mantissa_lt := Nat.lt_of_lt_of_le h.mantissa_lt (Nat.pow_le_pow_right (by decide) (by omega))
  least_le := Int.le_trans hleast h.least_le
  le_greatest := Int.le_trans h.le_greatest hgreatest

theorem HoldsValue.of_le {f' : Format} {v : Value} (h : f.HoldsValue v)
    (hfraction : f.fractionBits ≤ f'.fractionBits) (hleast : f'.leastExponent ≤ f.leastExponent)
    (hgreatest : f.leastExponent + (2 ^ f.exponentBits : Nat) ≤
      f'.leastExponent + (2 ^ f'.exponentBits : Nat)) : f'.HoldsValue v := by
  cases v with
  | nan => exact h
  | infinity => trivial
  | finite negative m e => exact Holds.of_le h hfraction hleast hgreatest

theorem HoldsValue.double_of_half {v : Value} (h : half.HoldsValue v) : double.HoldsValue v :=
  h.of_le (by decide) (by decide) (by decide)

theorem HoldsValue.double_of_single {v : Value} (h : single.HoldsValue v) : double.HoldsValue v :=
  h.of_le (by decide) (by decide) (by decide)

end Format

end OpGraph.Number

namespace OpGraph.Single

open Number

variable {x : Single} (hx : x.isNaN = false)

include hx

theorem write_value : Format.single.write x.value = x.bits.toNat := by
  obtain ⟨_, _, _, h⟩ := Format.splits_of_lt (f := .single) x.bits.toNat_lt
  exact h.write_read (by decide) hx

theorem ofValue_value : ofValue x.value = x := by
  rw [ofValue, write_value hx, UInt32.ofNat_toNat]

theorem holdsValue_double : Format.double.HoldsValue x.value := by
  obtain ⟨_, _, _, h⟩ := Format.splits_of_lt (f := .single) x.bits.toNat_lt
  exact (h.holdsValue (by decide) hx).double_of_single

theorem ofValue_eq {v : Value} (hv : Format.double.HoldsValue v)
    (heq : Format.double.write v = Format.double.write x.value) : ofValue v = x := by
  rw [ofValue, Format.write_congr hv (holdsValue_double hx) heq, write_value hx, UInt32.ofNat_toNat]

end OpGraph.Single
