import Mathlib.Algebra.Order.Field.Power
import Mathlib.Data.Rat.Cast.Order
import Mathlib.Tactic.FieldSimp
import Mathlib.Tactic.Linarith
import Mathlib.Tactic.Positivity
import Mathlib.Tactic.Ring
import OpGraph.Number.Shortest

/-!
Shortest decimals tell numbers apart. The decimal that is found lies in the interval of the reals
that round to the number, and the intervals of different numbers of a format have no real in common:
they can only meet at an end, and then one of the two is open.
-/

namespace OpGraph.Number

def Decimal.value (d : Decimal) : ℚ :=
  d.digits * 10 ^ d.exponent

namespace Shortest

/-- The real lies in the interval; a quarter of the last place is `2 ^ (exponent - 2)`. -/
def Interval.Contains (i : Interval) (exponent : Int) (x : ℚ) : Prop :=
  if i.closed then
    i.low * 2 ^ (exponent - 2) ≤ x ∧ x ≤ i.high * 2 ^ (exponent - 2)
  else
    i.low * 2 ^ (exponent - 2) < x ∧ x < i.high * 2 ^ (exponent - 2)

variable {i : Interval} {e k : Int} {d x : Nat}

/-! ### Grids -/

theorem toNat_zpow {b : ℚ} (hb : b ≠ 0) (k : Int) : b ^ k.toNat = b ^ k * b ^ (-k).toNat := by
  rw [← zpow_natCast, ← zpow_natCast, ← zpow_add₀ hb]
  congr 1
  omega

theorem grid_step (e k : Int) :
    ((grid e k).step : ℚ) * 2 ^ (e - 2) = (grid e k).quarter * 10 ^ k := by
  have hten := toNat_zpow (b := 10) (by norm_num) k
  have htwo := toNat_zpow (b := 2) (by norm_num) (e - 2)
  rw [neg_sub] at htwo
  simp only [grid, Nat.pow_eq, Nat.cast_mul, Nat.cast_pow, Nat.cast_ofNat, hten, htwo]
  ring

theorem quarter_pos (e k : Int) : (0 : ℚ) < (grid e k).quarter := by
  simp only [grid, Nat.pow_eq, Nat.cast_mul, Nat.cast_pow, Nat.cast_ofNat]
  positivity

theorem step_mul_zpow (d : Nat) (e k : Int) :
    ((d * (grid e k).step : Nat) : ℚ) * 2 ^ (e - 2) = d * 10 ^ k * (grid e k).quarter := by
  rw [Nat.cast_mul, mul_assoc, grid_step]
  ring

theorem steps_le_iff : d * (grid e k).step ≤ x * (grid e k).quarter ↔
    (d : ℚ) * 10 ^ k ≤ x * 2 ^ (e - 2) := by
  rw [← mul_le_mul_iff_left₀ (quarter_pos e k), ← step_mul_zpow, mul_right_comm, ← Nat.cast_mul,
    mul_le_mul_iff_left₀ (zpow_pos two_pos (e - 2)), Nat.cast_le]

theorem le_steps_iff : x * (grid e k).quarter ≤ d * (grid e k).step ↔
    (x : ℚ) * 2 ^ (e - 2) ≤ d * 10 ^ k := by
  rw [← mul_le_mul_iff_left₀ (quarter_pos e k), ← step_mul_zpow, mul_right_comm, ← Nat.cast_mul,
    mul_le_mul_iff_left₀ (zpow_pos two_pos (e - 2)), Nat.cast_le]

theorem holds_iff : i.holds (grid e k) d = true ↔ i.Contains e (d * 10 ^ k) := by
  rw [Interval.holds, Interval.Contains]
  split
  · simp only [Bool.and_eq_true, decide_eq_true_eq, steps_le_iff, le_steps_iff]
  · simp only [Bool.and_eq_true, decide_eq_true_eq, ← not_le, steps_le_iff, le_steps_iff]

theorem holds_of_onGrid {g : Grid} (h : onGrid i g = some d) : i.holds g d = true := by
  rw [onGrid] at h
  split at h
  · next hfirst hsecond =>
    cases h
    split
    · exact hsecond
    · exact hfirst
  · next hfirst _ =>
    cases h
    exact hfirst
  · next _ hsecond =>
    cases h
    exact hsecond
  · cases h

theorem onGrid_isSome {g : Grid} (h : i.holds g (i.value * g.quarter / g.step) = true) :
    (onGrid i g).isSome := by
  rw [onGrid]
  split
  · rfl
  · rfl
  · rfl
  · next hfirst _ =>
    rw [h] at hfirst
    cases hfirst

/-! ### The search -/

theorem value_trim (fuel : Nat) (d : Decimal) : (trim fuel d).value = d.value := by
  induction fuel generalizing d with
  | zero => rfl
  | succ fuel ih =>
    rw [trim]
    split
    · next hzero =>
      rw [ih, Decimal.value, Decimal.value, zpow_add_one₀ (by norm_num)]
      have hdigits : (d.digits : ℚ) = (d.digits / 10 : Nat) * 10 := by
        exact_mod_cast (Nat.div_mul_cancel (Nat.dvd_of_mod_eq_zero hzero.2)).symm
      rw [hdigits]
      ring
    · rfl

theorem contains_search {lead : Int} {fuel n j : Nat} (hj : n ≤ j) (hfuel : j < n + fuel)
    (hsome : (onGrid i (grid e (lead - j))).isSome) :
    i.Contains e (search i e lead fuel n).value := by
  induction fuel generalizing n with
  | zero => omega
  | succ fuel ih =>
    rw [search]
    split
    · next d hd =>
      rw [value_trim]
      exact holds_iff.mp (holds_of_onGrid hd)
    · next hnone =>
      have hne : n ≠ j := by
        rintro rfl
        rw [hnone] at hsome
        cases hsome
      exact ih (by omega) (by omega)

theorem reaches_iff : leading.reaches i e k = true ↔ (10 : ℚ) ^ k ≤ i.value * 2 ^ (e - 2) := by
  have hone := steps_le_iff (d := 1) (x := i.value) (e := e) (k := k)
  rw [Nat.one_mul, Nat.cast_one, one_mul] at hone
  rw [leading.reaches, decide_eq_true_eq, hone]

theorem reaches_down {fuel : Nat} (h : ∃ j : Nat, j < fuel ∧ leading.reaches i e (k - j) = true) :
    leading.reaches i e (leading.down i e fuel k) = true := by
  induction fuel generalizing k with
  | zero =>
    obtain ⟨j, hj, -⟩ := h
    omega
  | succ fuel ih =>
    rw [leading.down]
    split
    · next hreaches => exact hreaches
    · next hnot =>
      obtain ⟨j, hj, hreaches⟩ := h
      cases j with
      | zero => exact absurd (by simpa using hreaches) hnot
      | succ j =>
        refine ih ⟨j, by omega, ?_⟩
        rw [← hreaches]
        congr 1
        omega

theorem reaches_up {fuel : Nat} (h : ∃ j : Nat, j < 400 ∧ leading.reaches i e (k - j) = true)
    (hfuel : fuel = 0 → leading.reaches i e k = true) :
    leading.reaches i e (leading.up i e fuel k) = true := by
  induction fuel generalizing k with
  | zero => exact hfuel rfl
  | succ fuel ih =>
    rw [leading.up]
    split
    · next hreaches => exact ih ⟨0, by omega, by simpa using hreaches⟩ fun _ => hreaches
    · exact reaches_down h

end Shortest

namespace Format

open Shortest

variable {f : Format} {m m' : Nat} {e e' : Int}

/-- The one form in which a format reads the number `m * 2 ^ e`. -/
structure Canonical (f : Format) (m : Nat) (e : Int) : Prop where
  mantissa_lt : m < 2 ^ (f.fractionBits + 1)
  least_le : f.leastExponent ≤ e
  normal : 2 ^ f.fractionBits ≤ m ∨ e = f.leastExponent

theorem quarters_eq (m : Nat) (e : Int) : ((4 * m : Nat) : ℚ) * 2 ^ (e - 2) = m * 2 ^ e := by
  rw [zpow_sub₀ (by norm_num), Nat.cast_mul]
  norm_num
  ring

theorem ten_zpow_le_two_zpow {k : Int} (hk : k ≤ 0) : (10 : ℚ) ^ k ≤ 2 ^ k := by
  obtain ⟨n, rfl⟩ : ∃ n : Nat, k = -n := ⟨(-k).toNat, by omega⟩
  rw [zpow_neg, zpow_neg, zpow_natCast, zpow_natCast]
  exact inv_anti₀ (by positivity) (pow_le_pow_left₀ (by norm_num) (by norm_num) n)

theorem zpow_leading_le (hm : m ≠ 0) (he : -399 ≤ e) :
    (10 : ℚ) ^ leading (interval f m e) e ≤ m * 2 ^ e := by
  have hone : (1 : ℚ) ≤ m := by exact_mod_cast Nat.one_le_iff_ne_zero.mpr hm
  have hreaches : leading.reaches (interval f m e) e (min e 0) = true := by
    rw [reaches_iff, interval, quarters_eq]
    calc (10 : ℚ) ^ min e 0 ≤ 2 ^ min e 0 := ten_zpow_le_two_zpow (min_le_right e 0)
      _ ≤ 2 ^ e := zpow_le_zpow_right₀ (by norm_num) (min_le_left e 0)
      _ ≤ m * 2 ^ e := le_mul_of_one_le_left (by positivity) hone
  have hup : leading.reaches (interval f m e) e (leading.up (interval f m e) e 400 0) = true :=
    reaches_up ⟨(0 - min e 0).toNat, by omega, by rw [← hreaches]; congr 1; omega⟩ (by omega)
  rwa [reaches_iff, interval, quarters_eq] at hup

/-- With seventeen digits the grid is finer than a quarter of the last place. -/
theorem zpow_lt_quarter (hm : m ≠ 0) (hlt : m < 2 ^ (f.fractionBits + 1)) (he : -399 ≤ e)
    (hbits : 2 ^ (f.fractionBits + 3) ≤ 10 ^ 16) :
    (10 : ℚ) ^ (leading (interval f m e) e - (16 : Nat)) < 2 ^ (e - 2) := by
  have hlead := zpow_leading_le (f := f) hm he
  have hsplit : (10 : ℚ) ^ (leading (interval f m e) e - (16 : Nat)) * 10 ^ 16 =
      10 ^ leading (interval f m e) e := by
    rw [← zpow_natCast, ← zpow_add₀ (by norm_num)]
    norm_num
  have hmantissa : ((4 * m : Nat) : ℚ) < 10 ^ 16 := by
    have hfour : 4 * m < 2 ^ (f.fractionBits + 3) := by
      rw [pow_succ] at hlt
      rw [pow_add]
      omega
    exact_mod_cast hfour.trans_le hbits
  have hpos : (0 : ℚ) < 2 ^ (e - 2) := by positivity
  rw [← hsplit, ← quarters_eq] at hlead
  nlinarith

theorem contains_of_near (hm : m ≠ 0) {x : ℚ} (hle : x ≤ (4 * m : Nat) * 2 ^ (e - 2))
    (hlt : (4 * m : Nat) * 2 ^ (e - 2) < x + 2 ^ (e - 2)) : (interval f m e).Contains e x := by
  have hlow : ((interval f m e).low : ℚ) + 1 ≤ (4 * m : Nat) := by
    rw [interval]
    simp only
    split
    · exact_mod_cast (by omega : 4 * m - 1 + 1 ≤ 4 * m)
    · exact_mod_cast (by omega : 4 * m - 2 + 1 ≤ 4 * m)
  have hhigh : ((interval f m e).high : ℚ) = (4 * m : Nat) + 2 := by
    rw [interval]
    push_cast
    ring
  have hpos : (0 : ℚ) < 2 ^ (e - 2) := by positivity
  have hfirst : ((interval f m e).low : ℚ) * 2 ^ (e - 2) < x := by nlinarith
  have hlast : x < (interval f m e).high * 2 ^ (e - 2) := by
    rw [hhigh]
    nlinarith
  rw [Interval.Contains]
  split
  · exact ⟨hfirst.le, hlast.le⟩
  · exact ⟨hfirst, hlast⟩

theorem contains_shortest (hm : m ≠ 0) (hlt : m < 2 ^ (f.fractionBits + 1)) (he : -399 ≤ e)
    (hbits : 2 ^ (f.fractionBits + 3) ≤ 10 ^ 16) :
    (interval f m e).Contains e (f.shortest m e).value := by
  have hfine := zpow_lt_quarter hm hlt he hbits
  rw [shortest, if_neg hm]
  refine contains_search (j := 16) (Nat.zero_le _) (by omega) (onGrid_isSome ?_)
  generalize leading (interval f m e) e - (16 : Nat) = k at hfine ⊢
  have hstep : 0 < (grid e k).step := by
    simp only [grid, Nat.pow_eq]
    positivity
  -- In units of a quarter the number is `4 * m`, and its neighbour on the grid is just below it.
  generalize hd : (interval f m e).value * (grid e k).quarter / (grid e k).step = d
  have hbelow : (d : ℚ) * 10 ^ k ≤ (4 * m : Nat) * 2 ^ (e - 2) := by
    rw [← steps_le_iff, ← hd]
    exact Nat.div_mul_le_self _ _
  have habove : ((4 * m : Nat) : ℚ) * 2 ^ (e - 2) < (d + 1 : Nat) * 10 ^ k := by
    rw [← not_le, ← steps_le_iff, not_le, ← hd]
    exact Nat.lt_mul_of_div_lt (Nat.lt_succ_self _) hstep
  rw [holds_iff]
  refine contains_of_near hm hbelow (habove.trans ?_)
  push_cast
  linarith

/-! ### Different numbers -/

theorem ends_of_contains {x : ℚ} (hx : (interval f m e).Contains e x) :
    ((interval f m e).low * 2 ^ (e - 2) ≤ x ∧ x ≤ (interval f m e).high * 2 ^ (e - 2)) ∧
    ((interval f m e).low * 2 ^ (e - 2) = x ∨ x = (interval f m e).high * 2 ^ (e - 2) →
      m % 2 = 0) := by
  rw [Interval.Contains] at hx
  split at hx
  · next hclosed => exact ⟨hx, fun _ => by simpa [interval] using hclosed⟩
  · refine ⟨⟨hx.1.le, hx.2.le⟩, ?_⟩
    rintro (heq | heq)
    · exact absurd heq hx.1.ne
    · exact absurd heq hx.2.ne

theorem high_le_low (h : f.Canonical m e) (h' : f.Canonical m' e')
    (hlt : e < e' ∨ e = e' ∧ m < m') :
    (interval f m e).high * 2 ^ (e - 2) < ((interval f m' e').low * 2 ^ (e' - 2) : ℚ) ∨
    (interval f m e).high * 2 ^ (e - 2) = ((interval f m' e').low * 2 ^ (e' - 2) : ℚ) ∧
      (m % 2 = 1 ∨ m' % 2 = 1) := by
  have hpos : (0 : ℚ) < 2 ^ (e - 2) := by positivity
  rcases hlt with hlt | ⟨rfl, hlt⟩
  · -- The last place of the greater number is at least twice as wide.
    have hwide : (2 : ℚ) ^ (e - 2) * 2 ≤ 2 ^ (e' - 2) := by
      rw [← zpow_add_one₀ (by norm_num)]
      exact zpow_le_zpow_right₀ (by norm_num) (by omega)
    have hends : (interval f m e).high < (interval f m' e').low * 2 ∨
        (interval f m e).high = (interval f m' e').low * 2 ∧ m % 2 = 1 := by
      have hmantissa := h.mantissa_lt
      have hleast := h.least_le
      have hnormal := h'.normal.resolve_right (by omega)
      rw [pow_succ] at hmantissa
      simp only [interval, Nat.pow_eq]
      split <;> omega
    have hlow : ((interval f m' e').low : ℚ) * (2 ^ (e - 2) * 2) ≤
        (interval f m' e').low * 2 ^ (e' - 2) := mul_le_mul_of_nonneg_left hwide (by positivity)
    rcases hends with hless | ⟨hsame, hodd⟩
    · left
      have hcast : ((interval f m e).high : ℚ) < (interval f m' e').low * 2 := by
        exact_mod_cast hless
      nlinarith
    · have hcast : ((interval f m e).high : ℚ) = (interval f m' e').low * 2 := by
        exact_mod_cast hsame
      rw [hcast, mul_assoc, mul_comm (2 : ℚ)]
      exact hlow.lt_or_eq.imp_right fun heq => ⟨heq, .inl hodd⟩
  · have hends : (interval f m e).high < (interval f m' e).low ∨
        (interval f m e).high = (interval f m' e).low ∧ (m % 2 = 1 ∨ m' % 2 = 1) := by
      simp only [interval]
      split <;> omega
    rcases hends with hless | ⟨hsame, hodd⟩
    · left
      exact mul_lt_mul_of_pos_right (by exact_mod_cast hless) hpos
    · exact .inr ⟨by rw [hsame], hodd⟩

theorem eq_of_contains (h : f.Canonical m e) (h' : f.Canonical m' e') {x : ℚ}
    (hx : (interval f m e).Contains e x) (hx' : (interval f m' e').Contains e' x) :
    m = m' ∧ e = e' := by
  obtain ⟨⟨hlow, hhigh⟩, hend⟩ := ends_of_contains hx
  obtain ⟨⟨hlow', hhigh'⟩, hend'⟩ := ends_of_contains hx'
  have hnot : ¬ (e < e' ∨ e = e' ∧ m < m') := by
    intro hlt
    rcases high_le_low h h' hlt with hapart | ⟨hmeet, hodd⟩
    · linarith
    · have heven := hend (.inr (by linarith))
      have heven' := hend' (.inl (by linarith))
      omega
  have hnot' : ¬ (e' < e ∨ e' = e ∧ m' < m) := by
    intro hlt
    rcases high_le_low h' h hlt with hapart | ⟨hmeet, hodd⟩
    · linarith
    · have heven := hend (.inl (by linarith))
      have heven' := hend' (.inr (by linarith))
      omega
  omega

/-- The shortest decimal of a number is that of no other number. -/
theorem eq_of_shortest (h : f.Canonical m e) (h' : f.Canonical m' e')
    (hleast : -399 ≤ f.leastExponent) (hbits : 2 ^ (f.fractionBits + 3) ≤ 10 ^ 16)
    (heq : (f.shortest m e).value = (f.shortest m' e').value) : m = m' ∧ e = e' := by
  have hfound : ∀ {m e}, f.Canonical m e → m ≠ 0 →
      (interval f m e).Contains e (f.shortest m e).value := fun hc hne =>
    contains_shortest hne hc.mantissa_lt (hleast.trans hc.least_le) hbits
  have hpositive : ∀ {m e}, f.Canonical m e → m ≠ 0 → 0 < (f.shortest m e).value := by
    intro m e hc hne
    have hlow : (0 : ℚ) < (interval f m e).low := by
      rw [interval, Nat.cast_pos]
      simp only
      split <;> omega
    obtain ⟨⟨hfirst, -⟩, -⟩ := ends_of_contains (hfound hc hne)
    exact lt_of_lt_of_le (by positivity) hfirst
  have hzero : ∀ e, (f.shortest 0 e).value = 0 := fun e => by simp [shortest, Decimal.value]
  have hnormal : ∀ {e}, f.Canonical 0 e → e = f.leastExponent := fun hc =>
    hc.normal.resolve_left (by simp)
  by_cases hm : m = 0
  · subst hm
    by_cases hm' : m' = 0
    · subst hm'
      exact ⟨rfl, (hnormal h).trans (hnormal h').symm⟩
    · exact absurd (heq.symm.trans (hzero e)) (hpositive h' hm').ne'
  · by_cases hm' : m' = 0
    · subst hm'
      exact absurd (heq.trans (hzero e')) (hpositive h hm).ne'
    · exact eq_of_contains h h' (hfound h hm) (heq ▸ hfound h' hm')

end Format

end OpGraph.Number
