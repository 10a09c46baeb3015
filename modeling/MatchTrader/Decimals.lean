import Mathlib.Algebra.Order.Floor.Ring
import Mathlib.Data.Rat.Floor
import Mathlib.Tactic.Positivity
import MatchTrader.Decimal

/-! The numbers that decimals stand for, and what the operations do to them: comparisons are
exact, quantizing moves to a multiple of a power of ten, and a remainder is exact unless it is
below the least exponent. -/

namespace Decimal

variable {a b d q r : Decimal} {e : Int}

/-- The number a decimal spells. -/
def toRat (d : Decimal) : ℚ := (if d.neg then -1 else 1) * d.coeff * (10 : ℚ) ^ d.exp

theorem bind_eq_ok {α β : Type} {x : Except Signal α} {f : α → Except Signal β} {y : β} :
    (x >>= f) = .ok y ↔ ∃ v, x = .ok v ∧ f v = .ok y := by
  cases x <;> simp [bind, Except.bind]

theorem ten_zpow_pos (e : Int) : (0 : ℚ) < 10 ^ e := zpow_pos (by norm_num) e

theorem ten_zpow_split {e f : Int} (h : f ≤ e) : (10 : ℚ) ^ e = 10 ^ (e - f).toNat * 10 ^ f := by
  rw [← zpow_natCast, ← zpow_add₀ (by norm_num : (10 : ℚ) ≠ 0)]
  congr 1
  omega

theorem scaled_mul (h : e ≤ d.exp) : (d.scaled e : ℚ) * 10 ^ e = d.toRat := by
  unfold scaled toRat
  rw [ten_zpow_split h]
  split <;> push_cast <;> ring

/-- A number spelled at an exponent is a multiple of that power of ten. -/
theorem exists_multiple (h : e ≤ d.exp) : ∃ n : Int, d.toRat = n * (10 : ℚ) ^ e := ⟨d.scaled e, (scaled_mul h).symm⟩

theorem le_iff : a ≤ b ↔ a.toRat ≤ b.toRat := by
  rw [← scaled_mul (min_le_left a.exp b.exp), ← scaled_mul (min_le_right a.exp b.exp),
    mul_le_mul_iff_left₀ (ten_zpow_pos _), Int.cast_le]
  change le a b = true ↔ _
  simp [le]

theorem lt_iff : a < b ↔ a.toRat < b.toRat := by
  rw [← not_le, ← le_iff]
  exact Iff.rfl

theorem same_iff : a.same b = true ↔ a.toRat = b.toRat := by
  rw [← scaled_mul (min_le_left a.exp b.exp), ← scaled_mul (min_le_right a.exp b.exp),
    mul_left_inj' (ten_zpow_pos _).ne', Int.cast_inj]
  simp [same]

theorem toRat_eq_zero_iff : d.toRat = 0 ↔ d.coeff = 0 := by
  have h := (ten_zpow_pos d.exp).ne'
  unfold toRat
  split <;> simp [h]

theorem isZero_iff : d.isZero = true ↔ d.toRat = 0 := by
  rw [toRat_eq_zero_iff]
  simp [isZero]

theorem toRat_zero : (0 : Decimal).toRat = 0 := toRat_eq_zero_iff.mpr rfl

theorem pos_iff : 0 < d ↔ 0 < d.toRat := by rw [lt_iff, toRat_zero]

theorem nonpos_iff : d ≤ 0 ↔ d.toRat ≤ 0 := by rw [le_iff, toRat_zero]

theorem of_pos (h : 0 < d.toRat) : d.neg = false ∧ 0 < d.coeff := by
  have hz : d.coeff ≠ 0 := fun hc => h.ne' (toRat_eq_zero_iff.mpr hc)
  refine ⟨?_, Nat.pos_of_ne_zero hz⟩
  by_contra hn
  simp only [Bool.not_eq_false] at hn
  have hp : (0 : ℚ) < d.coeff * 10 ^ d.exp := mul_pos (by exact_mod_cast Nat.pos_of_ne_zero hz) (ten_zpow_pos _)
  unfold toRat at h
  rw [hn, if_pos rfl] at h
  linarith

theorem toRat_of_pos (h : 0 < d.toRat) : d.toRat = d.coeff * (10 : ℚ) ^ d.exp := by
  simp [toRat, (of_pos h).1]

section Digits

theorem lt_pow_digitCount (n : Nat) : n < 10 ^ digitCount n := by
  unfold digitCount
  split
  · next h => simp [h]
  · exact Nat.lt_pow_succ_log_self (by norm_num) n

theorem pow_le_of_digitCount {n : Nat} (h : n ≠ 0) : 10 ^ (digitCount n - 1) ≤ n := by
  simp only [digitCount, h, if_false, Nat.add_sub_cancel]
  exact Nat.pow_log_le_self 10 h

theorem digitCount_pos (n : Nat) : 0 < digitCount n := by
  unfold digitCount
  split <;> omega

end Digits

/-- Whatever the mode, at least the digits that stay are kept. -/
theorem le_roundOff (mode : Rounding) (n k : Nat) : n / 10 ^ k ≤ roundOff mode n k := by
  cases mode with
  | down => exact le_rfl
  | halfUp => unfold roundOff; simp only; split <;> omega
  | halfEven => unfold roundOff; simp only; split <;> omega

theorem roundOff_halfUp_ne_zero {n k : Nat} : ¬ roundOff .halfUp n k = 0 ↔ 10 ^ k ≤ 2 * n := by
  simp only [roundOff]
  generalize 10 ^ k = unit
  have hround := Nat.div_add_mod n unit
  split
  · by_cases hz : n / unit = 0
    · rw [hz, mul_zero] at hround
      exact iff_of_false (not_not.mpr hz) (by omega)
    · have hunit := Nat.le_mul_of_pos_right unit (Nat.pos_of_ne_zero hz)
      exact iff_of_true hz (by omega)
  · exact iff_of_true (Nat.succ_ne_zero _) (by omega)

theorem rescale_exp (mode : Rounding) (d : Decimal) (e : Int) : (rescale mode d e).exp = e := by
  unfold rescale
  split <;> rfl

theorem rescale_neg (mode : Rounding) (d : Decimal) (e : Int) : (rescale mode d e).neg = d.neg := by
  unfold rescale
  split <;> rfl

theorem fix_zero (hc : d.coeff = 0) (h : fix d = .ok r) : r = { d with exp := min (max d.exp etiny) emax } := by
  unfold fix at h
  rw [if_pos hc] at h
  exact (Except.ok.inj h).symm

theorem fix_fits (hc : d.coeff ≠ 0) (hp : digitCount d.coeff ≤ prec) (he : etiny ≤ d.exp) (h : fix d = .ok r) :
    r = d := by
  have hp' : (digitCount d.coeff : Int) ≤ prec := by exact_mod_cast hp
  simp only [fix, hc, if_false] at h
  split at h
  · simp at h
  · rw [if_neg (by omega)] at h
    exact (Except.ok.inj h).symm

/-- Rounding to the precision leaves a number other than zero, unless it is too small. -/
theorem coeff_fix (hc : d.coeff ≠ 0) (he : etiny ≤ d.exp) (h : fix d = .ok r) : r.coeff ≠ 0 := by
  by_cases hp : digitCount d.coeff ≤ prec
  · rw [fix_fits hc hp he h]
    exact hc
  have hlow : max ((digitCount d.coeff : Int) + d.exp - prec) etiny = digitCount d.coeff + d.exp - prec := by omega
  have hk : ((digitCount d.coeff : Int) + d.exp - prec - d.exp).toNat = digitCount d.coeff - prec := by omega
  have hround : 10 ^ 27 ≤ roundOff .halfEven d.coeff (digitCount d.coeff - prec) := by
    refine le_trans ?_ (le_roundOff _ _ _)
    rw [Nat.le_div_iff_mul_le (Nat.pow_pos (by norm_num)), ← pow_add]
    exact le_trans (Nat.pow_le_pow_right (by norm_num) (by have hprec : prec = 28 := rfl; omega)) (pow_le_of_digitCount hc)
  have hbig : 0 < roundOff .halfEven d.coeff (digitCount d.coeff - prec) / 10 :=
    Nat.div_pos (le_trans (by norm_num) hround) (by norm_num)
  simp only [fix, hc, if_false, hlow] at h
  split at h
  · simp at h
  · rw [if_pos (by omega)] at h
    have hr : (rescale .halfEven d (digitCount d.coeff + d.exp - prec)).coeff
        = roundOff .halfEven d.coeff (digitCount d.coeff - prec) := by
      unfold rescale
      rw [if_neg (by omega), hk]
    split at h
    · split at h
      · simp at h
      · obtain rfl := Except.ok.inj h
        simp only [hr]
        omega
    · split at h
      · simp at h
      · obtain rfl := Except.ok.inj h
        rw [hr]
        omega

/-- A power of ten is spelled at its own exponent, or at the least one when it is too small. -/
theorem scaleb_exp {n : Int} (h : scaleb (.ofNat 1) n = .ok r) : r.exp = max n etiny := by
  simp only [scaleb, ofNat, zero_add] at h
  split at h
  · simp at h
  have hdigits : digitCount 1 = 1 := by decide
  have hprec : prec = 28 := rfl
  by_cases he : etiny ≤ n
  · have hfits : digitCount 1 ≤ prec := by omega
    rw [fix_fits (by simp) hfits he h]
    simp only
    omega
  · have hlow : max ((digitCount 1 : Int) + n - prec) etiny = etiny := by omega
    have hround : (rescale .halfEven ⟨false, 1, n⟩ etiny).coeff = 0 := by
      have hk : (etiny - n).toNat = (etiny - n).toNat - 1 + 1 := by omega
      have hten : 10 ≤ 10 ^ (etiny - n).toNat := by
        rw [hk, pow_succ]
        exact Nat.le_mul_of_pos_left _ (Nat.pow_pos (by norm_num))
      have hmod : 1 % 10 ^ (etiny - n).toNat = 1 := Nat.mod_eq_of_lt (by omega)
      have hdiv : 1 / 10 ^ (etiny - n).toNat = 0 := Nat.div_eq_of_lt (by omega)
      rw [rescale, if_neg he]
      simp only [roundOff, hmod, hdiv]
      rw [if_pos (Or.inl (by omega))]
    have hone : ¬ digitCount (rescale .halfEven ⟨false, 1, n⟩ etiny).coeff > prec := by
      rw [hround]
      decide
    simp only [fix, one_ne_zero, if_false, hlow, hone, rescale_exp] at h
    split at h
    · simp at h
    · rw [if_pos (by omega), if_neg (by decide)] at h
      obtain rfl := Except.ok.inj h
      rw [rescale_exp]
      omega

theorem quantize_ok {mode : Rounding} (h : quantize mode d q = .ok r) :
    r.exp = q.exp ∧ r.neg = d.neg ∧ r.coeff = (rescale mode d q.exp).coeff := by
  unfold quantize at h
  split at h
  · simp at h
  next hq =>
  simp only [not_or, not_lt] at hq
  split at h
  · next hc =>
    have hz : (rescale mode d q.exp).coeff = 0 := by
      unfold rescale roundOff
      rw [hc]
      split
      · simp
      · cases mode <;> simp
    obtain rfl := fix_zero rfl h
    exact ⟨by simp only; omega, rfl, hz.symm⟩
  next hc =>
  split at h
  · simp at h
  extract_lets x at h
  split at h
  · simp at h
  next hr =>
  simp only [not_or, not_lt] at hr
  have hexp : x.exp = q.exp := rescale_exp mode d q.exp
  by_cases hz : x.coeff = 0
  · obtain rfl := fix_zero hz h
    exact ⟨by simp only [hexp]; omega, rescale_neg _ _ _, rfl⟩
  · rw [fix_fits hz hr.2 (by rw [hexp]; exact hq.1) h]
    exact ⟨hexp, rescale_neg _ _ _, rfl⟩

theorem quantize_digits {mode : Rounding} (h : quantize mode d q = .ok r) : r.coeff < 10 ^ prec := by
  obtain ⟨_, _, hc⟩ := quantize_ok h
  unfold quantize at h
  split at h
  · simp at h
  split at h
  · rw [fix_zero rfl h]
    exact Nat.pow_pos (by norm_num)
  split at h
  · simp at h
  extract_lets x at h
  split at h
  · simp at h
  next hr =>
  rw [not_or, not_lt, not_lt] at hr
  rw [hc]
  exact lt_of_lt_of_le (lt_pow_digitCount _) (Nat.pow_le_pow_right (by norm_num) hr.2)

section Sign

theorem fix_sign (h : fix d = .ok r) : r.neg = d.neg := by
  unfold fix at h
  split at h
  · obtain rfl := Except.ok.inj h
    rfl
  extract_lets low low' x y at h
  have hy : y.neg = d.neg := by
    unfold y
    split <;> exact rescale_neg _ _ _
  split at h
  · simp at h
  split at h
  · split at h
    · simp at h
    · obtain rfl := Except.ok.inj h
      exact hy
  · obtain rfl := Except.ok.inj h
    rfl

theorem mul_sign (h : mul a b = .ok r) : r.neg = (a.neg != b.neg) := fix_sign h

theorem div_sign (h : div a b = .ok r) : r.neg = (a.neg != b.neg) := by
  unfold div at h
  split at h
  · simp at h
  split at h
  · exact fix_sign h
  extract_lets shift n m q e x at h
  split at h
  · exact fix_sign h
  · exact fix_sign h

theorem abs_sign (h : abs d = .ok r) : r.neg = false := fix_sign h

theorem toRat_nonneg (hn : d.neg = false) : 0 ≤ d.toRat := by
  have h := (ten_zpow_pos d.exp).le
  simp only [toRat, hn, Bool.false_eq_true, if_false]
  positivity

end Sign

/-- Quantizing down a number without a sign gives the whole number of units in it. -/
theorem quantize_down (hn : d.neg = false) (h : quantize .down d q = .ok r) :
    r.toRat = ⌊d.toRat / 10 ^ q.exp⌋ * 10 ^ q.exp := by
  obtain ⟨he, hneg, hc⟩ := quantize_ok h
  have hpos := ten_zpow_pos q.exp
  have hfloor : ⌊d.toRat / 10 ^ q.exp⌋ = (rescale .down d q.exp).coeff := by
    by_cases hle : q.exp ≤ d.exp
    · have hd : d.toRat / 10 ^ q.exp = ((d.coeff * 10 ^ (d.exp - q.exp).toNat : Nat) : ℚ) := by
        rw [div_eq_iff hpos.ne']
        simp only [toRat, hn, ten_zpow_split hle]
        push_cast
        ring
      rw [hd, Int.floor_natCast]
      simp [rescale, hle]
    · have hd : d.toRat / 10 ^ q.exp = (d.coeff : ℚ) / ((10 ^ (q.exp - d.exp).toNat : Nat) : ℚ) := by
        rw [div_eq_div_iff hpos.ne' (by positivity), ten_zpow_split (le_of_not_ge hle)]
        simp only [toRat, hn]
        push_cast
        ring
      rw [hd, Rat.floor_natCast_div_natCast]
      simp [rescale, hle, roundOff]
  rw [hfloor, toRat, hneg, hn, he, hc]
  simp

theorem abs_toRat (d : Decimal) : |d.toRat| = d.coeff * (10 : ℚ) ^ d.exp := by
  have h := (ten_zpow_pos d.exp).le
  unfold toRat
  split
  · rw [neg_one_mul, neg_mul, abs_neg, abs_of_nonneg (by positivity)]
  · rw [one_mul, abs_of_nonneg (by positivity)]

/-- Rounding half up leaves zero of less than half a unit only. -/
theorem quantize_halfUp_isZero (hd : d.coeff ≠ 0) (h : quantize .halfUp d q = .ok r) :
    r.isZero = false ↔ (10 : ℚ) ^ q.exp ≤ 2 * |d.toRat| := by
  obtain ⟨_, _, hc⟩ := quantize_ok h
  have hu := ten_zpow_pos q.exp
  have hpos : (1 : ℚ) ≤ d.coeff := by exact_mod_cast Nat.pos_of_ne_zero hd
  rw [abs_toRat]
  simp only [isZero, hc, decide_eq_false_iff_not]
  by_cases hle : q.exp ≤ d.exp
  · have hten : (1 : ℚ) ≤ 10 ^ (d.exp - q.exp).toNat := one_le_pow₀ (by norm_num)
    refine iff_of_true (by simp [rescale, hle, hd]) ?_
    rw [ten_zpow_split hle]
    nlinarith [mul_le_mul hpos hten (by norm_num) (by positivity)]
  · have hk : (10 : ℚ) ^ q.exp ≤ 2 * (d.coeff * 10 ^ d.exp) ↔ 10 ^ (q.exp - d.exp).toNat ≤ 2 * d.coeff := by
      rw [ten_zpow_split (le_of_not_ge hle), ← mul_assoc, mul_le_mul_iff_left₀ (ten_zpow_pos d.exp)]
      exact_mod_cast Iff.rfl
    rw [hk, rescale, if_neg hle]
    exact roundOff_halfUp_ne_zero

/-- A remainder of zero tells that the divisor divides, unless the remainder could be too small to be told from zero. -/
theorem mod_isZero (h : mod a b = .ok r) (hz : r.isZero = true) (he : etiny ≤ min a.exp b.exp) :
    ∃ n : Int, a.toRat = n * b.toRat := by
  unfold mod at h
  split at h
  · simp at h
  next hb =>
  extract_lets e n m at h
  split at h
  · simp at h
  simp only [isZero, decide_eq_true_eq] at hz
  have hdvd : n % m = 0 := by
    by_contra hn
    exact coeff_fix (d := ⟨a.neg, n % m, e⟩) hn he h hz
  have hn : (n : ℚ) * 10 ^ e = a.coeff * 10 ^ a.exp := by
    rw [ten_zpow_split (min_le_left a.exp b.exp)]
    simp only [n, e]
    push_cast
    ring
  have hm : (m : ℚ) * 10 ^ e = b.coeff * 10 ^ b.exp := by
    rw [ten_zpow_split (min_le_right a.exp b.exp)]
    simp only [m, e]
    push_cast
    ring
  obtain ⟨k, hk⟩ := Nat.dvd_of_mod_eq_zero hdvd
  have hab : (a.coeff : ℚ) * 10 ^ a.exp = k * (b.coeff * 10 ^ b.exp) := by
    rw [← hn, ← hm, hk]
    push_cast
    ring
  refine ⟨(if a.neg then -1 else 1) * (if b.neg then -1 else 1) * k, ?_⟩
  unfold toRat
  rw [mul_assoc, hab]
  split <;> split <;> push_cast <;> ring

theorem mod_of_dvd (he : a.exp = b.exp) (hb : b.coeff ≠ 0) (ha : a.coeff < 10 ^ prec) (hd : b.coeff ∣ a.coeff) :
    ∃ r, mod a b = .ok r ∧ r.isZero = true := by
  have hbound : ¬ a.coeff / b.coeff ≥ 10 ^ prec := not_le.mpr (lt_of_le_of_lt (Nat.div_le_self _ _) ha)
  have hmod : mod a b = .ok ⟨a.neg, 0, min (max b.exp etiny) emax⟩ := by
    simp only [mod, hb, if_false, he, min_self, sub_self, Int.toNat_zero, pow_zero, mul_one, hbound,
      Nat.mod_eq_zero_of_dvd hd, fix, if_true]
  exact ⟨_, hmod, rfl⟩

section Sums

theorem digitCount_le {n k : Nat} (hk : 0 < k) (h : n < 10 ^ k) : digitCount n ≤ k := by
  unfold digitCount
  split
  · exact hk
  · next hn =>
    have hlog := Nat.log_lt_of_lt_pow hn h
    omega

theorem sign_mul_natAbs (n : Int) (zero : Bool) :
    (if (if n = 0 then zero else decide (n < 0)) = true then -1 else 1 : ℚ) * n.natAbs = n := by
  by_cases hz : n = 0
  · simp [hz]
  · simp only [hz, if_false, decide_eq_true_eq]
    split
    · next hn =>
      rw [← Int.cast_natCast, Int.ofNat_natAbs_of_nonpos hn.le]
      push_cast
      ring
    · next hn =>
      rw [← Int.cast_natCast, Int.natAbs_of_nonneg (not_lt.mp hn), one_mul]

theorem exactAdd_toRat (a b : Decimal) : (exactAdd a b).toRat = a.toRat + b.toRat := by
  rw [← scaled_mul (min_le_left a.exp b.exp), ← scaled_mul (min_le_right a.exp b.exp), ← add_mul, ← Int.cast_add]
  exact congrArg (· * (10 : ℚ) ^ min a.exp b.exp) (sign_mul_natAbs _ (a.neg && b.neg))

theorem add_exact (ha : e ≤ a.exp) (hb : e ≤ b.exp) (he : etiny ≤ e ∧ e ≤ 0)
    (hlt : |a.toRat + b.toRat| < (10 : ℚ) ^ ((prec : Int) + e)) :
    ∃ r, add a b = .ok r ∧ r.toRat = a.toRat + b.toRat ∧ e ≤ r.exp := by
  have hx : e ≤ (exactAdd a b).exp := le_min ha hb
  rw [← exactAdd_toRat] at hlt ⊢
  unfold add
  generalize exactAdd a b = x at hx hlt ⊢
  by_cases hz : x.coeff = 0
  · have hzero : x.toRat = 0 := toRat_eq_zero_iff.mpr hz
    refine ⟨{ x with exp := min (max x.exp etiny) emax }, by rw [fix, if_pos hz], ?_, ?_⟩
    · rw [hzero]
      exact toRat_eq_zero_iff.mpr hz
    · have hemax : emax = 999999 := rfl
      simp only
      omega
  · have hten : (1 : ℚ) < 10 := by norm_num
    rw [abs_toRat] at hlt
    have hbound : (x.coeff : ℚ) < 10 ^ (prec : Int) := by
      have hle : (10 : ℚ) ^ ((prec : Int) + e) ≤ 10 ^ (prec : Int) * 10 ^ x.exp := by
        rw [← zpow_add₀ (by norm_num : (10 : ℚ) ≠ 0)]
        exact zpow_le_zpow_right₀ hten.le (by omega)
      exact lt_of_mul_lt_mul_right (hlt.trans_le hle) (ten_zpow_pos x.exp).le
    have hdigits : digitCount x.coeff ≤ prec := digitCount_le (by decide) (by exact_mod_cast hbound)
    have hpow : ((10 ^ (digitCount x.coeff - 1) : Nat) : ℚ) ≤ x.coeff := by exact_mod_cast pow_le_of_digitCount hz
    have hhigh : ((digitCount x.coeff - 1 : Nat) : Int) + x.exp < prec + e := by
      rw [← zpow_lt_zpow_iff_right₀ hten, zpow_add₀ (by norm_num : (10 : ℚ) ≠ 0), zpow_natCast]
      refine lt_of_le_of_lt ?_ hlt
      push_cast at hpow
      gcongr
    have hpos := digitCount_pos x.coeff
    have hetop : etop = 999972 := rfl
    refine ⟨x, ?_, rfl, hx⟩
    simp only [fix, hz, if_false]
    rw [if_neg (by omega), if_neg (by omega)]

/-- Numbers without a sign that are spelled down to an exponent, and that the precision holds in sum. -/
structure Fits (e : Int) (l : List Decimal) : Prop where
  range : etiny ≤ e ∧ e ≤ 0
  spelled : ∀ d ∈ l, e ≤ d.exp ∧ 0 ≤ d.toRat
  total : (l.map toRat).sum < (10 : ℚ) ^ ((prec : Int) + e)

theorem sum_exact {l : List Decimal} {t : Decimal} (he : etiny ≤ e ∧ e ≤ 0)
    (hl : ∀ d ∈ l, e ≤ d.exp ∧ 0 ≤ d.toRat) (ht : e ≤ t.exp ∧ 0 ≤ t.toRat)
    (hlt : t.toRat + (l.map toRat).sum < (10 : ℚ) ^ ((prec : Int) + e)) :
    ∃ r, sum l t = .ok r ∧ r.toRat = t.toRat + (l.map toRat).sum := by
  induction l generalizing t with
  | nil => exact ⟨t, rfl, by simp⟩
  | cons d l ih =>
    have hd := hl d List.mem_cons_self
    have hrest : 0 ≤ (l.map toRat).sum :=
      List.sum_nonneg fun x hx => by
        obtain ⟨y, hy, rfl⟩ := List.mem_map.mp hx
        exact (hl y (List.mem_cons_of_mem _ hy)).2
    simp only [List.map_cons, List.sum_cons] at hlt ⊢
    have habs : |t.toRat + d.toRat| < (10 : ℚ) ^ ((prec : Int) + e) := by
      rw [abs_of_nonneg (add_nonneg ht.2 hd.2)]
      linarith
    obtain ⟨u, hu, hut, hue⟩ := add_exact ht.1 hd.1 he habs
    obtain ⟨r, hr, hrt⟩ := ih (t := u) (fun x hx => hl x (List.mem_cons_of_mem _ hx))
      ⟨hue, hut ▸ add_nonneg ht.2 hd.2⟩ (by rw [hut]; linarith)
    refine ⟨r, ?_, by rw [hrt, hut]; ring⟩
    rw [sum, bind_eq_ok]
    exact ⟨u, hu, hr⟩

theorem Fits.sum {l : List Decimal} (h : Fits e l) : ∃ r, sum l 0 = .ok r ∧ r.toRat = (l.map toRat).sum := by
  obtain ⟨r, hr, ht⟩ := sum_exact h.range h.spelled (t := 0) ⟨h.range.2, toRat_zero.ge⟩
    (by rw [toRat_zero, zero_add]; exact h.total)
  exact ⟨r, hr, by rw [ht, toRat_zero, zero_add]⟩

end Sums

end Decimal
