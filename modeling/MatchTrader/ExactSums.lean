import MatchTrader.Decimals

/-! Sums of decimals that the context does not round: what counts is the value of the terms, not
their spelling. -/

namespace Decimal

variable {d r : Decimal} {e : Int}

theorem digits_lt {d : Decimal} (hc : d.coeff ≠ 0) (h : |d.toRat| < (10 : ℚ) ^ ((prec : Int) + e)) :
    (digitCount d.coeff : Int) + d.exp - prec ≤ e := by
  have hten : (1 : ℚ) < 10 := by norm_num
  have hpos := digitCount_pos d.coeff
  have hpow : ((10 ^ (digitCount d.coeff - 1) : Nat) : ℚ) ≤ d.coeff := by exact_mod_cast pow_le_of_digitCount hc
  have hhigh : ((digitCount d.coeff - 1 : Nat) : Int) + d.exp < prec + e := by
    rw [← zpow_lt_zpow_iff_right₀ hten, zpow_add₀ (by norm_num : (10 : ℚ) ≠ 0), zpow_natCast]
    refine lt_of_le_of_lt ?_ h
    rw [abs_toRat]
    push_cast at hpow
    gcongr
  omega

theorem roundOff_multiple (mode : Rounding) (m k : Nat) : roundOff mode (m * 10 ^ k) k = m := by
  have hpos : 0 < 10 ^ k := Nat.pow_pos (by norm_num)
  have hq : m * 10 ^ k / 10 ^ k = m := Nat.mul_div_cancel m hpos
  have hr : m * 10 ^ k % 10 ^ k = 0 := Nat.mul_mod_left m (10 ^ k)
  cases mode <;> simp [roundOff, hq, hr]

/-- A number is kept if twenty-eight digits reach down to a place that it has no digits below. -/
theorem fix_exact (he : etiny ≤ e ∧ e ≤ etop) {n : Int} (hn : d.toRat = n * (10 : ℚ) ^ e)
    (hlt : |d.toRat| < (10 : ℚ) ^ ((prec : Int) + e)) : ∃ r, fix d = .ok r ∧ r.toRat = d.toRat := by
  by_cases hc : d.coeff = 0
  · refine ⟨{ d with exp := min (max d.exp etiny) emax }, by rw [fix, if_pos hc], ?_⟩
    rw [toRat_eq_zero_iff.mpr hc]
    exact toRat_eq_zero_iff.mpr hc
  have hlow := digits_lt hc hlt
  let low := max ((digitCount d.coeff : Int) + d.exp - prec) etiny
  have hle : low ≤ e := max_le hlow he.1
  by_cases hx : d.exp < low
  · let k := (low - d.exp).toNat
    let m := n.natAbs * 10 ^ (e - low).toNat
    have hk : (10 : ℚ) ^ low = 10 ^ k * 10 ^ d.exp := ten_zpow_split hx.le
    have hm : d.coeff = m * 10 ^ k := by
      have habs : (d.coeff : ℚ) * 10 ^ d.exp = (m * 10 ^ k : Nat) * 10 ^ d.exp := by
        have hv : (d.coeff : ℚ) * 10 ^ d.exp = n.natAbs * 10 ^ e := by
          rw [← abs_toRat, hn, abs_mul, abs_of_pos (ten_zpow_pos e), Nat.cast_natAbs, Int.cast_abs]
        rw [hv, ten_zpow_split hle, hk]
        push_cast [m]
        ring
      exact_mod_cast mul_right_cancel₀ (ten_zpow_pos d.exp).ne' habs
    have hr : rescale .halfEven d low = ⟨d.neg, m, low⟩ := by
      rw [rescale, if_neg (not_le.mpr hx), hm]
      exact congrArg (Decimal.mk d.neg · low) (roundOff_multiple .halfEven m k)
    have hdigits : digitCount m ≤ prec := by
      refine digitCount_le (by decide) ?_
      have hlt' : d.coeff < 10 ^ (prec + k) := by
        refine (lt_pow_digitCount d.coeff).trans_le (Nat.pow_le_pow_right (by norm_num) ?_)
        omega
      rw [hm, pow_add] at hlt'
      exact lt_of_mul_lt_mul_right hlt' (Nat.zero_le _)
    have hval : (⟨d.neg, m, low⟩ : Decimal).toRat = d.toRat := by
      unfold toRat
      rw [hk, hm]
      push_cast
      ring
    refine ⟨⟨d.neg, m, low⟩, ?_, hval⟩
    have hlarge : ¬ ((digitCount d.coeff : Int) + d.exp - prec > etop) := by omega
    simp only [fix, if_neg hc, if_neg hlarge]
    rw [if_pos hx, hr]
    simp only [if_neg (not_lt.mpr hdigits)]
    rw [if_neg (by omega)]
  · refine ⟨d, ?_, rfl⟩
    simp only [fix, if_neg hc]
    rw [if_neg (by omega), if_neg hx]

/-- Twenty-eight digits hold the sum of the values down to the last place of each. -/
def Held (qs : List ℚ) : Prop :=
  ∃ e, etiny ≤ e ∧ e ≤ etop ∧ (∀ q ∈ qs, ∃ n : Int, q = n * (10 : ℚ) ^ e) ∧ qs.sum < (10 : ℚ) ^ ((prec : Int) + e)

/-- A sum is exact while twenty-eight digits hold each of the sums on the way. -/
theorem sum_run {l : List Decimal} {t : Decimal} (he : etiny ≤ e ∧ e ≤ etop)
    (hl : ∀ d ∈ l, ∃ n : Int, d.toRat = n * (10 : ℚ) ^ e) (ht : ∃ n : Int, t.toRat = n * (10 : ℚ) ^ e)
    (hlt : ∀ begun, begun <+: l → |t.toRat + (begun.map toRat).sum| < (10 : ℚ) ^ ((prec : Int) + e)) :
    ∃ r, sum l t = .ok r ∧ r.toRat = t.toRat + (l.map toRat).sum := by
  induction l generalizing t with
  | nil => exact ⟨t, rfl, by simp⟩
  | cons d l ih =>
    obtain ⟨n, hn⟩ := hl d List.mem_cons_self
    obtain ⟨m, hm⟩ := ht
    have hsum : (exactAdd t d).toRat = t.toRat + d.toRat := exactAdd_toRat t d
    have hmultiple : (exactAdd t d).toRat = (m + n : Int) * (10 : ℚ) ^ e := by
      rw [hsum, hm, hn]
      push_cast
      ring
    have habs : |(exactAdd t d).toRat| < (10 : ℚ) ^ ((prec : Int) + e) := by
      have hone := hlt [d] (List.prefix_append [d] l)
      rwa [hsum, ← add_zero (t.toRat + d.toRat), add_assoc]
    obtain ⟨u, hu, hut⟩ := fix_exact he hmultiple habs
    obtain ⟨r, hr, hrt⟩ := ih (t := u) (fun x hx => hl x (List.mem_cons_of_mem _ hx)) ⟨m + n, hut.trans hmultiple⟩ (by
      intro begun hbegun
      have hmore := hlt (d :: begun) ((List.prefix_cons_inj d).mpr hbegun)
      rwa [List.map_cons, List.sum_cons, ← add_assoc, ← hsum, ← hut] at hmore)
    refine ⟨r, ?_, by rw [hrt, hut, hsum, List.map_cons, List.sum_cons, add_assoc]⟩
    rw [sum, bind_eq_ok]
    exact ⟨u, hu, hr⟩

/-- The same for values of either sign, with every sum on the way. -/
def HeldRun (qs : List ℚ) : Prop := ∃ e, etiny ≤ e ∧ e ≤ etop ∧ (∀ q ∈ qs, ∃ n : Int, q = n * (10 : ℚ) ^ e)
  ∧ ∀ begun, begun <+: qs → |begun.sum| < (10 : ℚ) ^ ((prec : Int) + e)

theorem HeldRun.sum {l : List Decimal} (h : HeldRun (l.map toRat)) :
    ∃ r, Decimal.sum l 0 = .ok r ∧ r.toRat = (l.map toRat).sum := by
  obtain ⟨e, hlow, hhigh, hplace, hrun⟩ := h
  have hzero : ∃ n : Int, (0 : Decimal).toRat = n * (10 : ℚ) ^ e := ⟨0, by rw [toRat_zero, Int.cast_zero, zero_mul]⟩
  have hbound : ∀ begun, begun <+: l → |(0 : Decimal).toRat + (begun.map toRat).sum| < (10 : ℚ) ^ ((prec : Int) + e) := by
    intro begun hbegun
    rw [toRat_zero, zero_add]
    exact hrun _ (hbegun.map toRat)
  obtain ⟨r, hr, ht⟩ := sum_run ⟨hlow, hhigh⟩ (fun d hd => hplace _ (List.mem_map_of_mem hd)) hzero hbound
  exact ⟨r, hr, by rw [ht, toRat_zero, zero_add]⟩

theorem Held.sum {l : List Decimal} (h : Held (l.map toRat)) (hn : ∀ d ∈ l, 0 ≤ d.toRat) :
    ∃ r, Decimal.sum l 0 = .ok r ∧ r.toRat = (l.map toRat).sum := by
  obtain ⟨e, hlow, hhigh, hplace, htotal⟩ := h
  refine HeldRun.sum ⟨e, hlow, hhigh, hplace, fun begun hbegun => lt_of_le_of_lt ?_ htotal⟩
  have hpos : ∀ q ∈ l.map toRat, 0 ≤ q := by
    intro q hq
    obtain ⟨d, hd, rfl⟩ := List.mem_map.mp hq
    exact hn d hd
  rw [abs_of_nonneg (List.sum_nonneg fun q hq => hpos q (hbegun.subset hq))]
  exact hbegun.sublist.sum_le_sum hpos

/-- A part of terms that are held is held. -/
theorem Held.sublist {qs ps : List ℚ} (h : Held qs) (hs : ps.Sublist qs) (hn : ∀ q ∈ qs, 0 ≤ q) : Held ps := by
  obtain ⟨e, hlow, hhigh, hplace, htotal⟩ := h
  refine ⟨e, hlow, hhigh, fun q hq => hplace q (hs.subset hq), lt_of_le_of_lt ?_ htotal⟩
  exact hs.sum_le_sum hn

theorem Held.perm {qs ps : List ℚ} (h : Held qs) (hp : qs.Perm ps) : Held ps := by
  obtain ⟨e, hlow, hhigh, hplace, htotal⟩ := h
  exact ⟨e, hlow, hhigh, fun q hq => hplace q (hp.mem_iff.mpr hq), hp.sum_eq ▸ htotal⟩

end Decimal
