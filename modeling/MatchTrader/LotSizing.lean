import MatchTrader.LivePlans

/-! Sizing by risk. The engine and the paper stop-limit runner both divide a risk by what one
unit of size loses between the entry and the stop, and cut the quotient off at the exponent
of the volume step. That gives whole steps for steps of one digit one only. -/

namespace MatchTrader

open Durable

namespace PaperStopLimit

/-- Lots such that a stop-out loses the risk, floored to the volume step and clamped. -/
def sizeLots (risk entry sl : Decimal) (contractSize : Decimal := .ofNat 1) (step : Decimal := ⟨false, 1, -2⟩)
    (minimum : Decimal := ⟨false, 1, -2⟩) (maximum : Decimal := .ofNat 50) : Except Exc Decimal := do
  let distance ← arith (do (← entry.sub sl).abs)
  raiseIf (distance ≤ 0) (.value "Stop distance must be positive")
  let lots ← arith (do (← risk.div (← distance.mul contractSize)).quantize .down step)
  let lots := if lots < minimum then minimum else lots
  return if maximum < lots then maximum else lots

end PaperStopLimit

/-- The size is the largest multiple of the step that does not exceed the ratio. -/
structure Floored (step : Decimal) (ratio : ℚ) (size : Decimal) : Prop where
  multiple : ∃ n : Int, size.toRat = n * step.toRat
  le : size.toRat ≤ ratio
  largest : ∀ n : Int, n * step.toRat ≤ ratio → n * step.toRat ≤ size.toRat

/-- The limits check finds the size on the step. -/
def OnStep (step size : Decimal) : Prop := ∃ r, size.mod step = .ok r ∧ r.isZero = true

/-- The whole units of the step's last digit that are in the quotient make up whole steps, and
the rounding of the quotient does not take it across a step. -/
def Even (step quotient : Decimal) (ratio : ℚ) : Prop :=
  (step.coeff : Int) ∣ ⌊quotient.toRat / 10 ^ step.exp⌋ ∧ ⌊quotient.toRat / step.toRat⌋ = ⌊ratio / step.toRat⌋

/-- A size before it is clamped, with the numbers it is made of. -/
structure Sized (risk entry stop contract step distance quotient size : Decimal) : Prop where
  gap : ∃ gap, entry.sub stop = .ok gap ∧ gap.abs = .ok distance
  distance_pos : 0 < distance
  ratio : ∃ product, distance.mul contract = .ok product ∧ risk.div product = .ok quotient
  cut : quotient.quantize .down step = .ok size

section Floors

variable {step : Decimal} {ratio : ℚ} {size : Decimal}

theorem floored_iff (hs : 0 < step.toRat) : Floored step ratio size ↔ size.toRat = ⌊ratio / step.toRat⌋ * step.toRat := by
  have hle (n : Int) : n * step.toRat ≤ ratio ↔ n ≤ ⌊ratio / step.toRat⌋ := by rw [Int.le_floor, le_div_iff₀ hs]
  constructor
  · rintro ⟨⟨n, hn⟩, hr, hl⟩
    have hn' : n ≤ ⌊ratio / step.toRat⌋ := (hle n).mp (hn ▸ hr)
    have hn'' : ((⌊ratio / step.toRat⌋ : Int) : ℚ) * step.toRat ≤ n * step.toRat := hn ▸ hl _ ((hle _).mpr le_rfl)
    rw [mul_le_mul_iff_left₀ hs, Int.cast_le] at hn''
    rw [hn, le_antisymm hn' hn'']
  · intro h
    refine ⟨⟨_, h⟩, h ▸ (hle _).mpr le_rfl, fun n hn => ?_⟩
    rw [h, mul_le_mul_iff_left₀ hs, Int.cast_le]
    exact (hle n).mp hn

/-- What is cut off at the step's exponent is the floor just when the units left make up whole steps. -/
theorem floored_iff_even {quotient : Decimal} (hs : 0 < step.toRat) (hn : quotient.neg = false)
    (h : quotient.quantize .down step = .ok size) : Floored step ratio size ↔ Even step quotient ratio := by
  have hu := Decimal.ten_zpow_pos step.exp
  have hk : (0 : Int) < step.coeff := by exact_mod_cast (Decimal.of_pos hs).2
  have hstep := Decimal.toRat_of_pos hs
  have hdiv : ⌊quotient.toRat / step.toRat⌋ = ⌊quotient.toRat / 10 ^ step.exp⌋ / step.coeff := by
    rw [← Int.floor_div_natCast, hstep, div_div, mul_comm]
  rw [floored_iff hs, Decimal.quantize_down hn h, Even, hdiv]
  constructor
  · intro he
    have hint : ⌊quotient.toRat / 10 ^ step.exp⌋ = ⌊ratio / step.toRat⌋ * step.coeff := by
      have hq : ((⌊quotient.toRat / 10 ^ step.exp⌋ : Int) : ℚ) = ⌊ratio / step.toRat⌋ * step.coeff := by
        refine mul_right_cancel₀ hu.ne' ?_
        rw [he, mul_assoc, ← hstep]
      exact_mod_cast hq
    rw [hint]
    exact ⟨dvd_mul_left _ _, Int.mul_ediv_cancel _ hk.ne'⟩
  · rintro ⟨hd, he⟩
    obtain ⟨n, hn⟩ := hd
    rw [hn, Int.mul_ediv_cancel_left _ hk.ne'] at he
    rw [hn, ← he, hstep]
    push_cast
    ring

/-- A size cut off at the step's exponent passes the check of the limits when it is made of whole steps. -/
theorem Floored.onStep {quotient : Decimal} (hs : 0 < step.toRat) (h : quotient.quantize .down step = .ok size)
    (hf : Floored step ratio size) : OnStep step size := by
  obtain ⟨he, hneg, _⟩ := Decimal.quantize_ok h
  obtain ⟨n, hn⟩ := hf.multiple
  have hu := Decimal.ten_zpow_pos step.exp
  refine Decimal.mod_of_dvd he (Decimal.of_pos hs).2.ne' (Decimal.quantize_digits h) ?_
  rw [Decimal.toRat_of_pos hs, ← mul_assoc, Decimal.toRat, he] at hn
  have hint : (if size.neg then -1 else 1) * (size.coeff : Int) = n * step.coeff := by
    exact_mod_cast mul_right_cancel₀ hu.ne' hn
  rw [← Int.natCast_dvd_natCast]
  split at hint
  · exact ⟨-n, by linarith⟩
  · exact ⟨n, by linarith⟩

end Floors

section Sizes

variable {risk entry stop contract step distance quotient size : Decimal}

theorem Sized.unsigned (h : Sized risk entry stop contract step distance quotient size) (hr : risk.neg = false)
    (hc : contract.neg = false) : quotient.neg = false := by
  obtain ⟨gap, _, hgap⟩ := h.gap
  obtain ⟨product, hp, hq⟩ := h.ratio
  rw [Decimal.div_sign hq, Decimal.mul_sign hp, Decimal.abs_sign hgap, hr, hc]
  rfl

/-- Whatever the ratio that is meant, the size is its floor in whole steps, and passes the check of the limits, just
when the units in the quotient are even. -/
theorem Sized.floored_iff {ratio : ℚ} (h : Sized risk entry stop contract step distance quotient size)
    (hr : risk.neg = false) (hc : contract.neg = false) (hs : 0 < step) :
    Floored step ratio size ∧ OnStep step size ↔ Even step quotient ratio := by
  rw [Decimal.pos_iff] at hs
  rw [← floored_iff_even hs (h.unsigned hr hc) h.cut]
  exact ⟨And.left, fun hf => ⟨hf, hf.onStep hs h.cut⟩⟩

end Sizes

section Functions

variable {lane : Lane} {m : SymbolMapping} {s : Signal} {info : Instrument} {equity v : Decimal}

end Functions

section Bound

variable [Host] {symbols : SymbolMap} {s : Signal} {c : Context} {p : OrderPlan} {w : World}
  {env : Answers}

omit [Host] in
theorem Bracketed.apart {side : String} {entry sl tp : Decimal} (h : Bracketed side entry sl tp)
    (hs : side = "BUY" ∨ side = "SELL") : 0 < |entry.toRat - sl.toRat| := by
  rw [abs_pos, sub_ne_zero]
  rcases hs with hs | hs
  · exact (Decimal.lt_iff.mp (h.1 hs).1).ne'
  · exact (Decimal.lt_iff.mp (h.2 hs).2).ne

end Bound

section Sample

attribute [local instance] sampleHost

end Sample

end MatchTrader
