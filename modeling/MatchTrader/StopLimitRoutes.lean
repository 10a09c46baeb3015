import MatchTrader.Decimals
import MatchTrader.StopLimit

/-! Where a quote must stand for each route of a stop-limit plan. -/

namespace Decimal

variable {a b d r : Decimal}

theorem le_refl (d : Decimal) : d ≤ d := le_iff.mpr le_rfl

theorem flip_toRat (d : Decimal) : d.flip.toRat = -d.toRat := by
  unfold toRat flip
  cases d.neg <;> simp

theorem exactSub_toRat (a b : Decimal) : (exactAdd a b.flip).toRat = a.toRat - b.toRat := by
  rw [exactAdd_toRat, flip_toRat, sub_eq_add_neg]

/-- Rounding keeps the sign of a difference. -/
theorem sub_nonneg (hlt : b < a) (h : sub a b = .ok r) : 0 ≤ r.toRat := by
  have hpos : 0 < (exactAdd a b.flip).toRat := by
    rw [exactSub_toRat]
    linarith [lt_iff.mp hlt]
  exact toRat_nonneg ((fix_sign h).trans (of_pos hpos).1)

end Decimal

namespace MatchTrader

namespace StopLimit

variable {side : Side} {plan : StopLimitPlan} {q : BidAsk} {level market distance limit : Decimal} {d : Decision}

/-- The price at which the plan would be executed has reached its stop price. -/
def Reached (side : Side) (stop : Decimal) (q : BidAsk) : Prop := if side = .buy then stop ≤ q.ask else q.bid ≤ stop

/-- The plan would be executed at its limit price or better. -/
def Inside (side : Side) (limit : Decimal) (q : BidAsk) : Prop := if side = .buy then q.ask ≤ limit else limit ≤ q.bid

/-- How far beyond the limit price the market is, in the arithmetic of the interpreter. -/
def gap (side : Side) (limit : Decimal) (q : BidAsk) : Except Decimal.Signal Decimal :=
  if side = .buy then q.ask.sub limit else limit.sub q.bid

instance : Decidable (Reached side limit q) := by unfold Reached; infer_instance
instance : Decidable (Inside side limit q) := by unfold Inside; infer_instance

theorem gap_nonneg (hout : ¬ Inside side limit q) (h : gap side limit q = .ok distance) : 0 ≤ distance.toRat := by
  unfold Inside at hout
  unfold gap at h
  split at h
  · next hs =>
    rw [if_pos hs] at hout
    exact Decimal.sub_nonneg hout h
  · next hs =>
    rw [if_neg hs] at hout
    exact Decimal.sub_nonneg hout h

/-- The decision on a quote that reached the stop price, the same for both sides. -/
theorem decide_spec (h : decide plan q level = .ok d) :
    d.route = .wait ∨ Reached plan.orderSide plan.stopPrice q ∧ ∃ distance, gap plan.orderSide plan.limitPrice q = .ok distance
      ∧ d = triggered plan (triggerPrice plan.orderSide q) (Inside plan.orderSide plan.limitPrice q) distance level := by
  unfold decide at h
  dsimp only at h
  split at h
  · next hs =>
    have hmarket : triggerPrice plan.orderSide q = q.ask := if_pos hs
    split at h
    · obtain rfl := Except.ok.inj h
      exact Or.inl rfl
    · next hreached =>
      rw [hmarket] at h hreached
      refine Or.inr ⟨?_, ?_⟩
      · rw [Reached, if_pos hs]
        exact not_not.mp hreached
      · simp only [gap, Inside, hs, if_true]
        cases hgap : q.ask.sub plan.limitPrice with
        | error s => rw [hgap] at h; cases h
        | ok distance =>
          rw [hgap] at h
          exact ⟨distance, rfl, (Except.ok.inj h).symm⟩
  · next hs =>
    have hmarket : triggerPrice plan.orderSide q = q.bid := if_neg hs
    split at h
    · obtain rfl := Except.ok.inj h
      exact Or.inl rfl
    · next hreached =>
      rw [hmarket] at h hreached
      refine Or.inr ⟨?_, ?_⟩
      · rw [Reached, if_neg hs]
        exact not_not.mp hreached
      · simp only [gap, Inside, if_neg hs, hmarket]
        cases hgap : plan.limitPrice.sub q.bid with
        | error s => rw [hgap] at h; cases h
        | ok distance =>
          rw [hgap] at h
          exact ⟨distance, rfl, (Except.ok.inj h).symm⟩

theorem decide_reached (h : decide plan q level = .ok d) (hr : d.route ≠ .wait) : Reached plan.orderSide plan.stopPrice q :=
  (decide_spec h).elim (absurd · hr) And.left

/-- A market order is sent between the stop price and the limit price only, and at the quote. -/
theorem decide_market (h : decide plan q level = .ok d) (hm : d.route = .market) :
    Reached plan.orderSide plan.stopPrice q ∧ Inside plan.orderSide plan.limitPrice q
      ∧ d.price = some (triggerPrice plan.orderSide q) := by
  rcases decide_spec h with hw | ⟨hreached, distance, -, rfl⟩
  · rw [hm] at hw
    cases hw
  · refine ⟨hreached, ?_⟩
    unfold triggered at hm ⊢
    split at hm
    · next hin =>
      rw [if_pos hin]
      exact ⟨of_decide_eq_true hin, rfl⟩
    · split at hm <;> cases hm

/-- A limit order rests beyond the limit price only, and no closer than the stops level. -/
theorem decide_restLimit (h : decide plan q level = .ok d) (hm : d.route = .restLimit) :
    Reached plan.orderSide plan.stopPrice q ∧ ¬ Inside plan.orderSide plan.limitPrice q
      ∧ ∃ distance, gap plan.orderSide plan.limitPrice q = .ok distance ∧ level ≤ distance := by
  rcases decide_spec h with hw | ⟨hreached, distance, hgap, rfl⟩
  · rw [hm] at hw
    cases hw
  · unfold triggered at hm
    split at hm
    · cases hm
    · next hout =>
      have hout : ¬ Inside plan.orderSide plan.limitPrice q := fun hin => hout (decide_eq_true hin)
      refine ⟨hreached, hout, distance, hgap, ?_⟩
      split at hm
      · cases hm
      · next hfar =>
        by_cases hz : level.isZero = true
        · rw [Decimal.le_iff, Decimal.isZero_iff.mp hz]
          exact gap_nonneg hout hgap
        · exact not_not.mp fun hlt => hfar ⟨eq_false_of_ne_true hz, hlt⟩

end StopLimit

namespace StopLimitPlan

variable {instrument : String} {side : Side} {volume stop limit sl tp : Number} {plan : StopLimitPlan}

theorem positive_eq {field : String} {n : Number} {v : { d : Decimal // 0 < d }} (h : positive field n = .ok v) :
    n = .finite v.1 := by
  unfold positive at h
  split at h
  · split at h
    · exact congrArg Number.finite (congrArg Subtype.val (Except.ok.inj h))
    · cases h
  · cases h

theorem validate_spec (h : validate instrument side volume stop limit sl tp = .ok plan) :
    plan.orderSide = side ∧ stop = .finite plan.stopPrice ∧ limit = .finite plan.limitPrice := by
  unfold validate at h
  obtain ⟨v, -, h⟩ := bind_eq_ok.mp h
  obtain ⟨s, hstop, h⟩ := bind_eq_ok.mp h
  obtain ⟨l, hlimit, h⟩ := bind_eq_ok.mp h
  obtain ⟨a, -, h⟩ := bind_eq_ok.mp h
  obtain ⟨b, -, h⟩ := bind_eq_ok.mp h
  split at h
  · cases h
  · split at h
    · cases h
    · split at h
      · cases h
      · obtain rfl := Except.ok.inj h
        exact ⟨rfl, positive_eq hstop, positive_eq hlimit⟩

end StopLimitPlan

end MatchTrader
