import MatchTrader.StopLimitRoutes
import MatchTrader.PaperLifecycles

/-! Where paper plans are filled: never worse than their limit, and a stop-limit plan only after
its stop price was reached. -/

namespace MatchTrader

theorem Number.le_self {a b : Number} {c : Bool} (h : Number.le a b = .ok c) : Number.le a a = .ok true ∧ Number.le b b = .ok true := by
  cases a <;> cases b <;> simp_all [Number.le, Decimal.le_refl]

namespace PaperSettings

variable {t : PaperSettings} {p : PaperPlan} {plan : StopLimitPlan}

theorem stopPlan_spec (h : t.stopPlan p = .ok plan) :
    plan.orderSide = p.side ∧ p.entry = .finite plan.stopPrice ∧ p.limit = .finite plan.limitPrice := StopLimitPlan.validate_spec h

end PaperSettings

namespace PaperPlan

/-- The quote reached the stop price of the plan. -/
def Touched (p : PaperPlan) (q : BidAsk) : Prop := ∃ stop, p.entry = .finite stop ∧ StopLimit.Reached p.side stop q

/-- A price no worse than the limit, on a quote no worse than the limit. -/
def Within (side : Side) (limit price : Number) (q : BidAsk) : Prop :=
  if side = .buy then price.le limit = .ok true ∧ Number.le (.finite q.ask) limit = .ok true
  else limit.le price = .ok true ∧ limit.le (.finite q.bid) = .ok true

/-- The fill of a plan was recorded on one of the quotes, by which its stop price had been reached. -/
def FilledBy (qs : List PaperQuote) (p : PaperPlan) (price : Number) : Prop :=
  ∃ before q after, qs = before ++ q :: after ∧ p.fillBid = some q.bid ∧ p.fillAsk = some q.ask
    ∧ Within p.side p.limit price q.toBidAsk ∧ (p.kind = .stopLimit → ∃ u ∈ before ++ [q], p.Touched u.toBidAsk)

/-- What the quotes so far explain of a plan. -/
structure Recorded (qs : List PaperQuote) (p : PaperPlan) : Prop where
  unfilled : p.state = .armed ∨ p.state = .working → p.fillPrice = none
  limit : p.state = .armed → p.kind = .limit → p.limit = p.entry
  touched : p.state = .working → ∃ q ∈ qs, p.Touched q.toBidAsk
  filled : ∀ price, p.fillPrice = some price → FilledBy qs p price

variable {t : PaperSettings} {p p' : PaperPlan} {qs : List PaperQuote} {q : PaperQuote} {price : Number}

theorem within_of_reaches {level : Number} (h : p.reaches q.toBidAsk level = .ok true) : Within p.side level level q.toBidAsk := by
  unfold reaches at h
  unfold Within
  split
  · next hs =>
    rw [if_pos hs] at h
    exact ⟨(Number.le_self h).2, h⟩
  · next hs =>
    rw [if_neg hs] at h
    exact ⟨(Number.le_self h).1, h⟩

theorem Filling.within [PaperHost] (h : Filling t q p price) (hl : p.state = .armed → p.kind = .limit → p.limit = p.entry) :
    Within p.side p.limit price q.toBidAsk := by
  cases h with
  | limit hs hk h =>
    rw [hl hs hk]
    exact within_of_reaches h
  | @market plan d price hs hk hplan hd hm hp =>
    obtain ⟨hside, -, hlimit⟩ := PaperSettings.stopPlan_spec hplan
    obtain ⟨-, hin, hprice⟩ := StopLimit.decide_market hd hm
    obtain rfl := Option.some.inj (hp.symm.trans hprice)
    rw [hside] at hin
    rw [hlimit, hside]
    unfold StopLimit.Inside at hin
    unfold Within StopLimit.triggerPrice
    split at hin <;> simp_all
  | resting hs h => exact within_of_reaches h

theorem Touched.congr {u : BidAsk} (h : p.Touched u) (hs : Same p p') (he : p'.entry = p.entry) : p'.Touched u := by
  obtain ⟨stop, hstop, hr⟩ := h
  exact ⟨stop, he.trans hstop, hs.side ▸ hr⟩

theorem FilledBy.congr (h : FilledBy qs p price) (hs : Same p p') (ht : p'.terms = p.terms) (hb : p'.fillBid = p.fillBid)
    (ha : p'.fillAsk = p.fillAsk) : FilledBy qs p' price := by
  obtain ⟨before, q, after, hqs, hbid, hask, hw, htouched⟩ := h
  have hlimit := congrArg Terms.limit ht
  simp only [terms] at hlimit
  refine ⟨before, q, after, hqs, hb.trans hbid, ha.trans hask, ?_, fun hk => ?_⟩
  · rw [hs.side, hlimit]
    exact hw
  · obtain ⟨u, hu, hr⟩ := htouched (hs.kind.symm.trans hk)
    exact ⟨u, hu, hr.congr hs (congrArg Terms.entry ht)⟩

theorem FilledBy.mono (h : FilledBy qs p price) (more : List PaperQuote) : FilledBy (qs ++ more) p price := by
  obtain ⟨before, q, after, rfl, hw⟩ := h
  exact ⟨before, q, after ++ more, by simp, hw⟩

theorem Recorded.mono (h : Recorded qs p) (more : List PaperQuote) : Recorded (qs ++ more) p := by
  refine ⟨h.unfilled, h.limit, fun hw => ?_, fun price hp => (h.filled price hp).mono more⟩
  obtain ⟨q, hq, hr⟩ := h.touched hw
  exact ⟨q, List.mem_append_left _ hq, hr⟩

/-- A plan that waits no more has its fill to explain, if any. -/
theorem recorded_of_over (ha : p.state ≠ .armed) (hw : p.state ≠ .working)
    (hf : ∀ price, p.fillPrice = some price → FilledBy qs p price) : Recorded qs p :=
  ⟨fun h => h.elim (absurd · ha) (absurd · hw), fun h => absurd h ha, fun h => absurd h hw, hf⟩

theorem recorded_of_none (hf : p.fillPrice = none) (ha : p.state ≠ .armed) (hw : p.state ≠ .working) : Recorded qs p :=
  recorded_of_over ha hw fun price hp => by rw [hf] at hp; cases hp

theorem Recorded.turn [PaperHost] {u : Option PaperQuote} (h : Recorded (qs ++ u.toList) p) (hs : Same p p') (ht : Turn t u p p') :
    Recorded (qs ++ u.toList) p' := by
  cases ht with
  | kept hr hterms =>
    simp only [record, Record.mk.injEq] at hr
    have hentry := congrArg Terms.entry hterms
    have hlimit := congrArg Terms.limit hterms
    simp only [terms] at hentry hlimit
    refine ⟨fun hw => ?_, fun hw hk => ?_, fun hw => ?_, fun price hp => ?_⟩
    · rw [hr.2.2.1]
      exact h.unfilled (hr.1 ▸ hw)
    · rw [hentry, hlimit]
      exact h.limit (hr.1 ▸ hw) (hs.kind ▸ hk)
    · obtain ⟨q, hq, hr'⟩ := h.touched (hr.1 ▸ hw)
      exact ⟨q, hq, hr'.congr hs hentry⟩
    · exact (h.filled price (hr.2.2.1 ▸ hp)).congr hs hterms hr.2.2.2.1 hr.2.2.2.2.1
  | repriced ha hr hl =>
    simp only [record, Record.mk.injEq] at hr
    have hnone : p'.fillPrice = none := hr.2.2.1.trans (h.unfilled (Or.inl ha))
    refine ⟨fun _ => hnone, fun hw hk => ?_, fun hw => ?_, fun price hp => ?_⟩
    · exact hl (hs.kind ▸ hk) (h.limit ha (hs.kind ▸ hk))
    · rw [hr.1, ha] at hw
      cases hw
    · rw [hnone] at hp
      cases hp
  | ended ha hs' hf hl =>
    refine recorded_of_none (hf.trans (h.unfilled ha)) ?_ ?_ <;> rcases hs' with hs' | hs' | hs' <;> rw [hs'] <;> decide
  | @triggered quote plan d hq ha hk hplan hd hm hs' hf hterms =>
    subst hq
    obtain ⟨hside, hentry, -⟩ := PaperSettings.stopPlan_spec hplan
    have hnone : p'.fillPrice = none := hf.trans (h.unfilled (Or.inl ha))
    refine ⟨fun _ => hnone, fun hw => ?_, fun _ => ⟨quote, by simp, ?_⟩, fun price hp => ?_⟩
    · rw [hs'] at hw
      cases hw
    · have htouched : p.Touched quote.toBidAsk :=
        ⟨plan.stopPrice, hentry, hside ▸ StopLimit.decide_reached hd (by rw [hm]; decide)⟩
      exact htouched.congr hs (congrArg Terms.entry hterms)
    · rw [hnone] at hp
      cases hp
  | @filled quote price hq hfill hs' hp hb ha hterms =>
    subst hq
    have hlimit := congrArg Terms.limit hterms
    simp only [terms] at hlimit
    refine recorded_of_over (by rw [hs']; decide) (by rw [hs']; decide) fun price' hp' => ?_
    obtain rfl := Option.some.inj (hp.symm.trans hp')
    refine ⟨qs, quote, [], rfl, hb, ha, ?_, fun hk => ?_⟩
    · rw [hs.side, hlimit]
      exact hfill.within h.limit
    · have hk : p.kind = .stopLimit := hs.kind.symm.trans hk
      have htouched : ∃ u ∈ qs ++ [quote], p.Touched u.toBidAsk := by
        cases hfill with
        | limit _ hk' _ =>
          rw [hk] at hk'
          cases hk'
        | market _ _ hplan hd hm _ =>
          obtain ⟨hside, hentry, -⟩ := PaperSettings.stopPlan_spec hplan
          exact ⟨quote, by simp, _, hentry, hside ▸ StopLimit.decide_reached hd (by rw [hm]; decide)⟩
        | resting hw _ => exact h.touched hw
      obtain ⟨u, hu, hr⟩ := htouched
      exact ⟨u, hu, hr.congr hs (congrArg Terms.entry hterms)⟩
  | leaving _ hs' hf hb ha hterms =>
    exact recorded_of_over (by rw [hs']; decide) (by rw [hs']; decide) fun price hp =>
      (h.filled price (hf ▸ hp)).congr hs hterms hb ha
  | closed _ hs' hf hb ha hterms _ =>
    exact recorded_of_over (by rw [hs']; decide) (by rw [hs']; decide) fun price hp =>
      (h.filled price (hf ▸ hp)).congr hs hterms hb ha

end PaperPlan

namespace PaperBook

variable [PaperHost] {t : PaperSettings} {b : PaperBook} {calls : List (PaperCall × Except Exc (List PaperEvent))}

/-- The quotes of the calls, in order. -/
def quotes (calls : List (PaperCall × Except Exc (List PaperEvent))) : List PaperQuote := calls.filterMap fun c => c.1.quote?

omit [PaperHost] in
theorem quotes_append (c : PaperCall) (r : Except Exc (List PaperEvent)) : quotes (calls ++ [(c, r)]) = quotes calls ++ c.quote?.toList := by
  unfold quotes
  rw [List.filterMap_append]
  cases h : c.quote? <;> simp [h]

theorem Run.recorded (hr : Run t {} calls b) : ∀ p ∈ b.all, p.Recorded (quotes calls) := by
  induction hr with
  | nil => intro p hp; simp [all, lives] at hp
  | @call v calls hr c ih =>
    have hv := wellKept_empty.run hr
    rw [quotes_append]
    refine (steps_invariant (steps_call hv) hv (I := fun u => ∀ p ∈ u.all, p.Recorded (quotes calls ++ c.quote?.toList))
      (fun p hp => (ih p hp).mono _) fun u u' hu h hs => ?_).2
    refine step_all hu hs h (fun p p' _ hsame ht _ hp => hp.turn hsame ht) (fun p hheld hf => ?_) fun p _ harmed hf hl _ => ?_
    · exact PaperPlan.recorded_of_none hf (by rw [hheld]; decide) (by rw [hheld]; decide)
    · refine ⟨fun _ => hf, fun _ => hl, fun hw => ?_, fun price hp => ?_⟩
      · rw [harmed] at hw
        cases hw
      · rw [hf] at hp
        cases hp

/-- Whatever rows and quotes come: a fill is no worse than the limit that was and stays in force,
on a quote no worse than it, and a stop-limit plan is filled when a quote reached its stop price
before or then. A market order goes out between the stop price and the limit price only, and an
order rests beyond the limit price only, no closer to the market than the stops level by the
computed distance. -/
theorem fills_never_chase (hr : Run t {} calls b) :
    (∀ p ∈ b.all, ∀ price, p.fillPrice = some price → PaperPlan.FilledBy (quotes calls) p price
      ∧ ∀ more b', Run t b more b' → ∃ p' ∈ b'.all, p'.ref = p.ref ∧ p'.limit = p.limit ∧ p'.fillPrice = some price)
    ∧ ∀ plan q level d, StopLimit.decide plan q level = .ok d →
      (d.route = .market → StopLimit.Reached plan.orderSide plan.stopPrice q ∧ StopLimit.Inside plan.orderSide plan.limitPrice q)
      ∧ (d.route = .restLimit → ¬ StopLimit.Inside plan.orderSide plan.limitPrice q
        ∧ ∃ distance, StopLimit.gap plan.orderSide plan.limitPrice q = .ok distance ∧ level ≤ distance) := by
  have hb := wellKept_empty.run hr
  refine ⟨fun p hp price hf => ⟨(hr.recorded p hp).filled price hf, fun more b' hmore => ?_⟩,
    fun plan q level d hd => ⟨fun hm => ?_, fun hm => ?_⟩⟩
  · obtain ⟨p', hp', hfollows⟩ := (Run.later hb hmore).2 p hp
    have hready : p.state.terminal = true ∨ p.state = .filled := by
      have hunfilled := (hr.recorded p hp).unfilled
      rw [hf] at hunfilled
      cases hs : p.state <;> simp_all [PlanState.terminal]
    refine ⟨p', hp', hfollows.same.ref, ?_⟩
    rcases hready with ht | hs
    · rw [hfollows.ended ht]
      exact ⟨rfl, hf⟩
    · obtain ⟨hterms, hfill⟩ := hfollows.frozen hs
      exact ⟨congrArg PaperPlan.Terms.limit hterms, hfill.trans hf⟩
  · obtain ⟨hreached, hin, -⟩ := StopLimit.decide_market hd hm
    exact ⟨hreached, hin⟩
  · obtain ⟨-, hout, hgap⟩ := StopLimit.decide_restLimit hd hm
    exact ⟨hout, hgap⟩

end PaperBook

section Example

attribute [local instance] samplePaperHost

theorem fills_never_chase_round : ∃ p ∈ (PaperBook.calls samplePaper sampleRound {}).2.all, p.fillPrice = some (.finite (.ofNat 100))
    ∧ p.FilledBy (PaperBook.quotes (PaperBook.calls samplePaper sampleRound {}).1) (.finite (.ofNat 100)) := by
  have hany : (PaperBook.calls samplePaper sampleRound {}).2.all.any (fun p => p.fillPrice = some (.finite (.ofNat 100))) = true := by
    decide +kernel
  obtain ⟨p, hp, hf⟩ := List.any_eq_true.mp hany
  have hf := of_decide_eq_true hf
  have hlaw := PaperBook.fills_never_chase (PaperBook.run_calls (t := samplePaper) (b := {}) sampleRound)
  exact ⟨p, hp, hf, (hlaw.1 p hp _ hf).1⟩

/-- An ask of thirty digits is closer to the limit than the stops level, and the rounded distance is not. -/
theorem rests_inside_stops_level : ∃ (plan : StopLimitPlan) (q : BidAsk) (level : Decimal) (d : StopLimit.Decision),
    StopLimit.decide plan q level = .ok d ∧ d.route = .restLimit ∧ plan.orderSide = .buy
      ∧ q.ask.toRat - plan.limitPrice.toRat < level.toRat := by
  let plan : StopLimitPlan :=
    { instrument := "BTCUSD", orderSide := .buy, volume := .ofNat 1, stopPrice := .ofNat 1, limitPrice := .ofNat 1 }
  let q : BidAsk := ⟨.ofNat 1, ⟨false, 199999999999999999999999999999, -29⟩⟩
  have hroute : (StopLimit.decide plan q (.ofNat 1)).toOption.any (fun d => d.route = .restLimit) = true := by decide +kernel
  obtain ⟨d, hd, hr⟩ := exists_ok hroute
  refine ⟨plan, q, .ofNat 1, d, hd, of_decide_eq_true hr, rfl, ?_⟩
  rw [← Decimal.exactSub_toRat, ← Decimal.lt_iff]
  decide +kernel

end Example

end MatchTrader
