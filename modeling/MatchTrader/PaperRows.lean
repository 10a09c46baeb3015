import MatchTrader.PaperFills

/-! When rows and quotes leave a paper book sound: a modified row that reaches an armed plan must
carry a bracket that the plan can be moved to, and the arithmetic must stay within the decimals. -/

namespace MatchTrader

theorem StopLimit.decide_ok {plan : StopLimitPlan} {q : BidAsk} {level : Decimal}
    (h : Reached plan.orderSide plan.stopPrice q → ∃ d, gap plan.orderSide plan.limitPrice q = .ok d) :
    ∃ d, decide plan q level = .ok d := by
  unfold decide
  dsimp only
  split
  · next hs =>
    have hmarket : triggerPrice plan.orderSide q = q.ask := if_pos hs
    split
    · exact ⟨_, rfl⟩
    · next hreached =>
      rw [hmarket] at hreached ⊢
      simp only [Reached, gap, hs, if_true] at h
      obtain ⟨d, hd⟩ := h (not_not.mp hreached)
      rw [hd]
      exact ⟨_, rfl⟩
  · next hs =>
    have hmarket : triggerPrice plan.orderSide q = q.bid := if_neg hs
    split
    · exact ⟨_, rfl⟩
    · next hreached =>
      rw [hmarket] at hreached ⊢
      simp only [Reached, gap, if_neg hs] at h
      obtain ⟨d, hd⟩ := h (not_not.mp hreached)
      rw [hd]
      exact ⟨_, rfl⟩

namespace StopLimitPlan

theorem positive_error {field : String} {n : Number} {e : Exc} (h : positive field n = .error e) : e.isValueError = true := by
  unfold positive at h
  split at h
  · split at h
    · cases h
    · obtain rfl := Except.error.inj h
      rfl
  · obtain rfl := Except.error.inj h
    rfl

theorem nonnegative_error {field : String} {n : Number} {e : Exc} (h : nonnegative field n = .error e) : e.isValueError = true := by
  unfold nonnegative at h
  split at h
  · split at h
    · cases h
    · obtain rfl := Except.error.inj h
      rfl
  · obtain rfl := Except.error.inj h
    rfl

theorem validate_error {instrument : String} {side : Side} {volume stop limit sl tp : Number} {e : Exc}
    (h : validate instrument side volume stop limit sl tp = .error e) : e.isValueError = true := by
  unfold validate at h
  rcases bind_eq_error.mp h with h | ⟨v, -, h⟩
  · exact positive_error h
  rcases bind_eq_error.mp h with h | ⟨s, -, h⟩
  · exact positive_error h
  rcases bind_eq_error.mp h with h | ⟨l, -, h⟩
  · exact positive_error h
  rcases bind_eq_error.mp h with h | ⟨a, -, h⟩
  · exact nonnegative_error h
  rcases bind_eq_error.mp h with h | ⟨b, -, h⟩
  · exact nonnegative_error h
  split at h
  · obtain rfl := Except.error.inj h
    rfl
  · split at h
    · obtain rfl := Except.error.inj h
      rfl
    · split at h
      · obtain rfl := Except.error.inj h
        rfl
      · cases h

end StopLimitPlan

namespace PaperPlan

open PaperBook (Sound)

/-- A live plan that passes every check. -/
structure Good (t : PaperSettings) (p : PaperPlan) : Prop where
  sound : Sound t p
  finite : ∃ entry sl tp limit, p.entry = .finite entry ∧ p.sl = .finite sl ∧ p.tp = .finite tp ∧ p.limit = .finite limit
  filled : p.state = .filled → ∃ price, p.fillPrice = some price

/-- The plan can be moved to the prices. -/
def Fits (t : PaperSettings) (p : PaperPlan) (v : LedgerFields.Prices) : Prop :=
  ∃ lots limit, Sound t { p.moveTo v with lots, limit }

/-- The arithmetic that a quote asks for: the distance to a limit whose stop price is reached, and
the profit of an exit. -/
structure InRange (t : PaperSettings) (q : PaperQuote) (p : PaperPlan) : Prop where
  distance : p.state = .armed → p.kind = .stopLimit → ¬ (t.armTtl ≠ 0 ∧ t.armTtl < (p.firstSeen q.monotonic).age q.monotonic) →
    p.Touched q.toBidAsk → ∀ limit, p.limit = .finite limit → ∃ d, StopLimit.gap p.side limit q.toBidAsk = .ok d
  profit : p.state = .filled → ∀ fill, p.fillPrice = some fill →
    (∀ target, p.hit q.toBidAsk = .ok (true, target) → ∃ pnl, p.profit t p.sl fill = .ok pnl)
    ∧ (p.hit q.toBidAsk = .ok (false, true) → ∃ pnl, p.profit t p.tp fill = .ok pnl)

variable {t : PaperSettings} {p p' : PaperPlan} {q : PaperQuote} {v : LedgerFields.Prices}

theorem Sound.congr (h : Sound t p) (hs : Same p p') (ht : p'.terms = p.terms) : Sound t p' := by
  simp only [terms, Terms.mk.injEq] at ht
  obtain ⟨hentry, hsl, htp, hlimit, hlots⟩ := ht
  have hplan : t.stopPlan p' = t.stopPlan p := by
    unfold PaperSettings.stopPlan
    rw [hs.side, hentry, hsl, htp, hlimit, hlots]
  refine ⟨?_, ?_, ?_, fun hk => ?_⟩
  · rw [hs.side, hentry, hsl, htp]
    exact h.straddles
  · rw [hs.kind, hs.side, hentry, hlimit]
    exact h.limit
  · rw [hentry, hsl, hlots]
    exact h.lots
  · rw [hplan]
    exact h.valid (hs.kind.symm.trans hk)

theorem Good.congr (h : Good t p) (hs : Same p p') (ht : p'.terms = p.terms)
    (hf : p'.state = .filled → ∃ price, p'.fillPrice = some price) : Good t p' := by
  obtain ⟨entry, sl, tp, limit, hfinite⟩ := h.finite
  refine ⟨Sound.congr h.sound hs ht, ⟨entry, sl, tp, limit, ?_⟩, hf⟩
  simp only [terms, Terms.mk.injEq] at ht
  rw [ht.1, ht.2.1, ht.2.2.1, ht.2.2.2.1]
  exact hfinite

theorem reaches_ok {level : Decimal} {n : Number} (h : n = .finite level) : ∃ r, p.reaches q.toBidAsk n = .ok r := by
  subst h
  unfold reaches
  split <;> exact ⟨_, rfl⟩

section Quotes

variable [PaperHost]

theorem onArmed_ok (h : Good t p) (hs : p.state = .armed) (hr : InRange t q p) : ∃ events, (p.onArmed t q).2 = .ok events := by
  obtain ⟨entry, sl, tp, limit, hentry, -, -, hlimit⟩ := h.finite
  unfold onArmed
  dsimp only
  split
  · exact ⟨_, rfl⟩
  · next hlate =>
    split
    · obtain ⟨r, hr⟩ := reaches_ok (p := p.firstSeen q.monotonic) (q := q) hentry
      have hr : (p.firstSeen q.monotonic).reaches q.toBidAsk (p.firstSeen q.monotonic).entry = .ok r := hr
      rw [hr]
      cases r <;> exact ⟨_, rfl⟩
    · next hk =>
      obtain ⟨plan, hplan⟩ := h.sound.valid hk
      obtain ⟨hside, hstop, hlimit'⟩ := PaperSettings.stopPlan_spec hplan
      have hplan : t.stopPlan (p.firstSeen q.monotonic) = .ok plan := hplan
      obtain ⟨d, hd⟩ : ∃ d, StopLimit.decide plan q.toBidAsk t.stopsLevel = .ok d := StopLimit.decide_ok fun hreached =>
        hside ▸ hr.distance hs hk hlate ⟨plan.stopPrice, hstop, hside ▸ hreached⟩ plan.limitPrice hlimit'
      rw [hplan]
      dsimp only
      rw [hd]
      dsimp only
      unfold take
      split
      · exact ⟨_, rfl⟩
      · next hm =>
        rw [(StopLimit.decide_market hd hm).2.2]
        exact ⟨_, rfl⟩
      · exact ⟨_, rfl⟩
      · exact ⟨_, rfl⟩

theorem onWorking_ok (h : Good t p) : ∃ events, (p.onWorking t q).2 = .ok events := by
  obtain ⟨entry, sl, tp, limit, -, -, -, hlimit⟩ := h.finite
  obtain ⟨r, hr⟩ := reaches_ok (p := p) (q := q) hlimit
  unfold onWorking
  rw [hr]
  cases r with
  | true => exact ⟨_, rfl⟩
  | false =>
    dsimp only
    split <;> exact ⟨_, rfl⟩

omit [PaperHost] in
theorem exit_ok {price fill pnl : Number} {reason : ExitReason} (hf : p.fillPrice = some fill) (hp : p.profit t price fill = .ok pnl) :
    ∃ events, (p.exit t price reason q).2 = .ok events := by
  have hf' : (p.closing price reason q).fillPrice = some fill := hf
  have hp' : (p.closing price reason q).profit t price fill = .ok pnl := hp
  unfold exit
  dsimp only
  rw [hf']
  dsimp only
  rw [hp']
  exact ⟨_, rfl⟩

omit [PaperHost] in
theorem onOpen_ok (h : Good t p) (hs : p.state = .filled) (hr : InRange t q p) : ∃ events, (p.onOpen t q).2 = .ok events := by
  obtain ⟨entry, sl, tp, limit, -, hsl, htp, -⟩ := h.finite
  obtain ⟨fill, hf⟩ := h.filled hs
  obtain ⟨hstop, htarget⟩ := hr.profit hs fill hf
  have hhit : ∃ r, p.hit q.toBidAsk = .ok r := by
    unfold hit
    rw [hsl, htp]
    split <;> exact ⟨_, rfl⟩
  obtain ⟨⟨sl, tp⟩, hhit⟩ := hhit
  unfold onOpen
  rw [hhit]
  cases sl with
  | true =>
    obtain ⟨pnl, hpnl⟩ := hstop tp hhit
    exact exit_ok hf hpnl
  | false =>
    cases tp with
    | true =>
      obtain ⟨pnl, hpnl⟩ := htarget hhit
      exact exit_ok hf hpnl
    | false => exact ⟨_, rfl⟩

theorem onQuote_ok (h : Good t p) (hr : InRange t q p) : ∃ events, (p.onQuote t q).2 = .ok events := by
  unfold onQuote
  split
  · next hs => exact onArmed_ok h hs hr
  · next hs => exact onWorking_ok h
  · next hs => exact onOpen_ok h hs hr
  · exact ⟨_, rfl⟩

omit [PaperHost] in
theorem exit_terms {price : Number} {reason : ExitReason} : (p.exit t price reason q).1.terms = p.terms := by
  unfold exit
  dsimp only
  split
  · rfl
  · split <;> rfl

/-- No quote moves the prices or the size of a plan. -/
theorem onQuote_terms : (p.onQuote t q).1.terms = p.terms := by
  unfold onQuote onArmed onWorking onOpen take
  dsimp only
  repeat' split
  all_goals first | rfl | exact exit_terms

end Quotes

end PaperPlan

theorem PaperSettings.limitFor_finite {t : PaperSettings} {kind : PlanKind} {side : Side} {entry : Decimal} {limit : Number}
    (h : t.limitFor kind side (.finite entry) = .ok limit) : ∃ d, limit = .finite d := by
  unfold limitFor at h
  split at h
  · exact ⟨entry, (Except.ok.inj h).symm⟩
  · split at h
    · rw [Number.add_finite] at h
      cases hd : entry.add t.tolerance with
      | error s => rw [hd] at h; cases h
      | ok d =>
        rw [hd] at h
        exact ⟨d, (Except.ok.inj h).symm⟩
    · rw [Number.sub_finite] at h
      cases hd : entry.sub t.tolerance with
      | error s => rw [hd] at h; cases h
      | ok d =>
        rw [hd] at h
        exact ⟨d, (Except.ok.inj h).symm⟩

/-- Prices that are finite decimals. -/
def LedgerFields.Prices.Finite (v : Prices) : Prop := ∃ entry sl tp, v = ⟨.finite entry, .finite sl, .finite tp⟩

/-- The sizing and the limit of a new plan stay within the decimals, or the sizing refuses the plan. -/
def PaperSettings.Sized (t : PaperSettings) (kind : PlanKind) (side : Side) (v : LedgerFields.Prices) : Prop :=
  (∃ lots limit, t.sizeLots v.entry v.sl = .ok lots ∧ t.limitFor kind side v.entry = .ok limit)
  ∨ ∃ e, t.sizeLots v.entry v.sl = .error e ∧ e.isValueError = true

namespace PaperPlan

variable [PaperHost] {t : PaperSettings} {p : PaperPlan} {v : LedgerFields.Prices} {row : LedgerFields} {now : String}

omit [PaperHost] in
theorem straddles_ok {side : Side} (hv : v.Finite) : ∃ r, straddles side v = .ok r := by
  obtain ⟨entry, sl, tp, rfl⟩ := hv
  unfold straddles
  split
  · simp only [Number.lt_finite]
    cases decide (sl < entry) <;> exact ⟨_, rfl⟩
  · simp only [Number.lt_finite]
    cases decide (tp < entry) <;> exact ⟨_, rfl⟩
  · exact ⟨_, rfl⟩

omit [PaperHost] in
theorem same_ok {side : Side} (h : Good t p) (hv : v.Finite) : ∃ r, p.same v side = .ok r := by
  obtain ⟨entry, sl, tp, rfl⟩ := hv
  obtain ⟨entry', sl', tp', limit, hentry, hsl, htp, -⟩ := h.finite
  unfold same
  rw [hentry, hsl, htp]
  simp only [Number.eq_finite]
  cases entry'.same entry <;> cases sl'.same sl <;> cases tp'.same tp <;> exact ⟨_, rfl⟩

/-- A row that modifies an armed plan moves all of it to a bracket that fits. -/
theorem reprice_good (hs : p.state = .armed) (hp : row.prices = .ok v) (hv : v.Finite) (hfits : p.Fits t v) :
    (∃ events, (p.reprice t row now).2 = .ok events) ∧ Good t (p.reprice t row now).1 := by
  obtain ⟨lots, limit, hsound⟩ := hfits
  have hlimit : t.limitFor p.kind p.side v.entry = .ok limit := hsound.limit
  have hlots : t.sizeLots v.entry v.sl = .ok lots := hsound.lots
  have hresult : p.reprice t row now = ({ p.moveTo v with limit, lots }.note (.modified now v.entry), .ok [.plan .modified p.ref]) := by
    simp only [reprice, hp, hlimit, hlots]
  obtain ⟨entry, sl, tp, rfl⟩ := hv
  obtain ⟨d, rfl⟩ := PaperSettings.limitFor_finite hlimit
  rw [hresult]
  refine ⟨⟨_, rfl⟩, ?_, ⟨entry, sl, tp, d, rfl, rfl, rfl, rfl⟩, fun hf => ?_⟩
  · exact Sound.congr hsound ⟨rfl, rfl, rfl, rfl, rfl⟩ rfl
  · have hs' : p.state = .filled := hf
    rw [hs] at hs'
    cases hs'

omit [PaperHost] in
theorem regrade_good (h : Good t p) : Good t (p.regrade t row now).1 := by
  obtain ⟨hs, ht, hrec⟩ := @regrade_spec t p row now
  refine h.congr hs ht fun hf => ?_
  rcases hrec with hrec | ⟨-, he, -⟩
  · obtain ⟨price, hp⟩ := h.filled ((congrArg Record.state hrec).symm.trans hf)
    exact ⟨price, (congrArg Record.fillPrice hrec).trans hp⟩
  · rw [he] at hf
    cases hf

theorem update_good (h : Good t p) (hfits : row.get "kind" = some "modified" → p.state = .armed →
    ∃ v, row.prices = .ok v ∧ v.Finite ∧ p.Fits t v) :
    (∃ events, (p.update t row now).2 = .ok events) ∧ Good t (p.update t row now).1 := by
  unfold update
  dsimp only
  by_cases hm : row.get "kind" = some "modified" ∧ p.state = .armed
  · obtain ⟨v, hp, hv, hfit⟩ := hfits hm.1 hm.2
    obtain ⟨⟨events, he⟩, hgood⟩ : (∃ events, (p.reprice t row now).2 = .ok events) ∧ Good t (p.reprice t row now).1 :=
      reprice_good hm.2 hp hv hfit
    rw [if_pos hm]
    rcases hr : p.reprice t row now with ⟨p', r⟩
    rw [hr] at he hgood
    obtain rfl : r = .ok events := he
    exact ⟨⟨_, rfl⟩, regrade_good hgood⟩
  · rw [if_neg hm]
    exact ⟨⟨_, rfl⟩, regrade_good h⟩

theorem onQuote_good {q : PaperQuote} (h : Good t p) : Good t (p.onQuote t q).1 := by
  obtain ⟨hs, ht⟩ := p.onQuote_turn (t := t) (q := q)
  refine h.congr hs onQuote_terms fun hf => ?_
  cases ht with
  | kept hr _ =>
    obtain ⟨price, hp⟩ := h.filled ((congrArg Record.state hr).symm.trans hf)
    exact ⟨price, (congrArg Record.fillPrice hr).trans hp⟩
  | repriced ha hr _ =>
    have hs' : p.state = .filled := (congrArg Record.state hr).symm.trans hf
    rw [ha] at hs'
    cases hs'
  | ended _ hs' _ _ => rw [hf] at hs'; simp at hs'
  | triggered _ _ _ _ _ _ hs' _ _ => rw [hf] at hs'; cases hs'
  | filled _ _ _ hp _ _ _ => exact ⟨_, hp⟩
  | leaving hs' _ hfill _ _ _ =>
    obtain ⟨price, hp⟩ := h.filled hs'
    exact ⟨price, hfill.trans hp⟩
  | closed _ hs' _ _ _ _ _ => rw [hf] at hs'; cases hs'

end PaperPlan

namespace PaperBook

variable [PaperHost] {t : PaperSettings} {b : PaperBook} {p p' : PaperPlan} {v : LedgerFields.Prices} {row : LedgerFields}
  {label now : String} {line : Nat} {kind : PlanKind}

/-- Every live plan passes every check. -/
def AllGood (t : PaperSettings) (b : PaperBook) : Prop := ∀ p ∈ b.lives, p.Good t

/-- A call that returned and left every live plan sound. -/
structure Fine (t : PaperSettings) (r : PaperBook × Except Exc (List PaperEvent)) : Prop where
  returns : ∃ events, r.2 = .ok events
  good : AllGood t r.1

omit [PaperHost] in
theorem AllGood.put (h : AllGood t b) (hb : WellKept b) (hp : p ∈ b.lives) (hs : PaperPlan.Same p p')
    (hgood : p'.state.terminal = false → p'.Good t) : AllGood t (b.put p') := by
  obtain ⟨pre, post, hsplit⟩ := List.append_of_mem hp
  intro x hx
  rw [hb.lives_put hsplit hs.ref hs.label] at hx
  have hold : x ∈ b.lives ∨ x = p' ∧ p'.state.terminal = false := by
    rw [hsplit]
    grind
  rcases hold with hx | ⟨rfl, ht⟩
  · exact h x hx
  · exact hgood ht

omit [PaperHost] in
theorem Placed.good {r : PaperBook × Except Exc (List PaperEvent)} (hr : Placed t b p r) (h : AllGood t b) (hs : p.state = .armed)
    (hfree : ∀ e ∈ b.plans, e.1 ≠ p.label) (hv : LedgerFields.Prices.Finite ⟨p.entry, p.sl, p.tp⟩) : AllGood t r.1 := by
  cases hr with
  | dropped e => exact h
  | held lots limit reason => exact h
  | armed lots limit hsound =>
    intro x hx
    rw [lives_arm (p := { p with lots, limit }) hfree] at hx
    rcases List.mem_append.mp hx with hx | hx
    · exact h x hx
    · obtain rfl := List.mem_singleton.mp hx
      obtain ⟨entry, sl, tp, hp⟩ := hv
      simp only [LedgerFields.Prices.mk.injEq] at hp
      have hlimit : t.limitFor p.kind p.side p.entry = .ok limit := hsound.limit
      rw [hp.1] at hlimit
      obtain ⟨d, rfl⟩ := PaperSettings.limitFor_finite hlimit
      refine ⟨hsound, ⟨entry, sl, tp, d, hp.1, hp.2.1, hp.2.2, rfl⟩, fun hf => ?_⟩
      have hf : p.state = .filled := hf
      rw [hs] at hf
      cases hf

omit [PaperHost] in
theorem place_fine (h : AllGood t b) (hl : p.limit = p.entry) (hs : p.state = .armed) (hfree : ∀ e ∈ b.plans, e.1 ≠ p.label)
    (hv : LedgerFields.Prices.Finite ⟨p.entry, p.sl, p.tp⟩)
    (hsized : PaperPlan.straddles p.side ⟨p.entry, p.sl, p.tp⟩ = .ok true → t.Sized p.kind p.side ⟨p.entry, p.sl, p.tp⟩) :
    Fine t (place t b p ⟨p.entry, p.sl, p.tp⟩) := by
  constructor
  · obtain ⟨r, hr⟩ : ∃ r, PaperPlan.straddles p.side ⟨p.entry, p.sl, p.tp⟩ = .ok r := PaperPlan.straddles_ok hv
    unfold place
    rw [hr]
    cases r with
    | false => exact ⟨_, rfl⟩
    | true =>
      rcases hsized hr with ⟨lots, limit, hlots, hlimit⟩ | ⟨e, he, hvalue⟩
      · dsimp only at hlots hlimit ⊢
        rw [hlots]
        dsimp only
        split
        · exact ⟨_, rfl⟩
        · next hk =>
          rw [hk] at hlimit
          rw [hlimit]
          dsimp only
          split
          · next e he =>
            rw [if_pos (StopLimitPlan.validate_error he)]
            exact ⟨_, rfl⟩
          · exact ⟨_, rfl⟩
      · dsimp only at he ⊢
        rw [he]
        dsimp only
        rw [if_pos hvalue]
        exact ⟨_, rfl⟩
  · exact (placed_place hl).good h hs hfree hv

omit [PaperHost] in
theorem create_fine (h : AllGood t b) (hfree : ∀ e ∈ b.plans, e.1 ≠ label) (hv : v.Finite)
    (hsized : t.accepts (row.getD "grade" (some "")) = true → PaperPlan.straddles row.side v = .ok true → t.Sized kind row.side v) :
    Fine t (create t b row label line now kind v) := by
  unfold create
  dsimp only
  split
  · next hg => exact place_fine (b := { b with made := b.made + 1 }) h rfl rfl hfree hv (hsized hg)
  · exact ⟨⟨_, rfl⟩, h⟩

/-- What a row must bring when it reaches a plan or makes one. -/
structure Fitting (t : PaperSettings) (b : PaperBook) (row : LedgerFields) (label : String) (v : LedgerFields.Prices) : Prop where
  modified : row.get "kind" = some "modified" → ∀ p, b.live? label = some p → p.state = .armed → p.Fits t v
  intent : row.get "kind" = some "intent" → ∀ kind, orderType? (row.getD "detail" (some "")) = some kind →
    (∀ p, b.live? label = some p → p.state ≠ .filled ∧ p.same v row.side = .ok false) →
    t.accepts (row.getD "grade" (some "")) = true → PaperPlan.straddles row.side v = .ok true → t.Sized kind row.side v

theorem intent_fine (hb : WellKept b) (h : AllGood t b) (hp : row.prices = .ok v) (hv : v.Finite) (hf : Fitting t b row label v)
    (hk : row.get "kind" = some "intent") : Fine t (intent t b row label line now (b.live? label)) := by
  unfold intent
  rw [hp]
  cases hkind : orderType? (row.getD "detail" (some "")) with
  | none => exact ⟨⟨_, rfl⟩, h⟩
  | some kind =>
    dsimp only
    split
    · next hl =>
      exact create_fine h (hb.free (hb.live?_eq_none hl)) hv (hf.intent hk kind hkind fun p hp => by rw [hl] at hp; cases hp)
    · next p hl =>
      obtain ⟨hm, rfl⟩ := hb.live?_eq_some hl
      have hgood := h p hm
      obtain ⟨r, hr⟩ : ∃ r, p.same v row.side = .ok r := PaperPlan.same_ok hgood hv
      rw [hr]
      dsimp only
      by_cases hfilled : p.state = .filled
      · rw [if_pos hfilled]
        exact ⟨⟨_, rfl⟩, h.put hb hm ⟨rfl, rfl, rfl, rfl, rfl⟩ fun _ => hgood.congr ⟨rfl, rfl, rfl, rfl, rfl⟩ rfl hgood.filled⟩
      · rw [if_neg hfilled]
        cases r with
        | true =>
          exact ⟨⟨_, rfl⟩, h.put hb hm ⟨rfl, rfl, rfl, rfl, rfl⟩ fun _ => hgood.congr ⟨rfl, rfl, rfl, rfl, rfl⟩ rfl hgood.filled⟩
        | false =>
          have hput : WellKept (b.put (p.finish .cancelled "replaced by a re-priced intent for the same label" now)) := hb.put hm rfl rfl
          refine create_fine (h.put hb hm ⟨rfl, rfl, rfl, rfl, rfl⟩ fun ht => ?_) (hput.free (hb.free_put hm rfl rfl rfl)) hv ?_
          · cases ht
          · refine hf.intent hk kind hkind fun x hx => ?_
            obtain rfl := Option.some.inj (hl.symm.trans hx)
            exact ⟨hfilled, hr⟩

/-- What a call must bring: a row finite prices that fit, a quote arithmetic within the decimals. -/
def Manageable (t : PaperSettings) (b : PaperBook) : PaperCall → Prop
  | .row row _ _ => row.get "kind" = some "intent" ∨ row.get "kind" = some "modified" → ∃ v, row.prices = .ok v ∧ v.Finite
      ∧ (row.get "symbol" = some t.symbol → ∀ label, row.get "label" = some label → Fitting t b row label v)
  | .quote q => ∀ p ∈ b.lives, p.InRange t q

theorem applyRow_fine (hb : WellKept b) (h : AllGood t b) (hm : Manageable t b (.row row line now)) :
    Fine t (b.applyRow t row line now) := by
  have hquiet : Fine t (b, .ok []) := ⟨⟨_, rfl⟩, h⟩
  unfold applyRow
  dsimp only
  split
  · exact hquiet
  · next label hlabel =>
    split
    · exact hquiet
    · next hours =>
      have hsymbol : row.get "symbol" = some t.symbol := not_not.mp fun hc => hours (Or.inl hc)
      split
      · next hk =>
        obtain ⟨v, hp, hv, hfit⟩ := hm (Or.inl hk)
        exact intent_fine hb h hp hv (hfit hsymbol label hlabel) hk
      · split
        · exact hquiet
        · next p hl =>
          obtain ⟨hlive, _⟩ := hb.live?_eq_some hl
          have hgood := h p hlive
          split
          · have hup : (∃ events, (p.update t row now).2 = .ok events) ∧ PaperPlan.Good t (p.update t row now).1 :=
                PaperPlan.update_good hgood fun hk hs => by
              obtain ⟨v, hp, hv, hfit⟩ := hm (Or.inr hk)
              exact ⟨v, hp, hv, (hfit hsymbol label hlabel).modified hk p hl hs⟩
            exact ⟨hup.1, h.put hb hlive p.update_turn.1 fun _ => hup.2⟩
          · split
            · obtain ⟨hs, ht⟩ := @PaperPlan.cancel_turn _ t p row now
              refine ⟨⟨_, rfl⟩, h.put hb hlive hs fun hlives => ?_⟩
              unfold PaperPlan.cancel at hlives ⊢
              split at hlives
              · cases hlives
              · next hc =>
                rw [if_neg hc]
                exact hgood.congr ⟨rfl, rfl, rfl, rfl, rfl⟩ rfl hgood.filled
            · split
              · exact ⟨⟨_, rfl⟩, h.put hb hlive ⟨rfl, rfl, rfl, rfl, rfl⟩ fun _ =>
                  hgood.congr ⟨rfl, rfl, rfl, rfl, rfl⟩ rfl hgood.filled⟩
              · exact hquiet

theorem visit_fine {q : PaperQuote} {rest pre : List PaperPlan} (hb : WellKept b) (h : AllGood t b) (hrest : b.lives = pre ++ rest)
    (hr : ∀ p ∈ rest, p.InRange t q) : Fine t (b.visit t q rest) := by
  induction rest generalizing b pre with
  | nil => exact ⟨⟨_, rfl⟩, h⟩
  | cons p rest ih =>
    have hp : p ∈ b.lives := by rw [hrest]; simp
    obtain ⟨hs, ht⟩ := p.onQuote_turn (t := t) (q := q)
    obtain ⟨events, he⟩ := PaperPlan.onQuote_ok (h p hp) (hr p (by simp))
    obtain ⟨⟨more, hmore⟩, hgood⟩ := ih (hb.put hp hs.ref hs.label) (h.put hb hp hs fun _ => PaperPlan.onQuote_good (h p hp))
      (hb.lives_put hrest hs.ref hs.label) fun x hx => hr x (by simp [hx])
    unfold visit
    rcases hq : p.onQuote t q with ⟨p', r⟩
    rw [hq] at he hmore hgood
    obtain rfl : r = .ok events := he
    dsimp only
    rcases hv : visit t q (b.put p') rest with ⟨u, r⟩
    rw [hv] at hmore hgood
    obtain rfl : r = .ok more := hmore
    exact ⟨⟨_, rfl⟩, hgood⟩

theorem call_fine {c : PaperCall} (hb : WellKept b) (h : AllGood t b) (hm : Manageable t b c) : Fine t (b.call t c) := by
  cases c with
  | row row line now => exact applyRow_fine hb h hm
  | quote q => exact visit_fine hb h (show b.lives = [] ++ b.lives from rfl) hm

/-- Calls made one after the other, each of which the book it meets can manage. -/
inductive Managed (t : PaperSettings) : List (PaperCall × Except Exc (List PaperEvent)) → PaperBook → Prop
  | nil : Managed t [] {}
  | call {b : PaperBook} {calls : List (PaperCall × Except Exc (List PaperEvent))} (h : Managed t calls b) (c : PaperCall)
      (hm : Manageable t b c) : Managed t (calls ++ [(c, (b.call t c).2)]) (b.call t c).1

/-- In every run whose modified rows fit the armed plans they reach and whose arithmetic stays
within the decimals, no call raises and every live plan is always sound. -/
theorem managed_sound {calls : List (PaperCall × Except Exc (List PaperEvent))} (h : Managed t calls b) :
    (∀ c ∈ calls, ∃ events, c.2 = .ok events) ∧ ∀ p ∈ b.lives, Sound t p := by
  have hall : WellKept b ∧ AllGood t b ∧ ∀ c ∈ calls, ∃ events, c.2 = .ok events := by
    induction h with
    | nil => exact ⟨wellKept_empty, fun p hp => by simp [lives] at hp, fun c hc => by simp at hc⟩
    | @call v calls h c hm ih =>
      obtain ⟨hv, hgood, hok⟩ := ih
      have hfine := call_fine hv hgood hm
      refine ⟨hv.steps (steps_call hv), hfine.good, fun x hx => ?_⟩
      rcases List.mem_append.mp hx with hx | hx
      · exact hok x hx
      · obtain rfl := List.mem_singleton.mp hx
        exact hfine.returns
  exact ⟨hall.2.2, fun p hp => (hall.2.1 p hp).sound⟩

end PaperBook

section Example

attribute [local instance] samplePaperHost

theorem managed_sound_round : ∃ calls b, PaperBook.Managed samplePaper calls b ∧ (∀ c ∈ calls, ∃ events, c.2 = .ok events)
    ∧ b.lives ≠ [] ∧ ∀ p ∈ b.lives, PaperBook.Sound samplePaper p := by
  let intent : PaperCall := .row (sampleRow "intent" "100" "90" "120") 0 "now"
  let modified : PaperCall := .row (sampleRow "modified" "101" "91" "120") 1 "now"
  have hfirst : PaperBook.Manageable samplePaper {} intent := by
    refine fun _ => ⟨⟨.finite (.ofNat 100), .finite (.ofNat 90), .finite (.ofNat 120)⟩, by rfl, ⟨_, _, _, rfl⟩, fun _ label _ => ?_⟩
    refine ⟨fun hk => absurd hk (by decide), fun _ kind hkind _ _ _ => Or.inl ⟨.finite ⟨false, 50, -2⟩, .finite (.ofNat 100), ?_, ?_⟩⟩
    · decide +kernel
    · obtain rfl : PlanKind.limit = kind := by simpa [sampleRow, LedgerFields.getD, LedgerFields.field?, orderType?, orderTypes] using hkind
      rfl
  have hnext : PaperBook.Manageable samplePaper (PaperBook.call samplePaper {} intent).1 modified := by
    refine fun _ => ⟨⟨.finite (.ofNat 101), .finite (.ofNat 91), .finite (.ofNat 120)⟩, by rfl, ⟨_, _, _, rfl⟩, fun _ label hlabel => ?_⟩
    refine ⟨fun _ p hp _ => ⟨.finite ⟨false, 50, -2⟩, .finite (.ofNat 101), ?_⟩, fun hk => absurd hk (by decide)⟩
    have hone : ∀ e ∈ (PaperBook.call samplePaper {} intent).1.plans, e.2.kind = .limit ∧ e.2.side = .buy := by decide +kernel
    obtain ⟨e, he, rfl⟩ := Option.map_eq_some_iff.mp hp
    obtain ⟨hkind, hside⟩ := hone e (Rows.lookup_mem he).1
    refine ⟨?_, ?_, ?_, fun hk => ?_⟩
    · change PaperPlan.straddles e.2.side _ = _
      rw [hside]
      rfl
    · change samplePaper.limitFor e.2.kind e.2.side _ = _
      rw [hkind]
      rfl
    · change samplePaper.sizeLots (.finite (.ofNat 101)) (.finite (.ofNat 91)) = .ok (.finite ⟨false, 50, -2⟩)
      decide +kernel
    · have hk : e.2.kind = .stopLimit := hk
      rw [hkind] at hk
      cases hk
  have h := PaperBook.Managed.call (PaperBook.Managed.call .nil intent hfirst) modified hnext
  exact ⟨_, _, h, (PaperBook.managed_sound h).1, by decide +kernel, (PaperBook.managed_sound h).2⟩

/-- An armed plan is modified to an entry at its stop. -/
def sampleFlat : List PaperCall :=
  [.row (sampleRow "intent" "100" "90" "120") 0 "now", .row (sampleRow "modified" "90" "90" "120") 1 "now"]

theorem modified_flat_corrupts :
    (∀ c ∈ sampleFlat, ∀ row line now, c = .row row line now → ∃ v, row.prices = .ok v ∧ v.Finite)
    ∧ ∃ calls b, PaperBook.Run samplePaper {} calls b ∧ (∃ c ∈ calls, ∃ e, c.2 = .error e) ∧ ∃ p ∈ b.lives,
      ¬ PaperBook.Sound samplePaper p := by
  refine ⟨?_, _, _, PaperBook.run_calls sampleFlat, ?_, ?_⟩
  · intro c hc row line now he
    subst he
    simp only [sampleFlat, List.mem_cons, PaperCall.row.injEq, List.not_mem_nil, or_false] at hc
    rcases hc with ⟨rfl, -, -⟩ | ⟨rfl, -, -⟩
    · exact ⟨⟨.finite (.ofNat 100), .finite (.ofNat 90), .finite (.ofNat 120)⟩, by rfl, _, _, _, rfl⟩
    · exact ⟨⟨.finite (.ofNat 90), .finite (.ofNat 90), .finite (.ofNat 120)⟩, by rfl, _, _, _, rfl⟩
  · have hany : (PaperBook.calls samplePaper sampleFlat {}).1.any (fun c => c.2.toOption.isNone) = true := by decide +kernel
    obtain ⟨c, hc, hnone⟩ := List.any_eq_true.mp hany
    refine ⟨c, hc, ?_⟩
    cases hr : c.2 with
    | error e => exact ⟨e, rfl⟩
    | ok events => rw [hr] at hnone; cases hnone
  · have hany : (PaperBook.calls samplePaper sampleFlat {}).2.lives.any
        (fun p => (PaperPlan.straddles p.side ⟨p.entry, p.sl, p.tp⟩).toOption = some false) = true := by decide +kernel
    obtain ⟨p, hp, hfalse⟩ := List.any_eq_true.mp hany
    refine ⟨p, hp, fun hsound => ?_⟩
    have hfalse := of_decide_eq_true hfalse
    rw [hsound.straddles] at hfalse
    cases hfalse

end Example

end MatchTrader
