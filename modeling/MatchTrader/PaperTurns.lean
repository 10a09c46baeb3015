import MatchTrader.PaperBook

/-! What rows and quotes can do to one paper plan, and what they return about it. -/

namespace MatchTrader

/-- The plan an event is about. -/
def PaperEvent.ref? : PaperEvent → Option Nat
  | ignored .. => none
  | plan _ ref => some ref

/-- The note tells neither the first quote of a plan nor its trigger. -/
def PlanNote.plain : PlanNote → Bool
  | armedMono _ | triggered .. => false
  | _ => true

namespace PaperPlan

/-- What a plan is, whatever becomes of it. -/
structure Same (p p' : PaperPlan) : Prop where
  ref : p'.ref = p.ref
  id : p'.id = p.id
  label : p'.label = p.label
  side : p'.side = p.side
  kind : p'.kind = p.kind

theorem Same.refl (p : PaperPlan) : Same p p := ⟨rfl, rfl, rfl, rfl, rfl⟩

theorem Same.trans {p q r : PaperPlan} (h : Same p q) (h' : Same q r) : Same p r :=
  ⟨h'.ref.trans h.ref, h'.id.trans h.id, h'.label.trans h.label, h'.side.trans h.side, h'.kind.trans h.kind⟩

/-- What a plan has come to. -/
structure Record where
  state : PlanState
  fillAt : Option String
  fillPrice : Option Number
  fillBid : Option Decimal
  fillAsk : Option Decimal
  exitAt : Option String
  exitPrice : Option Number
  exitBid : Option Decimal
  exitAsk : Option Decimal
  exitReason : Option ExitReason
  pnl : Option Number
deriving DecidableEq

def record (p : PaperPlan) : Record :=
  ⟨p.state, p.fillAt, p.fillPrice, p.fillBid, p.fillAsk, p.exitAt, p.exitPrice, p.exitBid, p.exitAsk, p.exitReason, p.pnl⟩

/-- The prices and the size a plan stands for. -/
structure Terms where
  entry : Number
  sl : Number
  tp : Number
  limit : Number
  lots : Number

def terms (p : PaperPlan) : Terms := ⟨p.entry, p.sl, p.tp, p.limit, p.lots⟩

/-- Where and why a plan is filled on a quote. -/
inductive Filling [PaperHost] (t : PaperSettings) (q : PaperQuote) (p : PaperPlan) : Number → Prop
  | limit (hs : p.state = .armed) (hk : p.kind = .limit) (h : p.reaches q.toBidAsk p.entry = .ok true) : Filling t q p p.entry
  | market {plan : StopLimitPlan} {d : StopLimit.Decision} {price : Decimal} (hs : p.state = .armed) (hk : p.kind = .stopLimit)
      (hplan : t.stopPlan p = .ok plan) (hd : StopLimit.decide plan q.toBidAsk t.stopsLevel = .ok d) (hm : d.route = .market)
      (hp : d.price = some price) : Filling t q p (.finite price)
  | resting (hs : p.state = .working) (h : p.reaches q.toBidAsk p.limit = .ok true) : Filling t q p p.limit

/-- A closed plan has a fill, left at its stop or its target, and its profit is that of the two prices. -/
structure Settled (t : PaperSettings) (p : PaperPlan) : Prop where
  exit : p.exitPrice = some p.sl ∨ p.exitPrice = some p.tp
  profit : ∃ exit fill pnl, p.exitPrice = some exit ∧ p.fillPrice = some fill ∧ p.pnl = some pnl ∧ p.profit t exit fill = .ok pnl

/-- The history of a plan goes on with notes that tell neither its first quote nor its trigger. -/
def Noted (p p' : PaperPlan) : Prop := ∃ notes, p'.history = p.history ++ notes ∧ ∀ n ∈ notes, n.plain = true

/-- What a plan's turn returns: events about the plan, and one at least when its record changes. -/
structure Told (p : PaperPlan) (r : PaperPlan × Except Exc (List PaperEvent)) : Prop where
  about : ∀ events, r.2 = .ok events → ∀ e ∈ events, e.ref? = some p.ref
  told : ∀ events, r.2 = .ok events → r.1.record ≠ p.record → events ≠ []

/-- What one turn makes of a live plan. -/
inductive Turn [PaperHost] (t : PaperSettings) (q : Option PaperQuote) (p p' : PaperPlan) : Prop
  | kept (hr : p'.record = p.record) (ht : p'.terms = p.terms)
  | repriced (hs : p.state = .armed) (hr : p'.record = p.record)
      (hl : p.kind = .limit → p.limit = p.entry → p'.limit = p'.entry)
  | ended (hs : p.state = .armed ∨ p.state = .working) (hs' : p'.state = .cancelled ∨ p'.state = .expired ∨ p'.state = .held)
      (hf : p'.fillPrice = p.fillPrice) (hl : p.kind = .limit → p.limit = p.entry → p'.limit = p'.entry)
  | triggered {quote : PaperQuote} {plan : StopLimitPlan} {d : StopLimit.Decision} (hq : q = some quote) (hs : p.state = .armed)
      (hk : p.kind = .stopLimit) (hplan : t.stopPlan p = .ok plan) (hd : StopLimit.decide plan quote.toBidAsk t.stopsLevel = .ok d)
      (hm : d.route = .restLimit) (hs' : p'.state = .working) (hf : p'.fillPrice = p.fillPrice) (ht : p'.terms = p.terms)
  | filled {quote : PaperQuote} {price : Number} (hq : q = some quote) (hfill : Filling t quote p price) (hs' : p'.state = .filled)
      (hp : p'.fillPrice = some price) (hb : p'.fillBid = some quote.bid) (ha : p'.fillAsk = some quote.ask)
      (ht : p'.terms = p.terms)
  | leaving (hs : p.state = .filled) (hs' : p'.state = .filled) (hf : p'.fillPrice = p.fillPrice) (hb : p'.fillBid = p.fillBid)
      (ha : p'.fillAsk = p.fillAsk) (ht : p'.terms = p.terms)
  | closed (hs : p.state = .filled) (hs' : p'.state = .closed) (hf : p'.fillPrice = p.fillPrice) (hb : p'.fillBid = p.fillBid)
      (ha : p'.fillAsk = p.fillAsk) (ht : p'.terms = p.terms) (hset : Settled t p')

section Turns

variable [PaperHost] {t : PaperSettings} {p : PaperPlan} {q : PaperQuote} {row : LedgerFields} {now : String}

theorem take_turn {plan : StopLimitPlan} {d : StopLimit.Decision} (hs : p.state = .armed) (hk : p.kind = .stopLimit)
    (hplan : t.stopPlan p = .ok plan) (hd : StopLimit.decide plan q.toBidAsk t.stopsLevel = .ok d) {p₀ : PaperPlan}
    (h₀ : p = p₀.firstSeen q.monotonic) : Same p₀ (p.take q d).1 ∧ Turn t (some q) p₀ (p.take q d).1 := by
  subst h₀
  unfold take
  split
  · exact ⟨⟨rfl, rfl, rfl, rfl, rfl⟩, .kept rfl rfl⟩
  · next hm =>
    split
    · next price hp => exact ⟨⟨rfl, rfl, rfl, rfl, rfl⟩, .filled rfl (.market hs hk hplan hd hm hp) rfl rfl rfl rfl rfl⟩
    · exact ⟨⟨rfl, rfl, rfl, rfl, rfl⟩, .kept rfl rfl⟩
  · exact ⟨⟨rfl, rfl, rfl, rfl, rfl⟩, .ended (Or.inl hs) (Or.inr (Or.inr rfl)) rfl fun _ h => h⟩
  · next hm => exact ⟨⟨rfl, rfl, rfl, rfl, rfl⟩, .triggered rfl hs hk hplan hd hm rfl rfl rfl⟩

theorem onArmed_turn (hs : p.state = .armed) : Same p (p.onArmed t q).1 ∧ Turn t (some q) p (p.onArmed t q).1 := by
  unfold onArmed
  dsimp only
  split
  · exact ⟨⟨rfl, rfl, rfl, rfl, rfl⟩, .ended (Or.inl hs) (Or.inr (Or.inl rfl)) rfl fun _ h => h⟩
  · split
    · next hk =>
      split
      · exact ⟨⟨rfl, rfl, rfl, rfl, rfl⟩, .kept rfl rfl⟩
      · exact ⟨⟨rfl, rfl, rfl, rfl, rfl⟩, .kept rfl rfl⟩
      · next hr => exact ⟨⟨rfl, rfl, rfl, rfl, rfl⟩, .filled rfl (.limit hs hk hr) rfl rfl rfl rfl rfl⟩
    · next hk =>
      split
      · exact ⟨⟨rfl, rfl, rfl, rfl, rfl⟩, .kept rfl rfl⟩
      · next plan hplan =>
        split
        · exact ⟨⟨rfl, rfl, rfl, rfl, rfl⟩, .kept rfl rfl⟩
        · next d hd => exact take_turn (p := p.firstSeen q.monotonic) hs hk hplan hd rfl

theorem onWorking_turn (hs : p.state = .working) : Same p (p.onWorking t q).1 ∧ Turn t (some q) p (p.onWorking t q).1 := by
  unfold onWorking
  split
  · exact ⟨.refl p, .kept rfl rfl⟩
  · next hr => exact ⟨⟨rfl, rfl, rfl, rfl, rfl⟩, .filled rfl (.resting hs hr) rfl rfl rfl rfl rfl⟩
  · split
    · exact ⟨⟨rfl, rfl, rfl, rfl, rfl⟩, .ended (Or.inr hs) (Or.inr (Or.inl rfl)) rfl fun _ h => h⟩
    · exact ⟨.refl p, .kept rfl rfl⟩

theorem exit_turn {price : Number} {reason : ExitReason} (hs : p.state = .filled) (hp : price = p.sl ∨ price = p.tp) :
    Same p (p.exit t price reason q).1 ∧ Turn t (some q) p (p.exit t price reason q).1 := by
  unfold exit
  dsimp only
  split
  · exact ⟨⟨rfl, rfl, rfl, rfl, rfl⟩, .leaving hs hs rfl rfl rfl rfl⟩
  · next fill hf =>
    split
    · exact ⟨⟨rfl, rfl, rfl, rfl, rfl⟩, .leaving hs hs rfl rfl rfl rfl⟩
    · next pnl hpnl =>
      refine ⟨⟨rfl, rfl, rfl, rfl, rfl⟩, .closed hs rfl rfl rfl rfl rfl ⟨?_, price, fill, pnl, rfl, hf, rfl, hpnl⟩⟩
      exact hp.imp (congrArg some) (congrArg some)

theorem onOpen_turn (hs : p.state = .filled) : Same p (p.onOpen t q).1 ∧ Turn t (some q) p (p.onOpen t q).1 := by
  unfold onOpen
  split
  · exact ⟨.refl p, .kept rfl rfl⟩
  · exact exit_turn hs (Or.inl rfl)
  · exact exit_turn hs (Or.inr rfl)
  · exact ⟨.refl p, .kept rfl rfl⟩

theorem onQuote_turn : Same p (p.onQuote t q).1 ∧ Turn t (some q) p (p.onQuote t q).1 := by
  unfold onQuote
  split
  · next hs => exact onArmed_turn hs
  · next hs => exact onWorking_turn hs
  · next hs => exact onOpen_turn hs
  · exact ⟨.refl p, .kept rfl rfl⟩

theorem reprice_spec : Same p (p.reprice t row now).1 ∧ (p.reprice t row now).1.record = p.record
    ∧ (p.kind = .limit → p.limit = p.entry → (p.reprice t row now).1.limit = (p.reprice t row now).1.entry) := by
  unfold reprice
  cases row.prices with
  | error e => exact ⟨.refl p, rfl, fun _ h => h⟩
  | ok v =>
    dsimp only
    cases hl : t.limitFor p.kind p.side v.entry with
    | error s =>
      refine ⟨⟨rfl, rfl, rfl, rfl, rfl⟩, rfl, fun hk _ => ?_⟩
      rw [hk] at hl
      cases hl
    | ok limit =>
      have hle : p.kind = .limit → limit = v.entry := fun hk => by
        rw [hk] at hl
        exact (Except.ok.inj hl).symm
      dsimp only
      cases t.sizeLots v.entry v.sl <;> exact ⟨⟨rfl, rfl, rfl, rfl, rfl⟩, rfl, fun hk _ => hle hk⟩

omit [PaperHost] in
theorem regrade_spec : Same p (p.regrade t row now).1 ∧ (p.regrade t row now).1.terms = p.terms
    ∧ ((p.regrade t row now).1.record = p.record ∨ (p.state = .armed ∨ p.state = .working)
      ∧ (p.regrade t row now).1.state = .expired ∧ (p.regrade t row now).1.fillPrice = p.fillPrice) := by
  unfold regrade
  dsimp only
  split
  · exact ⟨.refl p, rfl, Or.inl rfl⟩
  · split
    · next h => exact ⟨⟨rfl, rfl, rfl, rfl, rfl⟩, rfl, Or.inr ⟨h.2, rfl, rfl⟩⟩
    · exact ⟨⟨rfl, rfl, rfl, rfl, rfl⟩, rfl, Or.inl rfl⟩

/-- The grade follows a plan that kept its record, at its own terms or at those of the row. -/
theorem Turn.regrade {p₀ : PaperPlan} (hp : Same p₀ p) (hr : p.record = p₀.record)
    (hl : p.terms = p₀.terms ∨ p₀.state = .armed ∧ (p₀.kind = .limit → p₀.limit = p₀.entry → p.limit = p.entry)) :
    Same p₀ (p.regrade t row now).1 ∧ Turn t none p₀ (p.regrade t row now).1 := by
  obtain ⟨hs, ht, hrec⟩ := @regrade_spec t p row now
  refine ⟨hp.trans hs, ?_⟩
  simp only [record, Record.mk.injEq] at hr
  simp only [terms, Terms.mk.injEq] at ht hl
  rcases hrec with hrec | ⟨hstate, hend, hfill⟩
  · rcases hl with hl | ⟨ha, hl⟩
    · exact .kept (hrec.trans (by simp only [record, hr])) (by simp only [terms, ht, hl])
    · exact .repriced ha (hrec.trans (by simp only [record, hr])) fun hk he => by rw [ht.1, ht.2.2.2.1]; exact hl hk he
  · refine .ended (hr.1 ▸ hstate) (Or.inr (Or.inl hend)) (hfill.trans hr.2.2.1) fun hk he => ?_
    rw [ht.1, ht.2.2.2.1]
    rcases hl with hl | ⟨_, hl⟩
    · rw [hl.1, hl.2.2.2.1, he]
    · exact hl hk he

theorem update_turn : Same p (p.update t row now).1 ∧ Turn t none p (p.update t row now).1 := by
  unfold update
  dsimp only
  split
  · next p' e h =>
    split at h
    · next hm =>
      obtain ⟨hs, hr, hl⟩ := @reprice_spec _ t p row now
      obtain rfl : (p.reprice t row now).1 = p' := congrArg Prod.fst h
      exact ⟨hs, .repriced hm.2 hr hl⟩
    · cases h
  · next p' events h =>
    split at h
    · next hm =>
      obtain ⟨hs, hr, hl⟩ := @reprice_spec _ t p row now
      obtain rfl : (p.reprice t row now).1 = p' := congrArg Prod.fst h
      exact Turn.regrade hs hr (Or.inr ⟨hm.2, hl⟩)
    · cases h
      exact Turn.regrade (.refl p) rfl (Or.inl rfl)

theorem cancel_turn : Same p (p.cancel row now).1 ∧ Turn t none p (p.cancel row now).1 := by
  unfold cancel
  split
  · next hs => exact ⟨⟨rfl, rfl, rfl, rfl, rfl⟩, .ended hs (Or.inl rfl) rfl fun _ h => h⟩
  · exact ⟨⟨rfl, rfl, rfl, rfl, rfl⟩, .kept rfl rfl⟩

omit [PaperHost] in
theorem Noted.refl (p : PaperPlan) : Noted p p := ⟨[], by simp⟩

omit [PaperHost] in
theorem Noted.trans {p' p'' : PaperPlan} (h : Noted p p') (h' : Noted p' p'') : Noted p p'' := by
  obtain ⟨notes, hn, hp⟩ := h
  obtain ⟨more, hm, hp'⟩ := h'
  refine ⟨notes ++ more, by rw [hm, hn, List.append_assoc], fun n hmem => ?_⟩
  exact (List.mem_append.mp hmem).elim (hp n) (hp' n)

omit [PaperHost] in
theorem noted_one {p' : PaperPlan} {n : PlanNote} (h : p'.history = p.history ++ [n]) (hn : n.plain = true) : Noted p p' :=
  ⟨[n], h, by simpa using hn⟩

omit [PaperHost] in
theorem noted_none {p' : PaperPlan} (h : p'.history = p.history) : Noted p p' := ⟨[], by simpa using h⟩

theorem reprice_noted : Noted p (p.reprice t row now).1 := by
  unfold reprice
  split
  · exact .refl p
  · split
    · exact noted_none rfl
    · split
      · exact noted_none rfl
      · exact noted_one rfl rfl

omit [PaperHost] in
theorem regrade_noted : Noted p (p.regrade t row now).1 := by
  unfold regrade
  dsimp only
  split
  · exact .refl p
  · split
    · exact noted_one rfl rfl
    · exact noted_one rfl rfl

theorem update_noted : Noted p (p.update t row now).1 := by
  unfold update
  dsimp only
  split
  · next p' e h =>
    split at h
    · obtain rfl : (p.reprice t row now).1 = p' := congrArg Prod.fst h
      exact reprice_noted
    · cases h
  · next p' events h =>
    refine Noted.trans ?_ regrade_noted
    split at h
    · obtain rfl : (p.reprice t row now).1 = p' := congrArg Prod.fst h
      exact reprice_noted
    · cases h
      exact .refl p

omit [PaperHost] in
theorem cancel_noted : Noted p (p.cancel row now).1 := by
  unfold cancel
  split
  · exact noted_none rfl
  · exact noted_one rfl rfl

omit [PaperHost] in
theorem told_error {p' : PaperPlan} {e : Exc} : Told p (p', .error e) := ⟨nofun, nofun⟩

omit [PaperHost] in
theorem told_none {p' : PaperPlan} (h : p'.record = p.record) : Told p (p', .ok []) := by
  refine ⟨fun events he e hm => ?_, fun events _ hne => absurd h hne⟩
  obtain rfl := Except.ok.inj he
  simp at hm

omit [PaperHost] in
theorem told_one {p' : PaperPlan} {k : PlanEvent} : Told p (p', .ok [.plan k p.ref]) := by
  refine ⟨fun events he e hm => ?_, fun events he _ => ?_⟩
  · obtain rfl := Except.ok.inj he
    obtain rfl := List.mem_singleton.mp hm
    rfl
  · obtain rfl := Except.ok.inj he
    simp

omit [PaperHost] in
theorem take_told {d : StopLimit.Decision} : Told p (p.take q d) := by
  unfold take
  split
  · exact told_none rfl
  · split
    · exact told_one
    · exact told_error
  · exact told_one
  · exact told_one

theorem onArmed_told : Told p (p.onArmed t q) := by
  unfold onArmed
  dsimp only
  split
  · exact told_one
  · split
    · split
      · exact told_error
      · exact told_none rfl
      · exact told_one
    · split
      · exact told_error
      · split
        · exact told_error
        · next d _ =>
          have h := take_told (p := p.firstSeen q.monotonic) (q := q) (d := d)
          exact ⟨h.about, h.told⟩

theorem onWorking_told : Told p (p.onWorking t q) := by
  unfold onWorking
  split
  · exact told_error
  · exact told_one
  · split
    · exact told_one
    · exact told_none rfl

omit [PaperHost] in
theorem exit_told {price : Number} {reason : ExitReason} : Told p (p.exit t price reason q) := by
  unfold exit
  dsimp only
  split
  · exact told_error
  · split
    · exact told_error
    · exact told_one

theorem onQuote_told : Told p (p.onQuote t q) := by
  unfold onQuote onOpen
  split
  · exact onArmed_told
  · exact onWorking_told
  · split
    · exact told_error
    · exact exit_told
    · exact exit_told
    · exact told_none rfl
  · exact told_none rfl

theorem reprice_told : Told p (p.reprice t row now) := by
  unfold reprice
  split
  · exact told_error
  · split
    · exact told_error
    · split
      · exact told_error
      · exact told_one

omit [PaperHost] in
theorem regrade_told : Told p ((p.regrade t row now).1, .ok (p.regrade t row now).2) := by
  unfold regrade
  dsimp only
  split
  · exact told_none rfl
  · split
    · exact told_one
    · exact told_none rfl

theorem update_told : Told p (p.update t row now) := by
  unfold update
  dsimp only
  split
  · exact told_error
  · next p' events h =>
    have hp : p'.ref = p.ref ∧ p'.record = p.record ∧ ∀ e ∈ events, e.ref? = some p.ref := by
      split at h
      · obtain rfl : (p.reprice t row now).1 = p' := congrArg Prod.fst h
        have hr : (p.reprice t row now).2 = .ok events := congrArg Prod.snd h
        exact ⟨p.reprice_spec.1.ref, p.reprice_spec.2.1, reprice_told.about events hr⟩
      · cases h
        exact ⟨rfl, rfl, by simp⟩
    have hg := @regrade_told t p' row now
    refine ⟨fun all he e hm => ?_, fun all he hne => ?_⟩
    · obtain rfl := Except.ok.inj he
      rcases List.mem_append.mp hm with hm | hm
      · exact hp.2.2 e hm
      · exact (hg.about _ rfl e hm).trans (congrArg some hp.1)
    · obtain rfl := Except.ok.inj he
      exact List.append_ne_nil_of_right_ne_nil _ (hg.told _ rfl (hp.2.1 ▸ hne))

/-- A row that raises leaves what the plan has come to. -/
theorem update_raises {e : Exc} (h : (p.update t row now).2 = .error e) : (p.update t row now).1.record = p.record := by
  unfold update at h ⊢
  dsimp only at h ⊢
  split at h
  · next p' e' hm =>
    split at hm
    · obtain rfl : (p.reprice t row now).1 = p' := congrArg Prod.fst hm
      exact p.reprice_spec.2.1
    · cases hm
  · cases h

omit [PaperHost] in
theorem cancel_told : Told p ((p.cancel row now).1, .ok (p.cancel row now).2) := by
  unfold cancel
  split
  · exact told_one
  · exact told_none rfl

end Turns

end PaperPlan

end MatchTrader
