import MatchTrader.Decimals
import MatchTrader.EndedLifecycles

/-! What holds of a plan that the engine returns for a live lane: every check that it made
is a fact about the prices, the size and the type that are sent. -/

namespace MatchTrader

open Durable

/-- The stop, the entry and the target lie in the order of the side. -/
def Bracketed (side : String) (entry sl tp : Decimal) : Prop :=
  (side = "BUY" → sl < entry ∧ entry < tp) ∧ (side = "SELL" → tp < entry ∧ entry < sl)

/-- The price is a multiple of ten to the power of minus the precision, where one is stated. -/
def OnGrid (precision : Option Int) (value : Decimal) : Prop :=
  ∀ p, precision = some p → ∃ n : Int, value.toRat = n * (10 : ℚ) ^ (-p)

/-- The instrument admits the size and the side. -/
structure Sizeable (info : Instrument) (side : String) (volume minimum maximum step : Decimal) : Prop where
  volumeMin : info.volumeMin = some minimum
  volumeMax : info.volumeMax = some maximum
  volumeStep : info.volumeStep = some step
  within : minimum ≤ volume ∧ volume ≤ maximum
  step_pos : 0 < step
  multiple : Decimal.etiny ≤ min volume.exp step.exp → ∃ n : Int, volume.toRat = n * step.toRat
  open_ : info.closeOnly = false
  both : side = "SELL" → info.longOnly = false

/-- A resting level that the quote has not passed. -/
def Unpassed (q : Quote) (side orderType : String) (level : Decimal) : Prop :=
  (orderType = "STOP" → (side = "BUY" → q.ask < level) ∧ (side = "SELL" → level < q.bid))
    ∧ (orderType = "LIMIT" → (side = "BUY" → level < q.ask) ∧ (side = "SELL" → q.bid < level))

/-- The broker's instruments hold that one under the symbol. -/
def AnswersInstrument (env : Answers) (api : Api) (symbol : String) (info : Instrument) : Prop :=
  ∃ i, ∃ list : List Instrument, env i (.instruments api) = (.ok list : Except Exc (List Instrument))
    ∧ list.filter (fun x => x.symbol = symbol) = [info]

/-- Every read of the symbol's quotes is answered with the one quote. -/
def AnswersQuote (env : Answers) (api : Api) (symbol : String) (q : Quote) : Prop :=
  ∀ i, ∃ list : List Quote, env i (.quotes api symbol) = (.ok list : Except Exc (List Quote))
    ∧ list.filter (fun x => x.symbol = symbol) = [q]

theorem limit_eq_ok {d : Option Decimal} {a : Decimal} : limit d = .ok a ↔ d = some a := by
  cases d <;> simp [limit]

section Grid

variable {precision : Option Int} {value r : Decimal}

/-- Rounding to the grid gives a multiple of its step. -/
theorem onGrid_ok (h : onGrid precision value = .ok r) : OnGrid precision r := by
  intro p hp
  subst hp
  simp only [onGrid] at h
  split at h
  · next hz =>
    obtain rfl := Except.ok.inj h
    exact ⟨0, by simp [Decimal.isZero_iff.mp hz]⟩
  · rw [bind_eq_ok] at h
    obtain ⟨quantum, hq, h⟩ := h
    rw [arith_eq_ok] at hq h
    refine Decimal.exists_multiple ?_
    rw [(Decimal.quantize_ok h).1, Decimal.scaleb_exp hq]
    exact le_max_left _ _

end Grid

theorem violatesLimits_ok {minimum maximum step lots : Decimal}
    (h : violatesLimits minimum maximum step lots = .ok false) :
    (minimum ≤ lots ∧ lots ≤ maximum) ∧ 0 < step
      ∧ (Decimal.etiny ≤ min lots.exp step.exp → ∃ n : Int, lots.toRat = n * step.toRat) := by
  unfold violatesLimits at h
  split at h
  · simp at h
  next hs =>
  push Not at hs
  have hmod : ∃ r, lots.mod step = .ok r ∧ r.isZero = true := by
    cases hm : lots.mod step with
    | error e => simp [hm, arith, Except.map, Except.mapError] at h
    | ok r => exact ⟨r, rfl, by simpa [hm, arith, Except.map, Except.mapError] using h⟩
  obtain ⟨r, hr, hz⟩ := hmod
  refine ⟨hs.2, ?_, Decimal.mod_isZero hr hz⟩
  rw [Decimal.pos_iff]
  exact lt_of_not_ge fun hn => hs.1 (Decimal.nonpos_iff.mpr hn)

namespace SignalEngine

variable {lane : Lane} {symbols : SymbolMap} {s : Signal} {c : Context} {w : World}
  {A : (q : Query) → Reply q → Prop}

theorem checkBrackets_ok {side : String} {entry sl tp : Decimal} (h : checkBrackets side entry sl tp = .ok ()) :
    Bracketed side entry sl tp := by
  rw [checkBrackets, raiseIf_eq_ok] at h
  constructor
  · intro hb
    by_contra hn
    exact h (Or.inl ⟨hb, hn⟩)
  · intro hs
    by_contra hn
    exact h (Or.inr ⟨hs, hn⟩)

theorem checkLimits_ok {info : Instrument} {volume : Decimal} {side : String}
    (h : checkLimits info volume side = .ok ()) :
    ∃ minimum maximum step, Sizeable info side volume minimum maximum step := by
  simp only [checkLimits, bind_eq_ok, raiseIf_eq_ok, limit_eq_ok] at h
  obtain ⟨minimum, hmin, maximum, hmax, step, hstep, violated, hv, _, hn, _, hc, hl⟩ := h
  simp only [Bool.not_eq_true] at hn hc
  subst hn
  obtain ⟨hw, hp, hm⟩ := violatesLimits_ok hv
  exact ⟨minimum, maximum, step, hmin, hmax, hstep, hw, hp, hm, hc, fun hs => by simpa [hs] using hl⟩

section Asked

variable {G : World → World → Prop} {E : Exc → World → Prop}

theorem wp_quotes {api : Api} {symbol : String} {P : List Quote → World → Prop} :
    (quotes api symbol).wp A G P E w ↔
      ∀ r : Except Exc (List Quote), A (.quotes api symbol) r → (Prog.ofExcept r : Act (List Quote)).wp A G P E w := Iff.rfl

theorem wp_instruments {api : Api} {P : List Instrument → World → Prop} :
    (instruments api).wp A G P E w ↔
      ∀ r : Except Exc (List Instrument), A (.instruments api) r → (Prog.ofExcept r : Act (List Instrument)).wp A G P E w :=
  Iff.rfl

theorem wp_equity {api : Api} {P : Decimal → World → Prop} :
    (equity api).wp A G P E w ↔
      ∀ r : Except Exc Decimal, A (.equity api) r → (Prog.ofExcept r : Act Decimal).wp A G P E w := Iff.rfl

end Asked

theorem throughMarket_eq_false {q : Quote} {side orderType : String} {level : Decimal}
    (h : throughMarket q side orderType level = false) : Unpassed q side orderType level := by
  unfold throughMarket at h
  constructor
  · rintro rfl
    rw [if_pos rfl] at h
    constructor
    · rintro rfl
      rw [if_pos rfl, decide_eq_false_iff_not, Decimal.le_iff, not_le] at h
      exact Decimal.lt_iff.mpr h
    · rintro rfl
      rw [if_neg (by decide), decide_eq_false_iff_not, Decimal.le_iff, not_le] at h
      exact Decimal.lt_iff.mpr h
  · rintro rfl
    rw [if_neg (by decide)] at h
    constructor
    · rintro rfl
      rw [if_pos rfl, decide_eq_false_iff_not, Decimal.le_iff, not_le] at h
      exact Decimal.lt_iff.mpr h
    · rintro rfl
      rw [if_neg (by decide), decide_eq_false_iff_not, Decimal.le_iff, not_le] at h
      exact Decimal.lt_iff.mpr h

/-- Every answer to a read of the symbol's quotes holds the one quote. -/
def OneQuote (A : (q : Query) → Reply q → Prop) (api : Api) (symbol : String) (q : Quote) : Prop :=
  ∀ r : Except Exc (List Quote), A (.quotes api symbol) r → ∃ list, r = .ok list ∧ list.filter (fun x => x.symbol = symbol) = [q]

theorem checkNotThroughMarket_wp {api : Api} {symbol side type : String} {level : Decimal} {G : World → World → Prop} :
    (checkNotThroughMarket c api symbol side type level).wp A G (fun _ v => v = w ∧ ∀ q, OneQuote A api symbol q →
      quoteFresh c.now q = true → Unpassed q side type level) (fun _ _ => True) w := by
  unfold checkNotThroughMarket
  split
  · next ht =>
    subst ht
    exact ⟨rfl, fun q _ _ => ⟨fun h => absurd h (by decide), fun h => absurd h (by decide)⟩⟩
  · rw [Prog.wp_bind, Prog.wp_tryCatch, wp_quotes]
    intro r hr
    have hone : ∀ q, OneQuote A api symbol q → ∃ list, r = .ok list ∧ list.filter (fun x => x.symbol = symbol) = [q] :=
      fun q hq => hq r hr
    rw [Prog.wp_ofExcept]
    refine ⟨?_, ?_⟩
    · rintro list rfl
      split
      · next q hq =>
        rw [wp_raiseIf]
        refine ⟨fun _ => trivial, fun hn => ⟨rfl, fun q' hq' hf => ?_⟩⟩
        obtain ⟨list', hl, hl'⟩ := hone q' hq'
        obtain rfl := Except.ok.inj hl
        rw [hq] at hl'
        obtain rfl := (List.cons.inj hl').1
        exact throughMarket_eq_false (by simpa [hf] using hn)
      · next hne =>
        refine ⟨rfl, fun q' hq' _ => ?_⟩
        obtain ⟨list', hl, hl'⟩ := hone q' hq'
        obtain rfl := Except.ok.inj hl
        exact absurd hl' (hne q')
    · rintro e rfl
      refine ⟨rfl, fun q' hq' _ => ?_⟩
      obtain ⟨list', hl, _⟩ := hone q' hq'
      exact absurd hl (by simp)

theorem instrument_wp {api : Api} {symbol : String} {G : World → World → Prop} :
    (instrument api symbol).wp A G (fun info v => v = w ∧ ∃ list : List Instrument,
      A (.instruments api) (.ok list : Except Exc (List Instrument)) ∧ list.filter (fun x => x.symbol = symbol) = [info])
      (fun _ _ => True) w := by
  rw [instrument, Prog.wp_bind, wp_instruments]
  intro r hr
  rw [Prog.wp_ofExcept]
  refine ⟨?_, fun _ _ => trivial⟩
  rintro list rfl
  split
  · next info hi => exact ⟨rfl, list, hr, hi⟩
  · exact trivial

theorem sizingEquity_wp {lane : Lane} {api : Api} {G : World → World → Prop} :
    (sizingEquity lane api).wp A G (fun e v => v = w ∧ (sizing lane = .percent →
      A (.equity api) (.ok e : Except Exc Decimal) ∧ 0 < e)) (fun _ _ => True) w := by
  unfold sizingEquity
  split
  · rw [accountEquity, Prog.wp_bind, Prog.wp_tryCatch, wp_equity]
    intro r hr
    rw [Prog.wp_ofExcept]
    refine ⟨?_, fun _ _ => trivial⟩
    rintro value rfl
    rw [Prog.wp_bind, wp_raiseIf]
    refine ⟨fun _ => trivial, fun hn => ⟨rfl, fun _ => ⟨hr, ?_⟩⟩⟩
    rw [Decimal.pos_iff]
    exact lt_of_not_ge fun h => hn (Decimal.nonpos_iff.mpr h)
  · next hp => exact ⟨rfl, fun h => absurd h hp⟩

/-- What the engine has at hand once the prices and the size fit the destination. -/
structure Fitted (A : (q : Query) → Reply q → Prop) (lane : Lane) (m : SymbolMapping) (s : Signal)
    (side type : String) (c : Context) (api : Api) (info : Instrument) (equity entry sl tp size : Decimal) : Prop where
  answered : ∃ list : List Instrument, A (.instruments api) (.ok list : Except Exc (List Instrument))
    ∧ list.filter (fun x => x.symbol = m.destination) = [info]
  entryGrid : onGrid info.pricePrecision s.entry = .ok entry
  slGrid : onGrid info.pricePrecision s.stopLoss = .ok sl
  tpGrid : onGrid info.pricePrecision s.takeProfit = .ok tp
  brackets : checkBrackets side entry sl tp = .ok ()
  funds : sizing lane = .percent → A (.equity api) (.ok equity : Except Exc Decimal) ∧ 0 < equity
  sized : lots lane m s info equity = .ok size
  limits : checkLimits info size side = .ok ()
  market : ∀ q, OneQuote A api m.destination q → quoteFresh c.now q = true → Unpassed q side type entry

theorem fitToDestination_wp {lane : Lane} {m : SymbolMapping} {side type : String} {api : Api}
    {G : World → World → Prop} :
    (fitToDestination lane m s side type c api).wp A G (fun r _ => ∃ info equity,
      Fitted A lane m s side type c api info equity r.1 r.2.1 r.2.2.1 r.2.2.2) (fun _ _ => True) w := by
  rw [fitToDestination, Prog.wp_bind]
  refine Prog.wp_consequence instrument_wp ?_ fun _ _ _ => trivial
  rintro info _ ⟨rfl, hinfo⟩
  simp only [Prog.wp_bind, Prog.wp_ofExcept, implies_true, and_true]
  intro entry hentry sl hsl tp htp _ hb
  refine Prog.wp_consequence sizingEquity_wp ?_ fun _ _ _ => trivial
  rintro equity _ ⟨rfl, hequity⟩ size hsize _ hlimits
  refine Prog.wp_consequence checkNotThroughMarket_wp ?_ fun _ _ _ => trivial
  rintro _ _ ⟨rfl, hq⟩
  exact ⟨info, equity, hinfo, hentry, hsl, htp, hb, hequity, hsize, hlimits, hq⟩

section Decision

variable [Host]

/-- A live plan, with what the engine has at hand when it returns one. -/
structure Planned (A : (q : Query) → Reply q → Prop) (lane : Lane) (m : SymbolMapping) (s : Signal) (c : Context)
    (api : Api) (info : Instrument) (equity entry : Decimal) (p : OrderPlan) : Prop where
  admitted : admission lane s c = .ok ()
  session : c.api = some api
  symbol : p.instrument = m.destination
  side : p.side = s.side ∧ (s.side = "BUY" ∨ s.side = "SELL")
  positive : 0 < s.entry ∧ 0 < s.stopLoss ∧ 0 < s.takeProfit
  source : Bracketed s.side s.entry s.stopLoss s.takeProfit
  type : p.orderType = "MARKET" ∨ p.orderType = "LIMIT" ∨ p.orderType = "STOP"
  price : p.price = if p.orderType = "MARKET" then none else some entry
  label : p.label = s.label
  fitted : Fitted A lane m s p.side p.orderType c api info equity entry p.sl p.tp p.volume

omit [Host] in
theorem orderType_wp {m : SymbolMapping} {side : String} {G : World → World → Prop} :
    (orderType s m side c).wp A G (fun t _ => t = "MARKET" ∨ t = "LIMIT" ∨ t = "STOP") (fun _ _ => True) w := by
  rw [orderType, Prog.wp_bind]
  refine (quiet_resolvedType s m side c).wp (fun t => ?_) fun _ => trivial
  rw [Prog.wp_bind, wp_raiseIf]
  exact ⟨fun _ => trivial, fun h => not_not.mp h⟩

theorem admission_session {lane : Lane} (hp : c.paper = false) (h : admission lane s c = .ok ()) :
    c.destination = lane.destinationAccount ∧ c.verified = true ∧ ∃ api, c.api = some api := by
  simp only [admission, bind_eq_ok, raiseIf_eq_ok, hp] at h
  obtain ⟨_, hd, _⟩ := h
  cases hc : c.api with
  | none => simp [hc] at hd
  | some api => exact ⟨by simpa [hc] using (not_or.mp hd).1, by simpa [hc] using (not_or.mp hd).2, api, rfl⟩

theorem decide_live {lane : Option Lane} {G : World → World → Prop} (hp : c.paper = false) :
    (decide lane symbols s c).wp A G (fun p _ => c.armed = true ∧ ∃ l m api info equity entry, lane = some l
      ∧ symbols.lookup s.symbol = some m ∧ Planned A l m s c api info equity entry p) (fun _ _ => True) w := by
  unfold decide
  split
  · exact trivial
  next l hl =>
  have harmed : c.armed = true ∧ lane = some l := by
    split at hl
    · next ha => exact ⟨ha, hl⟩
    · simp at hl
  simp only [Prog.wp_bind, Prog.wp_ofExcept, implies_true, and_true]
  intro _ hadmitted
  split
  · exact trivial
  next m hm =>
  simp only [Prog.wp_bind, Prog.wp_ofExcept, wp_raiseIf, implies_true, true_and, and_true]
  intro hpos _ hsource box _ _
  refine Prog.wp_consequence orderType_wp (fun type v ht => ?_) fun _ _ _ => trivial
  obtain ⟨_, _, api, hapi⟩ := admission_session hp hadmitted
  unfold fit
  rw [hp, hapi]
  refine Prog.wp_consequence fitToDestination_wp ?_ fun _ _ _ => trivial
  rintro ⟨entry, sl, tp, size⟩ _ ⟨info, equity, hf⟩
  simp only [not_or] at hpos
  obtain ⟨hside, hentry, hsl, htp⟩ := hpos
  exact ⟨harmed.1, l, m, api, info, equity, entry, harmed.2, hm, hadmitted, hapi, rfl, ⟨rfl, by tauto⟩,
    ⟨hentry, hsl, htp⟩, checkBrackets_ok hsource, ht, rfl, rfl, hf⟩

end Decision

end SignalEngine

section Sound

variable [Host] {lane : Option Lane} {symbols : SymbolMap} {s : Signal} {c : Context} {p : OrderPlan} {w : World}

/-- What a live plan is. -/
structure SoundPlan (env : Answers) (lane : Lane) (s : Signal) (c : Context) (api : Api) (info : Instrument)
    (entry : Decimal) (p : OrderPlan) : Prop where
  destination : c.destination = lane.destinationAccount
  session : c.api = some api ∧ c.verified = true
  machine : s.machineId = lane.machineId
  source : s.source = lane.source ∨ s.source ∈ lane.additionalSources
  connection : lane.connectionName = "" ∨ s.source = "panel" ∨ s.connectionName = lane.connectionName
  label : s.label ≠ "" ∧ p.label = s.label
  attributed : s.checkAttribution lane = .ok ()
  recent : -5000000 ≤ c.now.since s.timestampUtc ∧ c.now.since s.timestampUtc ≤ 30000000
  armedBefore : ∃ t, c.armedAt = some t ∧ t ≤ s.timestampUtc
  side : p.side = "BUY" ∨ p.side = "SELL"
  type : p.orderType = "MARKET" ∨ p.orderType = "LIMIT" ∨ p.orderType = "STOP"
  answered : AnswersInstrument env api p.instrument info
  price : p.price = if p.orderType = "MARKET" then none else some entry
  bracketed : Bracketed p.side entry p.sl p.tp
  onGrid : OnGrid info.pricePrecision entry ∧ OnGrid info.pricePrecision p.sl ∧ OnGrid info.pricePrecision p.tp
  sized : ∃ minimum maximum step, Sizeable info p.side p.volume minimum maximum step
  unpassed : ∀ q, AnswersQuote env api p.instrument q → SignalEngine.quoteFresh c.now q = true →
    Unpassed q p.side p.orderType entry

theorem decide_planned {env : Answers} (hp : c.paper = false)
    (h : ((SignalEngine.decide lane symbols s c).eval env w).2 = .ok p) :
    c.armed = true ∧ ∃ l m api info equity entry, lane = some l ∧ symbols.lookup s.symbol = some m
      ∧ SignalEngine.Planned (Given env) l m s c api info equity entry p :=
  (Prog.wp_eval (G := fun _ _ => True) (A := Given env) (SignalEngine.decide_live hp) env fun i _ => ⟨i, rfl⟩).2.1 p h

theorem admission_facts {l : Lane} (h : SignalEngine.admission l s c = .ok ()) :
    (s.machineId = l.machineId ∧ (s.source = l.source ∨ s.source ∈ l.additionalSources))
      ∧ ((l.connectionName = "" ∨ s.source = "panel" ∨ s.connectionName = l.connectionName) ∧ s.checkAttribution l = .ok ())
      ∧ (∃ t, c.armedAt = some t ∧ t ≤ s.timestampUtc) ∧ fresh c.now s.timestampUtc = true := by
  simp only [SignalEngine.admission, bind_eq_ok, raiseIf_eq_ok] at h
  obtain ⟨_, _, _, hm, _, hconn, _, hf, _, _, _, _, _, hat, _⟩ := h
  have hconn : l.connectionName = "" ∨ s.source = "panel" ∨ s.connectionName = l.connectionName := by tauto
  have hat : s.checkAttribution l = .ok () := by
    cases ha : s.checkAttribution l with
    | error e => simp [ha, Except.mapError] at hat
    | ok u => rfl
  rw [not_or, not_not, not_not] at hm
  rw [not_or, not_not, Option.any_eq_true] at hf
  obtain ⟨⟨t, ht, hle⟩, hfresh⟩ := hf
  exact ⟨hm, ⟨hconn, hat⟩, ⟨t, ht, of_decide_eq_true hle⟩, by simpa using hfresh⟩

theorem live_plan_sound {env : Answers} (hp : c.paper = false)
    (h : ((SignalEngine.decide lane symbols s c).eval env w).2 = .ok p) :
    c.armed = true ∧ ∃ l, lane = some l ∧ ∃ api info entry, SoundPlan env l s c api info entry p := by
  obtain ⟨ha, l, m, api, info, equity, entry, hl, _, hplan⟩ := decide_planned hp h
  obtain ⟨hd, hv, _⟩ := SignalEngine.admission_session hp hplan.admitted
  obtain ⟨hm, hc, ht, hf⟩ := admission_facts hplan.admitted
  obtain ⟨list, ⟨i, hi⟩, hlist⟩ := hplan.fitted.answered
  refine ⟨ha, l, hl, api, info, entry, {
    destination := hd, session := ⟨hplan.session, hv⟩, machine := hm.1, source := hm.2
    connection := hc.1, attributed := hc.2
    label := ⟨(SignalEngine.admission_ok hplan.admitted).2.1, hplan.label⟩, recent := by simpa [fresh] using hf
    armedBefore := ht, side := by simpa [hplan.side.1] using hplan.side.2, type := hplan.type
    answered := ⟨i, list, hi, by rw [hplan.symbol, hlist]⟩, price := hplan.price
    bracketed := SignalEngine.checkBrackets_ok hplan.fitted.brackets
    onGrid := ⟨onGrid_ok hplan.fitted.entryGrid, onGrid_ok hplan.fitted.slGrid, onGrid_ok hplan.fitted.tpGrid⟩
    sized := SignalEngine.checkLimits_ok hplan.fitted.limits
    unpassed := fun q hq hfresh => hplan.fitted.market q ?_ hfresh }⟩
  rintro _ ⟨i, rfl⟩
  obtain ⟨list, hlist, hone⟩ := hq i
  exact ⟨list, by rw [← hplan.symbol, hlist], by rw [← hplan.symbol, hone]⟩

end Sound

section Sample

attribute [local instance] sampleHost

def sampleLane : Lane := { machineId := "PC", source := "panel", destinationAccount := "A" }

def sampleContext : Context where
  mode := some .live
  armed := true
  armedAt := some (noon 0)
  now := noon 30
  destination := "A"
  api := some sampleApi
  verified := true
  endedInBatch := false
  laterEndRecorded := false
  alreadyAttempted := false
  bridgeRequestExists := false

/-- What the engine makes of a signal at the sample's moment. -/
def samplePlan (lane : Lane) (symbols : SymbolMap) (s : Signal) (env : Answers) : Except Exc OrderPlan :=
  ((SignalEngine.decide (some lane) symbols s sampleContext).eval env (.fresh "fx" sampleMemory)).2

theorem live_plan_sound_sample : ∃ p, samplePlan sampleLane sampleMemory.symbols sampleIntent sampleAnswers = .ok p
    ∧ sampleContext.armed = true ∧ ∃ l, some sampleLane = some l
      ∧ ∃ api info entry, SoundPlan sampleAnswers l sampleIntent sampleContext api info entry p := by
  have hplan : (samplePlan sampleLane sampleMemory.symbols sampleIntent sampleAnswers).toOption.any (fun _ => true) = true := by decide +kernel
  obtain ⟨p, hp, _⟩ := exists_ok hplan
  exact ⟨p, hp, live_plan_sound rfl hp⟩

/-- A size below the least exponent that a remainder can have. -/
def tinyLots : Decimal := ⟨false, 1, -1000100⟩

def tinyStep : Decimal := ⟨false, 3, -1000100⟩

def tinySymbols : SymbolMap :=
  [("EURUSD", { sampleMapping with lots := tinyLots, lots_pos := by decide +kernel })]

def tinyInstrument : Instrument := { sampleInstrument with volumeMin := some tinyLots, volumeStep := some tinyStep }

/-- The sample's broker with another instrument. -/
def instrumentAnswers (info : Instrument) : Answers := fun _ q =>
  match q with
  | .instruments _ => (.ok [info] : Except Exc (List Instrument))
  | q => sampleReply q

/-- An instrument that is quoted in whole prices. -/
def wholePrices : Instrument := { sampleInstrument with pricePrecision := some 0, contractSize := some (.ofNat 1) }

/-- A live plan whose volume is a third of the instrument's step. -/
theorem live_plan_off_step : ∃ p, samplePlan sampleLane tinySymbols sampleIntent (instrumentAnswers tinyInstrument) = .ok p ∧ sampleContext.paper = false
    ∧ (∀ i, instrumentAnswers tinyInstrument i (.instruments sampleApi) = (.ok [tinyInstrument] : Except Exc (List Instrument)))
    ∧ p.instrument = tinyInstrument.symbol
    ∧ ¬ ∃ n : Int, p.volume.toRat = n * tinyStep.toRat := by
  have hplan : (samplePlan sampleLane tinySymbols sampleIntent (instrumentAnswers tinyInstrument)).toOption.any
      (fun p => p.instrument = "EURUSD" ∧ p.volume = tinyLots) = true := by decide +kernel
  obtain ⟨p, hp, hpv⟩ := exists_ok hplan
  simp only [decide_eq_true_eq] at hpv
  refine ⟨p, hp, rfl, fun _ => rfl, hpv.1, ?_⟩
  rintro ⟨n, hn⟩
  rw [hpv.2] at hn
  have hpos := Decimal.ten_zpow_pos (-1000100)
  have hthree : (1 : ℚ) = n * 3 := by
    refine mul_right_cancel₀ hpos.ne' ?_
    simpa [Decimal.toRat, tinyLots, tinyStep, mul_assoc] using hn
  have hint : (1 : Int) = n * 3 := by exact_mod_cast hthree
  omega

end Sample

end MatchTrader
