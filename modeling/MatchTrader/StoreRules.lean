import MatchTrader.Effects

/-! Rules for the programs that run on the capture journal. A program is shown to take
only steps, to leave the lanes and the memory alone, and to end with no attempt in
flight unless a statement has failed. -/

namespace MatchTrader

open Durable

variable {α β : Type} {w v : World} {P : α → World → Prop} {E : Exc → World → Prop}
  {A : (q : Query) → Reply q → Prop} {G : World → World → Prop}

/-- The ledger's start keeps to the broker on record and to the schema, and closes what is in flight in the action history. -/
theorem Journal.initMapping_inv {b : String} {j k : Journal} (h : initMapping b j = .ok k) :
    (∀ x, j.broker = some x → x = b) ∧ ∃ l : Journal,
      l = (let opened := { j with broker := some b, schemaVersion := some mappingSchemaVersion }
        if j.legacyMigrated then opened else { opened.trades.foldl initMapping.migrate opened with legacyMigrated := true })
      ∧ k = { l with actions := Rows.updateWhere (fun a => a.outcome = .dispatching) (fun a => { a with outcome := .uncertain })
                       l.actions } := by
  unfold initMapping at h
  split at h
  · cases h
  · split at h
    · cases h
    · next hb =>
      refine ⟨fun x hx => ?_, _, rfl, (Except.ok.inj h).symm⟩
      simpa [hx] using hb

theorem Journal.initMapping_current {b : String} {j k : Journal} (hm : j.legacyMigrated = true) (h : initMapping b j = .ok k) :
    k = { j with
      broker := some b, schemaVersion := some mappingSchemaVersion
      actions := Rows.updateWhere (fun a => a.outcome = .dispatching) (fun a => { a with outcome := .uncertain }) j.actions } := by
  obtain ⟨-, l, rfl, rfl⟩ := initMapping_inv h
  simp only [hm, if_true]

/-- What links, doubted order ids and the journal's own data keep is kept by the ledger's start. -/
theorem Journal.initMapping_keeps {K : Journal → Journal → Prop} {b : String} {j k : Journal} (h : initMapping b j = .ok k)
    (refl : ∀ j, K j j) (trans : ∀ {j k l}, K j k → K k l → K j l)
    (link : ∀ (j : Journal) trade nativeId evidence at_ side scope kind, K j (j.link trade side scope kind nativeId evidence at_))
    (doubt : ∀ (j : Journal) i, K j (j.updateTrade i fun r => { r with brokerOrderId := "", state := .uncertain }))
    (data : ∀ (j : Journal) broker schemaVersion legacyMigrated actions,
      K j { j with broker, schemaVersion, legacyMigrated, actions }) : K j k := by
  have hmigrate (j : Journal) (t : TradeRow) : K j (initMapping.migrate j t) := by
    unfold initMapping.migrate
    extract_lets j₁ j₂ scope j₃
    have h₂ : K j j₂ := trans (link ..) (link ..)
    have h₃ : K j₂ j₃ := by
      unfold j₃
      split
      · exact link ..
      · split
        · exact doubt ..
        · exact refl _
    split
    · exact h₂
    · exact trans h₂ (trans h₃ (link ..))
  have hfold (rows : List TradeRow) (j : Journal) : K j (rows.foldl initMapping.migrate j) := by
    induction rows generalizing j with
    | nil => exact refl j
    | cons t rows ih => exact trans (hmigrate j t) (ih _)
  obtain ⟨-, l, rfl, rfl⟩ := initMapping_inv h
  refine trans (data j (some b) (some mappingSchemaVersion) j.legacyMigrated j.actions) ?_
  simp only
  split
  · exact data ..
  · exact trans (hfold ..) (data ..)

/-- The world after more was said to the broker. -/
def World.said (w : World) (es : List Event) : World := { w with trace := w.trace ++ es }

@[simp] theorem World.said_journal (es : List Event) : (w.said es).journal = w.journal := rfl

@[simp] theorem World.said_faulted (es : List Event) : (w.said es).faulted = w.faulted := rfl

@[simp] theorem World.said_trace (es : List Event) : (w.said es).trace = w.trace ++ es := rfl

@[simp] theorem wp_now {P : Instant → World → Prop} :
    now.wp A G P E w ↔ ∀ t, A .clock t → P t w := Iff.rfl

@[simp] theorem wp_uuid4 {P : String → World → Prop} :
    uuid4.wp A G P E w ↔ ∀ s, A .uuid4 s → P s w := Iff.rfl

@[simp] theorem wp_readsWorld (f : World → α) : (reads f).wp A G P E w ↔ P (f w) w := Iff.rfl

@[simp] theorem wp_record (e : Event) {P : Unit → World → Prop} :
    (record e).wp A G P E w ↔ G w (w.said [e]) ∧ P () (w.said [e]) := Iff.rfl

@[simp] theorem wp_setMem (f : Memory → Memory) {P : Unit → World → Prop} :
    (setMem f).wp A G P E w ↔ G w { w with mem := f w.mem } ∧ P () { w with mem := f w.mem } := Iff.rfl

@[simp] theorem wp_askWrite (api : Api) (call : Call) {P : Except Exc Operation → World → Prop} :
    (askWrite api call).wp A G P E w ↔ ∀ r : Except Exc Operation, A (.write api call) r → P r w := Iff.rfl

@[simp] theorem wp_askPositions (api : Api) {P : Except Exc (List Position) → World → Prop} :
    (askPositions api).wp A G P E w ↔ ∀ r : Except Exc (List Position), A (.openPositions api) r → P r w := Iff.rfl

@[simp] theorem wp_askClosed (api : Api) (until_ : Instant) {P : Except Exc (List ClosedTrade) → World → Prop} :
    (askClosed api until_).wp A G P E w ↔
      ∀ r : Except Exc (List ClosedTrade), A (.closedPositions api until_) r → P r w := Iff.rfl

theorem wp_raiseIf {c : Prop} [Decidable c] {e : Exc} {P : Unit → World → Prop} :
    (raiseIf c e : Act Unit).wp A G P E w ↔ (c → E e w) ∧ (¬ c → P () w) := by
  unfold raiseIf
  split
  · next h => simp [h]
  · next h => simp [h]

theorem quiet_raiseIf {c : Prop} [Decidable c] {e : Exc} : (raiseIf c e : Act Unit).Quiet := by
  unfold raiseIf
  split
  · exact Prog.quiet_throw _
  · exact Prog.quiet_pure _

theorem yields_raiseIf {c : Prop} [Decidable c] {e : Exc} : (raiseIf c e : Act Unit).Yields fun _ => ¬ c := by
  unfold raiseIf
  split
  · exact Prog.yields_throw _
  · next h => exact Prog.yields_pure h

theorem wp_guarded {p : Act α} (hf : G w { w with faulted := true }) (he : E .sqlite { w with faulted := true })
    (h : p.wp A G P E w) : (guarded p).wp A G P E w := by
  intro b _
  cases b with
  | true => exact ⟨hf, he⟩
  | false => exact h

theorem wp_transact {f : Tx α} (hf : G w { w with faulted := true }) (hs : E .sqlite { w with faulted := true })
    (he : ∀ e, f w.journal = .error e → E e w)
    (h : ∀ a j, f w.journal = .ok (a, j) → G w { w with journal := j } ∧ P a { w with journal := j }) :
    (transact f).wp A G P E w := by
  refine wp_guarded hf hs ((Prog.wp_attempt _).mpr ⟨fun e h => ?_, fun a v hv => ?_⟩)
  · split at h
    · next hh => exact Except.error.inj h ▸ he _ hh
    · simp at h
  · split at hv
    · simp at hv
    · next hh =>
      simp only [Except.ok.injEq, Prod.mk.injEq] at hv
      obtain ⟨rfl, rfl⟩ := hv
      exact h _ _ hh

theorem Store.wp_change {f : Journal → Except Exc Journal} {P : Unit → World → Prop}
    (hf : G w { w with faulted := true }) (hs : E .sqlite { w with faulted := true })
    (he : ∀ e, f w.journal = .error e → E e w)
    (h : ∀ j, f w.journal = .ok j → G w { w with journal := j } ∧ P () { w with journal := j }) :
    (Store.change f).wp A G P E w := by
  refine wp_transact hf hs (fun e hh => he e ?_) fun _ j hh => h j ?_
  · cases hj : f w.journal with
    | error d => rw [hj] at hh; exact congrArg _ (Except.error.inj hh)
    | ok j => rw [hj] at hh; simp [Except.map] at hh
  · cases hj : f w.journal with
    | error d => rw [hj] at hh; simp [Except.map] at hh
    | ok k =>
      rw [hj] at hh
      simp only [Except.map, Except.ok.injEq, Prod.mk.injEq, true_and] at hh
      rw [hh]

section Quiet

variable (api : Api)

theorem quiet_instruments : (instruments api).Quiet := (Prog.quiet_query _).bind fun _ => Prog.quiet_ofExcept _

theorem quiet_quotes (symbol : String) : (quotes api symbol).Quiet :=
  (Prog.quiet_query _).bind fun _ => Prog.quiet_ofExcept _

theorem quiet_equity : (equity api).Quiet := (Prog.quiet_query _).bind fun _ => Prog.quiet_ofExcept _

theorem quiet_activeOrders : (activeOrders api).Quiet := (Prog.quiet_query _).bind fun _ => Prog.quiet_ofExcept _

end Quiet

/-- What a program on the journal may do. -/
structure Local [Host] (R : Rules) (w v : World) : Prop where
  steps : Steps R w v
  lanes : v.lanes = w.lanes
  mem : v.mem = w.mem

variable [Host] {R : Rules}

namespace Local

theorem refl : Local R w w := ⟨.refl, rfl, rfl⟩

theorem trans {u : World} (h : Local R w v) (hh : Local R v u) : Local R w u :=
  ⟨h.steps.trans hh.steps, hh.lanes.trans h.lanes, hh.mem.trans h.mem⟩

theorem fault : Local R w { w with faulted := true } := ⟨.single .fault, rfl, rfl⟩

theorem journal {j : Journal} (h : Steps R w { w with journal := j }) : Local R w { w with journal := j } :=
  ⟨h, rfl, rfl⟩

theorem said {e : Event} (h : Speaks R w e) : Local R w (w.said [e]) := ⟨.single (.say h), rfl, rfl⟩

end Local

/-- What a program may be granted: no more than steps, one after the other. -/
class Guarantee (R : outParam Rules) (G : World → World → Prop) : Prop where
  refl : ∀ w, G w w
  trans : ∀ {u v w}, G u v → G v w → G u w
  steps : ∀ {w v}, G w v → Steps R w v

instance : Guarantee R (Local R) := ⟨fun _ => .refl, .trans, Local.steps⟩

/-- What may also be granted to any program on the journal. -/
class Hosting (R : outParam Rules) (G : World → World → Prop) extends Guarantee R G where
  ofLocal : ∀ {w v}, Local R w v → G w v

instance : Hosting R (Steps R) where
  refl _ := .refl
  trans := .trans
  steps := id
  ofLocal := Local.steps

/-- What a program on a lane may do. -/
structure Within (R : Rules) (l : LaneId) (w v : World) : Prop where
  steps : Steps R w v
  others : ∀ k, k ≠ l → v.lanes k = w.lanes k
  mem : v.mem = w.mem

instance {l : LaneId} : Hosting R (Within R l) where
  refl _ := ⟨.refl, fun _ _ => rfl, rfl⟩
  trans h hh := ⟨h.steps.trans hh.steps, fun k hk => (hh.others k hk).trans (h.others k hk), hh.mem.trans h.mem⟩
  steps := Within.steps
  ofLocal h := ⟨h.steps, fun k _ => congrFun h.lanes k, h.mem⟩

theorem Within.setLane {l : LaneId} {d : LaneDb} (h : Steps R w (setLane w l d)) : Within R l w (setLane w l d) :=
  ⟨h, fun _ hk => if_neg hk, rfl⟩

/-- What a delivery may do that leaves the episodes alone. -/
structure Served (R : Rules) (w v : World) : Prop where
  steps : Steps R w v
  episodes : v.mem.r01Episodes = w.mem.r01Episodes

instance : Hosting R (Served R) where
  refl _ := ⟨.refl, rfl⟩
  trans h hh := ⟨h.steps.trans hh.steps, hh.episodes.trans h.episodes⟩
  steps := Served.steps
  ofLocal h := ⟨h.steps, congrArg Memory.r01Episodes h.mem⟩

theorem Within.served {l : LaneId} (h : Within R l w v) : Served R w v := ⟨h.steps, congrArg Memory.r01Episodes h.mem⟩

section Sequencing

/-- Where a program ends the invariant holds, and all that its steps keep. -/
theorem wp_framed [Guarantee R G] {p : Act α} (hI : Inv w) (h : p.wp A G P E w) :
    p.wp A G (fun a v => (G w v ∧ Inv v) ∧ P a v) (fun e v => (G w v ∧ Inv v) ∧ E e v) w :=
  Prog.wp_invariant (I := fun v => G w v ∧ Inv v)
    (fun _ _ hs hl => ⟨Guarantee.trans hs.1 hl, hs.2.steps (Guarantee.steps hl)⟩) ⟨Guarantee.refl w, hI⟩ h

theorem wp_then [Guarantee R G] {p : Act β} {f : β → Act α} {M : β → World → Prop} {F : Exc → World → Prop} (hI : Inv w)
    (hp : p.wp A G M F w) (h : ∀ b v, G w v → Inv v → M b v → (f b).wp A G P E v)
    (hE : ∀ e v, G w v → Inv v → F e v → E e v) : (p >>= f).wp A G P E w := by
  rw [Prog.wp_bind]
  exact Prog.wp_consequence (wp_framed hI hp) (fun b v hv => h b v hv.1.1 hv.1.2 hv.2)
    fun e v hv => hE e v hv.1.1 hv.1.2 hv.2

/-- Run a program, or its handler after an error. -/
theorem wp_try [Guarantee R G] {p : Act α} {f : Exc → Act α} {F : Exc → World → Prop} (hI : Inv w)
    (hp : p.wp A G P F w) (h : ∀ e v, G w v → Inv v → F e v → (f e).wp A G P E v) :
    (tryCatch p f).wp A G P E w := by
  rw [Prog.wp_tryCatch]
  exact Prog.wp_consequence (wp_framed hI hp) (fun a v hv => hv.2) fun e v hv => h e v hv.1.1 hv.1.2 hv.2

theorem wp_each [Guarantee R G] {f : β → Act PUnit} {I : List β → World → Prop} {F : Exc → World → Prop} (l : List β) (hI : Inv w)
    (h : ∀ b rest v, G w v → Inv v → I (b :: rest) v → (f b).wp A G (fun _ u => I rest u) F v) (hs : I l w) :
    (l.forM f).wp A G (fun _ v => I [] v) F w := by
  have hh := Prog.wp_forM (A := A) (G := G) (E := fun e v => F e v) (f := f)
    (I := fun rest v => (G w v ∧ Inv v) ∧ I rest v) l (fun b rest v hv => ?_) ⟨⟨Guarantee.refl w, hI⟩, hs⟩
  · exact Prog.wp_consequence hh (fun _ _ h => h.2) fun _ _ h => h
  · refine Prog.wp_consequence (wp_framed hv.1.2 (h b rest v hv.1.1 hv.1.2 hv.2)) (fun _ u hu => ?_) fun _ _ hu => hu.2
    exact ⟨⟨Guarantee.trans hv.1.1 hu.1.1, hu.1.2⟩, hu.2⟩

theorem wp_collect [Guarantee R G] {f : β → Act α} {I : List β → World → Prop} {F : Exc → World → Prop} (l : List β) (hI : Inv w)
    (h : ∀ b rest v, G w v → Inv v → I (b :: rest) v → (f b).wp A G (fun _ u => I rest u) F v) (hs : I l w) :
    (l.mapM f).wp A G (fun _ v => I [] v) F w := by
  have hh := Prog.wp_mapM (A := A) (G := G) (E := fun e v => F e v) (f := f)
    (I := fun rest v => (G w v ∧ Inv v) ∧ I rest v) l (fun b rest v hv => ?_) ⟨⟨Guarantee.refl w, hI⟩, hs⟩
  · exact Prog.wp_consequence hh (fun _ _ h => h.2) fun _ _ h => h
  · refine Prog.wp_consequence (wp_framed hv.1.2 (h b rest v hv.1.1 hv.1.2 hv.2)) (fun _ u hu => ?_) fun _ _ hu => hu.2
    exact ⟨⟨Guarantee.trans hv.1.1 hu.1.1, hu.1.2⟩, hu.2⟩

/-- A program on the journal, run where the lanes may change too. -/
theorem wp_local [Hosting R G] {p : Act α} (hI : Inv w) (h : p.wp A (Local R) P E w) :
    p.wp A G (fun a v => Local R w v ∧ P a v) (fun e v => Local R w v ∧ E e v) w :=
  Prog.wp_mono (wp_framed hI h) (fun _ _ => id) (fun _ _ => Hosting.ofLocal) (fun _ _ h => ⟨h.1.1, h.2⟩)
    fun _ _ h => ⟨h.1.1, h.2⟩

theorem wp_steps [Guarantee R G] {p : Act α} (h : p.wp A G P E w) : p.wp A (Steps R) P E w :=
  Prog.wp_mono h (fun _ _ => id) (fun _ _ => Guarantee.steps) (fun _ _ => id) fun _ _ => id

end Sequencing

/-- No attempt is in flight. -/
def Idle (w : World) : Prop := w.faulted = true ∨ ∀ a ∈ w.journal.attempts, a.state ≠ .dispatching

/-- The outcome of the trade's attempt, the only one in flight, is to be committed. -/
structure Landing (w : World) (identity : String) (key : ActionKey) : Prop where
  trade : ∃ t, w.journal.trade? identity = some t ∧ (w.faulted = true ∨ t.state ≠ .resolved)
  alone : w.faulted = true ∨ ∀ a ∈ w.journal.attempts, a.state = .dispatching → a.key = (identity, key)

/-- The trade's attempt is the only one in flight, and the trade waits for its outcome. -/
structure Aloft (w : World) (identity : String) (key : ActionKey) : Prop where
  trade : ∃ t, w.journal.trade? identity = some t ∧ (w.faulted = true ∨ t.state = .dispatching)
  alone : w.faulted = true ∨ ∀ a ∈ w.journal.attempts, a.state = .dispatching → a.key = (identity, key)

omit [Host] in
theorem Flying.aloft {i : String} {key : ActionKey} (h : Flying w i key) : Aloft w i key := ⟨h.trade, h.alone⟩

omit [Host] in
theorem Aloft.landing {i : String} {key : ActionKey} (h : Aloft w i key) : Landing w i key where
  trade := by
    obtain ⟨t, ht, hs⟩ := h.trade
    exact ⟨t, ht, hs.imp_right fun hd => by simp [hd]⟩
  alone := h.alone

omit [Host] in
theorem Landing.fault {i : String} {key : ActionKey} {t : TradeRow} (ht : w.journal.trade? i = some t) :
    Landing { w with faulted := true } i key :=
  ⟨⟨t, ht, Or.inl rfl⟩, Or.inl rfl⟩

/-- The columns an update leaves alone when it may run at any time. -/
structure TradeUpdate.Plain (u : TradeUpdate) : Prop where
  destination : u.destination = none
  symbol : u.symbol = none
  side : u.side = none

omit [Host] in
theorem TradeChange.of_update {t : TradeRow} {u : TradeUpdate} {at_ : String} (hu : u.Plain)
    (hp : (u.brokerOrderId = none ∧ u.brokerPositionId = none) ∨ (¬ t.placed ∧ t.destination ≠ ""))
    (hf : w.faulted = true ∨ t.state ≠ .resolved ∧ t.state ≠ .uncertain ∨ u.state = none
      ∨ (u.state = some .uncertain ∧ t.state ≠ .resolved) ∨ u.state = some .resolved) :
    TradeChange w t (u.apply at_ t) where
  tradeId := rfl
  final := by
    rcases hf with h | ⟨hr, hn⟩ | h | ⟨h, hr⟩ | h
    · exact Or.inl h
    · exact Or.inr ⟨fun h => absurd h hr, fun h => absurd h hn⟩
    · simp only [TradeUpdate.apply, h, Option.getD_none]
      exact Or.inr ⟨id, Or.inl⟩
    · exact Or.inr ⟨fun hs => absurd hs hr, fun _ => Or.inl (by simp [TradeUpdate.apply, h])⟩
    · have hs : (u.apply at_ t).state = .resolved := by simp [TradeUpdate.apply, h]
      exact Or.inr ⟨fun _ => hs, fun _ => Or.inr hs⟩
  located h := by
    have hd : (u.apply at_ t).destination = t.destination := by simp [TradeUpdate.apply, hu.destination]
    rcases hp with ⟨ho, hp⟩ | ⟨_, hn⟩
    · exact Or.inr ⟨by simpa only [TradeUpdate.apply, TradeRow.placed, ho, hp, Option.getD_none] using h, hd⟩
    · exact Or.inl (hd ▸ hn)
  placed h := by
    rcases hp with ⟨ho, hp⟩ | ⟨hp, _⟩
    · simpa only [TradeUpdate.apply, TradeRow.placed, ho, hp, Option.getD_none] using h
    · exact absurd h hp
  evidence _ := by simp [TradeUpdate.apply, hu.destination, hu.symbol, hu.side]

section Rules

variable {i : String} {key : ActionKey}

theorem Journal.update_steps {u : TradeUpdate} {at_ : String}
    (hu : ∀ t, w.journal.trade? i = some t → TradeChange w t (u.apply at_ t)) :
    Steps R w { w with journal := w.journal.update i u at_ } :=
  (Relation.ReflTransGen.single (.change (fun _ => rfl) hu)).tail
    (Journal.Passive.step (w := { w with journal := w.journal.updateTrade i (u.apply at_) }) (.update ..))

theorem Store.wp_update {u : TradeUpdate} {P : Unit → World → Prop}
    (hu : ∀ t at_, w.journal.trade? i = some t → TradeChange w t (u.apply at_ t))
    (hs : E .sqlite { w with faulted := true })
    (h : ∀ at_, P () { w with journal := w.journal.update i u at_ }) :
    (Store.update i u).wp A (Local R) P E w := by
  unfold Store.update
  rw [Prog.wp_bind, wp_now]
  intro at_ _
  refine Store.wp_change .fault hs (fun e he => by simp at he) fun j hj => ?_
  obtain rfl := Except.ok.inj hj
  exact ⟨.journal (Journal.update_steps fun t ht => hu t _ ht), h _⟩

theorem Store.wp_finish {state : Outcome} {P : Unit → World → Prop} (hn : state ≠ .dispatching)
    (ht : (w.journal.trade? i).isSome = true)
    (ha : w.faulted = true ∨ ∀ a ∈ w.journal.attempts, a.state = .dispatching → a.key = (i, key))
    (hs : E .sqlite { w with faulted := true })
    (h : ∀ j, Idle { w with journal := j } → j.trades = w.journal.trades → P () { w with journal := j }) :
    (Store.finish i key state).wp A (Local R) P E w := by
  unfold Store.finish
  rw [Prog.wp_bind, wp_now]
  intro at_ _
  refine Store.wp_change .fault hs (fun e he => ?_) fun j hj => ?_
  · unfold Journal.finish at he
    split at he
    · next hh => simp [hh] at ht
    · simp at he
  · refine ⟨.journal (.single (.finish hj hn)), ?_⟩
    obtain ⟨t, _, rfl⟩ := Journal.finish_ok hj
    refine h _ (ha.imp_right fun ha a hm hd => ?_) rfl
    obtain ⟨b, hb, rfl⟩ := Rows.mem_updateWhere.mp hm
    split at hd
    · exact hn hd
    · next hk => exact hk (by simpa using ha b hb hd)

theorem Store.wp_recordReason {attempt : Nat} {outcome : Outcome} {reason : Reason} {P : Unit → World → Prop}
    (hs : E .sqlite { w with faulted := true })
    (he : ∀ e, blank reason.origin = true ∨ blank reason.code = true ∨ blank reason.evidence = true → E e w)
    (h : ∀ row, P () { w with journal := { w.journal with
      reasons := Rows.insertNew ReasonRow.key row w.journal.reasons } }) :
    (Store.recordReason i key attempt outcome reason).wp A (Local R) P E w := by
  unfold Store.recordReason
  rw [Prog.wp_bind, wp_now]
  intro at_ _
  refine Store.wp_change .fault hs (fun e hh => ?_) fun j hj => ?_
  · unfold Journal.recordReason at hh
    split at hh
    · next hb => exact he e (by simpa using hb)
    · simp at hh
  · unfold Journal.recordReason at hj
    split at hj
    · simp at hj
    · obtain rfl := Except.ok.inj hj
      exact ⟨.journal (.single (.reason _)), h _⟩

theorem Store.wp_decision {seq : Nat} {status : Decision} {reason : String} {P : Unit → World → Prop}
    (hs : E .sqlite { w with faulted := true })
    (h : P () { w with journal := { w.journal with
      events := Rows.updateWhere (fun e => e.seq = seq) (fun e => { e with decision := status, reason })
        w.journal.events } }) :
    (Store.decision seq status reason).wp A (Local R) P E w := by
  refine Store.wp_change .fault hs (fun e he => by simp at he) fun j hj => ?_
  obtain rfl := Except.ok.inj hj
  exact ⟨.journal (.single (.decision ..)), h⟩

omit [Host] in
/-- What a claim that is not granted leaves: the journal as it was. -/
theorem Journal.claim_refused {j k : Journal} {requestId destination at_ : String} {action : Action} {request : Call}
    (h : Journal.claim i key requestId action destination request at_ j = .ok (false, k)) : k = j := by
  unfold Journal.claim at h
  split at h
  · simp only [Except.ok.injEq, Prod.mk.injEq, true_and] at h
    exact h.symm
  · repeat' split at h
    all_goals simp only [Except.ok.injEq, Prod.mk.injEq, true_and, reduceCtorEq, Bool.true_eq_false, false_and] at h
    all_goals exact h.symm

theorem Flying.of_claim {requestId destination at_ : String} {action : Action} {request : Call} {j : Journal}
    (hI : Inv w) (hi : Idle w)
    (h : Journal.claim i key requestId action destination request at_ w.journal = .ok (true, j)) :
    Flying { w with journal := j } i key := by
  obtain ⟨⟨t, ht, _⟩, ha, rfl⟩ := Journal.claim_ok h
  refine ⟨⟨t.setState .dispatching, by simp [ht], Or.inr rfl⟩, ⟨⟨i, key, .dispatching⟩, ?_, rfl, Or.inr rfl⟩, ?_, ?_⟩
  · exact List.mem_append_right _ (List.mem_singleton_self _)
  · refine hi.imp_right fun hi a hm hd => ?_
    rcases List.mem_append.mp hm with hm | hm
    · exact absurd hd (hi a hm)
    · exact List.mem_singleton.mp hm ▸ rfl
  · intro v api c j he hk
    obtain ⟨a, hm, hk'⟩ := hI.attempted v api c j he
    exact ha a hm (hk'.trans hk)

theorem Store.wp_claim {requestId destination : String} {action : Action} {request : Call} {P : Bool → World → Prop}
    (hp : R.routed = false → key = .create → w.journal.paperSent i = false)
    (hs : E .sqlite { w with faulted := true }) (he : E .integrity w) (hn : P false w)
    (h : ∀ at_ j, Journal.claim i key requestId action destination request at_ w.journal = .ok (true, j) →
      P true { w with journal := j }) :
    (Store.claim i key requestId action destination request).wp A (Local R) P E w := by
  unfold Store.claim
  rw [Prog.wp_bind, wp_now]
  intro at_ _
  refine wp_transact .fault hs (fun e hh => ?_) fun b j hj => ?_
  · suffices e = .integrity from this ▸ he
    unfold Journal.claim at hh
    repeat' split at hh
    all_goals simp only [Except.error.injEq, reduceCtorEq] at hh
    exact hh.symm
  · cases b with
    | false =>
      obtain rfl := Journal.claim_refused hj
      exact ⟨.refl, hn⟩
    | true => exact ⟨.journal (.single (.claim hj hp)), h _ j hj⟩

theorem Store.wp_record {e : CaptureEvent} {P : EventRow × Bool → World → Prop} (hI : Inv w)
    (hs : E .sqlite { w with faulted := true }) (he : ∀ d, E d w)
    (h : ∀ a j, Recorded R w j → (a.2 = false → a.1.payload = e ∧ j.events = w.journal.events ++ [a.1]) →
      P a { w with journal := j }) :
    (Store.record e).wp A (Local R) P E w := by
  unfold Store.record
  rw [Prog.wp_bind, wp_now]
  intro at_ _
  rw [Prog.wp_bind, wp_uuid4]
  intro identity _
  refine wp_transact .fault hs (fun d _ => he d) fun a j hj => ?_
  have hr := Journal.recordEvent_recorded (R := R) hI hj
  refine ⟨.journal hr.steps, h a j hr fun hn => ?_⟩
  obtain ⟨row, duplicate⟩ := a
  obtain rfl := hn
  exact Journal.recordEvent_new hj

variable {t : TradeRow} {destination : String} {P : Unit → World → Prop}

theorem Store.wp_observePositions (ht : w.journal.trade? i = some t) (hd : t.destination = destination)
    {ps : List Position}
    (hps : ∀ p ∈ ps, t.placed ∧ p.symbol = t.symbol ∧ p.side = t.side
      ∧ Reported w.trace destination p.id p.symbol p.side p.openTime p.openTimeMillis)
    (hs : E .sqlite { w with faulted := true }) (h : ∀ j, Observed R w j → P () { w with journal := j }) :
    (Store.observePositions i destination ps).wp A (Local R) P E w := by
  unfold Store.observePositions
  rw [Prog.wp_bind, wp_now]
  intro at_ _
  refine Store.wp_change .fault hs (fun e he => by simp at he) fun j hj => ?_
  obtain rfl := Except.ok.inj hj
  obtain rfl : t.tradeId = i := (Rows.lookup_mem ht).2
  have ho : Observed R w (ps.foldl (Journal.observePositionOf t.tradeId destination at_.isoformat) w.journal) :=
    Journal.observePositions_observed ht hd hps .refl
  exact ⟨.journal ho.steps, h _ ho⟩

theorem Store.wp_observeClosed (ht : w.journal.trade? i = some t) (hd : t.destination = destination)
    {cs : List ClosedTrade}
    (hcs : ∀ c ∈ cs, t.placed ∧ c.symbol = t.symbol ∧ c.side = t.side
      ∧ ∃ all, .readClosed destination all ∈ w.trace ∧ c ∈ all)
    (hs : E .sqlite { w with faulted := true }) (h : ∀ j, Observed R w j → P () { w with journal := j }) :
    (Store.observeClosed i destination cs).wp A (Local R) P E w := by
  unfold Store.observeClosed
  rw [Prog.wp_bind, wp_now]
  intro at_ _
  refine Store.wp_change .fault hs (fun e he => by simp at he) fun j hj => ?_
  obtain rfl := Except.ok.inj hj
  obtain rfl : t.tradeId = i := (Rows.lookup_mem ht).2
  have ho : Observed R w (cs.foldl (Journal.observeClosedOf t.tradeId destination at_.isoformat) w.journal) :=
    Journal.observeClosed_observed ht hd hcs .refl
  exact ⟨.journal ho.steps, h _ ho⟩

end Rules

theorem wp_invoke {owner : Owner} {api : Api} {call : Call} {P : Operation → World → Prop} {E : Exc → World → Prop}
    (hs : Speaks R w (.sent owner api call w.journal))
    (h : ∀ reply, P reply (w.said [.sent owner api call w.journal, .answered owner (.ok reply)]))
    (he : ∀ e, E e (w.said [.sent owner api call w.journal, .answered owner (.error e)])) :
    (invoke owner api call).wp A (Local R) P E w := by
  unfold invoke
  rw [Prog.wp_bind, wp_readsWorld, Prog.wp_bind, wp_record]
  refine ⟨.said hs, ?_⟩
  rw [Prog.wp_bind, wp_askWrite]
  intro reply _
  rw [Prog.wp_bind, wp_record]
  refine ⟨.said (.answered reply ⟨api, call, w.journal, by simp⟩), (Prog.wp_ofExcept _).mpr ⟨fun r hr => ?_, fun e hr => ?_⟩⟩
  · subst hr
    simpa only [World.said, List.append_assoc, List.singleton_append] using h r
  · subst hr
    simpa only [World.said, List.append_assoc, List.singleton_append] using he e

theorem wp_openPositions {api : Api} {account : String} {P : List Position → World → Prop} {E : Exc → World → Prop}
    (he : ∀ e, E e w) (h : ∀ ps, P ps (w.said [.readPositions account (leavesAll ps)])) :
    (openPositions api account).wp A (Local R) P E w := by
  unfold openPositions
  rw [Prog.wp_bind, wp_askPositions]
  intro reply _
  rw [Prog.wp_bind, Prog.wp_ofExcept]
  refine ⟨fun ps _ => ?_, fun e _ => he e⟩
  rw [Prog.wp_bind, wp_record]
  exact ⟨.said (.positions _ _), h ps⟩

theorem wp_closedPositions {api : Api} {account : String} {until_ : Instant} {P : List ClosedTrade → World → Prop}
    {E : Exc → World → Prop} (he : ∀ e, E e w) (h : ∀ cs, P cs (w.said [.readClosed account cs])) :
    (closedPositions api account until_).wp A (Local R) P E w := by
  unfold closedPositions
  rw [Prog.wp_bind, wp_askClosed]
  intro reply _
  rw [Prog.wp_bind, Prog.wp_ofExcept]
  refine ⟨fun cs _ => ?_, fun e _ => he e⟩
  rw [Prog.wp_bind, wp_record]
  exact ⟨.said (.closed _ _), h cs⟩

end MatchTrader
