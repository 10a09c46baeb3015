import MatchTrader.Runs

/-! Opening a journal that was kept before the mapping tables: what the migration makes of its rows,
what the recovery of a stopped process makes of them with it, and that nothing is left for a second
opening to do. -/

namespace MatchTrader

open Durable

namespace TradeRow

/-- The destination's order id is a copy of the position's. -/
def Guessed (t : TradeRow) : Prop := t.destination ≠ "" ∧ t.brokerOrderId ≠ "" ∧ t.brokerOrderId = t.brokerPositionId

instance (t : TradeRow) : Decidable t.Guessed := by
  unfold Guessed
  exact inferInstance

def doubt (t : TradeRow) : TradeRow := { t with brokerOrderId := "", state := .uncertain }

/-- A guessed order id goes, and the trade is to be looked into. -/
def unguessed (t : TradeRow) : TradeRow := if t.Guessed then t.doubt else t

def settled (t : TradeRow) : TradeRow := if t.state = .dispatching then t.setState .uncertain else t

theorem unguessed_identity (t : TradeRow) : t.unguessed.tradeId = t.tradeId ∧ t.unguessed.sourceKey = t.sourceKey := by
  unfold unguessed
  split <;> exact ⟨rfl, rfl⟩

theorem settled_identity (t : TradeRow) : t.settled.tradeId = t.tradeId ∧ t.settled.sourceKey = t.sourceKey := by
  unfold settled
  split <;> exact ⟨rfl, rfl⟩

theorem settled_state (t : TradeRow) : t.settled.state ≠ .dispatching := by
  unfold settled
  split
  · exact TradeState.noConfusion
  · next h => exact h

end TradeRow

def AttemptRow.settled (a : AttemptRow) : AttemptRow := if a.state = .dispatching then { a with state := .uncertain } else a

theorem AttemptRow.settled_key (a : AttemptRow) : a.settled.key = a.key := by
  unfold settled
  split <;> rfl

namespace Journal

variable {j k : Journal} {b : String}

/-- The journal is of another broker, or of a schema that is not known. -/
def Refuses (b : String) (j : Journal) : Prop :=
  (∃ v, j.schemaVersion = some v ∧ v ≠ "1.0.0" ∧ v ≠ mappingSchemaVersion) ∨ ∃ x, j.broker = some x ∧ x ≠ b

theorem initMapping_of_refuses (h : j.Refuses b) : ∃ e, initMapping b j = .error e := by
  unfold initMapping
  split
  · exact ⟨_, rfl⟩
  · next hv =>
    rcases h with ⟨v, hs, hne⟩ | ⟨x, hx, hne⟩
    · exact absurd (by simp [hs, hne]) hv
    · rw [if_pos (by simp [hx, hne])]
      exact ⟨_, rfl⟩

section Migrate

/-- What the migration of a row leaves of the tables. -/
theorem migrate_eq (j : Journal) (t : TradeRow) : ∃ links, initMapping.migrate j t = { j with
    links, trades := if t.Guessed then Rows.updateWhere (fun r => r.tradeId = t.tradeId) TradeRow.doubt j.trades else j.trades } := by
  have hlink (j : Journal) (side : Leg) (scope : LegScope) (kind : Kind) (id : String) :
      ∃ links, j.link t.tradeId side scope kind id "legacy journal" t.updatedAt = { j with links } := by
    unfold link
    split
    · exact ⟨j.links, rfl⟩
    · exact ⟨_, rfl⟩
  unfold initMapping.migrate
  extract_lets first second scope third
  obtain ⟨links₁, h₁⟩ := hlink j .source (.source t.scope) .order t.sourceOrderId
  obtain ⟨links₂, h₂⟩ := hlink first .source (.source t.scope) .position t.sourcePositionId
  have hsecond : second = { j with links := links₂ } := by
    have hfirst : first = { j with links := links₁ } := h₁
    simp only [second, h₂, hfirst]
  by_cases hd : t.destination = ""
  · rw [if_pos hd, if_neg fun hg => hg.1 hd]
    exact ⟨links₂, hsecond⟩
  · rw [if_neg hd]
    obtain ⟨links₄, h₄⟩ := hlink third .destination scope .position t.brokerPositionId
    rw [h₄]
    by_cases hids : t.brokerOrderId = t.brokerPositionId
    · by_cases hne : t.brokerOrderId = ""
      · have hthird : third = second := by simp only [third, hids, hne ▸ hids, ne_eq, not_true, if_false]
        refine ⟨links₄, ?_⟩
        rw [hthird, hsecond, if_neg fun hg => hg.2.1 hne]
      · have hthird : third = second.updateTrade t.tradeId TradeRow.doubt := by
          simp only [third, ne_eq, hids, not_true, if_false, if_true, hids ▸ hne, not_false_eq_true]
          rfl
        refine ⟨links₄, ?_⟩
        rw [hthird, hsecond, if_pos ⟨hd, hne, hids⟩]
        rfl
    · obtain ⟨links₃, h₃⟩ := hlink second .destination scope .order t.brokerOrderId
      have hthird : third = { second with links := links₃ } := by simp only [third, if_pos hids, h₃]
      refine ⟨links₄, ?_⟩
      rw [hthird, hsecond, if_neg fun hg => hids hg.2.2]

/-- The rows whose trade is a guess among `l`. -/
def doubted (l rows : List TradeRow) : List TradeRow :=
  rows.map fun r => if ∃ t ∈ l, t.tradeId = r.tradeId ∧ t.Guessed then r.doubt else r

theorem foldl_migrate_eq (l : List TradeRow) (j : Journal) :
    ∃ links, l.foldl initMapping.migrate j = { j with links, trades := doubted l j.trades } := by
  induction l generalizing j with
  | nil =>
    refine ⟨j.links, ?_⟩
    have hnone : doubted [] j.trades = j.trades := by simp [doubted]
    rw [hnone]
    rfl
  | cons t l ih =>
    obtain ⟨links, hstep⟩ := migrate_eq j t
    obtain ⟨more, hrest⟩ := ih (initMapping.migrate j t)
    refine ⟨more, ?_⟩
    rw [List.foldl_cons, hrest, hstep]
    have hrows : doubted l (if t.Guessed then Rows.updateWhere (fun r => r.tradeId = t.tradeId) TradeRow.doubt j.trades
        else j.trades) = doubted (t :: l) j.trades := by
      by_cases hg : t.Guessed
      · rw [if_pos hg]
        simp only [doubted, Rows.updateWhere, List.map_map]
        refine List.map_congr_left fun r _ => ?_
        by_cases hr : t.tradeId = r.tradeId
        · simp [hr, hg, TradeRow.doubt]
        · have hne : r.tradeId ≠ t.tradeId := fun h => hr h.symm
          simp [hr, hne]
      · rw [if_neg hg]
        simp [doubted, hg]
    rw [hrows]

theorem doubted_self (hn : (j.trades.map TradeRow.tradeId).Nodup) : doubted j.trades j.trades = j.trades.map TradeRow.unguessed := by
  refine List.map_congr_left fun r hr => ?_
  have hown : (∃ t ∈ j.trades, t.tradeId = r.tradeId ∧ t.Guessed) ↔ r.Guessed := by
    constructor
    · rintro ⟨t, ht, hid, hg⟩
      have heq : t = r := by
        have hfound := Rows.lookup_of_mem hn ht
        rw [hid, Rows.lookup_of_mem hn hr] at hfound
        exact (Option.some.inj hfound).symm
      exact heq ▸ hg
    · exact fun hg => ⟨r, hr, rfl, hg⟩
  unfold TradeRow.unguessed
  by_cases hg : r.Guessed
  · rw [if_pos hg, if_pos (hown.mpr hg)]
  · rw [if_neg hg, if_neg fun h => hg (hown.mp h)]

end Migrate

theorem initMapping_ok (hm : j.legacyMigrated = false) (hn : (j.trades.map TradeRow.tradeId).Nodup)
    (h : initMapping b j = .ok k) : ∃ links, k = { j with
      links, broker := some b, schemaVersion := some mappingSchemaVersion, legacyMigrated := true
      trades := j.trades.map TradeRow.unguessed
      actions := Rows.updateWhere (fun a => a.outcome = .dispatching) (fun a => { a with outcome := .uncertain }) j.actions } := by
  obtain ⟨-, l, hl, rfl⟩ := initMapping_inv h
  let opened := { j with broker := some b, schemaVersion := some mappingSchemaVersion }
  obtain ⟨links, hfold⟩ := foldl_migrate_eq opened.trades opened
  have hmapped : l = { opened with links, trades := j.trades.map TradeRow.unguessed, legacyMigrated := true } := by
    have hold : ¬ j.legacyMigrated = true := by simp [hm]
    rw [hl]
    simp only [if_neg hold]
    rw [hfold, doubted_self (j := opened) hn]
  exact ⟨links, by rw [hmapped]⟩

/-- Nothing is left for an opening to do. -/
structure Settled (b : String) (j : Journal) : Prop where
  broker : j.broker = some b
  schemaVersion : j.schemaVersion = some mappingSchemaVersion
  migrated : j.legacyMigrated = true
  trades : ∀ t ∈ j.trades, t.state ≠ .dispatching
  attempts : ∀ a ∈ j.attempts, a.state ≠ .dispatching
  actions : ∀ a ∈ j.actions, a.outcome ≠ .dispatching

theorem Settled.initMapping {b' : String} (h : j.Settled b) (hk : Journal.initMapping b' j = .ok k) : k = j := by
  obtain rfl := (initMapping_inv hk).1 b h.broker
  obtain rfl := initMapping_current h.migrated hk
  have hactions : Rows.updateWhere (fun a => a.outcome = .dispatching) (fun a => { a with outcome := .uncertain }) j.actions
      = j.actions := Rows.updateWhere_eq_self fun a ha => decide_eq_false (h.actions a ha)
  rw [hactions, ← h.broker, ← h.schemaVersion]

theorem Settled.recover (h : j.Settled b) : j.recover = j := by
  unfold Journal.recover
  rw [Rows.updateWhere_eq_self fun t ht => decide_eq_false (h.trades t ht),
    Rows.updateWhere_eq_self fun a ha => decide_eq_false (h.attempts a ha)]

theorem Settled.interrupted (h : j.Settled b) : j.interrupted = [] :=
  List.filter_eq_nil_iff.mpr fun a ha => by simpa using h.attempts a ha

/-- What an opening makes of a journal without the mapping. -/
structure Migrates (b : String) (j k : Journal) : Prop where
  settled : k.Settled b
  trades : k.trades = j.trades.map fun t => t.unguessed.settled
  events : k.events = j.events
  attempts : k.attempts = j.attempts.map AttemptRow.settled
  actions : k.actions.map ActionRow.key = j.actions.map ActionRow.key

theorem Migrates.of_reasons {rows : List ReasonRow} (h : Migrates b j k) : Migrates b j { k with reasons := rows } where
  settled := ⟨h.settled.broker, h.settled.schemaVersion, h.settled.migrated, h.settled.trades, h.settled.attempts, h.settled.actions⟩
  trades := h.trades
  events := h.events
  attempts := h.attempts
  actions := h.actions

theorem Migrates.trade? (h : Migrates b j k) (i : String) :
    k.trade? i = (j.trade? i).map fun t => t.unguessed.settled := by
  simp only [Journal.trade?, h.trades]
  exact Rows.lookup_map fun t => t.unguessed.settled_identity.1.trans t.unguessed_identity.1

theorem has_of_keys {α κ : Type} [DecidableEq κ] {key : α → κ} {i : κ} {rows more : List α} (h : more.map key = rows.map key) :
    Rows.has key i more = Rows.has key i rows := by
  have hany (l : List α) : Rows.has key i l = (l.map key).any fun x => x = i := by simp only [Rows.has, List.any_map]; rfl
  rw [hany, hany, h]

/-- What a claim that is granted finds. -/
def Claimable (j : Journal) (i : String) (key : ActionKey) : Prop :=
  (∃ t, j.trade? i = some t ∧ t.state ≠ .uncertain ∧ t.state ≠ .dispatching ∧ t.state ≠ .resolved ∧ (key = .create → ¬ t.placed))
    ∧ Rows.has AttemptRow.key (i, key) j.attempts = false ∧ Rows.has ActionRow.key (i, key) j.actions = false

theorem claim_granted {i request destination now : String} {key : ActionKey} {action : Action} {call : Call} :
    (∃ k, claim i key request action destination call now j = .ok (true, k)) ↔ j.Claimable i key := by
  unfold claim Claimable
  cases ht : j.trade? i with
  | none => simp
  | some t =>
    dsimp only
    by_cases hs : t.state = .uncertain ∨ t.state = .dispatching ∨ t.state = .resolved
    · rw [if_pos hs]
      grind
    · rw [if_neg hs]
      by_cases hc : key = .create ∧ (t.brokerOrderId ≠ "" ∨ t.brokerPositionId ≠ "")
      · rw [if_pos hc]
        have hplaced : t.placed := hc.2
        grind
      · rw [if_neg hc]
        have hplaced : key = .create → ¬ t.placed := fun hk hp => hc ⟨hk, hp⟩
        cases ha : Rows.has AttemptRow.key (i, key) j.attempts
        · cases hx : Rows.has ActionRow.key (i, key) j.actions
          · simp only [Bool.false_eq_true, if_false]
            simp only [not_or] at hs
            exact ⟨fun _ => ⟨⟨t, rfl, hs.1, hs.2.1, hs.2.2, hplaced⟩, trivial, trivial⟩, fun _ => ⟨_, rfl⟩⟩
          · simp
        · simp

/-- No claim is granted that was not, and what is no guess is claimed as before. -/
theorem Migrates.claimable (h : Migrates b j k) {i : String} {key : ActionKey} :
    k.Claimable i key ↔ j.Claimable i key ∧ ∀ t, j.trade? i = some t → ¬ t.Guessed := by
  have hattempts : Rows.has AttemptRow.key (i, key) k.attempts = Rows.has AttemptRow.key (i, key) j.attempts := by
    refine has_of_keys ?_
    rw [h.attempts, List.map_map]
    exact List.map_congr_left fun a _ => a.settled_key
  unfold Claimable
  rw [hattempts, has_of_keys h.actions, h.trade?]
  cases ht : j.trade? i with
  | none => simp
  | some t =>
    simp only [Option.map_some, Option.some.injEq, exists_eq_left', forall_eq']
    by_cases hg : t.Guessed
    · have hstate : t.unguessed.settled.state = .uncertain := by
        simp only [TradeRow.unguessed, if_pos hg]
        rfl
      simp [hstate, hg]
    · have hsame : t.unguessed = t := if_neg hg
      rw [hsame]
      by_cases hd : t.state = .dispatching
      · have hstate : t.settled.state = .uncertain := by
          simp only [TradeRow.settled, if_pos hd]
          rfl
        simp [hstate, hd]
      · have hsettled : t.settled = t := if_neg hd
        simp [hsettled, hg]

theorem migrates_recover (hm : j.legacyMigrated = false) (hn : (j.trades.map TradeRow.tradeId).Nodup)
    (h : initMapping b j = .ok k) : Migrates b j k.recover := by
  obtain ⟨links, rfl⟩ := initMapping_ok hm hn h
  have htrades : Rows.updateWhere (fun t => t.state = .dispatching) (TradeRow.setState .uncertain) (j.trades.map TradeRow.unguessed)
      = j.trades.map fun t => t.unguessed.settled := by
    simp only [Rows.updateWhere, List.map_map, decide_eq_true_eq]
    rfl
  have hattempts : Rows.updateWhere (fun a => a.state = .dispatching) (fun a => { a with state := .uncertain }) j.attempts
      = j.attempts.map AttemptRow.settled := by
    simp only [Rows.updateWhere, decide_eq_true_eq]
    rfl
  refine ⟨⟨rfl, rfl, rfl, fun t ht => ?_, fun a ha => ?_, fun a ha => ?_⟩, htrades, rfl, hattempts, Rows.keys_updateWhere fun _ => rfl⟩
  · have ht : t ∈ j.trades.map fun t => t.unguessed.settled := htrades ▸ ht
    obtain ⟨r, -, rfl⟩ := List.mem_map.mp ht
    exact r.unguessed.settled_state
  · have ha : a ∈ j.attempts.map AttemptRow.settled := hattempts ▸ ha
    obtain ⟨r, -, rfl⟩ := List.mem_map.mp ha
    unfold AttemptRow.settled
    split
    · exact Outcome.noConfusion
    · next hr => exact hr
  · obtain ⟨r, -, rfl⟩ := Rows.mem_updateWhere.mp ha
    split
    · exact Outcome.noConfusion
    · next hr => exact fun h => hr (decide_eq_true h)

end Journal

section Openings

variable {w v : World} {b : String} {A : (q : Query) → Reply q → Prop}

theorem openJournal_settled (b' : String) (h : w.journal.Settled b) :
    Prog.wp A (fun s t => t.journal = s.journal) (Store.openJournal b') (fun _ _ => True) (fun _ _ => True) w := by
  unfold Store.openJournal
  rw [Prog.wp_bind]
  refine Store.wp_change rfl trivial (fun _ _ => trivial) fun j hj => ?_
  obtain rfl := h.initMapping hj
  refine ⟨rfl, ?_⟩
  rw [Prog.wp_bind]
  refine wp_transact rfl trivial (fun _ _ => trivial) fun l j hj => ?_
  obtain ⟨rfl, rfl⟩ := Prod.mk.inj (Except.ok.inj hj)
  refine ⟨h.recover, ?_⟩
  rw [h.interrupted]
  exact trivial

theorem openJournal_migrates (hm : w.journal.legacyMigrated = false) (hn : (w.journal.trades.map TradeRow.tradeId).Nodup) :
    Prog.wp A (fun _ _ => True) (Store.openJournal b) (fun _ v => w.journal.Migrates b v.journal) (fun _ _ => True) w := by
  unfold Store.openJournal
  rw [Prog.wp_bind]
  refine Store.wp_change trivial trivial (fun _ _ => trivial) fun j hj => ⟨trivial, ?_⟩
  have hmigrates := Journal.migrates_recover hm hn hj
  rw [Prog.wp_bind]
  refine wp_transact trivial trivial (fun _ _ => trivial) fun l k hk => ⟨trivial, ?_⟩
  obtain ⟨rfl, rfl⟩ := Prod.mk.inj (Except.ok.inj hk)
  have hloop := Prog.wp_forM (A := A) (G := fun _ _ => True) (E := fun _ _ => True)
    (I := fun _ u => w.journal.Migrates b u.journal) j.interrupted
    (f := fun a => Store.recordReason a.tradeId a.actionKey 1 .uncertain (Store.interruptedProcessing a)) (fun a rest u hu => ?_)
    (s := { w with journal := j.recover }) hmigrates
  · exact hloop
  · unfold Store.recordReason
    rw [Prog.wp_bind, wp_now]
    intro at_ _
    refine Store.wp_change trivial trivial (fun _ _ => trivial) fun m hm => ⟨trivial, ?_⟩
    unfold Journal.recordReason at hm
    split at hm
    · cases hm
    · obtain rfl := Except.ok.inj hm
      exact hu.of_reasons

theorem openJournal_refused (h : w.journal.Refuses b) :
    Prog.wp A (fun s t => t.journal = s.journal) (Store.openJournal b) (fun _ _ => False) (fun _ _ => True) w := by
  obtain ⟨e, he⟩ := Journal.initMapping_of_refuses h
  unfold Store.openJournal
  rw [Prog.wp_bind]
  refine Store.wp_change rfl trivial (fun _ _ => trivial) fun j hj => ?_
  rw [he] at hj
  cases hj

/-- The journal is opened, for whatever broker, and that may be broken off. -/
def Reopening (w v : World) : Prop := ∃ b, Leaves (Store.openJournal b) w v

theorem Reopening.settled (h : Reopening w v) (hs : w.journal.Settled b) : v.journal = w.journal := by
  obtain ⟨b', hl⟩ := h
  have hwp := openJournal_settled (A := fun _ _ => True) b' hs
  have hsteps : Relation.ReflTransGen (fun s t => t.journal = s.journal) w v := by
    cases hl with
    | done env => exact (Prog.wp_eval hwp env fun _ _ => trivial).1
    | stopped n env => exact Prog.wp_stop hwp n env fun _ _ => trivial
  exact invariant_of_reflTransGen (I := fun t => t.journal = w.journal) hsteps (fun _ _ hs ht => ht.trans hs) rfl

theorem Reopening.run (h : Relation.ReflTransGen Reopening w v) (hs : w.journal.Settled b) : v.journal = w.journal := by
  induction h with
  | refl => rfl
  | tail _ hstep ih => exact (hstep.settled (b := b) (ih ▸ hs)).trans ih

/-- What the first opening of a journal makes of its rows, and of what is decided by them. -/
structure MigrationLaw (j k : Journal) : Prop where
  trades : k.trades = j.trades.map fun t => t.unguessed.settled
  identities : (k.trades.map fun t => (t.tradeId, t.sourceKey)) = j.trades.map fun t => (t.tradeId, t.sourceKey)
  events : k.events = j.events
  attempts : k.attempts = j.attempts.map AttemptRow.settled
  duplicates : ∀ key, k.event? key = j.event? key
  orders : ∀ e : CaptureEvent, e.orderId ≠ "" → (k.tradeOf e).map TradeRow.tradeId = (j.tradeOf e).map TradeRow.tradeId
  claims : ∀ i key request action destination call now,
    (∃ l, Journal.claim i key request action destination call now k = .ok (true, l))
      ↔ (∃ l, Journal.claim i key request action destination call now j = .ok (true, l))
        ∧ ∀ t, j.trade? i = some t → ¬ t.Guessed
  resolved : ∀ t ∈ j.trades, t.state = .resolved → ¬ t.Guessed → t ∈ k.trades

theorem Journal.Migrates.law {j k : Journal} (h : j.Migrates b k) : MigrationLaw j k where
  trades := h.trades
  identities := by
    rw [h.trades, List.map_map]
    refine List.map_congr_left fun t _ => ?_
    obtain ⟨hid, hkey⟩ := t.unguessed.settled_identity
    obtain ⟨hid', hkey'⟩ := t.unguessed_identity
    simp only [Function.comp, hid, hkey, hid', hkey']
  events := h.events
  attempts := h.attempts
  duplicates key := by simp only [Journal.event?, h.events]
  orders e he := by
    have hkey (t : TradeRow) : t.unguessed.settled.sourceKey = t.sourceKey :=
      t.unguessed.settled_identity.2.trans t.unguessed_identity.2
    simp only [Journal.tradeOf, if_pos he, h.trades, Rows.lookup_map hkey, Option.map_map]
    refine congrArg (fun f => Option.map f _) (funext fun t => ?_)
    exact t.unguessed.settled_identity.1.trans t.unguessed_identity.1
  claims i key request action destination call now := by
    rw [Journal.claim_granted, Journal.claim_granted]
    exact h.claimable
  resolved t ht hs hg := by
    have hsame : t.unguessed = t := if_neg hg
    have hsettled : t.settled = t := if_neg (by rw [hs]; exact TradeState.noConfusion)
    rw [h.trades]
    exact List.mem_map.mpr ⟨t, ht, by rw [hsame, hsettled]⟩

/-- An opening that is refused changes nothing, and a journal that was kept before the mapping is migrated by its first opening
alone. -/
theorem migration_safe (w : World) (b : String) (env : Answers) :
    (w.journal.Refuses b → (∀ n, ((Store.openJournal b).stop n env w).journal = w.journal)
        ∧ ((Store.openJournal b).eval env w).1.journal = w.journal ∧ ∀ u, ((Store.openJournal b).eval env w).2 ≠ .ok u)
      ∧ (w.journal.legacyMigrated = false → (w.journal.trades.map TradeRow.tradeId).Nodup →
        ((Store.openJournal b).eval env w).2 = .ok () →
        MigrationLaw w.journal ((Store.openJournal b).eval env w).1.journal
          ∧ ∀ u, Relation.ReflTransGen Reopening ((Store.openJournal b).eval env w).1 u →
            u.journal = ((Store.openJournal b).eval env w).1.journal) := by
  refine ⟨fun href => ?_, fun hm hn hok => ?_⟩
  · have hwp := openJournal_refused (A := fun _ _ => True) href
    have hsame {v : World} (hv : Relation.ReflTransGen (fun s t => t.journal = s.journal) w v) : v.journal = w.journal :=
      invariant_of_reflTransGen (I := fun t => t.journal = w.journal) hv (fun _ _ hs ht => ht.trans hs) rfl
    obtain ⟨hsteps, hnever, -⟩ := Prog.wp_eval hwp env fun _ _ => trivial
    exact ⟨fun n => hsame (Prog.wp_stop hwp n env fun _ _ => trivial), hsame hsteps, hnever⟩
  · obtain ⟨-, hdone, -⟩ := Prog.wp_eval (openJournal_migrates (A := fun _ _ => True) (b := b) hm hn) env fun _ _ => trivial
    have hmigrates := hdone () hok
    exact ⟨hmigrates.law, fun u hu => Reopening.run hu hmigrates.settled⟩

end Openings

section Sample

/-- A trade that was closed under an order id that is its position's. -/
def guessedRow : TradeRow where
  tradeId := "t1"
  sourceKey := (sampleEvent.scope, "o1")
  source := .manual
  sourceOrderId := "o1"
  destination := "demo"
  brokerOrderId := "p1"
  brokerPositionId := "p1"
  state := .resolved
  updatedAt := "2024-01-01T00:00:00+00:00"
  scope := sampleEvent.scope

def legacyWorld : World := { World.fresh "fx" bridgeMemory with journal := { trades := [guessedRow] } }

def migratedWorld : World := ((Store.openJournal "fx").eval sampleAnswers legacyWorld).1

theorem migratedWorld_opened : ((Store.openJournal "fx").eval sampleAnswers legacyWorld).2 = .ok () := rfl

theorem migration_safe_guess : MigrationLaw legacyWorld.journal migratedWorld.journal :=
  ((migration_safe legacyWorld "fx" sampleAnswers).2 rfl (List.nodup_singleton _) migratedWorld_opened).1

/-- The migration doubts what was closed, too. -/
theorem resolved_guess_doubted : ¬ ∀ (w : World) (b : String) (env : Answers), w.journal.legacyMigrated = false →
    (w.journal.trades.map TradeRow.tradeId).Nodup → ((Store.openJournal b).eval env w).2 = .ok () →
    ∀ t ∈ w.journal.trades, t.state = .resolved →
      ∃ u ∈ ((Store.openJournal b).eval env w).1.journal.trades, u.tradeId = t.tradeId ∧ u.state = .resolved := by
  intro hall
  have hdoubted : migratedWorld.journal.trades.all (fun u => u.state = .uncertain) = true := by decide +kernel
  obtain ⟨u, hu, -, hs⟩ := hall legacyWorld "fx" sampleAnswers rfl (List.nodup_singleton _) migratedWorld_opened guessedRow
    (List.mem_singleton_self _) rfl
  have huncertain : u.state = .uncertain := of_decide_eq_true (List.all_eq_true.mp hdoubted u hu)
  rw [hs] at huncertain
  cases huncertain

end Sample

end MatchTrader
