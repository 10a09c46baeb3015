import MatchTrader.Runs

/-! At most one opening write for a captured trade. The journal's paper records and create
attempts exclude each other, and every opening write has its own create attempt. -/

namespace MatchTrader

open Durable

/-- The event is an opening write for the trade. -/
def opensTrade (tradeId : String) : Event → Bool
  | .sent (.trade v) _ call _ => v.tradeId = tradeId && call.opens
  | _ => false

theorem opensTrade_eq_true {tradeId : String} {e : Event} :
    opensTrade tradeId e = true ↔
      ∃ v api call j, e = .sent (.trade v) api call j ∧ v.tradeId = tradeId ∧ call.opens = true := by
  unfold opensTrade
  split <;> simp_all

/-- What a trade was sent: on paper or to the broker, and once. -/
structure SentOnce (w : World) (tradeId : String) : Prop where
  exclusive : w.journal.paperSent tradeId = true → ∀ a ∈ w.journal.attempts, a.key ≠ (tradeId, .create)
  papers : (w.journal.papers.countP fun p => p.tradeId = tradeId) ≤ 1
  attempts : (w.journal.attempts.countP fun a => a.key = (tradeId, .create)) ≤ 1
  writes : w.trace.countP (opensTrade tradeId) ≤ 1
  unpapered : ∀ v api call j, .sent (.trade v) api call j ∈ w.trace → v.tradeId = tradeId → call.opens = true →
    j.paperSent tradeId = false

/-- Opening writes are issued under the create key, which a trade has one attempt for. -/
structure CreatesOnce (w : World) : Prop where
  sent : ∀ i, SentOnce w i
  create : ∀ v api call j, .sent (.trade v) api call j ∈ w.trace → call.opens = true → v.actionKey = .create

/-- The runs of the dashboard: nothing arms the router. -/
def dashboard : Rules := { routed := false, legacy := true }

section Steps

variable [Host] {R : Rules} {w v : World}

namespace CreatesOnce

omit [Host] in
/-- A step that leaves papers, the keys of attempts and the trace alone. -/
theorem of_same (h : CreatesOnce w) (hp : v.journal.papers = w.journal.papers)
    (ha : v.journal.attempts.map AttemptRow.key = w.journal.attempts.map AttemptRow.key) (ht : v.trace = w.trace) :
    CreatesOnce v where
  sent i := by
    have hk (k : String × ActionKey) :
        (v.journal.attempts.countP fun a => a.key = k) = w.journal.attempts.countP fun a => a.key = k := by
      have hh := congrArg (List.countP fun x => decide (x = k)) ha
      simpa only [List.countP_map, Function.comp_def] using hh
    have hm {a : AttemptRow} (hm : a ∈ v.journal.attempts) : ∃ b ∈ w.journal.attempts, b.key = a.key := by
      have hx := List.mem_map_of_mem (f := AttemptRow.key) hm
      rw [ha] at hx
      simpa using hx
    obtain ⟨he, hpp, hat, hw, hu⟩ := h.sent i
    refine ⟨fun hi a hma hx => ?_, hp ▸ hpp, hk _ ▸ hat, ht ▸ hw, ht ▸ hu⟩
    obtain ⟨b, hb, hbk⟩ := hm hma
    exact he (by rwa [Journal.paperSent, ← hp]) b hb (hbk.trans hx)
  create := ht ▸ h.create

theorem step (hR : R.routed = false) (hs : Step R w v) (h : CreatesOnce w) : CreatesOnce v := by
  cases hs with
  | @say e hs =>
    have hnew (i : String) (he : opensTrade i e = true) : ∃ tw api call, e = .sent (.trade tw) api call w.journal
        ∧ tw.tradeId = i ∧ tw.actionKey = .create ∧ call.opens = true ∧ TradeSend R w tw call := by
      cases hs with
      | @trade tw api call hts =>
        simp only [opensTrade, Bool.and_eq_true, decide_eq_true_eq] at he
        exact ⟨tw, api, call, rfl, he.1, hts.opens he.2, he.2, hts⟩
      | _ => simp [opensTrade] at he
    refine ⟨fun i => ?_, fun tw api call j hm ho => ?_⟩
    · obtain ⟨he, hpp, hat, hw, hu⟩ := h.sent i
      refine ⟨he, hpp, hat, countP_append_le_one hw fun hi b hb => ?_, fun tw api call j hm ht ho => ?_⟩
      · obtain ⟨tw, api, call, rfl, rfl, hk, ho, hts⟩ := hnew i hi
        by_contra hn
        simp only [Bool.not_eq_false] at hn
        obtain ⟨x, api', call', j, rfl, hx, ho'⟩ := opensTrade_eq_true.mp hn
        exact hts.flying.first x api' call' j hb (by rw [hx, h.create x api' call' j hb ho', hk])
      · rcases List.mem_append.mp hm with hm | hm
        · exact hu tw api call j hm ht ho
        · obtain ⟨x, _, _, hx, rfl, hk, _, hts⟩ := hnew i (List.mem_singleton.mp hm ▸ by simp [opensTrade, ht, ho])
          obtain ⟨rfl, -, rfl, rfl⟩ := by simpa using (List.mem_singleton.mp hm).trans hx
          exact hts.paper hR hk
    · rcases List.mem_append.mp hm with hm | hm
      · exact h.create tw api call j hm ho
      · obtain ⟨x, _, _, hx, _, hk, _⟩ := hnew tw.tradeId (List.mem_singleton.mp hm ▸ by simp [opensTrade, ho])
        obtain ⟨rfl, -⟩ := by simpa using (List.mem_singleton.mp hm).trans hx
        exact hk
  | @claim identity _ _ _ key _ _ _ hc hp =>
    obtain ⟨_, hn, rfl⟩ := Journal.claim_ok hc
    refine ⟨fun i => ?_, h.create⟩
    obtain ⟨he, hpp, hat, hw, hu⟩ := h.sent i
    refine ⟨fun hi a hm hx => ?_, hpp, countP_append_le_one hat fun hk b hb => ?_, hw, hu⟩
    · rcases List.mem_append.mp hm with hm | hm
      · exact he hi a hm hx
      · obtain rfl := List.mem_singleton.mp hm
        obtain ⟨rfl, rfl⟩ := Prod.mk.inj hx
        exact absurd hi (by simp [Journal.paperSent] at hp ⊢; exact hp hR)
    · exact decide_eq_false fun hb' => hn b hb (hb'.trans (of_decide_eq_true hk).symm)
  | finish hf hne =>
    obtain ⟨_, _, rfl⟩ := Journal.finish_ok hf
    exact h.of_same rfl (Rows.keys_updateWhere fun _ => rfl) rfl
  | @paperSend row hn =>
    simp only [Journal.alreadySent, Bool.or_eq_false_iff, List.any_eq_false] at hn
    refine ⟨fun i => ?_, h.create⟩
    obtain ⟨he, hpp, hat, hw, hu⟩ := h.sent i
    refine ⟨fun hi a hm hx => ?_, countP_append_le_one hpp fun hk b hb => ?_, hat, hw, hu⟩
    · simp only [Journal.paperSent, List.any_append, Bool.or_eq_true] at hi
      rcases hi with hi | hi
      · exact he hi a hm hx
      · simp only [List.any_cons, List.any_nil, Bool.or_false, decide_eq_true_eq] at hi
        exact hn.2 a hm (by simpa [hi, AttemptRow.key] using congrArg Prod.fst hx)
    · have hb' := hn.1
      simp only [Journal.paperSent, List.any_eq_false, decide_eq_true_eq] at hb'
      exact decide_eq_false fun hx => hb' b hb (hx.trans (of_decide_eq_true hk).symm)
  | recover => exact h.of_same rfl (Rows.keys_updateWhere fun _ => rfl) rfl
  | _ => exact h.of_same rfl rfl rfl

omit [Host] in
theorem fresh [Host] (broker : String) (m : Memory) : CreatesOnce (World.fresh broker m) where
  sent i := ⟨by simp [World.fresh, Journal.created, Journal.paperSent], Nat.zero_le _, Nat.zero_le _, Nat.zero_le _,
    by simp [World.fresh]⟩
  create := by simp [World.fresh]

end CreatesOnce

/-- Over any run, with crashes and restarts at any point, a trade is sent at most once, and never
both on paper and to the broker. -/
theorem sent_at_most_once {s : Process} (h : Reachable dashboard s) (tradeId : String) :
    SentOnce s.world tradeId :=
  (h.induct ⟨rfl, rfl⟩ CreatesOnce.fresh fun _ _ _ hs hI => CreatesOnce.step rfl hs hI).sent tradeId

end Steps

attribute [local instance] sampleHost

theorem sent_at_most_once_bridge : SentOnce (served [.native sampleEvent none] (started bridgeMemory)) "t1" :=
  sent_at_most_once (s := ⟨true, served [.native sampleEvent none] (started bridgeMemory)⟩)
    (reachable_served (reachable_started dashboard bridgeMemory) (by simp [Op.Allowed])) "t1"

end MatchTrader
