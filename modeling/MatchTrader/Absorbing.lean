import MatchTrader.Runs

/-! A settled outcome is settled for good. A resolved trade stays resolved, an uncertain
one can only be resolved, and a write for a trade is issued under its own attempt, the
only one in flight. -/

namespace MatchTrader

open Durable

/-- What may become of a trade's state. -/
def Absorbs (s u : TradeState) : Prop :=
  (s = .resolved → u = .resolved) ∧ (s = .uncertain → u = .uncertain ∨ u = .resolved)

theorem Absorbs.refl (s : TradeState) : Absorbs s s := ⟨id, Or.inl⟩

theorem Absorbs.trans {s u x : TradeState} (h : Absorbs s u) (hh : Absorbs u x) : Absorbs s x := by
  refine ⟨fun hs => hh.1 (h.1 hs), fun hs => ?_⟩
  rcases h.2 hs with hu | hu
  · exact hh.2 hu
  · exact Or.inr (hh.1 hu)

/-- The journal that a write finds: its trade is dispatching, by the write's own attempt and no other. -/
structure OwnAttempt (j : Journal) (v : TradeWrite) : Prop where
  trade : ∃ t, j.trade? v.tradeId = some t ∧ t.state = .dispatching
  attempt : ∃ a ∈ j.attempts, a.key = (v.tradeId, v.actionKey) ∧ a.state = .dispatching
  alone : ∀ a ∈ j.attempts, a.state = .dispatching → a.key = (v.tradeId, v.actionKey)

/-- Every write on record was issued under its own attempt. -/
def OwnWrites (w : World) : Prop := ∀ v api call j, .sent (.trade v) api call j ∈ w.trace → OwnAttempt j v

/-- All rules are open: an armed router dispatches, and a lane may be driven without a mode. -/
def unrestricted : Rules := { routed := true, legacy := true }

section Steps

variable [Host] {R : Rules} {w v : World}

/-- A failed statement is not forgotten. -/
theorem Step.faulted (h : Step R w v) (hf : v.faulted = false) : w.faulted = false := by
  cases h with
  | fault => simp at hf
  | _ => exact hf

theorem Steps.absorbs (h : Steps R w v) (hf : v.faulted = false) {i : String} {t : TradeRow}
    (ht : w.journal.trade? i = some t) : ∃ u, v.journal.trade? i = some u ∧ Absorbs t.state u.state := by
  induction h with
  | refl => exact ⟨t, ht, .refl _⟩
  | tail _ hs ih =>
    have hf' := hs.faulted hf
    obtain ⟨u, hu, ha⟩ := ih hf'
    obtain ⟨x, hx, hc⟩ := hs.trade hu
    have hk : Absorbs u.state x.state := hc.final.resolve_left (by simp [hf'])
    exact ⟨x, hx, ha.trans hk⟩

theorem OwnWrites.step (h : Step R w v) (hf : v.faulted = false) (hw : OwnWrites w) : OwnWrites v := by
  intro tw api call j he
  rcases h.mem_trace he with he | hs
  · exact hw tw api call j he
  · have hf' := h.faulted hf
    cases hs with
    | trade hts =>
      obtain ⟨⟨t, ht, hst⟩, ⟨a, ha, hk, has⟩, hal, _⟩ := hts.flying
      have hn : ¬ w.faulted = true := by simp [hf']
      exact ⟨⟨t, ht, hst.resolve_left hn⟩, ⟨a, ha, hk, has.resolve_left hn⟩, hal.resolve_left hn⟩

end Steps

/-- Over any run whose statements do not fail, a resolved trade stays resolved, an uncertain trade
only becomes resolved, and no write is issued for a trade whose state another action left. -/
theorem outcomes_absorbing [Host] {s t : Process} (hs : Reachable unrestricted s) (h : Moves unrestricted s t)
    (hf : t.world.faulted = false) :
    (∀ i u, s.world.journal.trade? i = some u →
      ∃ v, t.world.journal.trade? i = some v ∧ Absorbs u.state v.state) ∧ OwnWrites t.world := by
  have hst := (Moves.sound ⟨rfl, rfl⟩ (hs.sound ⟨rfl, rfl⟩) h).1
  refine ⟨fun i u hu => hst.absorbs hf hu, ?_⟩
  obtain ⟨broker, m, hm⟩ := hs
  have hr : Reachable unrestricted t := ⟨broker, m, hm.trans h⟩
  have hh := hr.induct (I := fun w => w.faulted = false → OwnWrites w) ⟨rfl, rfl⟩
    (fun _ _ _ _ _ _ _ he => by simp [World.fresh] at he)
    fun w v _ hsv hw hfv => OwnWrites.step hsv hfv (hw (hsv.faulted hfv))
  exact hh hf

attribute [local instance] sampleHost

theorem outcomes_absorbing_bridge :
    (∀ i u, (started bridgeMemory).journal.trade? i = some u →
      ∃ v, (served [.native sampleEvent none] (started bridgeMemory)).journal.trade? i = some v
        ∧ Absorbs u.state v.state) ∧ OwnWrites (served [.native sampleEvent none] (started bridgeMemory)) :=
  outcomes_absorbing (s := ⟨true, started bridgeMemory⟩)
    (t := ⟨true, served [.native sampleEvent none] (started bridgeMemory)⟩) (reachable_started _ _)
    (.single (.serve (.native sampleEvent none) trivial sampleAnswers)) (by decide +kernel)

end MatchTrader
