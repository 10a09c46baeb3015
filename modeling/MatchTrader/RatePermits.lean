import Mathlib.Data.List.Chain
import MatchTrader.ConnectionLeases
import MatchTrader.RateLimiter

/-! Within the life of one limiter the permits of an origin keep their distance, whoever waits and
whatever sessions come and go; a limiter that is forgotten takes its reservation with it. -/

namespace MatchTrader

open RateLimiter

variable {r q : Registry} {settings : ConnectionSettings} {kwargs : Bool} {outcome shutdown : Except Exc Unit} {i : Nat}

namespace Registry

/-- The open connection at a place. -/
def Open (r : Registry) (i : Nat) (c : BaseConnection) : Prop := r.connections[i]? = some c ∧ c.closed = false

/-- What a successful acquisition does to the connections: one of them has a lease more, or there is a new one. -/
theorem acquire_ok {cls : ConnectionClass} (h : r.acquire cls settings kwargs outcome = (.ok i, q)) :
    (∃ c, r.connections[i]? = some c ∧ q.connections = r.connections.set i { c with leases := c.leases + 1 })
      ∨ (i = r.connections.length ∧ outcome = .ok () ∧ q.connections = r.connections ++ [.init cls settings]) := by
  unfold Registry.acquire at h
  split at h
  · next j c he =>
    split at h
    · cases (Prod.mk.inj h).1
    · split at h
      · cases (Prod.mk.inj h).1
      · obtain ⟨hi, rfl⟩ := Prod.mk.inj h
        obtain rfl := Except.ok.inj hi
        obtain ⟨⟨k, l⟩, _, hl⟩ := Option.bind_eq_some_iff.mp he
        obtain ⟨d, hd, hdc⟩ := Option.map_eq_some_iff.mp hl
        obtain ⟨rfl, rfl⟩ := Prod.mk.inj hdc
        exact Or.inl ⟨d, hd, rfl⟩
  · split at h
    · cases (Prod.mk.inj h).1
    · next c hc =>
      obtain ⟨hi, rfl⟩ := Prod.mk.inj h
      simp only [construct, bind_eq_ok] at hc
      obtain ⟨_, _, _, ho, hc⟩ := hc
      obtain rfl := Except.ok.inj hc
      exact Or.inr ⟨(Except.ok.inj hi).symm, ho, rfl⟩

/-- A connection that is open after a release was open before, with the same settings. -/
theorem open_of_release {k : Nat} {c : BaseConnection} (h : (r.release i shutdown).2.Open k c) :
    ∃ d, r.Open k d ∧ d.settings = c.settings := by
  unfold Registry.release at h
  split at h
  · exact ⟨c, h, rfl⟩
  · next d hd =>
    split at h
    · exact ⟨c, h, rfl⟩
    · next hopen =>
      have hlt : i < r.connections.length := (List.getElem?_eq_some_iff.mp hd).1
      dsimp only at h
      split at h
      · obtain ⟨hk, hc⟩ := h
        by_cases hki : k = i
        · subst hki
          rw [List.getElem?_set_self hlt] at hk
          obtain rfl := Option.some.inj hk
          cases hc
        · rw [List.getElem?_set_ne (Ne.symm hki)] at hk
          exact ⟨c, ⟨hk, hc⟩, rfl⟩
      · obtain ⟨hk, hc⟩ := h
        by_cases hki : k = i
        · subst hki
          rw [List.getElem?_set_self hlt] at hk
          obtain rfl := Option.some.inj hk
          exact ⟨d, ⟨hd, Bool.eq_false_iff.mpr hopen⟩, rfl⟩
        · rw [List.getElem?_set_ne (Ne.symm hki)] at hk
          exact ⟨c, ⟨hk, hc⟩, rfl⟩

end Registry

namespace Pacing

variable {s t : Pacing} {e : Event} {origin : String} {a perMinute : Nat} {x : PacedSession} {now later : ℚ}

/-- What the last permit of an origin demands of the next one is over by a time. -/
def Owed (s : Pacing) (origin : String) (time : ℚ) : Prop :=
  ∀ p, (s.permitsOf origin).getLast? = some p → ∀ r ∈ p.rates, p.time + share r ≤ time

/-- What a timely history keeps: the sessions of an origin have the limiter that is shared, whose
interval is as long as every open rate asks, and what is owed is behind its next time or the clock. -/
structure Sound (s : Pacing) : Prop where
  placed : ∀ i c, s.registry.Open i c → ∃ x ∈ s.sessions, x.connection = i ∧ x.origin = c.settings.platformUrl
    ∧ share c.settings.requestsPerMinute ≤ (s.limiters x.limiter).interval
  linked : ∀ x ∈ s.sessions, s.shared x.origin = some x.limiter
  below : ∀ origin a, s.shared origin = some a → a < s.made
  apart : ∀ o o' a, s.shared o = some a → s.shared o' = some a → o = o'
  owed : ∀ origin a, s.shared origin = some a → s.Owed origin (max s.clock (s.limiters a).nextTime)
  spaced : ∀ origin, Spaced (s.permitsOf origin)

theorem Owed.mono (h : s.Owed origin now) (hle : now ≤ later) : s.Owed origin later :=
  fun p hp r hr => (h p hp r hr).trans hle

theorem Sound.of_registry (h : s.Sound) (hq : ∀ k c, q.Open k c → ∃ d, s.registry.Open k d ∧ d.settings = c.settings) :
    Sound { s with registry := q } := by
  refine ⟨fun k c hc => ?_, h.linked, h.below, h.apart, h.owed, h.spaced⟩
  obtain ⟨d, hd, hs⟩ := hq k c hc
  rw [← hs]
  exact h.placed k d hd

theorem forOrigin_registry : (s.forOrigin origin perMinute).2.registry = s.registry := by
  unfold Pacing.forOrigin
  split <;> rfl

theorem forOrigin_sessions : (s.forOrigin origin perMinute).2.sessions = s.sessions := by
  unfold Pacing.forOrigin
  split <;> rfl

/-- Taking the limiter of an origin: its interval is then as long as the new rate asks. -/
theorem Sound.forOrigin (h : s.Sound) (perMinute : Nat) (ht : s.shared origin = none → s.Owed origin s.clock) :
    (s.forOrigin origin perMinute).2.Sound
      ∧ (s.forOrigin origin perMinute).2.shared origin = some (s.forOrigin origin perMinute).1
      ∧ share perMinute ≤ ((s.forOrigin origin perMinute).2.limiters (s.forOrigin origin perMinute).1).interval := by
  unfold Pacing.forOrigin
  cases ho : s.shared origin with
  | none =>
    dsimp only
    have hfresh : ∀ {o b}, s.shared o = some b → b ≠ s.made := fun hb => (h.below _ _ hb).ne
    have hother : ∀ {o b}, Function.update s.shared origin (some s.made) o = some b →
        (o = origin ∧ b = s.made) ∨ (o ≠ origin ∧ s.shared o = some b) := by
      intro o b hb
      by_cases hoo : o = origin
      · rw [hoo, Function.update_self] at hb
        exact Or.inl ⟨hoo, (Option.some.inj hb).symm⟩
      · rw [Function.update_of_ne hoo] at hb
        exact Or.inr ⟨hoo, hb⟩
    refine ⟨⟨?_, ?_, ?_, ?_, ?_, h.spaced⟩, Function.update_self _ _ _, ?_⟩
    · intro k c hc
      obtain ⟨x, hx, hk, hxo, hshare⟩ := h.placed k c hc
      refine ⟨x, hx, hk, hxo, ?_⟩
      dsimp only
      rwa [Function.update_of_ne (hfresh (h.linked x hx))]
    · intro x hx
      have hl := h.linked x hx
      have hne : x.origin ≠ origin := by
        intro hxo
        rw [hxo, ho] at hl
        cases hl
      dsimp only
      rwa [Function.update_of_ne hne]
    · intro o b hb
      rcases hother hb with ⟨_, rfl⟩ | ⟨_, hb⟩
      · exact Nat.lt_succ_self _
      · exact Nat.lt_succ_of_lt (h.below o b hb)
    · intro o o' b hb hb'
      rcases hother hb with ⟨rfl, rfl⟩ | ⟨_, hb⟩
      · rcases hother hb' with ⟨rfl, _⟩ | ⟨_, hb'⟩
        · rfl
        · exact absurd rfl (hfresh hb')
      · rcases hother hb' with ⟨_, rfl⟩ | ⟨_, hb'⟩
        · exact absurd rfl (hfresh hb)
        · exact h.apart o o' b hb hb'
    · intro o b hb
      rcases hother hb with ⟨rfl, rfl⟩ | ⟨_, hb⟩
      · exact Owed.mono (ht ho) (le_max_left _ _)
      · dsimp only
        rw [Function.update_of_ne (hfresh hb)]
        exact h.owed o b hb
    · rw [Function.update_self]
      exact le_refl _
  | some a =>
    dsimp only
    have hnext : ∀ b, (Function.update s.limiters a ((s.limiters a).raised perMinute) b).nextTime = (s.limiters b).nextTime := by
      intro b
      by_cases hb : b = a
      · rw [hb, Function.update_self]
        rfl
      · rw [Function.update_of_ne hb]
    have hinterval : ∀ b, (s.limiters b).interval ≤ (Function.update s.limiters a ((s.limiters a).raised perMinute) b).interval := by
      intro b
      by_cases hb : b = a
      · rw [hb, Function.update_self]
        exact le_max_left _ _
      · rw [Function.update_of_ne hb]
    refine ⟨⟨?_, h.linked, h.below, h.apart, ?_, h.spaced⟩, ho, ?_⟩
    · intro k c hc
      obtain ⟨x, hx, hk, hxo, hshare⟩ := h.placed k c hc
      exact ⟨x, hx, hk, hxo, hshare.trans (hinterval _)⟩
    · intro o b hb
      dsimp only
      rw [hnext]
      exact h.owed o b hb
    · rw [Function.update_self]
      exact le_max_right _ _

theorem Sound.acquire (h : s.Sound) (ht : s.Timely (.acquire settings kwargs outcome)) :
    (s.acquire settings kwargs outcome).Sound := by
  unfold Pacing.acquire
  split
  · next e q ha =>
    obtain rfl := Registry.acquire_error ha
    exact h
  · next i q ha =>
    rcases Registry.acquire_ok ha with ⟨c, hc, hq⟩ | ⟨rfl, ho, hq⟩
    · have hlt : i < s.registry.connections.length := (List.getElem?_eq_some_iff.mp hc).1
      rw [if_pos hlt]
      apply h.of_registry
      rintro k d ⟨hd, hopen⟩
      rw [hq] at hd
      by_cases hk : k = i
      · subst hk
        rw [List.getElem?_set_self hlt] at hd
        obtain rfl := Option.some.inj hd
        exact ⟨c, ⟨hc, hopen⟩, rfl⟩
      · rw [List.getElem?_set_ne (Ne.symm hk)] at hd
        exact ⟨d, ⟨hd, hopen⟩, rfl⟩
    · rw [if_neg (lt_irrefl _)]
      have hclock : s.shared settings.platformUrl = none → s.Owed settings.platformUrl s.clock := ht ho
      obtain ⟨hsound, hshared, hshare⟩ := h.forOrigin settings.requestsPerMinute hclock
      refine ⟨?_, ?_, hsound.below, hsound.apart, hsound.owed, hsound.spaced⟩
      · rintro k c ⟨hk, hopen⟩
        dsimp only at hk
        rw [hq] at hk
        by_cases hlt : k < s.registry.connections.length
        · rw [List.getElem?_append_left hlt] at hk
          obtain ⟨x, hx, hxk, hxo, hxs⟩ := hsound.placed k c (by rw [forOrigin_registry]; exact ⟨hk, hopen⟩)
          rw [forOrigin_sessions] at hx
          exact ⟨x, List.mem_append_left _ hx, hxk, hxo, hxs⟩
        · rw [List.getElem?_append_right (by omega), List.getElem?_singleton] at hk
          split at hk
          · obtain rfl := Option.some.inj hk
            exact ⟨_, List.mem_append_right _ (List.mem_singleton_self _), by dsimp only; omega, rfl, hshare⟩
          · cases hk
      · intro x hx
        rcases List.mem_append.mp hx with hx | hx
        · exact hsound.linked x (by rwa [forOrigin_sessions])
        · obtain rfl := List.mem_singleton.mp hx
          exact hshared

theorem Sound.free {c : BaseConnection} (h : s.Sound) (hc : s.registry.connections[x.connection]? = some c)
    (hclosed : c.closed = true) : Sound { s with sessions := s.sessions.filter fun y => y.connection ≠ x.connection } := by
  refine ⟨?_, fun y hy => h.linked y (List.mem_of_mem_filter hy), h.below, h.apart, h.owed, h.spaced⟩
  rintro k d hd
  obtain ⟨y, hy, hk, hrest⟩ := h.placed k d hd
  refine ⟨y, List.mem_filter.mpr ⟨hy, decide_eq_true fun he => ?_⟩, hk, hrest⟩
  -- a connection that was open is not the closed one
  rw [← he, hk, hd.1] at hc
  obtain rfl := Option.some.inj hc
  rw [hd.2] at hclosed
  cases hclosed

theorem Sound.collect (h : s.Sound) (hnone : ∀ x ∈ s.sessions, s.shared origin ≠ some x.limiter) :
    Sound { s with shared := Function.update s.shared origin none } := by
  have hold : ∀ {o b}, Function.update s.shared origin none o = some b → s.shared o = some b := by
    intro o b hb
    by_cases ho : o = origin
    · rw [ho, Function.update_self] at hb
      cases hb
    · rwa [Function.update_of_ne ho] at hb
  refine ⟨h.placed, fun x hx => ?_, fun o b hb => h.below o b (hold hb), fun o o' b hb hb' => h.apart o o' b (hold hb) (hold hb'),
    fun o b hb => h.owed o b (hold hb), h.spaced⟩
  have hl := h.linked x hx
  have hne : x.origin ≠ origin := by
    rintro rfl
    exact hnone x hx hl
  dsimp only
  rwa [Function.update_of_ne hne]

theorem Sound.tick (h : s.Sound) (hle : s.clock ≤ later) : Sound { s with clock := later } :=
  ⟨h.placed, h.linked, h.below, h.apart, fun o b hb => (h.owed o b hb).mono (max_le_max_right _ hle), h.spaced⟩

theorem Sound.share_le (h : s.Sound) (hx : x ∈ s.sessions) {r : Nat} (hr : r ∈ s.rates x.origin) :
    share r ≤ (s.limiters x.limiter).interval := by
  obtain ⟨c, hc, rfl⟩ := List.mem_map.mp hr
  obtain ⟨hmem, hopen⟩ := List.mem_filter.mp hc
  obtain ⟨k, hk⟩ := List.mem_iff_getElem?.mp hmem
  simp only [Bool.and_eq_true, Bool.not_eq_true', decide_eq_true_eq] at hopen
  obtain ⟨y, hy, _, hyo, hshare⟩ := h.placed k c ⟨hk, hopen.1⟩
  have hly := h.linked y hy
  rw [hyo, hopen.2, h.linked x hx] at hly
  rwa [Option.some.inj hly]

theorem permitsOf_append (s : Pacing) (origin : String) (p : Permit) : Pacing.permitsOf { s with permits := s.permits ++ [p] } origin
    = if p.origin = origin then s.permitsOf origin ++ [p] else s.permitsOf origin := by
  simp only [permitsOf, List.filter_append, List.filter_cons, List.filter_nil, decide_eq_true_eq]
  split
  · rfl
  · rw [List.append_nil]

theorem Sound.wait (h : s.Sound) (hx : x ∈ s.sessions) (hclock : s.clock ≤ later)
    (hsleep : now + (s.limiters x.limiter).delay now ≤ later) :
    Sound { s with
      clock := later
      limiters := Function.update s.limiters x.limiter ((s.limiters x.limiter).wait later)
      permits := s.permits ++ [⟨x.origin, later, s.rates x.origin⟩] } := by
  have hnext : (s.limiters x.limiter).nextTime ≤ later := by
    have hle := le_max_right 0 ((s.limiters x.limiter).nextTime - now)
    unfold delay at hsleep
    linarith
  have hl := h.linked x hx
  have hinterval : ∀ b, (Function.update s.limiters x.limiter ((s.limiters x.limiter).wait later) b).interval
      = (s.limiters b).interval := by
    intro b
    by_cases hb : b = x.limiter
    · rw [hb, Function.update_self]
      rfl
    · rw [Function.update_of_ne hb]
  refine ⟨fun k c hc => ?_, h.linked, h.below, h.apart, fun o b hb => ?_, fun o => ?_⟩
  · obtain ⟨y, hy, hk, hyo, hshare⟩ := h.placed k c hc
    exact ⟨y, hy, hk, hyo, hshare.trans (hinterval _).ge⟩
  · dsimp only
    by_cases ho : x.origin = o
    · subst ho
      obtain rfl := Option.some.inj (hl.symm.trans hb)
      rw [Function.update_self]
      intro p hp r hr
      have hperm := permitsOf_append s x.origin ⟨x.origin, later, s.rates x.origin⟩
      rw [if_pos rfl] at hperm
      have hlast : (s.permitsOf x.origin ++ [(⟨x.origin, later, s.rates x.origin⟩ : Permit)]).getLast? = some p := hperm ▸ hp
      rw [List.getLast?_concat] at hlast
      obtain rfl := Option.some.inj hlast
      have hshare := h.share_le hx hr
      have hle := le_max_left later (s.limiters x.limiter).nextTime
      apply le_max_of_le_right
      show later + share r ≤ max later (s.limiters x.limiter).nextTime + (s.limiters x.limiter).interval
      linarith
    · have hne : b ≠ x.limiter := fun he => ho (h.apart x.origin o x.limiter hl (he ▸ hb))
      rw [Function.update_of_ne hne]
      intro p hp
      have hperm := permitsOf_append s o ⟨x.origin, later, s.rates x.origin⟩
      rw [if_neg ho] at hperm
      exact Owed.mono (h.owed o b hb) (max_le_max_right _ hclock) p (hperm ▸ hp)
  · have hperm := permitsOf_append s o ⟨x.origin, later, s.rates x.origin⟩
    have hsame : Pacing.permitsOf { s with
      clock := later
      limiters := Function.update s.limiters x.limiter ((s.limiters x.limiter).wait later)
      permits := s.permits ++ [⟨x.origin, later, s.rates x.origin⟩] } o
        = Pacing.permitsOf { s with permits := s.permits ++ [⟨x.origin, later, s.rates x.origin⟩] } o := rfl
    rw [hsame, hperm]
    split
    · next ho =>
      dsimp only at ho
      subst ho
      apply List.isChain_append.mpr
      refine ⟨h.spaced _, List.isChain_singleton _, fun p hp q hq r hr => ?_⟩
      obtain rfl := Option.some.inj hq
      have howed := h.owed _ _ hl p hp r hr
      have hlater := max_le hclock hnext
      dsimp only
      linarith
    · exact h.spaced o

theorem Sound.step (h : s.Sound) (hs : Step s e t) (ht : s.Timely e) : t.Sound := by
  cases hs with
  | acquire => exact h.acquire ht
  | release => exact h.of_registry fun k c hc => Registry.open_of_release hc
  | free hc hclosed => exact h.free hc hclosed
  | collect hnone => exact h.collect hnone
  | wait hx _ hclock hsleep => exact h.wait hx hclock hsleep
  | tick hle => exact h.tick hle

section Sample

def sampleRest : ConnectionSettings := { platformUrl := "https://broker", requestsPerMinute := 60 }

def sampleSession (i : Nat) : PacedSession := ⟨i, "https://broker", i⟩

/-- A session is opened and sends, is closed and forgotten, and another one is opened. -/
def reopened : Pacing :=
  let first := ({} : Pacing).acquire sampleRest false (.ok ())
  let sent := { first with
    limiters := Function.update first.limiters 0 ((first.limiters 0).wait 0)
    permits := [⟨"https://broker", 0, [60]⟩] }
  let closed := { sent with registry := (sent.registry.release 0 (.ok ())).2, sessions := [] }
  ({ closed with shared := Function.update closed.shared "https://broker" none } : Pacing).acquire sampleRest false (.ok ())

end Sample

end Pacing

end MatchTrader
