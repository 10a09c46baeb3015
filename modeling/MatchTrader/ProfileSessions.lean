import Mathlib.Data.List.Nodup
import MatchTrader.BrokerProfiles

/-! Over every run of the profiles and the capture session: each broker session is held by one of them or was
closed, a held one is kept alive by its own renewer, and a profile shows what its own session read. -/

namespace MatchTrader

open Durable

/-- Who may hold a session. -/
inductive Holder where
  | capture
  | profile (name : String)
deriving DecidableEq

/-- The name that a holder's renewer has. -/
def Holder.timer : Holder → String
  | capture => "primary"
  | profile name => name

namespace ProfileWorld

variable {w v u : ProfileWorld} {name : String} {o : Nat} {t : Holder → Prop} {l : Option Nat} {settled : Bool}

def holds (w : ProfileWorld) : Holder → Option Nat
  | .capture => w.primary.api
  | .profile name => (w.entries name).api

/-- `o` is the session that a running call has made and not yet handed over; between two calls there is none.
While a call is not settled, the renewer of the capture session may be behind. -/
structure Sound (w : ProfileWorld) (l : Option Nat) (settled : Bool) : Prop where
  named : ∀ n, n ∉ w.names → (w.entries n).api = none
  mirrored : (w.entries primaryPrefix).api = none
  reserved : "primary" ∉ w.names
  made : ∀ h o, w.holds h = some o → o < w.made.length
  unshut : ∀ h o, w.holds h = some o → o ∉ w.shut
  apart : ∀ h h' o, w.holds h = some o → w.holds h' = some o → h = h'
  accounted : ∀ o < w.made.length, o ∈ w.shut ∨ o ∈ w.failed ∨ l = some o ∨ ∃ h, w.holds h = some o
  loose : ∀ o, l = some o → o < w.made.length ∧ o ∉ w.shut ∧ ∀ h, w.holds h ≠ some o
  shutMade : ∀ o ∈ w.shut, o < w.made.length
  timers : (w.renewers.map Prod.fst).Nodup
  timed : w.closing = false → ∀ n o, (w.entries n).api = some o → (n, o) ∈ w.renewers
  captured : settled = true → w.closing = false → w.failed = [] → w.primary.connection = .connected →
    ∀ o, w.primary.api = some o → ("primary", o) ∈ w.renewers

/-- What a profile knows comes from the answers to its own discoveries. -/
structure Known (trace : List SessionEvent) (name : String) (e : ProfileEntry) : Prop where
  chosen : e.accounts = (e.authentication.map fun a => a.found.map LoginAccount.choice).getD []
  offered : ∀ a ∈ e.accounts, a.id ≠ "" ∧ ∃ ids, .found name ids ∈ trace ∧ a.id ∈ ids
  listed : e.settings.accountId ≠ "" → ∃ ids, .found name ids ∈ trace ∧ e.settings.accountId ∈ ids

/-- The session of a profile was made for its account. -/
def MadeFor (made : List ConnectionSettings) (e : ProfileEntry) : Prop :=
  ∀ o, e.api = some o → e.settings.accountId ≠ "" ∧ ∃ s, made[o]? = some s ∧ s.accountId = e.settings.accountId

/-- What a profile shows was read on its session, which then served its account. -/
structure Backed (trace : List SessionEvent) (e : ProfileEntry) : Prop where
  data : ∀ part rows, e.data.part part = some rows → ∃ o, e.api = some o ∧ .read o e.settings.accountId part rows ∈ trace
  shown : e.state = .connected → e.api.isSome

/-- The data of the profile `s` may be left over from the account it had. -/
structure Honest (w : ProfileWorld) (s : Option String) : Prop where
  known : ∀ n, Known w.trace n (w.entries n)
  madeFor : ∀ n, MadeFor w.made (w.entries n)
  backed : ∀ n, n ≠ primaryPrefix → s ≠ some n → Backed w.trace (w.entries n)

/-- Holders that a call does not touch, and their sessions, are as they were. -/
structure Frame (t : Holder → Prop) (w v : ProfileWorld) : Prop where
  names : v.names = w.names
  entries : ∀ n, ¬ t (.profile n) → v.entries n = w.entries n
  primary : ¬ t .capture → v.primary = w.primary
  shut : ∀ h o, ¬ t h → w.holds h = some o → o ∈ v.shut → o ∈ w.shut
  failed : ∀ h o, ¬ t h → w.holds h = some o → o ∈ v.failed → o ∈ w.failed
  timers : ∀ h o, ¬ t h → (∀ n, h = .profile n → n ∈ w.names) → ((h.timer, o) ∈ v.renewers ↔ (h.timer, o) ∈ w.renewers)

theorem Frame.refl (t : Holder → Prop) (w : ProfileWorld) : Frame t w w :=
  ⟨rfl, fun _ _ => rfl, fun _ => rfl, fun _ _ _ _ h => h, fun _ _ _ _ h => h, fun _ _ _ _ => Iff.rfl⟩

theorem Frame.holds (h : Frame t w v) {k : Holder} (hk : ¬ t k) : v.holds k = w.holds k := by
  cases k with
  | capture => exact congrArg CaptureSession.api (h.primary hk)
  | profile n => exact congrArg ProfileEntry.api (h.entries n hk)

section Commits

@[simp] theorem setEntry_self (f : ProfileEntry → ProfileEntry) : (w.setEntry name f).entries name = f (w.entries name) :=
  Function.update_self ..

theorem setEntry_of_ne (f : ProfileEntry → ProfileEntry) {n : String} (h : n ≠ name) : (w.setEntry name f).entries n = w.entries n :=
  Function.update_of_ne h ..

@[simp] theorem setEntry_primary (f : ProfileEntry → ProfileEntry) : (w.setEntry name f).primary = w.primary := rfl
@[simp] theorem setEntry_names (f : ProfileEntry → ProfileEntry) : (w.setEntry name f).names = w.names := rfl

/-- An update that leaves the session of the profile where it is. -/
theorem setEntry_holds {f : ProfileEntry → ProfileEntry} (hf : (f (w.entries name)).api = (w.entries name).api) (h : Holder) :
    (w.setEntry name f).holds h = w.holds h := by
  cases h with
  | capture => rfl
  | profile n =>
    by_cases hn : n = name
    · subst hn
      simpa only [holds, setEntry_self] using hf
    · simp only [holds, setEntry_of_ne f hn]

theorem setPrimary_holds {f : CaptureSession → CaptureSession} (hf : (f w.primary).api = w.primary.api) (h : Holder) :
    (w.setPrimary f).holds h = w.holds h := by
  cases h with
  | capture => exact hf
  | profile n => rfl

theorem mem_cancel {r : String × Nat} : r ∈ (w.cancel name).renewers ↔ r ∈ w.renewers ∧ r.1 ≠ name := by
  simp only [cancel, List.mem_filter, decide_eq_true_eq]

theorem mem_renew {r : String × Nat} (hc : w.closing = false) :
    r ∈ (w.renew name o).renewers ↔ r ∈ w.renewers ∧ r.1 ≠ name ∨ r = (name, o) := by
  simp only [renew, hc, Bool.false_eq_true, if_false, List.mem_append, mem_cancel, List.mem_singleton]

theorem renew_closing (hc : w.closing = true) : w.renew name o = w := by simp only [renew, hc, if_true]

/-- Only the renewers change. -/
theorem renew_eq (w : ProfileWorld) (name : String) (o : Nat) : ∃ renewers, w.renew name o = { w with renewers } := by
  unfold renew
  split
  · exact ⟨w.renewers, rfl⟩
  · exact ⟨_, rfl⟩

theorem renew_entries : (w.renew name o).entries = w.entries := by
  obtain ⟨rs, hr⟩ := renew_eq w name o
  rw [hr]

end Commits

namespace Sound

/-- What holds the sessions is as it was, and so are the sessions and their renewers. -/
theorem congr (h : Sound w l settled) (hh : v.holds = w.holds) (hn : v.names = w.names) (hm : v.made.length = w.made.length)
    (hs : v.shut = w.shut) (hf : v.failed = w.failed) (hr : v.renewers = w.renewers) (hc : v.closing = w.closing)
    (hp : v.primary.connection = .connected → w.primary.connection = .connected) : Sound v l settled := by
  have hprofile (n : String) : (v.entries n).api = (w.entries n).api := congrFun hh (.profile n)
  have hcapture : v.primary.api = w.primary.api := congrFun hh .capture
  constructor
  · intro n
    rw [hn, hprofile]
    exact h.named n
  · rw [hprofile]
    exact h.mirrored
  · rw [hn]
    exact h.reserved
  · rw [hh, hm]
    exact h.made
  · rw [hh, hs]
    exact h.unshut
  · rw [hh]
    exact h.apart
  · rw [hh, hm, hs, hf]
    exact h.accounted
  · rw [hh, hm, hs]
    exact h.loose
  · rw [hm, hs]
    exact h.shutMade
  · rw [hr]
    exact h.timers
  · intro hv n o
    rw [hprofile, hr]
    exact h.timed (hc ▸ hv) n o
  · intro hset hv hfail hcon o
    rw [hcapture, hr]
    exact h.captured hset (hc ▸ hv) (hf ▸ hfail) (hp hcon) o

theorem unsettled (h : Sound w l settled) : Sound w l false := { h with captured := fun hf => by cases hf }

theorem setEntry (h : Sound w l settled) {f : ProfileEntry → ProfileEntry} (hf : (f (w.entries name)).api = (w.entries name).api) :
    Sound (w.setEntry name f) l settled :=
  h.congr (funext (setEntry_holds hf)) rfl rfl rfl rfl rfl rfl id

theorem mark (h : Sound w l settled) (e : SessionEvent) : Sound (w.mark e) l settled := h.congr rfl rfl rfl rfl rfl rfl rfl id

theorem setPrimary (h : Sound w l settled) {f : CaptureSession → CaptureSession} (hf : (f w.primary).api = w.primary.api)
    (hc : (f w.primary).connection = .connected → w.primary.connection = .connected) : Sound (w.setPrimary f) l settled :=
  h.congr (funext (setPrimary_holds hf)) rfl rfl rfl rfl rfl rfl hc

/-- A new session is nobody's. -/
theorem add (h : Sound w none settled) (settings : ConnectionSettings) : Sound (w.add settings) (some w.made.length) settled := by
  have hlt (k : Holder) (o : Nat) (ho : w.holds k = some o) : o < w.made.length := h.made k o ho
  refine { h with made := ?_, accounted := ?_, loose := ?_, shutMade := ?_ }
  · intro k o ho
    have hh := hlt k o ho
    simp only [ProfileWorld.add, List.length_append, List.length_singleton]
    omega
  · intro o ho
    simp only [ProfileWorld.add, List.length_append, List.length_singleton] at ho
    by_cases he : o = w.made.length
    · exact Or.inr (Or.inr (Or.inl (congrArg some he.symm)))
    · rcases h.accounted o (by omega) with hs | hs | hs | hs
      · exact Or.inl hs
      · exact Or.inr (Or.inl hs)
      · cases hs
      · exact Or.inr (Or.inr (Or.inr hs))
  · intro o ho
    obtain rfl := Option.some.inj ho
    refine ⟨by simp [ProfileWorld.add], fun hs => ?_, fun k hk => ?_⟩
    · exact Nat.lt_irrefl _ (h.shutMade _ hs)
    · exact Nat.lt_irrefl _ (hlt k _ hk)
  · intro o ho
    have hh := h.shutMade o ho
    simp only [ProfileWorld.add, List.length_append, List.length_singleton]
    omega

/-- The session that nobody holds is closed. -/
theorem shutLoose (h : Sound w (some o) settled) : Sound (w.shutDown o) none settled := by
  obtain ⟨hlt, _, hfree⟩ := h.loose o rfl
  refine { h with unshut := ?_, accounted := ?_, loose := fun p hp => (by cases hp), shutMade := ?_ }
  · intro k p hp hs
    rcases List.mem_cons.mp hs with rfl | hs
    · exact hfree k hp
    · exact h.unshut k p hp hs
  · intro p hp
    rcases h.accounted p hp with hs | hs | hs | hs
    · exact Or.inl (List.mem_cons_of_mem _ hs)
    · exact Or.inr (Or.inl hs)
    · exact Or.inl (Option.some.inj hs ▸ List.mem_cons_self)
    · exact Or.inr (Or.inr (Or.inr hs))
  · intro p hp
    rcases List.mem_cons.mp hp with rfl | hp
    · exact hlt
    · exact h.shutMade p hp

/-- A session whose `close` raised is accounted for. -/
theorem failDown (h : Sound w l settled) (hl : l = none ∨ l = some o) {settled' : Bool} : Sound (w.failDown o) none settled' := by
  refine { h with accounted := ?_, loose := fun p hp => (by cases hp), captured := ?_ }
  · intro p hp
    rcases h.accounted p hp with hs | hs | hs | hs
    · exact Or.inl hs
    · exact Or.inr (Or.inl (List.mem_cons_of_mem _ hs))
    · rcases hl with rfl | rfl
      · cases hs
      · exact Or.inr (Or.inl (Option.some.inj hs ▸ List.mem_cons_self))
    · exact Or.inr (Or.inr (Or.inr hs))
  · intro _ _ hf
    cases hf

/-- A profile gives up the session that it has just closed. -/
theorem release (h : Sound w none settled) {f : ProfileEntry → ProfileEntry} (ho : (w.entries name).api = some o)
    (hf : (f (w.entries name)).api = none) : Sound ((w.shutDown o).setEntry name f) none settled := by
  have hold (k : Holder) (q : Nat) (hk : ((w.shutDown o).setEntry name f).holds k = some q) :
      k ≠ .profile name ∧ w.holds k = some q := by
    cases k with
    | capture => exact ⟨(by simp), hk⟩
    | profile n =>
      by_cases hn : n = name
      · subst hn
        simp only [holds, setEntry_self] at hk
        cases hf.symm.trans hk
      · refine ⟨fun he => hn (Holder.profile.inj he), ?_⟩
        rw [holds, setEntry_of_ne f hn] at hk
        exact hk
  have hentry (n q) (hq : (((w.shutDown o).setEntry name f).entries n).api = some q) : (w.entries n).api = some q :=
    (hold (.profile n) q hq).2
  have hnone {n : String} (hn : (w.entries n).api = none) : (((w.shutDown o).setEntry name f).entries n).api = none := by
    cases hq : (((w.shutDown o).setEntry name f).entries n).api with
    | none => rfl
    | some q => cases (hentry n q hq).symm.trans hn
  constructor
  · intro n hn
    exact hnone (h.named n hn)
  · exact hnone h.mirrored
  · exact h.reserved
  · intro k q hk
    exact h.made k q (hold k q hk).2
  · intro k q hk hs
    obtain ⟨hne, hw⟩ := hold k q hk
    rcases List.mem_cons.mp hs with rfl | hs
    · exact hne (h.apart k (.profile name) q hw ho)
    · exact h.unshut k q hw hs
  · intro k k' q hk hk'
    exact h.apart k k' q (hold k q hk).2 (hold k' q hk').2
  · intro q hq
    rcases h.accounted q hq with hs | hs | hs | ⟨k, hk⟩
    · exact Or.inl (List.mem_cons_of_mem _ hs)
    · exact Or.inr (Or.inl hs)
    · cases hs
    · by_cases he : q = o
      · exact Or.inl (he ▸ List.mem_cons_self)
      · refine Or.inr (Or.inr (Or.inr ⟨k, ?_⟩))
        cases k with
        | capture => exact hk
        | profile n =>
          have hn : n ≠ name := by
            rintro rfl
            exact he (Option.some.inj (hk.symm.trans ho))
          rw [holds, setEntry_of_ne f hn]
          exact hk
  · intro p hp
    cases hp
  · intro q hq
    rcases List.mem_cons.mp hq with rfl | hq
    · exact h.made (.profile name) q ho
    · exact h.shutMade q hq
  · exact h.timers
  · intro hc n q hq
    exact h.timed hc n q (hentry n q hq)
  · exact h.captured

/-- The capture session gives up what it has just closed. -/
theorem releaseCapture (h : Sound w none false) {f : CaptureSession → CaptureSession} (ho : w.primary.api = some o)
    (hf : (f w.primary).api = none) : Sound ((w.shutDown o).setPrimary f) none settled := by
  have hold (k : Holder) (q : Nat) (hk : ((w.shutDown o).setPrimary f).holds k = some q) : k ≠ .capture ∧ w.holds k = some q := by
    cases k with
    | capture => cases hf.symm.trans hk
    | profile n => exact ⟨(by simp), hk⟩
  constructor
  · exact h.named
  · exact h.mirrored
  · exact h.reserved
  · intro k q hk
    exact h.made k q (hold k q hk).2
  · intro k q hk hs
    obtain ⟨hne, hw⟩ := hold k q hk
    rcases List.mem_cons.mp hs with rfl | hs
    · exact hne (h.apart k .capture q hw ho)
    · exact h.unshut k q hw hs
  · intro k k' q hk hk'
    exact h.apart k k' q (hold k q hk).2 (hold k' q hk').2
  · intro q hq
    rcases h.accounted q hq with hs | hs | hs | ⟨k, hk⟩
    · exact Or.inl (List.mem_cons_of_mem _ hs)
    · exact Or.inr (Or.inl hs)
    · cases hs
    · cases k with
      | capture =>
        obtain rfl : o = q := Option.some.inj (ho.symm.trans hk)
        exact Or.inl List.mem_cons_self
      | profile n => exact Or.inr (Or.inr (Or.inr ⟨.profile n, hk⟩))
  · intro p hp
    cases hp
  · intro q hq
    rcases List.mem_cons.mp hq with rfl | hq
    · exact h.made .capture q ho
    · exact h.shutMade q hq
  · exact h.timers
  · exact h.timed
  · intro _ _ _ _ q hq
    cases hf.symm.trans hq

theorem profile_ne (h : Sound w l settled) {n : String} (ho : (w.entries n).api = some o) : n ≠ "primary" := by
  rintro rfl
  cases (h.named _ h.reserved).symm.trans ho

/-- The renewer of a profile without a session is cancelled. -/
theorem cancel (h : Sound w l settled) (hn : name ≠ "primary") (hapi : (w.entries name).api = none) :
    Sound (w.cancel name) l settled := by
  refine { h with timers := ?_, timed := ?_, captured := ?_ }
  · exact h.timers.sublist (List.filter_sublist.map _)
  · intro hc n q hq
    have hne : n ≠ name := by
      rintro rfl
      cases hapi.symm.trans hq
    exact mem_cancel.mpr ⟨h.timed hc n q hq, hne⟩
  · intro hset hc hf hcon q hq
    exact mem_cancel.mpr ⟨h.captured hset hc hf hcon q hq, hn.symm⟩

theorem cancelCapture (h : Sound w l false) : Sound (w.cancel "primary") l false := by
  refine { h with timers := ?_, timed := ?_, captured := ?_ }
  · exact h.timers.sublist (List.filter_sublist.map _)
  · intro hc n q hq
    exact mem_cancel.mpr ⟨h.timed hc n q hq, h.profile_ne hq⟩
  · intro hset
    cases hset

/-- One more renewer, which takes the place of the one with its name. -/
theorem renew_nodup (h : (w.renewers.map Prod.fst).Nodup) : ((w.renew name o).renewers.map Prod.fst).Nodup := by
  unfold renew
  split
  · exact h
  · rw [List.map_append, List.map_singleton]
    refine List.nodup_append.mpr ⟨h.sublist (List.filter_sublist.map _), List.nodup_singleton _, ?_⟩
    intro n hn m hm
    obtain ⟨r, hr, rfl⟩ := List.mem_map.mp hn
    obtain rfl := List.mem_singleton.mp hm
    exact (mem_cancel.mp hr).2

/-- A profile takes over the session that the call has made, with a renewer of its own. -/
theorem hold (h : Sound w (some o) settled) {f : ProfileEntry → ProfileEntry} (hn : name ∈ w.names) (hp : name ≠ primaryPrefix)
    (hapi : (w.entries name).api = none) (hf : (f (w.entries name)).api = some o) :
    Sound ((w.setEntry name f).renew name o) none settled := by
  obtain ⟨hlt, hopen, hfree⟩ := h.loose o rfl
  have hold (k : Holder) (q : Nat) : (w.setEntry name f).holds k = some q ↔ w.holds k = some q ∨ k = .profile name ∧ q = o := by
    cases k with
    | capture => simp [holds]
    | profile n =>
      by_cases hname : n = name
      · subst hname
        simp [holds, hf, hapi, eq_comm]
      · rw [holds, setEntry_of_ne f hname]
        simp [holds, hname]
  have hentry (n q) : ((w.setEntry name f).entries n).api = some q ↔ (w.entries n).api = some q ∨ n = name ∧ q = o := by
    have hh := hold (.profile n) q
    simpa only [holds, Holder.profile.injEq] using hh
  have hnone {n : String} (hne : n ≠ name) : ((w.setEntry name f).entries n).api = (w.entries n).api := by rw [setEntry_of_ne f hne]
  obtain ⟨renewers, hr⟩ := renew_eq (w.setEntry name f) name o
  have hnodup : (((w.setEntry name f).renew name o).renewers.map Prod.fst).Nodup := renew_nodup h.timers
  have hmem {r : String × Nat} (hc : w.closing = false) :
      r ∈ ((w.setEntry name f).renew name o).renewers ↔ r ∈ w.renewers ∧ r.1 ≠ name ∨ r = (name, o) :=
    mem_renew (w := w.setEntry name f) hc
  rw [hr] at hnodup hmem ⊢
  constructor
  · intro n hmiss
    have hne : n ≠ name := by
      rintro rfl
      exact hmiss hn
    exact (hnone hne).trans (h.named n hmiss)
  · exact (hnone hp.symm).trans h.mirrored
  · exact h.reserved
  · intro k q hk
    rcases (hold k q).mp hk with hk | ⟨_, rfl⟩
    · exact h.made k q hk
    · exact hlt
  · intro k q hk
    rcases (hold k q).mp hk with hk | ⟨_, rfl⟩
    · exact h.unshut k q hk
    · exact hopen
  · intro k k' q hk hk'
    rcases (hold k q).mp hk with hk | ⟨rfl, rfl⟩
    · rcases (hold k' q).mp hk' with hk' | ⟨_, rfl⟩
      · exact h.apart k k' q hk hk'
      · exact absurd hk (hfree k)
    · rcases (hold k' q).mp hk' with hk' | ⟨rfl, _⟩
      · exact absurd hk' (hfree k')
      · rfl
  · intro q hq
    rcases h.accounted q hq with hs | hs | hs | ⟨k, hk⟩
    · exact Or.inl hs
    · exact Or.inr (Or.inl hs)
    · exact Or.inr (Or.inr (Or.inr ⟨.profile name, (hold _ _).mpr (Or.inr ⟨rfl, (Option.some.inj hs).symm⟩)⟩))
    · exact Or.inr (Or.inr (Or.inr ⟨k, (hold _ _).mpr (Or.inl hk)⟩))
  · intro p hp
    cases hp
  · exact h.shutMade
  · exact hnodup
  · intro hc n q hq
    rcases (hentry n q).mp hq with hkept | ⟨rfl, rfl⟩
    · have hne : n ≠ name := by
        rintro rfl
        cases hapi.symm.trans hkept
      exact (hmem hc).mpr (Or.inl ⟨h.timed hc n q hkept, hne⟩)
    · exact (hmem hc).mpr (Or.inr rfl)
  · intro hset hc hfail hcon q hq
    have hne : "primary" ≠ name := fun he => h.reserved (he ▸ hn)
    exact (hmem hc).mpr (Or.inl ⟨h.captured hset hc hfail hcon q hq, hne⟩)

/-- The capture session takes over the session that the call has made, or keeps the one that it has. -/
theorem adopt (h : Sound w l settled) {f : CaptureSession → CaptureSession} (hf : (f w.primary).api = some o)
    (ho : w.primary.api = some o ∧ l = none ∨ w.primary.api = none ∧ l = some o) : Sound (w.setPrimary f) none false := by
  rcases ho with ⟨hapi, rfl⟩ | ⟨hapi, rfl⟩
  · have hheld := funext (setPrimary_holds (w := w) (hf.trans hapi.symm))
    have hsound : Sound { w.setPrimary f with primary := { f w.primary with connection := w.primary.connection } } none false :=
      h.unsettled.congr hheld rfl rfl rfl rfl rfl rfl id
    exact { hsound with captured := fun hset => by cases hset }
  · obtain ⟨hlt, hopen, hfree⟩ := h.loose o rfl
    have hold (k : Holder) (q : Nat) : (w.setPrimary f).holds k = some q ↔ w.holds k = some q ∨ k = .capture ∧ q = o := by
      cases k with
      | capture =>
        change (f w.primary).api = some q ↔ w.primary.api = some q ∨ Holder.capture = Holder.capture ∧ q = o
        simp [hf, hapi, eq_comm]
      | profile n => simp [holds, ProfileWorld.setPrimary]
    constructor
    · exact h.named
    · exact h.mirrored
    · exact h.reserved
    · intro k q hk
      rcases (hold k q).mp hk with hk | ⟨_, rfl⟩
      · exact h.made k q hk
      · exact hlt
    · intro k q hk
      rcases (hold k q).mp hk with hk | ⟨_, rfl⟩
      · exact h.unshut k q hk
      · exact hopen
    · intro k k' q hk hk'
      rcases (hold k q).mp hk with hk | ⟨rfl, rfl⟩
      · rcases (hold k' q).mp hk' with hk' | ⟨_, rfl⟩
        · exact h.apart k k' q hk hk'
        · exact absurd hk (hfree k)
      · rcases (hold k' q).mp hk' with hk' | ⟨rfl, _⟩
        · exact absurd hk' (hfree k')
        · rfl
    · intro q hq
      rcases h.accounted q hq with hs | hs | hs | ⟨k, hk⟩
      · exact Or.inl hs
      · exact Or.inr (Or.inl hs)
      · exact Or.inr (Or.inr (Or.inr ⟨.capture, (hold _ _).mpr (Or.inr ⟨rfl, (Option.some.inj hs).symm⟩)⟩))
      · exact Or.inr (Or.inr (Or.inr ⟨k, (hold _ _).mpr (Or.inl hk)⟩))
    · intro p hp
      cases hp
    · exact h.shutMade
    · exact h.timers
    · exact h.timed
    · intro hset
      cases hset

/-- The renewer of the capture session is started, or cancelled where there is no session to renew. -/
theorem follow (h : Sound w l false) (ho : w.primary.api = some o) : Sound (w.renew "primary" o) l true := by
  have hnodup : ((w.renew "primary" o).renewers.map Prod.fst).Nodup := renew_nodup h.timers
  have hmem {r : String × Nat} (hc : w.closing = false) :
      r ∈ (w.renew "primary" o).renewers ↔ r ∈ w.renewers ∧ r.1 ≠ "primary" ∨ r = ("primary", o) := mem_renew hc
  obtain ⟨renewers, hr⟩ := renew_eq w "primary" o
  rw [hr] at hnodup hmem ⊢
  refine { h with timers := hnodup, timed := ?_, captured := ?_ }
  · intro hc n q hq
    exact (hmem hc).mpr (Or.inl ⟨h.timed hc n q hq, h.profile_ne hq⟩)
  · intro _ hc _ _ q hq
    exact (hmem hc).mpr (Or.inr (by rw [Option.some.inj (hq.symm.trans ho)]))

theorem settle (h : Sound w l false) (ho : w.primary.connection = .connected → w.primary.api = none) : Sound w l settled :=
  { h with captured := fun _ _ _ hcon q hq => (by cases (ho hcon).symm.trans hq) }

/-- While the controller closes, no renewer is started or missed. -/
theorem close (h : Sound w l settled) : Sound { w with closing := true, renewers := [] } l settled :=
  { h with timers := List.nodup_nil, timed := fun hc => (by cases hc), captured := fun _ hc => (by cases hc) }

end Sound

namespace Frame

variable {h : Holder}

theorem setEntry (hf : Frame t w v) (ht : t (.profile name)) (f : ProfileEntry → ProfileEntry) : Frame t w (v.setEntry name f) := by
  refine { hf with entries := ?_ }
  intro n hn
  have hne : n ≠ name := by
    rintro rfl
    exact hn ht
  rw [setEntry_of_ne f hne]
  exact hf.entries n hn

theorem setPrimary (hf : Frame t w v) (ht : t .capture) (f : CaptureSession → CaptureSession) : Frame t w (v.setPrimary f) :=
  { hf with primary := fun hn => absurd ht hn }

theorem mark (hf : Frame t w v) (e : SessionEvent) : Frame t w (v.mark e) := { hf with }

theorem add (hf : Frame t w v) (settings : ConnectionSettings) : Frame t w (v.add settings) := { hf with }

theorem shutDown (hf : Frame t w v) (ho : ∀ k, ¬ t k → v.holds k ≠ some o) : Frame t w (v.shutDown o) := by
  refine { hf with shut := ?_ }
  intro k q hk hq hs
  rcases List.mem_cons.mp hs with rfl | hs
  · exact absurd ((hf.holds hk).trans hq) (ho k hk)
  · exact hf.shut k q hk hq hs

theorem failDown (hf : Frame t w v) (ho : ∀ k, ¬ t k → v.holds k ≠ some o) : Frame t w (v.failDown o) := by
  refine { hf with failed := ?_ }
  intro k q hk hq hs
  rcases List.mem_cons.mp hs with rfl | hs
  · exact absurd ((hf.holds hk).trans hq) (ho k hk)
  · exact hf.failed k q hk hq hs

/-- Only renewers change, and of those only the ones with a name that no other holder's renewer has. -/
theorem renewers (hf : Frame t w v) (name : String) {rs : List (String × Nat)} (hr : ∀ r : String × Nat, r.1 ≠ name → (r ∈ rs ↔ r ∈ v.renewers))
    (ht : ∀ k, ¬ t k → (∀ n, k = .profile n → n ∈ w.names) → k.timer ≠ name) : Frame t w { v with renewers := rs } := by
  refine { hf with timers := ?_ }
  intro k q hk hn
  exact (hr (k.timer, q) (ht k hk hn)).trans (hf.timers k q hk hn)

/-- The name of a renewer names its holder. -/
theorem timer_ne (hp : "primary" ∉ w.names) {k : Holder} (ht : t k) (hk : k = .capture ∨ ∃ n, k = .profile n ∧ n ≠ "primary") :
    ∀ k', ¬ t k' → (∀ n, k' = .profile n → n ∈ w.names) → k'.timer ≠ k.timer := by
  intro k' hk' hn he
  rcases hk with rfl | ⟨n, rfl, hne⟩
  · cases k' with
    | capture => exact hk' ht
    | profile m =>
      change m = "primary" at he
      exact hp (he ▸ hn m rfl)
  · cases k' with
    | capture =>
      change "primary" = n at he
      exact hne he.symm
    | profile m =>
      change m = n at he
      exact hk' (he ▸ ht)

end Frame

section Honesty

variable {s : Option String} {trace more : List SessionEvent} {e e' : ProfileEntry} {made : List ConnectionSettings}

theorem Known.mono (h : Known trace name e) : Known (trace ++ more) name e where
  chosen := h.chosen
  offered a ha := by
    obtain ⟨hne, ids, hids, hmem⟩ := h.offered a ha
    exact ⟨hne, ids, List.mem_append_left _ hids, hmem⟩
  listed hne := by
    obtain ⟨ids, hids, hmem⟩ := h.listed hne
    exact ⟨ids, List.mem_append_left _ hids, hmem⟩

theorem Backed.mono (h : Backed trace e) : Backed (trace ++ more) e where
  data part rows hd := by
    obtain ⟨o, ho, hr⟩ := h.data part rows hd
    exact ⟨o, ho, List.mem_append_left _ hr⟩
  shown := h.shown

theorem Known.congr (h : Known trace name e) (ha : e'.accounts = e.accounts) (hau : e'.authentication = e.authentication)
    (hs : e'.settings.accountId = e.settings.accountId) : Known trace name e' where
  chosen := by
    rw [ha, hau]
    exact h.chosen
  offered := by
    rw [ha]
    exact h.offered
  listed := by
    rw [hs]
    exact h.listed

/-- A profile that has forgotten its choices. -/
theorem Known.forget (h : Known trace name e) (ha : e'.accounts = []) (hau : e'.authentication = none)
    (hs : e'.settings.accountId = e.settings.accountId) : Known trace name e' where
  chosen := by
    rw [ha, hau]
    rfl
  offered a hm := by
    rw [ha] at hm
    cases hm
  listed := by
    rw [hs]
    exact h.listed

theorem part_empty (part : ReadPart) : ({} : ProfileData).part part = none := by cases part <;> rfl

theorem Backed.congr (h : Backed trace e) (ha : e'.api = e.api) (hs : e'.settings.accountId = e.settings.accountId)
    (hd : e'.data = e.data) (hst : e'.state = e.state) : Backed trace e' where
  data := by
    rw [ha, hs, hd]
    exact h.data
  shown := by
    rw [ha, hst]
    exact h.shown

theorem backed_empty (hd : e.data = {}) (hs : e.state = .connected → e.api.isSome) : Backed trace e where
  data part rows h := by
    rw [hd, part_empty] at h
    cases h
  shown := hs

theorem MadeFor.congr (h : MadeFor made e) (ha : e'.api = e.api) (hs : e'.settings.accountId = e.settings.accountId) : MadeFor made e' := by
  intro o ho
  rw [hs]
  exact h o (ha ▸ ho)

theorem madeFor_none (ha : e.api = none) : MadeFor made e := by
  intro o ho
  cases ha.symm.trans ho

namespace Honest

theorem congr (h : Honest w s) (he : v.entries = w.entries) (ht : v.trace = w.trace) (hm : v.made = w.made) : Honest v s where
  known := by
    rw [he, ht]
    exact h.known
  madeFor := by
    rw [he, hm]
    exact h.madeFor
  backed := by
    rw [he, ht]
    exact h.backed

theorem setEntry (h : Honest w s) {f : ProfileEntry → ProfileEntry} {s' : Option String}
    (hs : ∀ n, n ≠ name → s' ≠ some n → s ≠ some n) (hk : Known w.trace name (f (w.entries name)))
    (hm : MadeFor w.made (f (w.entries name)))
    (hb : name ≠ primaryPrefix → s' ≠ some name → Backed w.trace (f (w.entries name))) : Honest (w.setEntry name f) s' where
  known n := by
    by_cases hn : n = name
    · subst hn
      rw [setEntry_self]
      exact hk
    · rw [setEntry_of_ne f hn]
      exact h.known n
  madeFor n := by
    by_cases hn : n = name
    · subst hn
      rw [setEntry_self]
      exact hm
    · rw [setEntry_of_ne f hn]
      exact h.madeFor n
  backed n hp hsn := by
    by_cases hn : n = name
    · subst hn
      rw [setEntry_self]
      exact hb hp hsn
    · rw [setEntry_of_ne f hn]
      exact h.backed n hp (hs n hn hsn)

theorem mark (h : Honest w s) (ev : SessionEvent) : Honest (w.mark ev) s where
  known n := (h.known n).mono
  madeFor := h.madeFor
  backed n hp hs := (h.backed n hp hs).mono

theorem add (h : Honest w s) (settings : ConnectionSettings) : Honest (w.add settings) s where
  known := h.known
  madeFor n o ho := by
    obtain ⟨hne, made, hm, ha⟩ := h.madeFor n o ho
    have hlt := (List.getElem?_eq_some_iff.mp hm).1
    exact ⟨hne, made, (List.getElem?_append_left hlt).trans hm, ha⟩
  backed := h.backed

end Honest

end Honesty

end ProfileWorld

end MatchTrader
