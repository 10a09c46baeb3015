import Mathlib.Data.List.Nodup
import Mathlib.Logic.Function.Basic
import Mathlib.Logic.Relation
import MatchTrader.Rows

/-! One renewal timer for each broker connection, while connections are made, dropped and closed on several
threads and the timers fire on others. -/

namespace MatchTrader

/-- The renewer of one connection. -/
structure SessionRenewer (N : Type) where
  name : N
  timer : Option Nat := none
  cancelled : Bool := false

inductive TimerState where
  | armed
  | fired
  | cancelled
deriving DecidableEq

structure RenewalTimer where
  renewer : Nat
  state : TimerState

/-- A timer that has fired cannot be cancelled. -/
def RenewalTimer.cancel (t : RenewalTimer) : RenewalTimer := if t.state = .armed then { t with state := .cancelled } else t

/-- Where a call stands, between two steps that no other thread can interrupt. -/
inductive RenewalCall (N : Type) where
  /-- `start_renewal`, past its test of the closing flag. -/
  | starting (name : N)
  /-- `start_renewal` holds the lock of the registry and has popped a renewer, which it cancels next. -/
  | replacing (name : N) (old : Nat)
  /-- `start_renewal` holds the lock, and no renewer is registered under the name. -/
  | registering (name : N)
  /-- `_arm`, of a renewer that starts or that has fired; after a failure it is given a backoff. -/
  | arming (renewer : Nat) (backoff : Bool)
  | stopping (name : N)
  | closing
  /-- `stop_renewal` or `close` has taken renewers out of the registry, and cancels them in turn. -/
  | removing (renewers : List Nat)
  /-- `_fire`, before it tests whether the renewer is cancelled. -/
  | firing (renewer : Nat)
  /-- `_fire`, with the renewal and its report to come. -/
  | renewing (renewer : Nat)

namespace RenewalCall

variable {N : Type}

/-- The renewers that a call has taken out and not cancelled. -/
def takes : RenewalCall N → List Nat
  | replacing _ old => [old]
  | removing renewers => renewers
  | _ => []

/-- The renewer that a call may arm. -/
def arms : RenewalCall N → Option Nat
  | arming r _ => some r
  | firing r => some r
  | renewing r => some r
  | _ => none

/-- The name for which a call holds the lock of the registry. -/
def holds : RenewalCall N → Option N
  | replacing name _ => some name
  | registering name => some name
  | _ => none

end RenewalCall

/-- The controller's renewers, the timers of the process and the calls in progress. Objects have identities. -/
structure Renewals (N : Type) where
  closing : Bool := false
  registry : List (N × Nat) := []
  renewers : Nat → Option (SessionRenewer N) := fun _ => none
  timers : Nat → Option RenewalTimer := fun _ => none
  calls : Nat → Option (RenewalCall N) := fun _ => none

namespace Renewals

variable {N : Type}

/-- `cancel`, under the renewer's lock. -/
def cancel (s : Renewals N) (r : Nat) : Renewals N :=
  match s.renewers r with
  | none => s
  | some x => { s with
      renewers := Function.update s.renewers r (some { x with timer := none, cancelled := true })
      timers := match x.timer with
        | none => s.timers
        | some t => Function.update s.timers t ((s.timers t).map RenewalTimer.cancel) }

/-- `_arm`, under the renewer's lock: a new timer, or none where there is no session to renew. -/
def arm (s : Renewals N) (r : Nat) (timer : Option Nat) : Renewals N :=
  match s.renewers r with
  | none => s
  | some x =>
    if x.cancelled then s
    else { s with
      renewers := Function.update s.renewers r (some { x with timer })
      timers := match timer with
        | none => s.timers
        | some t => Function.update s.timers t (some ⟨r, .armed⟩) }

def setCall (s : Renewals N) (i : Nat) (c : Option (RenewalCall N)) : Renewals N :=
  { s with calls := Function.update s.calls i c }

/-- Nobody holds the lock of the registry. -/
def Free (s : Renewals N) : Prop := ∀ i c, s.calls i = some c → c.holds = none

end Renewals

/-- What a step is seen as. -/
inductive RenewalAction (N : Type) where
  | startRenewal (name : N)
  /-- `stop_renewal` takes the renewer of a name out of the registry. -/
  | stopRenewal (name : N)
  /-- `close` takes all renewers out of the registry. -/
  | close
  | other

namespace Renewals

variable {N : Type} [DecidableEq N]

/-- One step of one thread. -/
inductive Step (s : Renewals N) : RenewalAction N → Renewals N → Prop
  | start (i : Nat) (name : N) (hi : s.calls i = none) (h : s.closing = false) :
    Step s (.startRenewal name) (s.setCall i (some (.starting name)))
  | pop (i : Nat) (name : N) (old : Nat) (hi : s.calls i = some (.starting name)) (hf : s.Free) (h : (name, old) ∈ s.registry) :
    Step s .other ({ s with registry := s.registry.filter fun p => p.1 ≠ name }.setCall i (some (.replacing name old)))
  | lock (i : Nat) (name : N) (hi : s.calls i = some (.starting name)) (hf : s.Free) (h : name ∉ s.registry.map Prod.fst) :
    Step s .other (s.setCall i (some (.registering name)))
  | replace (i : Nat) (name : N) (old : Nat) (hi : s.calls i = some (.replacing name old)) :
    Step s .other ((s.cancel old).setCall i (some (.registering name)))
  | register (i : Nat) (name : N) (r : Nat) (hi : s.calls i = some (.registering name)) (hr : s.renewers r = none) :
    Step s .other ({ s with registry := Rows.setItem (name, r) s.registry
                            renewers := Function.update s.renewers r (some { name }) }.setCall i (some (.arming r false)))
  /-- After a failure there is a delay in any case. -/
  | arm (i r : Nat) (backoff : Bool) (timer : Option Nat) (hi : s.calls i = some (.arming r backoff))
    (ht : ∀ t, timer = some t → s.timers t = none) (hb : backoff = true → timer ≠ none) :
    Step s .other ((s.arm r timer).setCall i none)
  | fire (i t r : Nat) (hi : s.calls i = none) (h : s.timers t = some ⟨r, .armed⟩) :
    Step s .other ({ s with timers := Function.update s.timers t (some ⟨r, .fired⟩) }.setCall i (some (.firing r)))
  | test (i r : Nat) (x : SessionRenewer N) (hi : s.calls i = some (.firing r)) (h : s.renewers r = some x) :
    Step s .other (s.setCall i (if x.cancelled then none else some (.renewing r)))
  | report (i r : Nat) (failed : Bool) (hi : s.calls i = some (.renewing r)) :
    Step s .other (s.setCall i (some (.arming r failed)))
  | stop (i : Nat) (name : N) (hi : s.calls i = none) : Step s .other (s.setCall i (some (.stopping name)))
  | take (i : Nat) (name : N) (hi : s.calls i = some (.stopping name)) (hf : s.Free) :
    Step s (.stopRenewal name) ({ s with registry := s.registry.filter fun p => p.1 ≠ name }.setCall i
      (some (.removing ((s.registry.filter fun p : N × Nat => p.1 = name).map Prod.snd))))
  | close (i : Nat) (hi : s.calls i = none) : Step s .other ({ s with closing := true }.setCall i (some .closing))
  | takeAll (i : Nat) (hi : s.calls i = some .closing) (hf : s.Free) :
    Step s .close ({ s with registry := [] }.setCall i (some (.removing (s.registry.map Prod.snd))))
  | remove (i r : Nat) (rest : List Nat) (hi : s.calls i = some (.removing (r :: rest))) :
    Step s .other ((s.cancel r).setCall i (some (.removing rest)))
  | done (i : Nat) (hi : s.calls i = some (.removing [])) : Step s .other (s.setCall i none)

def Reachable (s : Renewals N) : Prop := Relation.ReflTransGen (fun s t => ∃ a, Step s a t) {} s

/-- A renewer that a call in progress has taken out of the registry and not cancelled yet. -/
def Taken (s : Renewals N) (r : Nat) : Prop := ∃ i c, s.calls i = some c ∧ r ∈ c.takes

structure Sound (s : Renewals N) : Prop where
  keys : (s.registry.map Prod.fst).Nodup
  entry : ∀ p ∈ s.registry, ∃ x, s.renewers p.2 = some x ∧ x.name = p.1
  armed : ∀ t r, s.timers t = some ⟨r, .armed⟩ → ∃ x, s.renewers r = some x ∧ x.timer = some t ∧ x.cancelled = false
  place : ∀ r x, s.renewers r = some x → x.cancelled = false → (x.name, r) ∈ s.registry ∨ s.Taken r
  token : ∀ i j c d r, s.calls i = some c → s.calls j = some d → c.arms = some r → d.arms = some r → i = j
  idle : ∀ i c r, s.calls i = some c → c.arms = some r → s.renewers r ≠ none ∧ ∀ t, s.timers t ≠ some ⟨r, .armed⟩
  holder : ∀ i j c d n m, s.calls i = some c → s.calls j = some d → c.holds = some n → d.holds = some m → i = j
  section_ : ∀ i c n, s.calls i = some c → c.holds = some n → n ∉ s.registry.map Prod.fst

variable {s s' : Renewals N} {a : RenewalAction N} {i r : Nat}

theorem setItem_of_not_mem {name : N} (h : name ∉ s.registry.map Prod.fst) : Rows.setItem (name, r) s.registry = s.registry ++ [(name, r)] := by
  refine if_neg ?_
  rw [Bool.not_eq_true, Rows.has_eq_false_iff]
  intro p hp he
  exact h (List.mem_map.mpr ⟨p, hp, he⟩)

section Specs

variable (s : Renewals N) (r : Nat)

omit [DecidableEq N] in
@[simp] theorem cancel_frame : (s.cancel r).registry = s.registry ∧ (s.cancel r).calls = s.calls ∧ (s.cancel r).closing = s.closing := by
  unfold cancel
  split <;> exact ⟨rfl, rfl, rfl⟩

omit [DecidableEq N] in
theorem cancel_renewers (q : Nat) : (s.cancel r).renewers q
    = if q = r then (s.renewers r).map fun x => { x with timer := none, cancelled := true } else s.renewers q := by
  unfold cancel
  cases hx : s.renewers r with
  | none => by_cases hq : q = r <;> simp [hq, hx]
  | some x => simp [Function.update_apply]

omit [DecidableEq N] in
theorem cancel_eq_none (q : Nat) : (s.cancel r).renewers q = none ↔ s.renewers q = none := by
  rw [cancel_renewers]
  by_cases hq : q = r
  · rw [if_pos hq, Option.map_eq_none_iff, hq]
  · rw [if_neg hq]

omit [DecidableEq N] in
/-- What is armed after a cancellation was armed before, and not by the renewer's latest timer. -/
theorem cancel_armed {t q : Nat} (h : (s.cancel r).timers t = some ⟨q, .armed⟩) :
    s.timers t = some ⟨q, .armed⟩ ∧ ∀ x, s.renewers r = some x → x.timer ≠ some t := by
  unfold cancel at h
  cases hx : s.renewers r with
  | none =>
    rw [hx] at h
    exact ⟨h, nofun⟩
  | some x =>
    simp only [hx] at h
    cases ht : x.timer with
    | none =>
      rw [ht] at h
      exact ⟨h, fun y hy => by cases hy; simp [ht]⟩
    | some u =>
      simp only [ht, Function.update_apply] at h
      by_cases htu : t = u
      · subst htu
        rw [if_pos rfl] at h
        obtain ⟨y, hy, hc⟩ := Option.map_eq_some_iff.mp h
        unfold RenewalTimer.cancel at hc
        split at hc
        · cases hc
        · next hne => exact absurd (congrArg RenewalTimer.state hc) hne
      · rw [if_neg htu] at h
        exact ⟨h, fun y hy => by cases hy; simp [ht, Ne.symm htu]⟩

omit [DecidableEq N] in
@[simp] theorem arm_frame (timer : Option Nat) : (s.arm r timer).registry = s.registry ∧ (s.arm r timer).calls = s.calls
    ∧ (s.arm r timer).closing = s.closing := by
  unfold arm
  split
  · exact ⟨rfl, rfl, rfl⟩
  · split <;> exact ⟨rfl, rfl, rfl⟩

omit [DecidableEq N] in
theorem arm_renewers (timer : Option Nat) (q : Nat) : (s.arm r timer).renewers q
    = if q = r then (s.renewers r).map fun x => if x.cancelled then x else { x with timer } else s.renewers q := by
  unfold arm
  cases hx : s.renewers r with
  | none => by_cases hq : q = r <;> simp [hq, hx]
  | some x =>
    by_cases hc : x.cancelled = true
    · by_cases hq : q = r <;> simp [hc, hq, hx]
    · simp [hc, Function.update_apply]

omit [DecidableEq N] in
/-- What is armed after a renewer has armed was armed before, or is its new timer. -/
theorem arm_armed {timer : Option Nat} {t q : Nat} (h : (s.arm r timer).timers t = some ⟨q, .armed⟩) :
    s.timers t = some ⟨q, .armed⟩ ∨ q = r ∧ timer = some t ∧ ∃ x, s.renewers r = some x ∧ x.cancelled = false := by
  unfold arm at h
  cases hx : s.renewers r with
  | none =>
    rw [hx] at h
    exact Or.inl h
  | some x =>
    by_cases hc : x.cancelled = true
    · simp only [hx, if_pos hc] at h
      exact Or.inl h
    · simp only [hx, if_neg hc] at h
      cases timer with
      | none => exact Or.inl h
      | some u =>
        simp only [Function.update_apply] at h
        by_cases htu : t = u
        · rw [if_pos htu] at h
          cases h
          exact Or.inr ⟨rfl, congrArg some htu.symm, x, rfl, Bool.not_eq_true _ ▸ hc⟩
        · rw [if_neg htu] at h
          exact Or.inl h

end Specs

attribute [local grind] RenewalCall.arms RenewalCall.takes RenewalCall.holds

omit [DecidableEq N] in
theorem Sound.initial : ({} : Renewals N).Sound := by
  refine ⟨List.nodup_nil, ?_, ?_, ?_, ?_, ?_, ?_, ?_⟩ <;> simp

omit [DecidableEq N] in
/-- A name is registered once. -/
theorem Sound.one (h : s.Sound) {name : N} {q : Nat} (hr : (name, r) ∈ s.registry) (hq : (name, q) ∈ s.registry) : r = q :=
  congrArg Prod.snd (List.inj_on_of_nodup_map h.keys hr hq rfl)

omit [DecidableEq N] in
theorem Sound.start (h : s.Sound) {name : N} (hi : s.calls i = none) : (s.setCall i (some (.starting name))).Sound := by
  obtain ⟨hk, he, ha, hp, ht, hd, hh, hs⟩ := h
  refine ⟨hk, he, ha, ?_, ?_, ?_, ?_, ?_⟩ <;> simp only [setCall, Taken, Function.update_apply] at * <;> grind

theorem Sound.pop (h : s.Sound) {name : N} {old : Nat} (hi : s.calls i = some (.starting name)) (hf : s.Free) (hm : (name, old) ∈ s.registry) :
    ({ s with registry := s.registry.filter fun p => p.1 ≠ name }.setCall i (some (.replacing name old))).Sound := by
  have hone : ∀ q, (name, q) ∈ s.registry → q = old := fun q hq => h.one hq hm
  obtain ⟨hk, he, ha, hp, ht, hd, hh, hs⟩ := h
  refine ⟨hk.sublist (List.filter_sublist.map _), ?_, ha, ?_, ?_, ?_, ?_, ?_⟩ <;>
    simp only [setCall, Taken, Free, Function.update_apply] at * <;> grind

omit [DecidableEq N] in
theorem Sound.lock (h : s.Sound) {name : N} (hi : s.calls i = some (.starting name)) (hf : s.Free) (hn : name ∉ s.registry.map Prod.fst) :
    (s.setCall i (some (.registering name))).Sound := by
  obtain ⟨hk, he, ha, hp, ht, hd, hh, hs⟩ := h
  refine ⟨hk, he, ha, ?_, ?_, ?_, ?_, ?_⟩ <;> simp only [setCall, Taken, Free, Function.update_apply] at * <;> grind

omit [DecidableEq N] in
theorem Sound.replace (h : s.Sound) {name : N} {old : Nat} (hi : s.calls i = some (.replacing name old)) :
    ((s.cancel old).setCall i (some (.registering name))).Sound := by
  have harmed := @cancel_armed N s old
  have hnone := cancel_eq_none s old
  have hrenewers := cancel_renewers s old
  obtain ⟨hregistry, hcalls, -⟩ := cancel_frame s old
  obtain ⟨hk, he, ha, hp, ht, hd, hh, hs⟩ := h
  refine ⟨?_, ?_, ?_, ?_, ?_, ?_, ?_, ?_⟩ <;>
    simp only [setCall, Taken, Function.update_apply, hregistry, hcalls, hrenewers] at * <;> grind [Option.map_eq_some_iff]

theorem Sound.register (h : s.Sound) {name : N} (hi : s.calls i = some (.registering name)) (hr : s.renewers r = none) :
    ({ s with registry := Rows.setItem (name, r) s.registry
              renewers := Function.update s.renewers r (some { name }) }.setCall i (some (.arming r false))).Sound := by
  have hname := h.section_ i _ name hi rfl
  rw [setItem_of_not_mem hname]
  obtain ⟨hk, he, ha, hp, ht, hd, hh, hs⟩ := h
  refine ⟨?_, ?_, ?_, ?_, ?_, ?_, ?_, ?_⟩ <;> simp only [setCall, Taken, Function.update_apply] at *
  · rw [List.map_append, List.nodup_append]
    exact ⟨hk, List.nodup_singleton _, fun a ha b hb hab => hname (by simp at hb; exact hb ▸ hab ▸ ha)⟩
  · intro p hp'
    obtain hp' | hp' := List.mem_append.mp hp'
    · obtain ⟨x, hx, hn⟩ := he p hp'
      have hne : p.2 ≠ r := fun hpr => nomatch (hpr ▸ hx).symm.trans hr
      exact ⟨x, (if_neg hne).trans hx, hn⟩
    · cases List.mem_singleton.mp hp'
      exact ⟨{ name }, if_pos rfl, rfl⟩
  all_goals grind

omit [DecidableEq N] in
theorem Sound.arm (h : s.Sound) {backoff : Bool} {timer : Option Nat} (hi : s.calls i = some (.arming r backoff)) :
    ((s.arm r timer).setCall i none).Sound := by
  have harmed := @arm_armed N s r timer
  have hrenewers := arm_renewers s r timer
  obtain ⟨hregistry, hcalls, -⟩ := arm_frame s r timer
  obtain ⟨hk, he, ha, hp, ht, hd, hh, hs⟩ := h
  refine ⟨?_, ?_, ?_, ?_, ?_, ?_, ?_, ?_⟩ <;>
    simp only [setCall, Taken, Function.update_apply, hregistry, hcalls, hrenewers] at * <;> grind [Option.map_eq_some_iff]

omit [DecidableEq N] in
theorem Sound.fire (h : s.Sound) {t : Nat} (hi : s.calls i = none) (ht : s.timers t = some ⟨r, .armed⟩) :
    ({ s with timers := Function.update s.timers t (some ⟨r, .fired⟩) }.setCall i (some (.firing r))).Sound := by
  obtain ⟨hk, he, ha, hp, ht, hd, hh, hs⟩ := h
  refine ⟨hk, he, ?_, ?_, ?_, ?_, ?_, ?_⟩ <;> simp only [setCall, Taken, Function.update_apply] at * <;> grind

omit [DecidableEq N] in
theorem Sound.test (h : s.Sound) {x : SessionRenewer N} (hi : s.calls i = some (.firing r)) :
    (s.setCall i (if x.cancelled then none else some (.renewing r))).Sound := by
  obtain ⟨hk, he, ha, hp, ht, hd, hh, hs⟩ := h
  refine ⟨hk, he, ha, ?_, ?_, ?_, ?_, ?_⟩ <;> simp only [setCall, Taken, Function.update_apply] at * <;> grind

omit [DecidableEq N] in
theorem Sound.report (h : s.Sound) {failed : Bool} (hi : s.calls i = some (.renewing r)) :
    (s.setCall i (some (.arming r failed))).Sound := by
  obtain ⟨hk, he, ha, hp, ht, hd, hh, hs⟩ := h
  refine ⟨hk, he, ha, ?_, ?_, ?_, ?_, ?_⟩ <;> simp only [setCall, Taken, Function.update_apply] at * <;> grind

omit [DecidableEq N] in
theorem Sound.stop (h : s.Sound) {name : N} (hi : s.calls i = none) : (s.setCall i (some (.stopping name))).Sound := by
  obtain ⟨hk, he, ha, hp, ht, hd, hh, hs⟩ := h
  refine ⟨hk, he, ha, ?_, ?_, ?_, ?_, ?_⟩ <;> simp only [setCall, Taken, Function.update_apply] at * <;> grind

theorem Sound.take (h : s.Sound) {name : N} (hi : s.calls i = some (.stopping name)) :
    ({ s with registry := s.registry.filter fun p => p.1 ≠ name }.setCall i
      (some (.removing ((s.registry.filter fun p : N × Nat => p.1 = name).map Prod.snd)))).Sound := by
  have htaken : ∀ q, (name, q) ∈ s.registry → q ∈ (s.registry.filter fun p : N × Nat => p.1 = name).map Prod.snd := fun q hq =>
    List.mem_map.mpr ⟨(name, q), List.mem_filter.mpr ⟨hq, decide_eq_true rfl⟩, rfl⟩
  obtain ⟨hk, he, ha, hp, ht, hd, hh, hs⟩ := h
  refine ⟨hk.sublist (List.filter_sublist.map _), ?_, ha, ?_, ?_, ?_, ?_, ?_⟩ <;>
    simp only [setCall, Taken, Function.update_apply] at * <;> grind

omit [DecidableEq N] in
theorem Sound.close (h : s.Sound) (hi : s.calls i = none) : ({ s with closing := true }.setCall i (some .closing)).Sound := by
  obtain ⟨hk, he, ha, hp, ht, hd, hh, hs⟩ := h
  refine ⟨hk, he, ha, ?_, ?_, ?_, ?_, ?_⟩ <;> simp only [setCall, Taken, Function.update_apply] at * <;> grind

omit [DecidableEq N] in
theorem Sound.takeAll (h : s.Sound) (hi : s.calls i = some .closing) :
    ({ s with registry := [] }.setCall i (some (.removing (s.registry.map Prod.snd)))).Sound := by
  obtain ⟨hk, he, ha, hp, ht, hd, hh, hs⟩ := h
  refine ⟨List.nodup_nil, ?_, ha, ?_, ?_, ?_, ?_, ?_⟩ <;> simp only [setCall, Taken, Function.update_apply] at * <;> grind

omit [DecidableEq N] in
theorem Sound.remove (h : s.Sound) {rest : List Nat} (hi : s.calls i = some (.removing (r :: rest))) :
    ((s.cancel r).setCall i (some (.removing rest))).Sound := by
  have harmed := @cancel_armed N s r
  have hnone := cancel_eq_none s r
  have hrenewers := cancel_renewers s r
  obtain ⟨hregistry, hcalls, -⟩ := cancel_frame s r
  obtain ⟨hk, he, ha, hp, ht, hd, hh, hs⟩ := h
  refine ⟨?_, ?_, ?_, ?_, ?_, ?_, ?_, ?_⟩ <;>
    simp only [setCall, Taken, Function.update_apply, hregistry, hcalls, hrenewers] at * <;> grind [Option.map_eq_some_iff]

omit [DecidableEq N] in
theorem Sound.done (h : s.Sound) (hi : s.calls i = some (.removing [])) : (s.setCall i none).Sound := by
  obtain ⟨hk, he, ha, hp, ht, hd, hh, hs⟩ := h
  refine ⟨hk, he, ha, ?_, ?_, ?_, ?_, ?_⟩ <;> simp only [setCall, Taken, Function.update_apply] at * <;> grind

theorem Sound.step (h : s.Sound) (hs : Step s a s') : s'.Sound := by
  cases hs with
  | start i name hi _ => exact h.start hi
  | pop i name old hi hf hm => exact h.pop hi hf hm
  | lock i name hi hf hn => exact h.lock hi hf hn
  | replace i name old hi => exact h.replace hi
  | register i name r hi hr => exact h.register hi hr
  | arm i r backoff timer hi _ _ => exact h.arm hi
  | fire i t r hi ht => exact h.fire hi ht
  | test i r x hi _ => exact h.test hi
  | report i r failed hi => exact h.report hi
  | stop i name hi => exact h.stop hi
  | take i name hi _ => exact h.take hi
  | close i hi => exact h.close hi
  | takeAll i hi _ => exact h.takeAll hi
  | remove i r rest hi => exact h.remove hi
  | done i hi => exact h.done hi

theorem Reachable.sound (h : s.Reachable) : s.Sound := by
  induction h with
  | refl => exact Sound.initial
  | tail _ hs ih => exact ih.step hs.choose_spec

/-- A timer is armed for a name, by a renewer of that name. -/
def Armed (s : Renewals N) (t : Nat) (name : N) (r : Nat) : Prop :=
  s.timers t = some ⟨r, .armed⟩ ∧ ∃ x, s.renewers r = some x ∧ x.name = name

/-- A call of `start_renewal` for the name has not registered its renewer yet. -/
def Starting (s : Renewals N) (name : N) : Prop := ∃ i c, s.calls i = some c ∧ (c = .starting name ∨ c.holds = some name)

/-- A run in which every step is seen as one that satisfies `p`. -/
def Run (p : RenewalAction N → Prop) : Renewals N → Renewals N → Prop := Relation.ReflTransGen fun s t => ∃ a, p a ∧ Step s a t

omit [DecidableEq N] in
theorem Sound.armed_place (h : s.Sound) {t : Nat} {name : N} (ht : s.Armed t name r) : (name, r) ∈ s.registry ∨ s.Taken r := by
  obtain ⟨ht, x, hx, hname⟩ := ht
  obtain ⟨y, hy, -, hc⟩ := h.armed t r ht
  cases hx.symm.trans hy
  exact hname ▸ h.place r x hx hc

omit [DecidableEq N] in
theorem Sound.armed_unique (h : s.Sound) {t u : Nat} {name other : N} (ht : s.Armed t name r) (hu : s.Armed u other r) : t = u := by
  obtain ⟨x, hx, hxt, -⟩ := h.armed t r ht.1
  obtain ⟨y, hy, hyu, -⟩ := h.armed u r hu.1
  cases hx.symm.trans hy
  exact Option.some.inj (hxt.symm.trans hyu)

/-- A name stays absent from the registry as long as no new start of it begins. -/
theorem Step.absent {name : N} (hs : Step s a s') (ha : a ≠ .startRenewal name) (hn : name ∉ s.registry.map Prod.fst) (hc : ¬ s.Starting name) :
    name ∉ s'.registry.map Prod.fst ∧ ¬ s'.Starting name := by
  have hsub : ∀ p : N × Nat → Bool, name ∉ (s.registry.filter p).map Prod.fst := fun p hm => hn ((List.filter_sublist.map _).subset hm)
  cases hs with
  | start i other hi _ =>
    refine ⟨hn, ?_⟩
    simp only [Starting, setCall, Function.update_apply] at *
    grind
  | pop i other old hi hf hm =>
    refine ⟨hsub _, ?_⟩
    simp only [Starting, setCall, Function.update_apply] at *
    grind
  | register i other r hi hr =>
    have hne : other ≠ name := fun he => hc ⟨i, _, hi, Or.inr (congrArg some he)⟩
    refine ⟨?_, ?_⟩
    · intro hm
      obtain ⟨p, hp, hpn⟩ := List.mem_map.mp hm
      obtain ⟨q, hq, rfl⟩ | ⟨rfl, -⟩ := Rows.mem_upsert hp
      · by_cases hk : q.1 = other
        · rw [if_pos hk] at hpn
          exact hne hpn
        · rw [if_neg hk] at hpn
          exact hn (List.mem_map.mpr ⟨q, hq, hpn⟩)
      · exact hne hpn
    · simp only [Starting, setCall, Function.update_apply] at *
      grind
  | replace i other old hi =>
    obtain ⟨hregistry, hcalls, -⟩ := cancel_frame s old
    simp only [Starting, setCall, Function.update_apply, hregistry, hcalls] at *
    grind
  | arm i r backoff timer hi _ _ =>
    obtain ⟨hregistry, hcalls, -⟩ := arm_frame s r timer
    simp only [Starting, setCall, Function.update_apply, hregistry, hcalls] at *
    grind
  | remove i r rest hi =>
    obtain ⟨hregistry, hcalls, -⟩ := cancel_frame s r
    simp only [Starting, setCall, Function.update_apply, hregistry, hcalls] at *
    grind
  | take i other hi hf =>
    refine ⟨hsub _, ?_⟩
    simp only [Starting, setCall, Function.update_apply] at *
    grind
  | takeAll i hi hf =>
    refine ⟨List.not_mem_nil, ?_⟩
    simp only [Starting, setCall, Function.update_apply] at *
    grind
  | _ =>
    refine ⟨hn, ?_⟩
    simp only [Starting, setCall, Function.update_apply] at *
    grind

/-- Nothing starts once the closing flag is set, and the flag stays. -/
theorem Step.closing (hs : Step s a s') (h : s.closing = true) : s'.closing = true ∧ ∀ name, a ≠ .startRenewal name := by
  cases hs with
  | start i name hi hf => exact nomatch h.symm.trans hf
  | replace i name old hi => exact ⟨(cancel_frame s old).2.2.trans h, nofun⟩
  | arm i r backoff timer hi _ _ => exact ⟨(arm_frame s r timer).2.2.trans h, nofun⟩
  | remove i r rest hi => exact ⟨(cancel_frame s r).2.2.trans h, nofun⟩
  | close i hi => exact ⟨rfl, nofun⟩
  | _ => exact ⟨h, nofun⟩

/-- `close` sets the flag before it touches the registry. -/
def Flagged (s : Renewals N) : Prop := ∀ i, s.calls i = some .closing → s.closing = true

theorem Step.flagged (hs : Step s a s') (h : s.Flagged) : s'.Flagged := by
  cases hs with
  | replace i name old hi =>
    obtain ⟨-, hcalls, hclosing⟩ := cancel_frame s old
    simp only [Flagged, setCall, Function.update_apply, hcalls, hclosing] at *
    grind
  | arm i r backoff timer hi _ _ =>
    obtain ⟨-, hcalls, hclosing⟩ := arm_frame s r timer
    simp only [Flagged, setCall, Function.update_apply, hcalls, hclosing] at *
    grind
  | remove i r rest hi =>
    obtain ⟨-, hcalls, hclosing⟩ := cancel_frame s r
    simp only [Flagged, setCall, Function.update_apply, hcalls, hclosing] at *
    grind
  | close i hi => exact fun _ _ => rfl
  | _ =>
    simp only [Flagged, setCall, Function.update_apply] at *
    grind

theorem Reachable.flagged (h : s.Reachable) : s.Flagged := by
  induction h with
  | refl => exact nofun
  | tail _ hs ih => exact hs.choose_spec.flagged ih

theorem Run.reachable {p : RenewalAction N → Prop} (hr : Run p s s') (h : s.Reachable) : s'.Reachable := by
  induction hr with
  | refl => exact h
  | tail _ hs ih => exact ih.tail ⟨hs.choose, hs.choose_spec.2⟩

theorem Run.absent {name : N} (hr : Run (fun a => a ≠ .startRenewal name) s s') (hn : name ∉ s.registry.map Prod.fst)
    (hc : ¬ s.Starting name) : name ∉ s'.registry.map Prod.fst := by
  suffices h : name ∉ s'.registry.map Prod.fst ∧ ¬ s'.Starting name from h.1
  induction hr with
  | refl => exact ⟨hn, hc⟩
  | tail _ hs ih =>
    obtain ⟨a, ha, hs⟩ := hs
    exact hs.absent ha ih.1 ih.2

/-- After the flag every run is one without new starts. -/
theorem Run.of_closing {name : N} (hr : Run (fun _ => True) s s') (h : s.closing = true) : Run (fun a => a ≠ .startRenewal name) s s' := by
  suffices hs : Run (fun a => a ≠ .startRenewal name) s s' ∧ s'.closing = true from hs.1
  induction hr with
  | refl => exact ⟨Relation.ReflTransGen.refl, h⟩
  | tail _ hs ih =>
    obtain ⟨a, -, hs⟩ := hs
    obtain ⟨hclosing, hstart⟩ := hs.closing ih.2
    exact ⟨ih.1.tail ⟨a, hstart name, hs⟩, hclosing⟩

theorem Step.stopped {name : N} (hs : Step s (.stopRenewal name) s') : name ∉ s'.registry.map Prod.fst := by
  cases hs with
  | take i _ hi hf =>
    intro hm
    obtain ⟨p, hp, hpn⟩ := List.mem_map.mp hm
    exact of_decide_eq_true (List.mem_filter.mp hp).2 hpn

theorem Step.closed (hs : Step s .close s') (h : s.Flagged) : s'.registry = [] ∧ s'.closing = true := by
  cases hs with
  | takeAll i hi hf => exact ⟨rfl, h i hi⟩

/-- At most one timer is armed for a renewer, and its renewer is registered or on its way out. A name with nothing on its way out
has at most one armed timer, its registered renewer's. What `stop_renewal` has taken out is not armed again before a new start of
the name, and what `close` has taken out never, unless a start had passed the test of the closing flag by then. -/
theorem renewal_timers (h : s.Reachable) :
    (∀ t name r, s.Armed t name r → (name, r) ∈ s.registry ∨ s.Taken r) ∧
    (∀ t u name other r, s.Armed t name r → s.Armed u other r → t = u) ∧
    (∀ name, (∀ t r, s.Armed t name r → ¬ s.Taken r) → ∀ t u q r, s.Armed t name q → s.Armed u name r → t = u ∧ q = r ∧ (name, r) ∈ s.registry) ∧
    (∀ name v w, Step s (.stopRenewal name) v → ¬ v.Starting name → Run (fun a => a ≠ .startRenewal name) v w →
      ∀ t r, w.Armed t name r → w.Taken r) ∧
    ∀ v w, Step s .close v → (∀ name, ¬ v.Starting name) → Run (fun _ => True) v w → ∀ t name r, w.Armed t name r → w.Taken r := by
  have hsound := h.sound
  refine ⟨fun t name r => hsound.armed_place, fun t u name other r => hsound.armed_unique, ?_, ?_, ?_⟩
  · intro name hnone t u q r hq hr
    have hqr := (hsound.armed_place hq).resolve_right (hnone t q hq)
    have hrr := (hsound.armed_place hr).resolve_right (hnone u r hr)
    obtain rfl := hsound.one hqr hrr
    exact ⟨hsound.armed_unique hq hr, rfl, hrr⟩
  · intro name v w hs hc hr t r ht
    have hw := hr.reachable (h.tail ⟨_, hs⟩)
    have habsent := hr.absent hs.stopped hc
    exact (hw.sound.armed_place ht).resolve_left fun hm => habsent (List.mem_map.mpr ⟨_, hm, rfl⟩)
  · intro v w hs hc hr t name r ht
    have hw := hr.reachable (h.tail ⟨_, hs⟩)
    obtain ⟨hempty, hclosing⟩ := hs.closed h.flagged
    have hnone : name ∉ v.registry.map Prod.fst := by
      rw [hempty]
      exact List.not_mem_nil
    have habsent := (hr.of_closing hclosing).absent hnone (hc name)
    exact (hw.sound.armed_place ht).resolve_left fun hm => habsent (List.mem_map.mpr ⟨_, hm, rfl⟩)

section Sample

/-- `primary` has connected, and its renewer's timer is armed. -/
def connected : Renewals String where
  registry := [("primary", 0)]
  renewers := Function.update (fun _ => none) 0 (some { name := "primary", timer := some 0 })
  timers := Function.update (fun _ => none) 0 (some ⟨0, .armed⟩)

/-- `stop_renewal` has taken the renewer of `primary` out, and has not cancelled it. -/
def dropped : Renewals String := { connected with
  registry := []
  calls := Function.update (fun _ => none) 1 (some (.removing [0])) }

/-- A start has passed its test of the closing flag, which `close` sets then. -/
def racing : Renewals String := { ({} : Renewals String).setCall 0 (some (.starting "primary")) with closing := true }.setCall 1 (some .closing)

/-- `close` has cancelled all there was. -/
def emptied : Renewals String := { racing with registry := [] }.setCall 1 (some (.removing []))

/-- A call that holds no lock leaves the registry free for the others. -/
theorem Free.setCall {s : Renewals String} {i : Nat} {c : RenewalCall String} (h : s.Free) (hc : c.holds = none) :
    (s.setCall i (some c)).Free := by
  intro j d hd
  by_cases hj : j = i
  · subst hj
    simp only [Renewals.setCall, Function.update_self, Option.some.injEq] at hd
    exact hd ▸ hc
  · simp only [Renewals.setCall, Function.update_of_ne hj] at hd
    exact h j d hd

/-- A start of a name that is not registered runs through. -/
theorem run_start {s : Renewals String} {i r t : Nat} {name : String} (hi : s.calls i = some (.starting name)) (hf : s.Free)
    (hn : name ∉ s.registry.map Prod.fst) (hr : s.renewers r = none) (ht : s.timers t = none) :
    Run (fun _ => True) s { s with
      registry := s.registry ++ [(name, r)]
      renewers := Function.update s.renewers r (some { name, timer := some t })
      timers := Function.update s.timers t (some ⟨r, .armed⟩)
      calls := Function.update s.calls i none } := by
  have h₁ : Run (fun _ => True) s _ := Relation.ReflTransGen.refl.tail ⟨_, trivial, Step.lock i name hi hf hn⟩
  have h₂ : Run (fun _ => True) s _ := h₁.tail ⟨_, trivial, Step.register i name r (Function.update_self ..) hr⟩
  have h₃ : Run (fun _ => True) s _ := h₂.tail ⟨_, trivial, Step.arm i r false (some t) (Function.update_self ..)
    (fun u hu => Option.some.inj hu ▸ ht) nofun⟩
  convert h₃ using 1
  simp [setCall, Renewals.arm, setItem_of_not_mem hn]

theorem connected_reachable : connected.Reachable := by
  have hempty : Free ({} : Renewals String) := nofun
  have h₁ : Reachable _ := Relation.ReflTransGen.refl.tail ⟨_, Step.start 0 "primary" rfl rfl⟩
  have h₂ := Run.reachable (run_start (r := 0) (t := 0) (Function.update_self ..) (hempty.setCall rfl) List.not_mem_nil rfl rfl) h₁
  convert h₂ using 1
  simp [connected, setCall]

theorem dropped_reachable : dropped.Reachable := by
  have hfree : connected.Free := nofun
  have h₁ : Reachable _ := connected_reachable.tail ⟨_, Step.stop 1 "primary" rfl⟩
  have h₂ : Reachable _ := h₁.tail ⟨_, Step.take 1 "primary" rfl (hfree.setCall rfl)⟩
  convert h₂ using 1
  simp [dropped, connected, setCall]

/-- A name that is dropped and connected again has two armed timers for a while, and a start that raced with `close` arms one after
everything is cancelled. -/
theorem timers_overlap :
    (¬ ∀ s : Renewals String, s.Reachable → ∀ t u name q r, s.Armed t name q → s.Armed u name r → t = u) ∧
    ¬ ∀ s v w : Renewals String, s.Reachable → Step s .close v → Run (fun _ => True) v w → (∀ r, ¬ w.Taken r) →
      ∀ t name r, ¬ w.Armed t name r := by
  constructor
  · intro hall
    have hfree : dropped.Free := by
      intro i c hc
      by_cases hi : i = 1
      · subst hi
        cases hc
        rfl
      · simp [dropped, connected, hi] at hc
    have h₁ : Reachable _ := dropped_reachable.tail ⟨_, Step.start 2 "primary" rfl rfl⟩
    have h₂ := Run.reachable (run_start (i := 2) (r := 1) (t := 1) rfl (hfree.setCall rfl) List.not_mem_nil rfl rfl) h₁
    exact absurd (hall _ h₂ 0 1 "primary" 0 1 ⟨rfl, _, rfl, rfl⟩ ⟨rfl, _, rfl, rfl⟩) Nat.zero_ne_one
  · intro hall
    have hempty : Free ({} : Renewals String) := nofun
    have hfree := hempty.setCall (i := 0) (c := .starting "primary") rfl
    have h₁ : Reachable _ := Relation.ReflTransGen.refl.tail ⟨_, Step.start 0 "primary" rfl rfl⟩
    have h₂ : racing.Reachable := h₁.tail ⟨_, Step.close 1 rfl⟩
    have hracing : racing.Free := hfree.setCall rfl
    have hclose : Step racing .close emptied := Step.takeAll 1 rfl hracing
    have hemptied : emptied.Free := hracing.setCall rfl
    have hrun := run_start (r := 0) (t := 0) (i := 0) (s := emptied) rfl hemptied List.not_mem_nil rfl rfl
    refine hall _ _ _ h₂ hclose hrun ?_ 0 "primary" 0 ⟨rfl, _, rfl, rfl⟩
    rintro r ⟨i, c, hc, hr⟩
    by_cases hi : i = 0
    · simp [hi] at hc
    · by_cases hi' : i = 1
      · simp [hi', emptied, setCall] at hc
        simp [← hc, RenewalCall.takes] at hr
      · simp [hi, hi', emptied, racing, setCall] at hc

theorem renewal_timers_connected : connected.Armed 0 "primary" 0 ∧ (("primary", 0) ∈ connected.registry ∨ connected.Taken 0) ∧
    ∀ v w, Step connected (.stopRenewal "primary") v → ¬ v.Starting "primary" → Run (fun a => a ≠ .startRenewal "primary") v w →
      ∀ t r, w.Armed t "primary" r → w.Taken r := by
  have harmed : connected.Armed 0 "primary" 0 := ⟨rfl, _, rfl, rfl⟩
  have h := renewal_timers connected_reachable
  exact ⟨harmed, h.1 0 "primary" 0 harmed, h.2.2.2.1 "primary"⟩

end Sample

end Renewals

end MatchTrader
