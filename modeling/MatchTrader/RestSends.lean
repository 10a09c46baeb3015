import MatchTrader.RestConnection

/-! How often a request reaches the wire. Every part of a request is bounded by how often it hands
the caller's own request over and by how many renewals it makes, and the bounds add up. -/

namespace MatchTrader

open Durable

namespace Wired

def isSent : Wired → Bool
  | sent .. => true
  | _ => false

/-- The caller's own request is handed over. -/
def isOwn : Wired → Bool
  | sent .own _ => true
  | _ => false

def isRenewal : Wired → Bool
  | renewal => true
  | _ => false

end Wired

/-- What lies between two states: so many own requests and so many renewals at most. -/
def Adds (own renewals : Nat) (w v : Wire) : Prop :=
  ∃ d, v.trace = w.trace ++ d ∧ d.countP Wired.isOwn ≤ own ∧ d.countP Wired.isRenewal ≤ renewals

section Adds

variable {m n m' n' : Nat} {u v w : Wire}

theorem adds_of_trace (h : v.trace = w.trace) : Adds 0 0 w v := ⟨[], by simp [h], by simp, by simp⟩

theorem Adds.refl (w : Wire) : Adds 0 0 w w := adds_of_trace rfl

theorem Adds.mono (h : Adds m n w v) (hm : m ≤ m') (hn : n ≤ n') : Adds m' n' w v := by
  obtain ⟨d, hd, ho, hr⟩ := h
  exact ⟨d, hd, ho.trans hm, hr.trans hn⟩

theorem Adds.trans (h : Adds m n w v) (hv : Adds m' n' v u) : Adds (m + m') (n + n') w u := by
  obtain ⟨d, hd, ho, hr⟩ := h
  obtain ⟨d', hd', ho', hr'⟩ := hv
  refine ⟨d ++ d', by rw [hd', hd, List.append_assoc], ?_, ?_⟩
  · rw [List.countP_append]
    omega
  · rw [List.countP_append]
    omega

end Adds

namespace RestConnection

abbrev Any : (q : RestQuery) → RestReply q → Prop := fun _ _ => True

abbrev Free : Wire → Wire → Prop := fun _ _ => True

/-- A part of a request, whatever it is answered. Only the gate of writes raises its own error. -/
def Within {α : Type} (m n : Nat) (p : RestAct α) : Prop :=
  ∀ w, p.wp Any Free (fun _ v => Adds m n w v) (fun e v => e.kind ≠ .writesDisabled ∧ Adds m n w v) w

section Within

variable {α β : Type} {m n m' n' : Nat} {p : RestAct α} {f : α → RestAct β} {e : Exc}

theorem Within.mono (h : Within m n p) (hm : m ≤ m') (hn : n ≤ n') : Within m' n' p := fun w =>
  Prog.wp_consequence (h w) (fun _ _ ha => ha.mono hm hn) fun _ _ he => ⟨he.1, he.2.mono hm hn⟩

theorem within_pure (a : α) : Within 0 0 (pure a : RestAct α) := Adds.refl

theorem within_throw (he : e.kind ≠ .writesDisabled) : Within 0 0 (throw e : RestAct α) := fun w => ⟨he, Adds.refl w⟩

theorem within_reads (g : Wire → α) : Within 0 0 (Prog.reads g : RestAct α) := Adds.refl

theorem within_query (q : RestQuery) : Within 0 0 (Prog.query q : RestAct (RestReply q)) := fun w _ _ => Adds.refl w

theorem within_set (g : RestConnection → RestConnection) : Within 0 0 (set g) := fun w =>
  ⟨trivial, adds_of_trace (w := w) rfl⟩

theorem within_ofExcept {r : Except Exc α} (h : ∀ e, r = .error e → e.kind ≠ .writesDisabled) :
    Within 0 0 (Prog.ofExcept r : RestAct α) := fun w =>
  (Prog.wp_ofExcept r).mpr ⟨fun _ _ => Adds.refl w, fun e he => ⟨h e he, Adds.refl w⟩⟩

theorem within_raiseIf {c : Prop} [Decidable c] (he : e.kind ≠ .writesDisabled) : Within 0 0 (raiseIf c e : RestAct Unit) := by
  unfold raiseIf
  split
  · exact within_throw he
  · exact within_pure ()

theorem Within.bind (hp : Within m n p) (hf : ∀ a, Within m' n' (f a)) : Within (m + m') (n + n') (p >>= f) := fun w => by
  rw [Prog.wp_bind]
  refine Prog.wp_consequence (hp w) (fun a v ha => ?_) fun _ _ he => ⟨he.1, he.2.mono (by omega) (by omega)⟩
  exact Prog.wp_consequence (hf a v) (fun _ _ hb => ha.trans hb) fun _ _ hb => ⟨hb.1, ha.trans hb.2⟩

/-- What costs nothing may stand in front. -/
theorem Within.after (hp : Within 0 0 p) (hf : ∀ a, Within m n (f a)) : Within m n (p >>= f) :=
  (hp.bind hf).mono (by omega) (by omega)

theorem Within.discard (hp : Within m n p) : Within m n (discard p) := fun w => (Prog.wp_discard p).mpr (hp w)

theorem Within.tryCatch {h : Exc → RestAct α} (hp : Within m n p)
    (hh : ∀ e, e.kind ≠ .writesDisabled → Within m' n' (h e)) : Within (m + m') (n + n') (tryCatch p h) := fun w => by
  rw [Prog.wp_tryCatch]
  refine Prog.wp_consequence (hp w) (fun _ _ ha => ha.mono (by omega) (by omega)) fun e v he => ?_
  exact Prog.wp_consequence (hh e he.1 v) (fun _ _ hb => he.2.trans hb) fun _ _ hb => ⟨hb.1, he.2.trans hb.2⟩

end Within

/-- A computation that does not raise the error of the gate of writes. -/
def Plain {α : Type} (r : Except Exc α) : Prop := ∀ e, r = .error e → e.kind ≠ .writesDisabled

section Errors

variable {α β : Type} {r : Except Exc α} {f : α → Except Exc β} {e : Exc}

theorem plain_ok (a : α) : Plain (.ok a) := fun _ h => by cases h

theorem plain_error (he : e.kind ≠ .writesDisabled) : Plain (.error e : Except Exc α) := fun _ h =>
  Except.error.inj h ▸ he

theorem plain_raiseIf {c : Prop} [Decidable c] (he : e.kind ≠ .writesDisabled) :
    Plain (raiseIf c e : Except Exc Unit) := by
  unfold raiseIf
  split
  · exact plain_error he
  · exact plain_ok ()

theorem Plain.bind (h : Plain r) (hf : ∀ a, Plain (f a)) : Plain (r >>= f) := by
  cases r with
  | ok a => exact hf a
  | error e => exact plain_error (h e rfl)

theorem Plain.within (h : Plain r) : Within 0 0 (Prog.ofExcept r : RestAct α) := within_ofExcept h

theorem readResponse_plain (r : HttpRequest) (system : String) (o : HttpOutcome) : Plain (readResponse r system o) := by
  cases o with
  | transportError =>
    refine plain_error ?_
    split <;> exact ExcKind.noConfusion
  | raised name message => exact plain_error ExcKind.noConfusion
  | answer status content =>
    refine (plain_raiseIf ExcKind.noConfusion).bind fun _ => (plain_raiseIf ExcKind.noConfusion).bind fun _ => ?_
    rcases content with _ | _ | data
    · exact plain_ok _
    · refine plain_error ?_
      split <;> exact ExcKind.noConfusion
    · simp only []
      split
      · exact (plain_raiseIf ExcKind.noConfusion).bind fun _ => plain_ok _
      · exact plain_ok _

theorem selected_plain (c : RestConnection) : Plain (selected c) :=
  (plain_raiseIf ExcKind.noConfusion).bind fun _ =>
    (plain_raiseIf ExcKind.noConfusion).bind fun _ => plain_raiseIf ExcKind.noConfusion

theorem field_plain (value : Json) (name : String) : Plain (field value name) :=
  (plain_raiseIf ExcKind.noConfusion).bind fun _ => plain_ok _

theorem systemOf_plain (settings : RestSettings) (a : Json) : Plain (systemOf settings a) := by
  simp only [systemOf]
  split
  · exact plain_ok _
  · refine (field_plain a "offer").bind fun offer => (field_plain offer "system").bind fun system => ?_
    refine (plain_raiseIf ExcKind.noConfusion).bind fun _ => ?_
    split
    · exact plain_ok _
    · split
      · exact plain_error ExcKind.noConfusion
      · exact plain_ok _

theorem accountTokenOf_plain (a : Json) : Plain (accountTokenOf a) :=
  (plain_raiseIf ExcKind.noConfusion).bind fun _ => plain_ok _

variable [Host]

theorem account_plain (settings : RestSettings) (data : Json) : Plain (account settings data) := by
  simp only [account]
  split
  · split
    · refine (plain_raiseIf ExcKind.noConfusion).bind fun _ => ?_
      split
      · exact plain_ok _
      · exact plain_error ExcKind.noConfusion
    · split
      · exact plain_ok _
      · exact plain_error ExcKind.noConfusion
  · exact plain_error ExcKind.noConfusion

theorem choose_plain [AlnumHost] (settings : RestSettings) (data : Json) : Plain (choose settings data) :=
  (plain_raiseIf ExcKind.noConfusion).bind fun _ => (account_plain settings data).bind fun a =>
    (plain_raiseIf ExcKind.noConfusion).bind fun _ => (systemOf_plain settings a).bind fun _ =>
      (plain_raiseIf ExcKind.noConfusion).bind fun _ => (plain_raiseIf ExcKind.noConfusion).bind fun _ => plain_ok _

end Errors

section Parts

variable [Host] [AlnumHost] {m n : Nat}

omit [Host] [AlnumHost] in
theorem raiseIf_quiet (c : Prop) [Decidable c] (e : Exc) : (raiseIf c e : RestAct Unit).Quiet := by
  unfold raiseIf
  split
  · exact Prog.quiet_throw e
  · exact Prog.quiet_pure ()

omit [Host] [AlnumHost] in
theorem ensureOpen_quiet : ensureOpen.Quiet := (Prog.quiet_reads _).bind fun _ => raiseIf_quiet _ _

omit [Host] [AlnumHost] in
theorem ensureOpen_within : Within 0 0 ensureOpen :=
  (within_reads _).after fun _ => within_raiseIf ExcKind.noConfusion

omit [Host] [AlnumHost] in
theorem mark_sent_within (p : Purpose) (at_ : ℚ) : Within (if p = .own then 1 else 0) 0 (mark (.sent p at_)) := fun w => by
  refine ⟨trivial, [.sent p at_], rfl, ?_, ?_⟩
  · by_cases hp : p = .own
    · simp [hp, Wired.isOwn]
    · have hown : Wired.isOwn (.sent p at_) = false := by cases p <;> simp_all [Wired.isOwn]
      simp [hp, hown]
  · simp [Wired.isRenewal]

omit [Host] [AlnumHost] in
theorem mark_renewal_within : Within 0 1 (mark .renewal) := fun w =>
  ⟨trivial, [.renewal], rfl, by simp [Wired.isOwn], by simp [Wired.isRenewal]⟩

omit [Host] [AlnumHost] in
theorem send_within (p : Purpose) (r : HttpRequest) : Within (if p = .own then 1 else 0) 0 (send p r) := by
  refine ensureOpen_within.after fun _ => (within_reads _).after fun c => ?_
  refine (Plain.within ?_).after fun _ => (within_reads _).after fun now => ?_
  · split
    · exact selected_plain c
    · exact plain_ok ()
  · have hrest : ∀ r : HttpRequest, Within 0 0 (ask r >>= fun o => Prog.ofExcept (readResponse r c.system o)) := fun r =>
      (within_query (.http r)).after fun o => (readResponse_plain r c.system o).within
    exact (mark_sent_within p now).bind fun _ => hrest _

theorem adopt_within (data : Json) (identity : String) : Within 0 0 (adopt data identity) := by
  refine (within_reads _).after fun c => (choose_plain c.settings data).within.after fun choice => ?_
  refine (within_set _).after fun _ => (accountTokenOf_plain choice.1).within.after fun token => ?_
  refine (within_set _).after fun _ => ?_
  split
  · exact within_throw ExcKind.noConfusion
  · exact (within_reads _).after fun _ => within_set _

omit [Host] [AlnumHost] in
theorem credentials_within (settings : RestSettings) : Within 0 0 (credentials settings) := by
  refine (within_raiseIf ExcKind.noConfusion).after fun _ => Within.after ?_ fun _ => within_pure _
  simp only [brokerOf]
  split
  · exact within_pure _
  · exact (send_within .platform _).after fun _ =>
      (within_raiseIf ExcKind.noConfusion).after fun _ => within_pure _

theorem login_within (explicit : Bool) (body : Option Json) (oneTime discoverOnly : Bool) :
    Within 0 0 (login explicit body oneTime discoverOnly) := by
  refine (within_reads _).after fun c => Within.after ?_ fun body => ?_
  · cases body with
    | none => exact credentials_within c.settings
    | some body => exact within_pure body
  · refine (within_raiseIf ExcKind.noConfusion).after fun _ => (send_within (.login explicit) _).after fun data => ?_
    split
    · exact within_pure data
    · exact (within_set _).after fun _ => (adopt_within data _).after fun _ => within_pure data

omit [Host] [AlnumHost] in
theorem reserveRenewal_within : Within 0 0 reserveRenewal := by
  refine (within_reads _).after fun now => (within_set _).after fun _ => (within_reads _).after fun c => ?_
  exact (within_raiseIf ExcKind.noConfusion).after fun _ => within_set _

omit [Host] [AlnumHost] in
theorem Within.expiring {p : RestAct Json} (hp : Within m n p) : Within m n (expiring p) :=
  (hp.tryCatch fun _ he => (within_set _).after fun _ => within_throw he).mono (by omega) (by omega)

theorem refresh_within (explicit : Bool) : Within 0 0 (refresh explicit) := by
  refine (within_reads _).after fun c => (within_raiseIf ExcKind.noConfusion).after fun _ => ?_
  refine reserveRenewal_within.after fun _ => Within.expiring ?_
  refine (send_within (.refresh explicit) _).after fun data => Within.after ?_ fun _ => ?_
  · refine (within_reads _).after fun c => ?_
    split
    · split
      · exact adopt_within data _
      · exact within_set _
    · refine (within_query _).after fun value => ?_
      cases value with
      | none => exact within_pure ()
      | some value => exact within_set _
  · exact (within_reads _).after fun _ => (within_set _).after fun _ => within_pure data

theorem renew_within : Within 0 1 renew := by
  refine (mark_renewal_within.bind fun _ => ?_ : Within (0 + 0) (1 + 0) renew)
  refine (within_reads _).after fun c => ?_
  split
  · refine ((refresh_within false).tryCatch fun e he => ?_ : Within (0 + 0) (0 + 0) _)
    refine (within_reads _).after fun c => ?_
    split
    · exact login_within false none false false
    · exact within_throw he
  · refine (within_raiseIf ExcKind.noConfusion).after fun _ => (within_raiseIf ExcKind.noConfusion).after fun _ => ?_
    exact reserveRenewal_within.after fun _ => (login_within false none false false).expiring

/-- Beforehand a request renews its session at most once, and says so. -/
theorem prepare_wp (w : Wire) : prepare.wp Any Free (fun refreshed v => Adds 0 (if refreshed then 1 else 0) w v)
    (fun e v => e.kind ≠ .writesDisabled ∧ Adds 0 1 w v) w := by
  simp only [prepare, Prog.wp_bind]
  change Prog.wp _ _ (if ¬ w.conn.sessionToken.truthy = true then _ else _) _ _ w
  split
  · exact Prog.wp_consequence (((login_within false none false false).discard.after fun _ => within_pure false) w)
      (fun b v hb => hb.mono (Nat.le_refl _) (Nat.zero_le _)) fun _ _ he => ⟨he.1, he.2.mono (Nat.le_refl _) (by omega)⟩
  · split
    · rw [Prog.wp_bind]
      exact Prog.wp_consequence (renew_within.discard w) (fun _ v hv => by simpa using hv) fun _ _ he => he
    · simpa using Adds.refl w

/-- A safe read may be handed over twice, with one renewal, and only where none was made before. -/
theorem exchange_within (r : RestCall) (refreshed : Bool) :
    Within (if r.safeRead then 2 else 1) (if refreshed then 0 else 1) (exchange r refreshed) := by
  by_cases hagain : r.safeRead = true ∧ refreshed = false
  · obtain ⟨hsafe, hr⟩ := hagain
    rw [hsafe, hr, if_pos rfl, if_neg Bool.false_ne_true]
    refine ((send_within .own r.request).tryCatch fun e he => ?_ : Within (1 + 1) (0 + 1) _)
    split
    · exact (within_throw he).mono (by omega) (by omega)
    · exact ((renew_within.discard).bind fun _ => send_within .own r.request : Within (0 + 1) (1 + 0) _)
  · have hstop : r.safeRead = false ∨ refreshed = true := by
      by_cases hs : r.safeRead = true
      · exact Or.inr (by simpa [hs] using hagain)
      · exact Or.inl (by simpa using hs)
    refine Within.mono ((send_within .own r.request).tryCatch fun e he => ?_ : Within (1 + 0) (0 + 0) _) ?_ ?_
    · split
      · exact within_throw he
      · next hgo => rcases hstop with hs | hr <;> simp_all
    · cases r.safeRead <;> decide
    · cases refreshed <;> decide

theorem prepared_wp (r : RestCall) (w : Wire) :
    (prepared r).wp Any Free (fun refreshed v => Adds 0 (if refreshed then 1 else 0) w v)
      (fun e v => e.kind ≠ .writesDisabled ∧ Adds 0 1 w v) w := by
  unfold prepared
  split
  · exact prepare_wp w
  · simpa using Adds.refl w

theorem serve_within (r : RestCall) : Within (if r.safeRead then 2 else 1) 1 (serve r) := by
  unfold serve
  cases r.action with
  | some action =>
    cases action with
    | login => exact (login_within true _ false false).mono (Nat.zero_le _) (Nat.zero_le _)
    | oneTimeLogin => exact (login_within true _ true false).mono (Nat.zero_le _) (Nat.zero_le _)
    | refresh => exact (refresh_within true).mono (Nat.zero_le _) (Nat.zero_le _)
  | none =>
    intro w
    rw [Prog.wp_bind]
    refine Prog.wp_consequence (prepared_wp r w) (fun refreshed v hv => ?_) fun e v he =>
      ⟨he.1, he.2.mono (Nat.zero_le _) (Nat.le_refl _)⟩
    have hsum : (if refreshed then 1 else 0) + (if refreshed then 0 else 1) = 1 := by cases refreshed <;> rfl
    refine Prog.wp_consequence (exchange_within r refreshed v) (fun _ u hu => ?_) fun _ u hu => ⟨hu.1, ?_⟩
    · have hadds := hv.trans hu
      rwa [Nat.zero_add, hsum] at hadds
    · have hadds := hv.trans hu.2
      rwa [Nat.zero_add, hsum] at hadds

/-- A request that the gate of writes refuses leaves the wire as it was. -/
theorem request_wp (r : RestCall) (w : Wire) :
    (request r).wp Any Free (fun _ v => Adds (if r.safeRead then 2 else 1) 1 w v)
      (fun e v => (e.kind = .writesDisabled → v.trace = w.trace) ∧ Adds (if r.safeRead then 2 else 1) 1 w v) w := by
  have hnone : Adds (if r.safeRead then 2 else 1) 1 w w := (Adds.refl w).mono (Nat.zero_le _) (Nat.zero_le _)
  simp only [request, Prog.wp_bind]
  refine ensureOpen_quiet.wp (fun _ => ?_) fun _ => ⟨fun _ => rfl, hnone⟩
  change Prog.wp _ _ (raiseIf (r.request.write = true ∧ ¬ w.conn.settings.enableWrites = true) _) _ _ w
  refine (raiseIf_quiet _ _).wp (fun _ => ?_) fun _ => ⟨fun _ => rfl, hnone⟩
  exact Prog.wp_consequence (serve_within r w) (fun _ _ hv => hv) fun _ _ he => ⟨fun hk => absurd hk he.1, he.2⟩

end Parts

end RestConnection

open RestConnection in
/-- A mutation is handed to the client at most once and a safe read at most twice, with at most one
renewal, whatever the client and the broker answer; a call that finds writes disabled sends nothing.
No endpoint declares both. -/
theorem request_sends [Host] [AlnumHost] (r : RestCall) (hr : ¬ (r.request.write = true ∧ r.safeRead = true)) (w : Wire)
    (env : Nat → (q : RestQuery) → RestReply q) :
    ∃ d, ((request r).eval env w).1.trace = w.trace ++ d
      ∧ (r.request.write = true → d.countP Wired.isOwn ≤ 1)
      ∧ (∀ e, ((request r).eval env w).2 = .error e → e.kind = .writesDisabled → ∀ x ∈ d, x.isSent = false)
      ∧ (r.request.scope = .trading → r.safeRead = true → d.countP Wired.isOwn ≤ 2 ∧ d.countP Wired.isRenewal ≤ 1) := by
  obtain ⟨-, hok, herror⟩ := Prog.wp_eval (request_wp r w) env fun _ _ => trivial
  have hadds : Adds (if r.safeRead then 2 else 1) 1 w ((request r).eval env w).1 := by
    cases hresult : ((request r).eval env w).2 with
    | ok data => exact hok data hresult
    | error e => exact (herror e hresult).2
  obtain ⟨d, hd, hown, hrenewals⟩ := hadds
  refine ⟨d, hd, fun hw => ?_, fun e he hk x hx => ?_, fun _ hs => ?_⟩
  · have hs : r.safeRead = false := by simpa [hw] using hr
    simpa [hs] using hown
  · have hsame := (herror e he).1 hk
    rw [hd] at hsame
    obtain rfl := List.append_right_eq_self.mp hsame
    simp at hx
  · rw [if_pos hs] at hown
    exact ⟨hown, hrenewals⟩

section Sample

attribute [local instance] sampleHost

/-- Letters and digits of the first code page. -/
@[reducible] def sampleAlnumHost : AlnumHost where
  isalnum := Char.isAlphanum

attribute [local instance] sampleAlnumHost

def sampleSettings : RestSettings :=
  { email := "a@b", password := "p", brokerId := "1", accountId := "7", systemUuid := "s", enableWrites := true }

/-- A session with a selected account. -/
def sampleSession : Wire :=
  { conn := { settings := sampleSettings, sessionToken := .str "session", tradingToken := .str "trading"
              accountToken := .str "", expires := 900, identity := "a@b", accountId := "7" }
    clock := 0 }

/-- Every answer of the broker is a rejection. -/
def sampleRejections : Nat → (q : RestQuery) → RestReply q
  | _, .http _ => .answer 401 none
  | _, .remaining _ => none
  | _, .coAuth => none

def sampleOrder : RestCall :=
  { request := ⟨"POST", "mtr-api/SYSTEM_UUID/position/open", .trading, true, none, none⟩ }

theorem request_sends_sample : ∃ d, ((RestConnection.request sampleOrder).eval sampleRejections sampleSession).1.trace = d
    ∧ d.countP Wired.isOwn = 1 := by
  obtain ⟨d, hd, hown, -⟩ := request_sends sampleOrder (by decide) sampleSession sampleRejections
  refine ⟨d, hd, Nat.le_antisymm (hown rfl) ?_⟩
  have hsent : 1 ≤ ((RestConnection.request sampleOrder).eval sampleRejections sampleSession).1.trace.countP Wired.isOwn := by
    decide +kernel
  rwa [hd] at hsent

end Sample

end MatchTrader
