import MatchTrader.Renewals

/-! The tokens of a session, its system and its account come of one entry of one response. The
session and trading tokens are assigned before the account's own token is read, so a response whose
token entry is no object leaves the two apart. -/

namespace MatchTrader

open Durable Relation

namespace RestConnection

section Adoption

variable [Host] [AlnumHost] {st : RestSettings} {broker : Json → Prop} {data a : Json} {c d : RestConnection}

/-- Where a response can be chosen from, its entry's own token is an object or nothing, and the entry
states its identity. -/
def Whole (st : RestSettings) (data : Json) : Prop :=
  ∀ a system, choose st data = .ok (a, system) →
    (a.getOr "tradingAccountToken" (.obj [])).isObj = true ∧ (a.get? "tradingAccountId").isSome = true

/-- All that a session has of its account is that entry's, and the account is the configured one. -/
structure OfEntry (c : RestConnection) (a : Json) : Prop where
  configured : (a.get? "tradingAccountId").map Json.pyStr = some c.settings.accountId
  account : c.accountId = c.settings.accountId
  trading : c.tradingToken = a.getOr "tradingApiToken" .null
  token : accountTokenOf a = .ok c.accountToken
  system : systemOf c.settings a = .ok c.system

/-- The entry is of something that the broker sent. -/
def Matched (broker : Json → Prop) (c : RestConnection) : Prop :=
  c.tradingToken = .str "" ∨ ∃ data a, broker data ∧ account c.settings data = .ok a ∧ OfEntry c a

omit [AlnumHost] in
theorem Matched.congr (h : Matched broker c) (hs : d.settings = c.settings) (ht : d.tradingToken = c.tradingToken)
    (hk : d.accountToken = c.accountToken) (hy : d.system = c.system) (ha : d.accountId = c.accountId) : Matched broker d := by
  rcases h with h | ⟨data, a, hb, hd, he⟩
  · exact Or.inl (ht.trans h)
  · refine Or.inr ⟨data, a, hb, hs ▸ hd, ?_, ?_, ?_, ?_, ?_⟩
    · rw [hs]; exact he.configured
    · rw [ha, hs]; exact he.account
    · rw [ht]; exact he.trading
    · rw [hk]; exact he.token
    · rw [hs, hy]; exact he.system

/-- What an adoption has set before it reads the account's own token. -/
def begun (c : RestConnection) (data a : Json) : RestConnection :=
  { c with sessionToken := data.getOr "token" .null, tradingToken := a.getOr "tradingApiToken" .null }

variable {w : Wire} {identity : String} {env : RestAnswers} {e : Exc} {system : String} {token id : Json}

end Adoption

section Upheld

variable [Host] {st : RestSettings} {broker : Json → Prop} {w v : Wire} {α β : Type}

/-- The broker's answers are of those responses. -/
def Sent (broker : Json → Prop) : (q : RestQuery) → RestReply q → Prop
  | .http _, o => ∀ status data, o = .answer status (some (some data)) → broker data
  | _, _ => True

/-- A configured session, matched. -/
def Proper (st : RestSettings) (broker : Json → Prop) (w : Wire) : Prop := w.conn.settings = st ∧ Matched broker w.conn

/-- The program leaves a proper session proper, however it ends. -/
def Upholds (st : RestSettings) (broker : Json → Prop) (p : RestAct α) : Prop :=
  ∀ w, Proper st broker w → p.wp (Sent broker) Free (fun _ v => Proper st broker v) (fun _ v => Proper st broker v) w

variable {p : RestAct α}

theorem upholds_pure (a : α) : Upholds st broker (pure a : RestAct α) := fun _ h => h

theorem upholds_throw (e : Exc) : Upholds st broker (throw e : RestAct α) := fun _ h => h

theorem upholds_ofExcept (r : Except Exc α) : Upholds st broker (Prog.ofExcept r : RestAct α) := fun _ h =>
  (Prog.wp_ofExcept r).mpr ⟨fun _ _ => h, fun _ _ => h⟩

theorem Upholds.bind {f : α → RestAct β} (hp : Upholds st broker p) (hf : ∀ a, Upholds st broker (f a)) : Upholds st broker (p >>= f) := by
  intro w h
  rw [Prog.wp_bind]
  exact Prog.wp_consequence (hp w h) (fun a v hv => hf a v hv) fun _ _ hv => hv

theorem Upholds.tryCatch {h : Exc → RestAct α} (hp : Upholds st broker p) (hh : ∀ e, Upholds st broker (h e)) :
    Upholds st broker (tryCatch p h) := by
  intro w hw
  rw [Prog.wp_tryCatch]
  exact Prog.wp_consequence (hp w hw) (fun _ _ hv => hv) fun e v hv => hh e v hv

theorem Upholds.discard (hp : Upholds st broker p) : Upholds st broker (discard p) := fun w h => (Prog.wp_discard p).mpr (hp w h)

/-- What is set beside the account's fields does not matter. -/
theorem upholds_set {f : RestConnection → RestConnection} (hs : ∀ c, (f c).settings = c.settings)
    (h : ∀ c, Matched broker c → Matched broker (f c)) : Upholds st broker (set f) := fun _ hw =>
  ⟨trivial, (hs _).trans hw.1, h _ hw.2⟩

theorem Upholds.expiring {p : RestAct Json} (hp : Upholds st broker p) : Upholds st broker (expiring p) :=
  hp.tryCatch fun e => Upholds.bind (upholds_set (fun _ => rfl) fun _ h => h.congr rfl rfl rfl rfl rfl) fun _ => upholds_throw e

section Logins

variable [AlnumHost]

/-- What a run on these settings needs of the broker: an account is configured, and all responses are whole. -/
structure Complete (st : RestSettings) (broker : Json → Prop) : Prop where
  configured : st.accountId ≠ ""
  whole : ∀ data, broker data → Whole st data

end Logins

end Upheld

end RestConnection

open RestConnection

section Sessions

variable [Host] [AlnumHost]

variable {st : RestSettings} {broker : Json → Prop} {w v : Wire}

end Sessions

section Sample

attribute [local instance] sampleHost sampleAlnumHost

end Sample

end MatchTrader
