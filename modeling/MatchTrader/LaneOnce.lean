import MatchTrader.Absorbing

/-! A signal lane decides on a signal once, and writes once to open and once to cancel what
a lifecycle has at an account. A cancel names the order of the lane's one accepted copy. -/

namespace MatchTrader

open Durable

def decides (l : LaneId) (machine client : String) : Event → Bool
  | .decided k m c => k = l && m = machine && c = client
  | _ => false

/-- The event is an opening write of the lane for the lifecycle at the account. -/
def opensScope (l : LaneId) (scope : List (Option String)) (destination : String) : Event → Bool
  | .sent (.signal v) _ call _ => v.lane = l && v.scope = scope && v.destination = destination && call.opens
  | _ => false

/-- The event is a cancel of the lane for the lifecycle at the account. -/
def cancelsScope (l : LaneId) (scope : List (Option String)) (destination : String) : Event → Bool
  | .sent (.signal v) _ call _ => v.lane = l && v.scope = scope && v.destination = destination && call.cancels
  | _ => false

theorem opensScope_eq_true {l : LaneId} {scope : List (Option String)} {destination : String} {e : Event} :
    opensScope l scope destination e = true ↔ ∃ v api call j, e = .sent (.signal v) api call j ∧ v.lane = l
      ∧ v.scope = scope ∧ v.destination = destination ∧ call.opens = true := by
  unfold opensScope
  split <;> simp_all [and_assoc]

theorem cancelsScope_eq_true {l : LaneId} {scope : List (Option String)} {destination : String} {e : Event} :
    cancelsScope l scope destination e = true ↔ ∃ v api call j, e = .sent (.signal v) api call j ∧ v.lane = l
      ∧ v.scope = scope ∧ v.destination = destination ∧ call.cancels = true := by
  unfold cancelsScope
  split <;> simp_all [and_assoc]

/-- The one copy of a lifecycle at an account, which the broker accepted. -/
structure AcceptedCopy (w : World) (l : LaneId) (scope : List (Option String)) (destination : String) (q : SignalRow)
    (call : Call) (reply : Operation) : Prop where
  mem : q ∈ (w.lanes l).signals
  copied : SignalCopy.copied destination q = true
  lifecycle : SignalCopy.scope q.payload = scope
  accepted : q.decision = .accepted
  request : q.request = some call
  sent : ∃ api j, .sent (.signal ⟨l, q.id, scope, destination⟩) api call j ∈ w.trace
  answered : .answered (.signal ⟨l, q.id, scope, destination⟩) (.ok reply) ∈ w.trace
  unique : ∀ r ∈ (w.lanes l).signals, SignalCopy.copied destination r = true → SignalCopy.scope r.payload = scope → r = q

structure LaneOnce (w : World) (l : LaneId) : Prop where
  decided : ∀ machine client, w.trace.countP (decides l machine client) ≤ 1
  opened : ∀ scope destination, w.trace.countP (opensScope l scope destination) ≤ 1
  cancelled : ∀ scope destination, w.trace.countP (cancelsScope l scope destination) ≤ 1
  copy : ∀ v api c j, .sent (.signal v) api (.cancelPendingOrder c) j ∈ w.trace → v.lane = l →
    ∃ q call reply, AcceptedCopy w l v.scope v.destination q call reply ∧ reply.orderId = some c.id
      ∧ call.instrument = c.instrument ∧ call.orderSide = c.orderSide ∧ call.type? = some c.type

/-- The lane's write for the row is on its way or was issued. -/
def Tried (w : World) (l : LaneId) (r : SignalRow) : Prop :=
  r.decision = .dispatching ∨ ∃ v api c j, .sent (.signal v) api c j ∈ w.trace ∧ v.lane = l ∧ v.key = r.id

/-- The row that a write was issued for. -/
structure SentRow (r : SignalRow) (v : SignalWrite) (call : Call) : Prop where
  id : r.id = v.key
  request : r.request = some call
  destination : r.destination = some v.destination
  scope : SignalCopy.scope r.payload = v.scope
  kind : (r.kind = "intent" ∧ call.opens = true) ∨ (isCancelKind r.kind = true ∧ call.cancels = true)
  decided : r.decision ≠ .captured

theorem SentRow.copied {r : SignalRow} {v : SignalWrite} {call : Call} (h : SentRow r v call)
    (ho : call.opens = true) : SignalCopy.copied v.destination r = true := by
  rcases h.kind with ⟨hk, _⟩ | ⟨_, hc⟩
  · simp [SignalCopy.copied, hk, h.request, h.destination]
  · cases call <;> simp [Call.opens, Call.cancels] at ho hc

theorem SentRow.cancelTried {r : SignalRow} {v : SignalWrite} {call : Call} (h : SentRow r v call)
    (hc : call.cancels = true) : cancelTried v.destination r = true := by
  rcases h.kind with ⟨_, ho⟩ | ⟨hk, _⟩
  · cases call <;> simp [Call.opens, Call.cancels] at ho hc
  · simp [MatchTrader.cancelTried, hk, h.request, h.destination]

/-- How the rows of a lane and its writes belong together. -/
structure LaneInv (w : World) (l : LaneId) : Prop where
  copies : ∀ q ∈ (w.lanes l).signals, ∀ r ∈ (w.lanes l).signals, ∀ d, SignalCopy.copied d q = true →
    SignalCopy.copied d r = true → SignalCopy.scope q.payload = SignalCopy.scope r.payload → q.id = r.id
  tried : ∀ q ∈ (w.lanes l).signals, ∀ r ∈ (w.lanes l).signals, ∀ d, Tried w l q → Tried w l r →
    cancelTried d q = true → cancelTried d r = true → SignalCopy.scope q.payload = SignalCopy.scope r.payload →
    q.id = r.id
  sent : ∀ v api call j, .sent (.signal v) api call j ∈ w.trace → v.lane = l →
    ∃ r ∈ (w.lanes l).signals, SentRow r v call
  answered : ∀ q ∈ (w.lanes l).signals, q.kind = "intent" → q.decision = .accepted → ∀ reply d,
    q.response = some (.ok reply) → q.destination = some d →
    .answered (.signal ⟨l, q.id, SignalCopy.scope q.payload, d⟩) (.ok reply) ∈ w.trace
  backed : ∀ r ∈ (w.lanes l).signals, Tried w l r → isCancelKind r.kind = true → ∀ c d,
    r.request = some (.cancelPendingOrder c) → r.destination = some d →
    ∃ q ∈ (w.lanes l).signals, ∃ o reply, SignalCopy.copied d q = true
      ∧ SignalCopy.scope q.payload = SignalCopy.scope r.payload ∧ q.decision = .accepted ∧ q.request = some o
      ∧ q.response = some (.ok reply) ∧ reply.orderId = some c.id ∧ o.instrument = c.instrument
      ∧ o.orderSide = c.orderSide ∧ o.type? = some c.type

section Steps

variable [Host] {R : Rules} {w v : World} {l : LaneId}

omit [Host] in
theorem SignalSend.sentRow {x : SignalWrite} {call : Call} (h : SignalSend R w x call) :
    ∃ r ∈ (w.lanes x.lane).signals, SentRow r x call ∧ r.decision = .dispatching := by
  obtain ⟨r, hr, hid, hreq, hdest, hd, hsc, hk⟩ := h.row
  exact ⟨r, hr, ⟨hid, hreq, hdest, hsc, hk, by simp [hd]⟩, hd⟩

namespace RowKept

variable {r q : SignalRow}

omit [Host] in
theorem payload (h : RowKept R w l r q) : q.payload = r.payload := by
  cases h with
  | step h => cases h <;> rfl
  | _ => rfl

omit [Host] in
theorem kind (h : RowKept R w l r q) : q.kind = r.kind := by
  cases h with
  | step h => cases h <;> rfl
  | _ => rfl

omit [Host] in
/-- Once a row has left its first state, its request and its account stay. -/
theorem settled (h : RowKept R w l r q) (hd : r.decision ≠ .captured) :
    q.request = r.request ∧ q.destination = r.destination ∧ q.decision ≠ .captured := by
  cases h with
  | same => exact ⟨rfl, rfl, hd⟩
  | step h =>
    cases h with
    | land _ hx => exact ⟨rfl, rfl, by rcases hx with rfl | rfl <;> simp⟩
    | note hc => exact absurd hc hd
    | paper hc => exact absurd hc hd
    | commit hc => exact absurd hc hd
    | commitCancel hc => exact absurd hc hd
    | unwound hc => exact absurd hc hd
  | reopened => exact ⟨rfl, rfl, by simp⟩

omit [Host] in
theorem accepted (h : RowKept R w l r q) (hd : r.decision = .accepted) : q = r := by
  cases h with
  | same => rfl
  | step h =>
    cases h with
    | note hc => simp [hd] at hc
    | paper hc => simp [hd] at hc
    | commit hc => simp [hd] at hc
    | commitCancel hc => simp [hd] at hc
    | land hc => simp [hd] at hc
    | unwound hc => simp [hd] at hc
  | reopened hc => simp [hd] at hc

omit [Host] in
theorem emitted (h : RowKept R w l r q) : q.emitted = r.emitted := by
  cases h with
  | step h => cases h <;> rfl
  | _ => rfl

omit [Host] in
/-- An intent is given a request only under the conditions of one. -/
theorem requested (h : RowKept R w l r q) (hr : r.decision = .captured → r.request = none) (hk : r.kind = "intent") :
    (q.request = r.request ∧ q.destination = r.destination)
      ∨ (q.request ≠ r.request ∧ ∃ call d, OpenOk R w l r call d ∧ q.destination = some d) := by
  cases h with
  | same => exact Or.inl ⟨rfl, rfl⟩
  | step h =>
    cases h with
    | note hc hd => exact Or.inl ⟨rfl, rfl⟩
    | @paper call d _ hc ho => exact Or.inr ⟨by simp [hr hc], call, d, ho, rfl⟩
    | @commit call d hc ho => exact Or.inr ⟨by simp [hr hc], call, d, ho, rfl⟩
    | commitCancel hc ho =>
      have hi := ho.kind
      rw [hk] at hi
      exact absurd hi (by decide)
    | land => exact Or.inl ⟨rfl, rfl⟩
    | unwound hc hi hd =>
      rw [hk] at hi
      exact absurd hi (by decide)
  | reopened => exact Or.inl ⟨rfl, rfl⟩

omit [Host] in
/-- A row becomes a copy only under the conditions of a request. -/
theorem copied (h : RowKept R w l r q) (hr : r.decision = .captured → r.request = none) {d : String}
    (hq : SignalCopy.copied d q = true) :
    SignalCopy.copied d r = true ∨ (q.request ≠ r.request ∧ ∃ call, OpenOk R w l r call d) := by
  simp only [SignalCopy.copied, Bool.and_eq_true, decide_eq_true_eq] at hq ⊢
  obtain ⟨⟨hk, hreq⟩, hd⟩ := hq
  rw [h.kind] at hk
  rcases h.requested hr hk with ⟨he, hx⟩ | ⟨hn, call, d', ho, hd'⟩
  · exact Or.inl ⟨⟨hk, he ▸ hreq⟩, hx ▸ hd⟩
  · obtain rfl := Option.some.inj (hd'.symm.trans hd)
    exact Or.inr ⟨hn, call, ho⟩

omit [Host] in
/-- A write is on its way only after its request was committed. -/
theorem dispatching (h : RowKept R w l r q) (hr : r.decision = .captured → r.request = none)
    (hq : q.decision = .dispatching) :
    r.decision = .dispatching ∨ (q.request ≠ r.request ∧ ((∃ call d, OpenOk R w l r call d)
      ∨ ∃ c d, CancelOk w l r c d ∧ q.request = some (.cancelPendingOrder c) ∧ q.destination = some d)) := by
  cases h with
  | same => exact Or.inl hq
  | step h =>
    cases h with
    | note hc hd => rcases hd with rfl | rfl <;> simp at hq
    | paper => simp at hq
    | @commit call d hc ho => exact Or.inr ⟨by simp [hr hc], Or.inl ⟨call, d, ho⟩⟩
    | @commitCancel c d hc ho => exact Or.inr ⟨by simp [hr hc], Or.inr ⟨c, d, ho, rfl, rfl⟩⟩
    | land hc => exact Or.inl hc
    | unwound hc hk hd => exact absurd hq hd.2
  | reopened => simp at hq

end RowKept

/-- A step gives a request to one row at most. -/
theorem Step.row_one (h : Step R w v) (hn : ((w.lanes l).signals.map SignalRow.id).Nodup) :
    ∃ key, ∀ q ∈ (v.lanes l).signals, (∃ r ∈ (w.lanes l).signals, RowKept R w l r q
      ∧ (q.request ≠ r.request → q.id = key)) ∨ RowBorn q := by
  rcases h.signals l with he | ⟨r, hf, hb, he⟩ | ⟨key, f, hr, hf, he⟩ | he <;> rw [he]
  · exact ⟨"", fun q hq => Or.inl ⟨q, hq, .same, fun hx => absurd rfl hx⟩⟩
  · refine ⟨"", fun q hq => ?_⟩
    rcases List.mem_append.mp hq with hq | hq
    · exact Or.inl ⟨q, hq, .same, fun hx => absurd rfl hx⟩
    · exact Or.inr (List.mem_singleton.mp hq ▸ hb)
  · refine ⟨key, fun q hq => ?_⟩
    obtain ⟨r, hm, rfl⟩ := Rows.mem_updateWhere.mp hq
    refine Or.inl ⟨r, hm, ?_⟩
    split
    · next hk =>
      have hk : r.id = key := by simpa using hk
      exact ⟨.step (hr r (Rows.lookup_eq_some_iff hn |>.mpr ⟨hm, hk⟩)), fun _ => (hf r).trans hk⟩
    · exact ⟨.same, fun hx => absurd rfl hx⟩
  · refine ⟨"", fun q hq => ?_⟩
    obtain ⟨r, hm, rfl⟩ := Rows.mem_updateWhere.mp hq
    refine Or.inl ⟨r, hm, ?_⟩
    split
    · next hd => exact ⟨.reopened (by simpa using hd), fun hx => absurd rfl hx⟩
    · exact ⟨.same, fun hx => absurd rfl hx⟩

theorem Inv.row_eq (hI : Inv w) {q r : SignalRow} (hq : q ∈ (w.lanes l).signals) (hr : r ∈ (w.lanes l).signals)
    (h : q.id = r.id) : q = r := by
  have hq' := Rows.lookup_of_mem (hI.rowIds l) hq
  have hr' := Rows.lookup_of_mem (hI.rowIds l) hr
  rw [h] at hq'
  exact Option.some.inj (hq'.symm.trans hr')

theorem Tried.decided {r : SignalRow} (ht : Tried w l r) (hI : Inv w) (hr : r ∈ (w.lanes l).signals) :
    r.decision ≠ .captured := by
  rcases ht with ht | ⟨x, api, c, j, he, rfl, hkey⟩
  · simp [ht]
  · obtain ⟨p, hp, hpk, hpd⟩ := hI.sentRow x api c j he
    exact hI.row_eq hp hr (hpk.trans hkey) ▸ hpd

namespace LaneInv

variable {q r q₀ r₀ : SignalRow}

/-- A write that is on its way after a step was on its way before, or its request is new. -/
theorem tried_old (hI : Inv w) (hs : Step R w v) (hr : r ∈ (w.lanes l).signals) (hk : RowKept R w l r q)
    (ht : Tried v l q) : Tried w l r ∨ (q.request ≠ r.request ∧ ((∃ call d, OpenOk R w l r call d)
      ∨ ∃ c d, CancelOk w l r c d ∧ q.request = some (.cancelPendingOrder c) ∧ q.destination = some d)) := by
  rcases ht with hd | ⟨x, api, c, j, he, hl, hkey⟩
  · exact (hk.dispatching (hI.captured l r hr) hd).imp_left Or.inl
  · left
    rcases hs.mem_trace he with he | he
    · exact Or.inr ⟨x, api, c, j, he, hl, hkey.trans hk.id⟩
    · cases he with
      | signal h =>
        obtain ⟨p, hp, hpk, _, _, hpd, _⟩ := h.row
        obtain rfl := hI.row_eq (hl ▸ hp) hr (hpk.trans (hkey.trans hk.id))
        exact Or.inl hpd

theorem copies_step (hI : Inv w) (h : LaneInv w l) (hs : Step R w v) : ∀ q ∈ (v.lanes l).signals,
    ∀ r ∈ (v.lanes l).signals, ∀ d, SignalCopy.copied d q = true → SignalCopy.copied d r = true →
      SignalCopy.scope q.payload = SignalCopy.scope r.payload → q.id = r.id := by
  obtain ⟨key, hrow⟩ := hs.row_one (hI.rowIds l)
  intro q hq r hr d hcq hcr hsc
  have hnot {p : SignalRow} (hb : RowBorn p) (hc : SignalCopy.copied d p = true) : False := by
    simp [SignalCopy.copied, hb.request] at hc
  rcases hrow q hq with ⟨q₀, hq₀, hkq, hoq⟩ | hb
  · rcases hrow r hr with ⟨r₀, hr₀, hkr, hor⟩ | hb
    · rw [hkq.payload, hkr.payload] at hsc
      rcases hkq.copied (hI.captured l q₀ hq₀) hcq with hcq | ⟨hnq, call, hopen⟩
      · rcases hkr.copied (hI.captured l r₀ hr₀) hcr with hcr | ⟨_, call, hopen⟩
        · rw [hkq.id, hkr.id]
          exact h.copies q₀ hq₀ r₀ hr₀ d hcq hcr hsc
        · exact absurd hsc (hopen.first q₀ hq₀ hcq)
      · rcases hkr.copied (hI.captured l r₀ hr₀) hcr with hcr | ⟨hnr, _⟩
        · exact absurd hsc.symm (hopen.first r₀ hr₀ hcr)
        · exact (hoq hnq).trans (hor hnr).symm
    · exact (hnot hb hcr).elim
  · exact (hnot hb hcq).elim

omit [Host] in
theorem cancelTried_of (hk : isCancelKind r.kind = true) {c : CancelRequest} {d : String}
    (hr : r.request = some (.cancelPendingOrder c)) (hd : r.destination = some d) : cancelTried d r = true := by
  simp [cancelTried, hk, hr, hd]

/-- A cancel that is on its way after a step was on its way before, or its request is new. -/
theorem cancel_old (hI : Inv w) (hs : Step R w v) (hr : r ∈ (w.lanes l).signals) (hk : RowKept R w l r q)
    (ht : Tried v l q) {d : String} (hc : cancelTried d q = true) :
    (Tried w l r ∧ cancelTried d r = true) ∨ (q.request ≠ r.request ∧ ∃ c, CancelOk w l r c d) := by
  simp only [cancelTried, Bool.and_eq_true, decide_eq_true_eq] at hc
  obtain ⟨⟨hkind, hreq⟩, hdest⟩ := hc
  have hkind' : isCancelKind r.kind = true := hk.kind ▸ hkind
  rcases tried_old hI hs hr hk ht with ht | ⟨hn, ⟨call, d', ho⟩ | ⟨c, d', ho, _, hd'⟩⟩
  · left
    refine ⟨ht, ?_⟩
    obtain ⟨h₁, h₂, _⟩ := hk.settled (ht.decided hI hr)
    simp [cancelTried, hkind', ← h₁, ← h₂, hreq, hdest]
  · rw [ho.kind] at hkind'
    exact absurd hkind' (by decide)
  · obtain rfl := Option.some.inj (hd'.symm.trans hdest)
    exact Or.inr ⟨hn, c, ho⟩

theorem tried_step (hI : Inv w) (h : LaneInv w l) (hs : Step R w v) : ∀ q ∈ (v.lanes l).signals,
    ∀ r ∈ (v.lanes l).signals, ∀ d, Tried v l q → Tried v l r → cancelTried d q = true → cancelTried d r = true →
      SignalCopy.scope q.payload = SignalCopy.scope r.payload → q.id = r.id := by
  obtain ⟨key, hrow⟩ := hs.row_one (hI.rowIds l)
  intro q hq r hr d htq htr hcq hcr hsc
  have hnot {p : SignalRow} (hb : RowBorn p) (hc : cancelTried d p = true) : False := by
    simp [cancelTried, hb.request] at hc
  rcases hrow q hq with ⟨q₀, hq₀, hkq, hoq⟩ | hb
  · rcases hrow r hr with ⟨r₀, hr₀, hkr, hor⟩ | hb
    · rw [hkq.payload, hkr.payload] at hsc
      rcases cancel_old hI hs hq₀ hkq htq hcq with ⟨htq, hcq⟩ | ⟨hnq, c, ho⟩
      · rcases cancel_old hI hs hr₀ hkr htr hcr with ⟨htr, hcr⟩ | ⟨_, c, ho⟩
        · rw [hkq.id, hkr.id]
          exact h.tried q₀ hq₀ r₀ hr₀ d htq htr hcq hcr hsc
        · exact absurd hsc (ho.first q₀ hq₀ hcq)
      · rcases cancel_old hI hs hr₀ hkr htr hcr with ⟨_, hcr⟩ | ⟨hnr, _⟩
        · exact absurd hsc.symm (ho.first r₀ hr₀ hcr)
        · exact (hoq hnq).trans (hor hnr).symm
    · exact (hnot hb hcr).elim
  · exact (hnot hb hcq).elim

theorem sent_step (hI : Inv w) (h : LaneInv w l) (hs : Step R w v) : ∀ x api call j,
    .sent (.signal x) api call j ∈ v.trace → x.lane = l → ∃ r ∈ (v.lanes l).signals, SentRow r x call := by
  intro x api call j he hl
  have hh : ∃ r ∈ (w.lanes l).signals, SentRow r x call := by
    rcases hs.mem_trace he with he | he
    · exact h.sent x api call j he hl
    · cases he with
      | signal h =>
        obtain ⟨r, hr, hsr, _⟩ := h.sentRow
        exact ⟨r, hl ▸ hr, hsr⟩
  obtain ⟨r, hr, hsr⟩ := hh
  obtain ⟨q, hq, hk⟩ := hs.row_old (hI.rowIds l) hr
  obtain ⟨h₁, h₂, h₃⟩ := hk.settled hsr.decided
  refine ⟨q, hq, ?_⟩
  exact ⟨hk.id.trans hsr.id, h₁.trans hsr.request, h₂.trans hsr.destination, hk.payload ▸ hsr.scope,
    hk.kind ▸ hsr.kind, h₃⟩

theorem answered_step (hI : Inv w) (h : LaneInv w l) (hs : Step R w v) : ∀ q ∈ (v.lanes l).signals,
    q.kind = "intent" → q.decision = .accepted → ∀ reply d, q.response = some (.ok reply) → q.destination = some d →
      .answered (.signal ⟨l, q.id, SignalCopy.scope q.payload, d⟩) (.ok reply) ∈ v.trace := by
  intro q hq hkind hdec reply d hres hd
  rcases hs.row_new (hI.rowIds l) hq with ⟨r, hr, hk⟩ | ⟨_, hb⟩
  · refine hs.trace_subset ?_
    cases hk with
    | same => exact h.answered q hr hkind hdec reply d hres hd
    | step hstep =>
      cases hstep with
      | note hc hx => rcases hx with rfl | rfl <;> simp at hdec
      | paper => simp at hdec
      | commit => simp at hdec
      | commitCancel => simp at hdec
      | land hc hx ha hr => exact ha reply (Option.some.inj hres) d hd
      | unwound hc hk hx =>
        rw [show r.kind = "intent" from hkind] at hk
        exact absurd hk (by decide)
    | reopened => simp at hdec
  · simp [hb.decision] at hdec

theorem backed_step (hI : Inv w) (h : LaneInv w l) (hs : Step R w v) : ∀ r ∈ (v.lanes l).signals, Tried v l r →
    isCancelKind r.kind = true → ∀ c d, r.request = some (.cancelPendingOrder c) → r.destination = some d →
    ∃ q ∈ (v.lanes l).signals, ∃ o reply, SignalCopy.copied d q = true
      ∧ SignalCopy.scope q.payload = SignalCopy.scope r.payload ∧ q.decision = .accepted ∧ q.request = some o
      ∧ q.response = some (.ok reply) ∧ reply.orderId = some c.id ∧ o.instrument = c.instrument
      ∧ o.orderSide = c.orderSide ∧ o.type? = some c.type := by
  intro r hr ht hkind c d hreq hd
  rcases hs.row_new (hI.rowIds l) hr with ⟨r₀, hr₀, hk⟩ | ⟨_, hb⟩
  · have hh : ∃ q ∈ (w.lanes l).signals, ∃ o reply, SignalCopy.copied d q = true
        ∧ SignalCopy.scope q.payload = SignalCopy.scope r₀.payload ∧ q.decision = .accepted ∧ q.request = some o
        ∧ q.response = some (.ok reply) ∧ reply.orderId = some c.id ∧ o.instrument = c.instrument
        ∧ o.orderSide = c.orderSide ∧ o.type? = some c.type := by
      rcases tried_old hI hs hr₀ hk ht with ht | ⟨_, ⟨call, d', ho⟩ | ⟨c', d', ho, hreq', hd'⟩⟩
      · have hc := cancelTried_of hkind hreq hd
        obtain ⟨h₁, h₂, _⟩ := hk.settled (ht.decided hI hr₀)
        exact h.backed r₀ hr₀ ht (hk.kind ▸ hkind) c d (h₁ ▸ hreq) (h₂ ▸ hd)
      · rw [hk.kind, ho.kind] at hkind
        exact absurd hkind (by decide)
      · obtain rfl := Option.some.inj (hd'.symm.trans hd)
        simp only [hreq', Option.some.injEq, Call.cancelPendingOrder.injEq] at hreq
        obtain ⟨q, hq, o, reply, hcop, hsc, hacc, ho', hres, hid, _, hrest⟩ := ho.copy
        exact ⟨q, hq, o, reply, hcop, hsc, hacc, ho', hres, hreq ▸ hid, hreq ▸ hrest⟩
    obtain ⟨q, hq, o, reply, hcop, hsc, hacc, hrest⟩ := hh
    obtain ⟨p, hp, hkp⟩ := hs.row_old (hI.rowIds l) hq
    obtain rfl := hkp.accepted hacc
    exact ⟨p, hp, o, reply, hcop, hk.payload ▸ hsc, hacc, hrest⟩
  · simp [hb.request] at hreq

theorem step (hI : Inv w) (h : LaneInv w l) (hs : Step R w v) : LaneInv v l where
  copies := h.copies_step hI hs
  tried := h.tried_step hI hs
  sent := h.sent_step hI hs
  answered := h.answered_step hI hs
  backed := h.backed_step hI hs

end LaneInv

/-- The broker answers what was sent. -/
def Replied (w : World) : Prop :=
  ∀ owner reply, .answered owner reply ∈ w.trace → ∃ api call j, .sent owner api call j ∈ w.trace

theorem Replied.step (h : Replied w) (hs : Step R w v) : Replied v := by
  intro owner reply he
  have hh : ∃ api call j, .sent owner api call j ∈ w.trace := by
    rcases hs.mem_trace he with he | he
    · exact h owner reply he
    · cases he with
      | answered _ h => exact h
  obtain ⟨api, call, j, hm⟩ := hh
  exact ⟨api, call, j, hs.trace_subset hm⟩

namespace LaneOnce

/-- The accepted copy behind a cancel on record. -/
theorem copy_of (hI : Inv w) (h : LaneInv w l) (hr : Replied w) {x : SignalWrite} {api : Api} {c : CancelRequest}
    {j : Journal} (he : .sent (.signal x) api (.cancelPendingOrder c) j ∈ w.trace) (hl : x.lane = l) :
    ∃ q call reply, AcceptedCopy w l x.scope x.destination q call reply ∧ reply.orderId = some c.id
      ∧ call.instrument = c.instrument ∧ call.orderSide = c.orderSide ∧ call.type? = some c.type := by
  obtain ⟨r, hm, hsr⟩ := h.sent x api _ j he hl
  have hkind : isCancelKind r.kind = true := by
    rcases hsr.kind with ⟨_, ho⟩ | ⟨hk, _⟩
    · simp [Call.opens] at ho
    · exact hk
  obtain ⟨q, hq, o, reply, hcop, hsc, hacc, ho, hres, hid, hrest⟩ :=
    h.backed r hm (Or.inr ⟨x, api, _, j, he, hl, hsr.id.symm⟩) hkind c x.destination hsr.request hsr.destination
  have hc := hcop
  simp only [SignalCopy.copied, Bool.and_eq_true, decide_eq_true_eq] at hc
  have ha := h.answered q hq hc.1.1 hacc reply x.destination hres hc.2
  rw [hsc, hsr.scope] at ha
  obtain ⟨api', call, j', hs⟩ := hr _ _ ha
  obtain ⟨p, hp, hsp⟩ := h.sent _ api' call j' hs rfl
  obtain rfl := hI.row_eq hp hq hsp.id
  obtain rfl := Option.some.inj (hsp.request.symm.trans ho)
  refine ⟨p, call, reply, ⟨hq, hcop, hsc.trans hsr.scope, hacc, ho, ⟨api', j', hs⟩, ha, ?_⟩, hid, hrest⟩
  intro u hu hcu hsu
  exact hI.row_eq hu hq (h.copies u hu p hq _ hcu hcop (hsu.trans (hsc.trans hsr.scope).symm))

/-- The counts grow with a step only as the guards of its event allow. -/
theorem counts (h : LaneInv w l) (hs : Step R w v)
    (hd : ∀ m c, w.trace.countP (decides l m c) ≤ 1) (ho : ∀ sc d, w.trace.countP (opensScope l sc d) ≤ 1)
    (hc : ∀ sc d, w.trace.countP (cancelsScope l sc d) ≤ 1) :
    (∀ m c, v.trace.countP (decides l m c) ≤ 1) ∧ (∀ sc d, v.trace.countP (opensScope l sc d) ≤ 1)
      ∧ ∀ sc d, v.trace.countP (cancelsScope l sc d) ≤ 1 := by
  rcases hs.trace with ht | ⟨e, he, ht⟩
  · rw [ht]
    exact ⟨hd, ho, hc⟩
  rw [ht]
  refine ⟨fun m c => countP_append_le_one (hd m c) fun hp b hb => ?_,
    fun sc d => countP_append_le_one (ho sc d) fun hp b hb => ?_,
    fun sc d => countP_append_le_one (hc sc d) fun hp b hb => ?_⟩
  · cases he with
    | decided row first =>
      simp only [decides, Bool.and_eq_true, decide_eq_true_eq] at hp
      obtain ⟨⟨rfl, rfl⟩, rfl⟩ := hp
      by_contra hn
      cases b with
      | decided k m' c' =>
        simp only [decides, Bool.not_eq_false, Bool.and_eq_true, decide_eq_true_eq] at hn
        obtain ⟨⟨rfl, rfl⟩, rfl⟩ := hn
        exact first _ _ hb rfl
      | _ => simp [decides] at hn
    | _ => simp [decides] at hp
  · obtain ⟨x, api, call, j, rfl, hl, rfl, rfl, hop⟩ := opensScope_eq_true.mp hp
    by_contra hn
    obtain ⟨y, api', call', j', rfl, hl', hsc, hdd, hop'⟩ := opensScope_eq_true.mp (Bool.not_eq_false _ |>.mp hn)
    cases he with
    | signal hsend =>
      obtain ⟨q, hq, hsq, _⟩ := hsend.sentRow
      obtain ⟨r, hr, hsr⟩ := h.sent y api' call' j' hb hl'
      have hh := h.copies q (hl ▸ hq) r hr _ (hsq.copied hop) (hdd ▸ hsr.copied hop') (by rw [hsq.scope, hsr.scope, hsc])
      exact hsend.first y api' call' j' hb (hl'.trans hl.symm) (by rw [← hsr.id, ← hsq.id, hh])
  · obtain ⟨x, api, call, j, rfl, hl, rfl, rfl, hop⟩ := cancelsScope_eq_true.mp hp
    by_contra hn
    obtain ⟨y, api', call', j', rfl, hl', hsc, hdd, hop'⟩ := cancelsScope_eq_true.mp (Bool.not_eq_false _ |>.mp hn)
    cases he with
    | signal hsend =>
      obtain ⟨q, hq, hsq, hd⟩ := hsend.sentRow
      obtain ⟨r, hr, hsr⟩ := h.sent y api' call' j' hb hl'
      have hh := h.tried q (hl ▸ hq) r hr _ (Or.inl hd) (Or.inr ⟨y, api', call', j', hb, hl', hsr.id.symm⟩)
        (hsq.cancelTried hop) (hdd ▸ hsr.cancelTried hop') (by rw [hsq.scope, hsr.scope, hsc])
      exact hsend.first y api' call' j' hb (hl'.trans hl.symm) (by rw [← hsr.id, ← hsq.id, hh])

end LaneOnce

/-- What is on record in a lane and what it wrote belong together, wherever a run stands. -/
theorem Reachable.laneInv {s : Process} (hR : R.Plain) (h : Reachable R s) (l : LaneId) : LaneInv s.world l :=
  h.induct (I := fun w => LaneInv w l) hR (fun broker m => by constructor <;> simp [World.fresh])
    fun _ _ hI hs hw => hw.step hI hs

theorem Reachable.replied {s : Process} (hR : R.Plain) (h : Reachable R s) : Replied s.world :=
  h.induct (I := Replied) hR (fun broker m => by simp [World.fresh, Replied]) fun _ _ _ hs hw => hw.step hs

theorem Reachable.laneOnce {s : Process} (hR : R.Plain) (h : Reachable R s) (l : LaneId) : LaneOnce s.world l := by
  have hinv := h.laneInv hR l
  obtain ⟨_, hd, ho, hc⟩ := h.induct (I := fun w => LaneInv w l ∧ (∀ m c, w.trace.countP (decides l m c) ≤ 1)
      ∧ (∀ sc d, w.trace.countP (opensScope l sc d) ≤ 1) ∧ ∀ sc d, w.trace.countP (cancelsScope l sc d) ≤ 1)
    hR (fun broker m => by refine ⟨⟨?_, ?_, ?_, ?_, ?_⟩, ?_, ?_, ?_⟩ <;> simp [World.fresh])
    fun w v hI hs ⟨hinv, hd, ho, hc⟩ => ⟨hinv.step hI hs, LaneOnce.counts hinv hs hd ho hc⟩
  exact ⟨hd, ho, hc, fun x api c j he hl => LaneOnce.copy_of (h.sound hR).inv hinv (h.replied hR) he hl⟩

/-- Over any run, a lane decides once on a signal and writes once to open and once to cancel what a
lifecycle has at an account; a cancel names the order of the one copy that was accepted. -/
theorem lane_at_most_once {s : Process} (h : Reachable unrestricted s) (l : LaneId) : LaneOnce s.world l :=
  h.laneOnce ⟨rfl, rfl⟩ l

end Steps

attribute [local instance] sampleHost

/-- An intent and its cancel, each received twice. -/
def openedAndCancelled : List Op :=
  [.signals [sampleSignal "intent" "s1" 20], .signals [sampleSignal "cancelled" "s2" 21],
    .signals [sampleSignal "intent" "s1" 20], .signals [sampleSignal "cancelled" "s2" 21]]

theorem lane_at_most_once_cancelled :
    LaneOnce (served openedAndCancelled (started sampleMemory)) .main
      ∧ (served openedAndCancelled (started sampleMemory)).trace.countP (opensScope .main sampleScope "A") = 1
      ∧ (served openedAndCancelled (started sampleMemory)).trace.countP (cancelsScope .main sampleScope "A") = 1 :=
  ⟨lane_at_most_once (s := ⟨true, served openedAndCancelled (started sampleMemory)⟩)
    (reachable_served (reachable_started unrestricted sampleMemory) (by simp [openedAndCancelled, Op.Allowed])) .main,
    by decide +kernel, by decide +kernel⟩

end MatchTrader
