import MatchTrader.RestSends

/-! Automatic renewals stay within their budget as long as each is charged to it. Two paths log in
without a charge: the fallback of a failed refresh, and the login of a request that finds no session
token. A step that takes neither keeps the attempts made within the log of what was charged. -/

namespace MatchTrader

open Durable Relation SlidingWindow

namespace Wired

/-- A refresh or a login that nobody asked for. -/
def attempt? : Wired → Option ℚ
  | sent (.login false) t | sent (.refresh false) t => some t
  | _ => none

end Wired

def Wire.attempts (w : Wire) : List ℚ := w.trace.filterMap Wired.attempt?

namespace RestConnection

section Frames

/-- The budget and what was attempted stay as they are. -/
structure Same (w v : Wire) : Prop where
  clock : v.clock = w.clock
  times : v.conn.refreshTimes = w.conn.refreshTimes
  settings : v.conn.settings = w.conn.settings
  attempts : v.attempts = w.attempts

variable {u v w : Wire}

theorem Same.refl (w : Wire) : Same w w := ⟨rfl, rfl, rfl, rfl⟩

theorem Same.trans (h : Same w v) (h' : Same v u) : Same w u :=
  ⟨h'.clock.trans h.clock, h'.times.trans h.times, h'.settings.trans h.settings, h'.attempts.trans h.attempts⟩

/-- The charges of the log are what the connection keeps, no window of it is over the limit, and
every attempt was charged. -/
def Budgeted (w : Wire) : Prop :=
  ∃ log, Keeps renewalWindow w.clock w.conn.refreshTimes log ∧ Bounded renewalLimit renewalWindow log
    ∧ w.attempts.Sublist log

/-- The last charge has not been used. -/
def Spare (w : Wire) : Prop :=
  ∃ log, Keeps renewalWindow w.clock w.conn.refreshTimes (log ++ [w.clock])
    ∧ Bounded renewalLimit renewalWindow (log ++ [w.clock]) ∧ w.attempts.Sublist log

theorem Same.budgeted (h : Same w v) (hw : Budgeted w) : Budgeted v := by
  obtain ⟨log, hk, hb, hs⟩ := hw
  exact ⟨log, by rw [h.clock, h.times]; exact hk, hb, by rw [h.attempts]; exact hs⟩

theorem Same.spare (h : Same w v) (hw : Spare w) : Spare v := by
  obtain ⟨log, hk, hb, hs⟩ := hw
  exact ⟨log, by rw [h.clock, h.times]; exact hk, by rw [h.clock]; exact hb, by rw [h.attempts]; exact hs⟩

theorem Spare.budgeted (h : Spare w) : Budgeted w := by
  obtain ⟨log, hk, hb, hs⟩ := h
  exact ⟨log ++ [w.clock], hk, hb, hs.trans (List.sublist_append_left _ _)⟩

theorem Spare.attempt (h : Spare w) {e : Wired} (he : e.attempt? = some w.clock) :
    Budgeted { w with trace := w.trace ++ [e] } := by
  obtain ⟨log, hk, hb, hs⟩ := h
  refine ⟨log ++ [w.clock], hk, hb, ?_⟩
  have hattempts : Wire.attempts { w with trace := w.trace ++ [e] } = w.attempts ++ [w.clock] := by
    simp [Wire.attempts, he]
  rw [hattempts]
  exact hs.append (List.Sublist.refl _)

theorem same_mark {e : Wired} (he : e.attempt? = none) (w : Wire) : Same w { w with trace := w.trace ++ [e] } :=
  ⟨rfl, rfl, rfl, by simp [Wire.attempts, he]⟩

end Frames

section Steps

variable [Host] [AlnumHost] {A : (q : RestQuery) → RestReply q → Prop}

abbrev Still {α : Type} (p : RestAct α) : Prop := p.Steps Same

omit [Host] [AlnumHost] in
theorem Still.wp {α : Type} {p : RestAct α} (h : Still p) (w : Wire) :
    p.wp A Free (fun _ v => Same w v) (fun _ v => Same w v) w :=
  Prog.wp_mono (Prog.Steps.wp h Same.refl fun _ _ _ => Same.trans) (fun _ _ => id) (fun _ _ _ => trivial)
    (fun _ _ => id) fun _ _ => id

omit [Host] [AlnumHost] in
theorem still_raiseIf (c : Prop) [Decidable c] (e : Exc) : Still (raiseIf c e : RestAct Unit) := by
  unfold raiseIf
  split
  · exact Prog.steps_throw e
  · exact Prog.steps_pure ()

omit [Host] [AlnumHost] in
theorem still_ensureOpen : Still ensureOpen := (Prog.steps_reads _).bind fun _ => still_raiseIf _ _

omit [Host] [AlnumHost] in
theorem still_send {p : Purpose} (hp : ∀ at_, (Wired.sent p at_).attempt? = none) (r : HttpRequest) : Still (send p r) := by
  refine still_ensureOpen.bind fun _ => (Prog.steps_reads _).bind fun c => (Prog.steps_ofExcept _).bind fun _ => ?_
  refine (Prog.steps_reads _).bind fun now => (Prog.steps_commit (same_mark (hp now))).bind fun _ => ?_
  exact (Prog.steps_query (RestQuery.http _)).bind fun _ => Prog.steps_ofExcept _

omit [Host] [AlnumHost] in
theorem still_set {f : RestConnection → RestConnection} (ht : ∀ c, (f c).refreshTimes = c.refreshTimes)
    (hs : ∀ c, (f c).settings = c.settings) : Still (set f) :=
  Prog.steps_commit fun w => ⟨rfl, ht w.conn, hs w.conn, rfl⟩

theorem still_adopt (data : Json) (identity : String) : Still (adopt data identity) := by
  refine (Prog.steps_reads _).bind fun c => (Prog.steps_ofExcept _).bind fun choice => ?_
  obtain ⟨a, system⟩ := choice
  refine Prog.Steps.bind (still_set ?_ ?_) fun _ => (Prog.steps_ofExcept _).bind fun token =>
    Prog.Steps.bind (still_set ?_ ?_) fun _ => ?_
  · exact fun _ => rfl
  · exact fun _ => rfl
  · exact fun _ => rfl
  · exact fun _ => rfl
  · split
    · exact Prog.steps_throw _
    · exact (Prog.steps_reads _).bind fun _ => still_set (fun _ => rfl) fun _ => rfl

omit [Host] [AlnumHost] in
theorem still_credentials (settings : RestSettings) : Still (credentials settings) := by
  refine (still_raiseIf _ _).bind fun _ => Prog.Steps.bind ?_ fun _ => Prog.steps_pure _
  simp only [brokerOf]
  split
  · exact Prog.steps_pure _
  · exact (still_send (fun _ => rfl) _).bind fun _ => (still_raiseIf _ _).bind fun _ => Prog.steps_pure _

end Steps

section Conditions

/-- A failed refresh of this session is followed by a login. -/
def fallsBack (c : RestConnection) : Bool := c.settings.sessionRenewal = .refresh && c.ownCredentials

/-- The budget has room for one more attempt. -/
def Room (w : Wire) : Prop := (prune renewalWindow w.clock w.conn.refreshTimes).length < renewalLimit

/-- The refresh goes through, or fails in a way that nothing falls back from. -/
def Refreshed [Host] [AlnumHost] (c : RestConnection) (o : HttpOutcome) : Prop :=
  (∀ e, readResponse refreshRequest c.system o = .error e → e.isRejection = false)
    ∧ ∀ data, readResponse refreshRequest c.system o = .ok data → (data.getOr "token" .null).truthy = true →
      (names.any fun n => (data.get? n).isSome) = true → ∀ e, choose c.settings data = .error e → e.isRejection = false

def Unauthorised (c : RestConnection) (r : HttpRequest) (o : HttpOutcome) : Prop :=
  ∃ e, readResponse r c.system o = .error e ∧ e.name = "AuthenticationError"

/-- The platform tells the broker's identifier. -/
def Identified (c : RestConnection) (o : HttpOutcome) : Prop :=
  ∃ data, readResponse platformRequest c.system o = .ok data ∧ (data.getOr "partnerId" .null).truthy = true

end Conditions

section Charged

variable [Host] [AlnumHost] {A : (q : RestQuery) → RestReply q → Prop} {w : Wire}

omit [Host] [AlnumHost] in
theorem Still.budgeted {α : Type} {p : RestAct α} (h : Still p) (hw : Budgeted w) :
    p.wp A Free (fun _ v => Budgeted v) (fun _ v => Budgeted v) w :=
  Prog.wp_consequence (h.wp w) (fun _ _ hs => hs.budgeted hw) fun _ _ hs => hs.budgeted hw

omit [Host] [AlnumHost] in
theorem send_attempt {p : Purpose} {r : HttpRequest} (hp : ∀ at_, (Wired.sent p at_).attempt? = some at_) (hw : Spare w) :
    (send p r).wp A Free (fun _ v => Budgeted v) (fun _ v => Budgeted v) w := by
  simp only [send, Prog.wp_bind]
  refine Prog.wp_consequence (still_ensureOpen.wp w) (fun _ v hv => ?_) fun _ _ hv => (hv.spare hw).budgeted
  have hs := hv.spare hw
  refine (Prog.wp_ofExcept _).mpr ⟨fun _ _ => ?_, fun _ _ => hs.budgeted⟩
  have hb : Budgeted { v with trace := v.trace ++ [.sent p v.clock] } := hs.attempt (hp v.clock)
  exact ⟨trivial, fun o _ => (Prog.wp_ofExcept _).mpr ⟨fun _ _ => hb, fun _ _ => hb⟩⟩

theorem login_wp (hw : Spare w) : (login false).wp A Free (fun _ v => Budgeted v) (fun _ v => Budgeted v) w := by
  simp only [login, Prog.wp_bind]
  change Prog.wp A Free (credentials w.conn.settings) _ _ w
  refine Prog.wp_consequence ((still_credentials w.conn.settings).wp w) (fun body v hv => ?_)
    fun _ _ hv => (hv.spare hw).budgeted
  refine Prog.wp_consequence ((still_raiseIf _ _).wp v) (fun _ u hu => ?_) fun _ _ hu => (hu.spare (hv.spare hw)).budgeted
  refine Prog.wp_consequence (send_attempt (fun _ => rfl) (hu.spare (hv.spare hw))) (fun data x hx => ?_) fun _ _ hx => hx
  have hrest : Still (do
      set fun c => { c with sessionToken := .str "", tradingToken := .str "", accountToken := .str "" }
      adopt data (((body.get? "email").bind Json.text?).getD w.conn.settings.email)
      return data) :=
    Prog.Steps.bind (still_set (fun _ => rfl) fun _ => rfl) fun _ => (still_adopt _ _).bind fun _ => Prog.steps_pure _
  exact hrest.budgeted hx

omit [Host] [AlnumHost] in
/-- A charge is made where there is room, and nothing else of the session changes. -/
theorem reserve_wp (hw : Budgeted w) : reserveRenewal.wp A Free
    (fun _ v => Spare v ∧ v.conn = { w.conn with refreshTimes := v.conn.refreshTimes })
    (fun _ v => Budgeted v ∧ v.conn = { w.conn with refreshTimes := v.conn.refreshTimes } ∧ ¬ Room w) w := by
  obtain ⟨log, hk, hb, hs⟩ := hw
  have hpruned : Keeps renewalWindow w.clock (prune renewalWindow w.clock w.conn.refreshTimes) log := hk.prune
  simp only [reserveRenewal, Prog.wp_bind]
  refine ⟨trivial, ?_⟩
  change Prog.wp _ _ (raiseIf (renewalLimit ≤ (prune renewalWindow w.clock w.conn.refreshTimes).length) _) _ _ _
  unfold raiseIf
  split
  · next hfull => exact ⟨⟨log, hpruned, hb, hs⟩, rfl, not_lt.mpr hfull⟩
  · next hroom => exact ⟨trivial, ⟨log, hpruned.grant, hb.grant hpruned (not_le.mp hroom), hs⟩, rfl⟩

omit [Host] [AlnumHost] in
theorem accountTokenOf_error {a : Json} {e : Exc} (h : accountTokenOf a = .error e) : e.isRejection = false := by
  unfold accountTokenOf raiseIf at h
  simp only [] at h
  split at h
  · obtain rfl := Except.error.inj h
    rfl
  · cases h

/-- What a refresh adopts keeps the identity of the session, and fails as a login's response would. -/
theorem adopt_wp (data : Json) : (adopt data w.conn.identity).wp A Free
    (fun _ v => Same w v ∧ v.conn.identity = w.conn.identity)
    (fun e v => (Same w v ∧ v.conn.identity = w.conn.identity)
      ∧ (e.isRejection = true → choose w.conn.settings data = .error e)) w := by
  simp only [adopt, Prog.wp_bind]
  refine (Prog.wp_ofExcept _).mpr ⟨fun choice _ => ?_, fun e he => ⟨⟨Same.refl w, rfl⟩, fun _ => he⟩⟩
  obtain ⟨a, system⟩ := choice
  refine ⟨trivial, (Prog.wp_ofExcept _).mpr ⟨fun token _ => ⟨trivial, ?_⟩, fun e he => ⟨⟨⟨rfl, rfl, rfl, rfl⟩, rfl⟩, fun hr => ?_⟩⟩⟩
  · split
    · exact ⟨⟨⟨rfl, rfl, rfl, rfl⟩, rfl⟩, fun hr => by cases hr⟩
    · exact ⟨trivial, ⟨rfl, rfl, rfl, rfl⟩, rfl⟩
  · rw [accountTokenOf_error he] at hr
    cases hr

omit [Host] [AlnumHost] in
theorem send_refresh {explicit : Bool} (hw : Spare w) : (send (.refresh explicit) refreshRequest).wp A Free
    (fun data v => (Budgeted v ∧ v.conn = w.conn)
      ∧ ∃ o, A (.http refreshRequest) o ∧ readResponse refreshRequest w.conn.system o = .ok data)
    (fun e v => (Budgeted v ∧ v.conn = w.conn) ∧ (e.isRejection = true →
      ∃ o, A (.http refreshRequest) o ∧ readResponse refreshRequest w.conn.system o = .error e)) w := by
  have hscope : refreshRequest.scope ≠ .trading := by decide
  have hsent : Budgeted { w with trace := w.trace ++ [.sent (.refresh explicit) w.clock] } := by
    cases explicit with
    | true => exact (same_mark rfl w).budgeted hw.budgeted
    | false => exact hw.attempt rfl
  simp only [send, if_neg hscope, Prog.wp_bind]
  change Prog.wp A Free (raiseIf (w.conn.closed = true) (Exc.named "ConnectionClosedError" "Connection is closed")) _ _ w
  unfold raiseIf
  split
  · exact ⟨⟨hw.budgeted, rfl⟩, fun he => absurd he (by decide)⟩
  · refine ⟨trivial, fun o ho => (Prog.wp_ofExcept _).mpr ⟨fun data hd => ?_, fun e he => ?_⟩⟩
    · exact ⟨⟨hsent, rfl⟩, o, ho, hd⟩
    · exact ⟨⟨hsent, rfl⟩, fun _ => ⟨o, ho, he⟩⟩

theorem adoptRefresh_wp (data : Json) : (adoptRefresh data).wp A Free
    (fun _ v => Same w v ∧ v.conn.identity = w.conn.identity)
    (fun e v => (Same w v ∧ v.conn.identity = w.conn.identity) ∧ (e.isRejection = true →
      (data.getOr "token" .null).truthy = true ∧ (names.any fun n => (data.get? n).isSome) = true
        ∧ choose w.conn.settings data = .error e)) w := by
  simp only [adoptRefresh, Prog.wp_bind]
  change Prog.wp A Free (if _ then _ else _) _ _ w
  split
  · next htoken =>
    split
    · next hnames =>
      exact Prog.wp_consequence (adopt_wp data) (fun _ _ hv => hv) fun _ _ hv => ⟨hv.1, fun hr => ⟨htoken, hnames, hv.2 hr⟩⟩
    · exact ⟨trivial, ⟨rfl, rfl, rfl, rfl⟩, rfl⟩
  · intro value _
    cases value with
    | none => exact ⟨Same.refl w, rfl⟩
    | some value => exact ⟨trivial, ⟨rfl, rfl, rfl, rfl⟩, rfl⟩

/-- A refresh stays within the budget, and where it has room and is let through nothing falls back from it. -/
theorem refresh_wp {explicit : Bool} (hw : Budgeted w) : (refresh explicit).wp A Free (fun _ v => Budgeted v)
    (fun e v => Budgeted v ∧ v.conn.ownCredentials = w.conn.ownCredentials
      ∧ ((∀ o, A (.http refreshRequest) o → Refreshed w.conn o) → w.conn.sessionToken.truthy = true → Room w →
        e.isRejection = false)) w := by
  simp only [refresh, Prog.wp_bind]
  change Prog.wp A Free (raiseIf (¬ w.conn.sessionToken.truthy = true) _) _ _ w
  unfold raiseIf
  split
  · next htoken => exact ⟨hw, rfl, fun _ ht => absurd ht htoken⟩
  · rw [Prog.wp_pure]
    refine Prog.wp_consequence (reserve_wp hw) (fun _ v hv => ?_) fun e v hv => ?_
    · obtain ⟨hspare, hconn⟩ := hv
      have hown : v.conn.ownCredentials = w.conn.ownCredentials := by
        rw [hconn]
        rfl
      have hsettings : v.conn.settings = w.conn.settings := by rw [hconn]
      have hsystem : v.conn.system = w.conn.system := by rw [hconn]
      have keep : ∀ u, Budgeted u → u.conn.settings = v.conn.settings → u.conn.identity = v.conn.identity →
          Budgeted { u with conn := { u.conn with expires := 0 } }
            ∧ ({ u.conn with expires := 0 } : RestConnection).ownCredentials = w.conn.ownCredentials := by
        intro u hu hs hi
        refine ⟨Same.budgeted ⟨rfl, rfl, rfl, rfl⟩ hu, ?_⟩
        rw [← hown]
        simp only [ownCredentials, hs, hi]
      simp only [expiring, Prog.wp_tryCatch, Prog.wp_bind]
      refine Prog.wp_consequence (send_refresh hspare) (fun data u hu => ?_) fun e u hu => ?_
      · obtain ⟨⟨hb, hc⟩, o, ho, hread⟩ := hu
        refine Prog.wp_consequence (adoptRefresh_wp data) (fun _ x hx => ?_) fun e x hx => ?_
        · exact ⟨trivial, Same.budgeted ⟨rfl, rfl, rfl, rfl⟩ (hx.1.budgeted hb)⟩
        · obtain ⟨⟨hsame, hid⟩, hrej⟩ := hx
          obtain ⟨hbudget, hcred⟩ := keep x (hsame.budgeted hb) (hsame.settings.trans (by rw [hc])) (hid.trans (by rw [hc]))
          refine ⟨trivial, hbudget, hcred, fun hA _ _ => ?_⟩
          by_contra hr
          obtain ⟨htoken, hnames, hchoose⟩ := hrej (by simpa using hr)
          rw [hsystem] at hread
          rw [hc, hsettings] at hchoose
          exact hr ((hA o ho).2 data hread htoken hnames e hchoose)
      · obtain ⟨⟨hb, hc⟩, hrej⟩ := hu
        obtain ⟨hbudget, hcred⟩ := keep u hb (by rw [hc]) (by rw [hc])
        refine ⟨trivial, hbudget, hcred, fun hA _ _ => ?_⟩
        by_contra hr
        obtain ⟨o, ho, hread⟩ := hrej (by simpa using hr)
        rw [hsystem] at hread
        exact hr ((hA o ho).1 e hread)
    · obtain ⟨hb, hconn, hfull⟩ := hv
      refine ⟨hb, ?_, fun _ _ hroom => absurd hroom hfull⟩
      rw [hconn]
      rfl

/-- A renewal is charged, unless it falls back from a failed refresh. -/
theorem renew_wp (hw : Budgeted w) (htoken : w.conn.sessionToken.truthy = true) (hroom : fallsBack w.conn = true → Room w)
    (hA : fallsBack w.conn = true → ∀ o, A (.http refreshRequest) o → Refreshed w.conn o) :
    renew.wp A Free (fun _ v => Budgeted v) (fun _ v => Budgeted v) w := by
  simp only [renew, Prog.wp_bind]
  refine ⟨trivial, ?_⟩
  have hb : Budgeted { w with trace := w.trace ++ [.renewal] } := (same_mark rfl w).budgeted hw
  change Prog.wp A Free (if w.conn.settings.sessionRenewal = .refresh then _ else _) _ _ _
  split
  · next hmode =>
    rw [Prog.wp_tryCatch]
    refine Prog.wp_consequence (refresh_wp hb) (fun _ _ hv => hv) fun e v hv => ?_
    obtain ⟨hv, hown, hrej⟩ := hv
    simp only [Prog.wp_bind]
    change Prog.wp A Free (if (e.isRejection && v.conn.ownCredentials) = true then _ else _) _ _ v
    split
    · next hfall =>
      rw [Bool.and_eq_true, hown] at hfall
      have hf : fallsBack w.conn = true := by
        rw [fallsBack, Bool.and_eq_true]
        exact ⟨decide_eq_true hmode, hfall.2⟩
      have hquiet := hrej (hA hf) htoken (hroom hf)
      rw [hfall.1] at hquiet
      cases hquiet
    · exact hv
  · rw [Prog.wp_bind]
    refine Prog.wp_consequence ((still_raiseIf _ _).wp _) (fun _ v hv => ?_) fun _ _ hv => hv.budgeted hb
    rw [Prog.wp_bind]
    refine Prog.wp_consequence ((still_raiseIf _ _).wp _) (fun _ u hu => ?_) fun _ _ hu => hu.budgeted (hv.budgeted hb)
    rw [Prog.wp_bind]
    refine Prog.wp_consequence (reserve_wp (hu.budgeted (hv.budgeted hb))) (fun _ x hx => ?_) fun _ _ hx => hx.1
    rw [expiring, Prog.wp_tryCatch]
    refine Prog.wp_consequence (login_wp hx.1) (fun _ _ hy => hy) fun _ y hy => ?_
    exact ⟨trivial, Same.budgeted ⟨rfl, rfl, rfl, rfl⟩ hy⟩

omit [Host] [AlnumHost] in
/-- Without credentials there is no login to send. -/
theorem credentials_unsent (h : w.conn.settings.email = "" ∨ w.conn.settings.password = ""
      ∨ (w.conn.settings.brokerId = "" ∧ ∀ o, A (.http platformRequest) o → ¬ Identified w.conn o)) :
    (credentials w.conn.settings).wp A Free (fun _ _ => False) (fun _ v => Same w v) w := by
  simp only [credentials, Prog.wp_bind]
  unfold raiseIf
  split
  · exact Same.refl w
  · next hset =>
    obtain ⟨hbroker, hA⟩ := (h.resolve_left fun he => hset (Or.inl he)).resolve_left fun hp => hset (Or.inr hp)
    have hscope : platformRequest.scope ≠ .trading := by decide
    rw [Prog.wp_pure, brokerOf, if_neg (not_not.mpr hbroker)]
    simp only [send, if_neg hscope, Prog.wp_bind]
    refine ensureOpen_quiet.wp (fun _ => ?_) fun _ => Same.refl w
    have hsame : Same w { w with trace := w.trace ++ [.sent .platform w.clock] } := same_mark rfl w
    refine ⟨trivial, fun o ho => (Prog.wp_ofExcept _).mpr ⟨fun data hread => ?_, fun _ _ => hsame⟩⟩
    have hunknown : ¬ (data.getOr "partnerId" .null).truthy = true := fun hp => hA o ho ⟨data, hread, hp⟩
    unfold raiseIf
    rw [if_pos hunknown]
    exact hsame

/-- Where there is no session, a login that cannot be sent ends the request. -/
theorem login_unsent (h : w.conn.settings.email = "" ∨ w.conn.settings.password = ""
      ∨ (w.conn.settings.brokerId = "" ∧ ∀ o, A (.http platformRequest) o → ¬ Identified w.conn o)) :
    (login false).wp A Free (fun _ _ => False) (fun _ v => Same w v) w := by
  simp only [login, Prog.wp_bind]
  change Prog.wp A Free (credentials w.conn.settings) _ _ w
  exact Prog.wp_consequence (credentials_unsent h) (fun _ _ hf => hf.elim) fun _ _ hv => hv

omit [Host] [AlnumHost] in
/-- Why the caller's own request ends in a rejection of the session. -/
theorem send_own (r : HttpRequest) : (send .own r).wp A Free (fun _ v => Same w v ∧ v.conn = w.conn)
    (fun e v => (Same w v ∧ v.conn = w.conn) ∧ (e.name = "AuthenticationError" → r.scope = .trading →
      selected w.conn = .error e ∨ ∃ q o, q.scope = .trading ∧ A (.http q) o
        ∧ readResponse q w.conn.system o = .error e)) w := by
  have hsent : Same w { w with trace := w.trace ++ [.sent .own w.clock] } := same_mark rfl w
  simp only [send, Prog.wp_bind]
  change Prog.wp A Free (raiseIf (w.conn.closed = true) (Exc.named "ConnectionClosedError" "Connection is closed")) _ _ w
  unfold raiseIf
  split
  · exact ⟨⟨Same.refl w, rfl⟩, fun he => absurd he (by decide)⟩
  · refine (Prog.wp_ofExcept _).mpr ⟨fun _ _ => ?_, fun e he => ⟨⟨Same.refl w, rfl⟩, fun _ hr => Or.inl ?_⟩⟩
    · refine ⟨trivial, fun o ho => (Prog.wp_ofExcept _).mpr ⟨fun _ _ => ⟨hsent, rfl⟩, fun e he => ⟨⟨hsent, rfl⟩, fun _ hr => ?_⟩⟩⟩
      exact Or.inr ⟨_, o, by rw [if_pos hr]; exact hr, ho, he⟩
    · rw [if_pos hr] at he
      simpa [hr] using he

end Charged

end RestConnection

open RestConnection

section Runs

variable [Host] [AlnumHost]

/-- What a connection is asked to do. -/
inductive RestOp where
  | request (r : RestCall)
  | renewIfDue (marginSeconds : ℚ)
  | discoverAccounts
  | adoptLogin (data : Json)
  | shutdown

def RestOp.run : RestOp → RestAct Unit
  | request r => discard (RestConnection.request r)
  | renewIfDue margin => discard (RestConnection.renewIfDue margin)
  | discoverAccounts => discard RestConnection.discoverAccounts
  | adoptLogin data => RestConnection.adoptLogin data
  | shutdown => RestConnection.shutdown

abbrev RestAnswers := Nat → (q : RestQuery) → RestReply q

/-- The request goes to the trading interface, past the gates. -/
def Trades (r : RestCall) (c : RestConnection) : Prop :=
  r.action = none ∧ r.request.scope = .trading ∧ c.closed = false
    ∧ (r.request.write = true → c.settings.enableWrites = true)

namespace RestOp

/-- Beforehand: a trading request finds a session token, or no login could be sent without one; and
a renewal that may fall back from a refresh has room in the budget where it is due. -/
def Ready (op : RestOp) (w : Wire) : Prop :=
  match op with
  | request r => Trades r w.conn →
    (w.conn.sessionToken.truthy = true ∨ w.conn.settings.email = "" ∨ w.conn.settings.password = ""
        ∨ w.conn.settings.brokerId = "")
      ∧ (fallsBack w.conn = true → w.conn.sessionToken.truthy = true →
        w.conn.expires ≤ w.clock
          ∨ (r.safeRead = true ∧ ∃ e, selected w.conn = .error e ∧ e.name = "AuthenticationError") → Room w)
  | _ => True

/-- The answers that keep a step to what is charged: a refresh goes through, a renewal comes due
only where there is room, and the platform tells nothing to a request without a session. -/
def Spares (op : RestOp) (w : Wire) : (q : RestQuery) → RestReply q → Prop :=
  match op with
  | request r => fun
    | .http q, o => Trades r w.conn →
      (q = refreshRequest → fallsBack w.conn = true → Refreshed w.conn o)
        ∧ (q = platformRequest → w.conn.sessionToken.truthy = false → ¬ Identified w.conn o)
        ∧ (q.scope = .trading → r.safeRead = true → fallsBack w.conn = true → w.conn.sessionToken.truthy = true →
          w.clock < w.conn.expires → Unauthorised w.conn q o → Room w)
    | _, _ => True
  | renewIfDue margin => fun
    | .http q, o => q = refreshRequest → fallsBack w.conn = true → Refreshed w.conn o
    | .remaining _, left => fallsBack w.conn = true → w.conn.due w.clock margin left = true → Room w
    | _, _ => True
  | _ => fun _ _ => True

/-- A step that takes no login but what is asked for or charged. -/
def Charged (op : RestOp) (w : Wire) (env : RestAnswers) : Prop := op.Ready w ∧ ∀ i q, op.Spares w q (env i q)

end RestOp

/-- The same, of steps that take no login but what is asked for or charged. -/
inductive ChargedMove : Wire → Wire → Prop
  | serve {w : Wire} (op : RestOp) (env : RestAnswers) (h : op.Charged w env) : ChargedMove w (op.run.eval env w).1
  | advance {w : Wire} (d : ℚ) (h : 0 ≤ d) : ChargedMove w { w with clock := w.clock + d }

section Steps

variable {w v : Wire} {r : RestCall}

theorem still_login (body : Option Json) (oneTime discoverOnly : Bool) : Still (login true body oneTime discoverOnly) := by
  refine (Prog.steps_reads _).bind fun c => Prog.Steps.bind ?_ fun body => ?_
  · cases body with
    | none => exact still_credentials c.settings
    | some body => exact Prog.steps_pure body
  · refine (still_raiseIf _ _).bind fun _ => (still_send (fun _ => rfl) _).bind fun data => ?_
    split
    · exact Prog.steps_pure data
    · exact Prog.Steps.bind (still_set (fun _ => rfl) fun _ => rfl) fun _ => (still_adopt _ _).bind fun _ => Prog.steps_pure _

/-- Beforehand a request renews its session within the budget, or leaves all as it was. -/
theorem prepare_budgeted (hw : Budgeted w) (ht : Trades r w.conn) (hready : (RestOp.request r).Ready w) :
    prepare.wp ((RestOp.request r).Spares w) Free
      (fun refreshed v => Budgeted v ∧ (refreshed = false → v = w ∧ w.conn.sessionToken.truthy = true ∧ w.clock < w.conn.expires))
      (fun _ v => Budgeted v) w := by
  obtain ⟨htoken, hroom⟩ := hready ht
  simp only [prepare, Prog.wp_bind]
  change Prog.wp _ Free (if ¬ w.conn.sessionToken.truthy = true then _ else _) _ _ w
  split
  · next hnone =>
    have hfalse : w.conn.sessionToken.truthy = false := by simpa using hnone
    have hunsent : w.conn.settings.email = "" ∨ w.conn.settings.password = "" ∨ (w.conn.settings.brokerId = ""
        ∧ ∀ o, (RestOp.request r).Spares w (.http platformRequest) o → ¬ Identified w.conn o) := by
      rcases htoken.resolve_left hnone with he | hp | hb
      · exact Or.inl he
      · exact Or.inr (Or.inl hp)
      · exact Or.inr (Or.inr ⟨hb, fun o ho => (ho ht).2.1 rfl hfalse⟩)
    rw [Prog.wp_bind, Prog.wp_discard]
    exact Prog.wp_consequence (login_unsent hunsent) (fun _ _ hf => hf.elim) fun _ _ hv => hv.budgeted hw
  · next htruthy =>
    have htruthy : w.conn.sessionToken.truthy = true := not_not.mp htruthy
    split
    · next hexpired =>
      rw [Prog.wp_bind, Prog.wp_discard]
      refine Prog.wp_consequence (renew_wp hw htruthy (fun hf => hroom hf htruthy (Or.inl hexpired)) fun hf o ho =>
        (ho ht).1 rfl hf) (fun _ v hv => ⟨hv, fun he => by cases he⟩) fun _ _ hv => hv
    · next hvalid => exact ⟨hw, fun _ => ⟨rfl, htruthy, not_le.mp hvalid⟩⟩

/-- After a renewal a rejected request is not sent again, nor is one to the manager. -/
theorem exchange_once {refreshed : Bool} (hw : Budgeted w) (h : r.request.scope ≠ .trading ∨ refreshed = true)
    {A : (q : RestQuery) → RestReply q → Prop} :
    (exchange r refreshed).wp A Free (fun _ v => Budgeted v) (fun _ v => Budgeted v) w := by
  rw [exchange, Prog.wp_tryCatch]
  refine Prog.wp_consequence ((still_send (fun _ => rfl) _).budgeted hw) (fun _ _ hv => hv) fun e v hv => ?_
  have hstop : e.name ≠ "AuthenticationError" ∨ r.request.scope ≠ .trading ∨ (!r.safeRead) = true ∨ refreshed = true := by
    rcases h with hs | hr
    · exact Or.inr (Or.inl hs)
    · exact Or.inr (Or.inr (Or.inr hr))
  rw [if_pos hstop]
  exact hv

theorem exchange_budgeted (hw : Budgeted w) (ht : Trades r w.conn) (hready : (RestOp.request r).Ready w)
    (htoken : w.conn.sessionToken.truthy = true) (hvalid : w.clock < w.conn.expires) :
    (exchange r false).wp ((RestOp.request r).Spares w) Free (fun _ v => Budgeted v) (fun _ v => Budgeted v) w := by
  obtain ⟨-, hroom⟩ := hready ht
  rw [exchange, Prog.wp_tryCatch]
  refine Prog.wp_consequence (send_own r.request) (fun _ _ hv => hv.1.budgeted hw) fun e v hv => ?_
  obtain ⟨⟨hsame, hconn⟩, hwhy⟩ := hv
  have hb := hsame.budgeted hw
  by_cases hstop : e.name ≠ "AuthenticationError" ∨ r.request.scope ≠ .trading ∨ (!r.safeRead) = true ∨ false = true
  · rw [if_pos hstop]
    exact hb
  · rw [if_neg hstop]
    simp only [not_or, not_not, Bool.not_eq_true', Bool.not_eq_false] at hstop
    obtain ⟨hname, hscope, hsafe, -⟩ := hstop
    have hspace : fallsBack v.conn = true → Room v := by
      intro hf
      rw [hconn] at hf
      have hwroom : Room w := by
        rcases hwhy hname hscope with hsel | ⟨q, o, hq, ho, hread⟩
        · exact hroom hf htoken (Or.inr ⟨hsafe, e, hsel, hname⟩)
        · exact (ho ht).2.2 hq hsafe hf htoken hvalid ⟨e, hread, hname⟩
      rw [Room, hsame.clock, hsame.times]
      exact hwroom
    rw [Prog.wp_bind, Prog.wp_discard]
    refine Prog.wp_consequence (renew_wp hb (by rw [hconn]; exact htoken) hspace fun hf o ho => ?_)
      (fun _ u hu => (still_send (fun _ => rfl) _).budgeted hu) fun _ _ hu => hu
    rw [hconn] at hf ⊢
    exact (ho ht).1 rfl hf

theorem serve_budgeted (hw : Budgeted w) (ht : r.action = none → r.request.scope = .trading → Trades r w.conn)
    (hready : (RestOp.request r).Ready w) :
    (serve r).wp ((RestOp.request r).Spares w) Free (fun _ v => Budgeted v) (fun _ v => Budgeted v) w := by
  unfold serve
  cases ha : r.action with
  | some action =>
    cases action with
    | login => exact (still_login _ false false).budgeted hw
    | oneTimeLogin => exact (still_login _ true false).budgeted hw
    | refresh => exact Prog.wp_consequence (refresh_wp hw) (fun _ _ hv => hv) fun _ _ hv => hv.1
  | none =>
    simp only [Prog.wp_bind, prepared]
    split
    · next hscope =>
      have htrades := ht ha hscope
      refine Prog.wp_consequence (prepare_budgeted hw htrades hready) (fun refreshed v hv => ?_) fun _ _ hv => hv
      cases refreshed with
      | true => exact exchange_once hv.1 (Or.inr rfl)
      | false =>
        obtain ⟨rfl, htoken, hvalid⟩ := hv.2 rfl
        exact exchange_budgeted hw htrades hready htoken hvalid
    · next hscope => exact exchange_once hw (Or.inl hscope)

theorem request_budgeted (hw : Budgeted w) (hready : (RestOp.request r).Ready w) :
    (request r).wp ((RestOp.request r).Spares w) Free (fun _ v => Budgeted v) (fun _ v => Budgeted v) w := by
  simp only [request, Prog.wp_bind]
  change Prog.wp _ Free (raiseIf (w.conn.closed = true) _) _ _ w
  unfold raiseIf
  split
  · exact hw
  · next hopen =>
    change Prog.wp _ Free (if r.request.write = true ∧ ¬ w.conn.settings.enableWrites = true then _ else _) _ _ w
    split
    · exact hw
    · next hgate =>
      refine serve_budgeted hw (fun ha hs => ⟨ha, hs, by simpa using hopen, fun hwrite => ?_⟩) hready
      by_contra hoff
      exact hgate ⟨hwrite, hoff⟩

theorem renewIfDue_budgeted {margin : ℚ} (hw : Budgeted w) :
    (renewIfDue margin).wp ((RestOp.renewIfDue margin).Spares w) Free (fun _ v => Budgeted v) (fun _ v => Budgeted v) w := by
  simp only [renewIfDue, renewalDue, Prog.wp_bind]
  change Prog.wp _ Free (if w.conn.closed = true ∨ ¬ w.conn.sessionToken.truthy = true then _ else _) _ _ w
  split
  · exact hw
  · next hopen =>
    intro left hleft
    change Prog.wp _ Free (if (!w.conn.due w.clock margin left) = true then _ else _) _ _ w
    split
    · exact hw
    · next hdue =>
      have hdue : w.conn.due w.clock margin left = true := by simpa using hdue
      rw [Prog.wp_bind, Prog.wp_discard]
      exact Prog.wp_consequence (renew_wp hw (not_not.mp fun hn => hopen (Or.inr hn)) (fun hf => hleft hf hdue)
        fun hf o ho => ho rfl hf) (fun _ _ hv => hv) fun _ _ hv => hv

theorem RestOp.budgeted (op : RestOp) (hw : Budgeted w) (hready : op.Ready w) :
    op.run.wp (op.Spares w) Free (fun _ v => Budgeted v) (fun _ v => Budgeted v) w := by
  cases op with
  | request r =>
    rw [RestOp.run, Prog.wp_discard]
    exact request_budgeted hw hready
  | renewIfDue margin =>
    rw [RestOp.run, Prog.wp_discard]
    exact renewIfDue_budgeted hw
  | discoverAccounts =>
    have hstill : Still RestConnection.discoverAccounts := still_ensureOpen.bind fun _ => (Prog.steps_reads _).bind fun _ =>
      (still_raiseIf _ _).bind fun _ => still_login none false true
    rw [RestOp.run, Prog.wp_discard]
    exact hstill.budgeted hw
  | adoptLogin data =>
    have hstill : Still (RestConnection.adoptLogin data) := still_ensureOpen.bind fun _ =>
      (Prog.steps_reads Wire.conn).bind fun c => (still_raiseIf _ _).bind fun _ => still_adopt data c.settings.email
    exact hstill.budgeted hw
  | shutdown =>
    have hstill : Still RestConnection.shutdown := still_set (fun _ => rfl) fun _ => rfl
    exact hstill.budgeted hw

theorem ChargedMove.budgeted (h : ChargedMove w v) (hw : Budgeted w) : Budgeted v := by
  cases h with
  | serve op env hc =>
    obtain ⟨-, hok, herror⟩ := Prog.wp_eval (op.budgeted hw hc.1) env hc.2
    cases hresult : (op.run.eval env w).2 with
    | ok a => exact hok a hresult
    | error e => exact herror e hresult
  | advance d hd =>
    obtain ⟨log, hk, hb, hs⟩ := hw
    exact ⟨log, hk.later (le_add_of_nonneg_right hd), hb, hs⟩

end Steps

end Runs

section Sample

attribute [local instance] sampleHost sampleAlnumHost

end Sample

end MatchTrader
