import MatchTrader.ProfileSessions

/-! Every call on a profile or on the capture session, however it ends, keeps what holds of the sessions, and
leaves the other holders alone. -/

namespace MatchTrader

open Durable ProfileWorld

namespace Sessions

variable {α β : Type} {p : SessionAct α} {P : α → ProfileWorld → Prop} {E : ProfileWorld → Prop} {w w₀ v : ProfileWorld}

/-- Whatever the broker, the clock and the files answer, the call returns in a world with `P` or raises in one with `E`. -/
def Ends (p : SessionAct α) (P : α → ProfileWorld → Prop) (E : ProfileWorld → Prop) (w : ProfileWorld) : Prop :=
  p.wp (fun _ _ => True) (fun _ _ => True) P (fun _ => E) w

section Rules

theorem Ends.mono {P' : α → ProfileWorld → Prop} {E' : ProfileWorld → Prop} (h : Ends p P E w) (hP : ∀ a v, P a v → P' a v)
    (hE : ∀ v, E v → E' v) : Ends p P' E' w := Prog.wp_consequence h hP fun _ => hE

@[simp] theorem ends_pure (a : α) : Ends (pure a) P E w ↔ P a w := Iff.rfl

@[simp] theorem ends_throw (e : Exc) : Ends (throw e : SessionAct α) P E w ↔ E w := Iff.rfl

@[simp] theorem ends_world {P : ProfileWorld → ProfileWorld → Prop} : Ends world P E w ↔ P w w := Iff.rfl

@[simp] theorem ends_current {name : String} {P : ProfileEntry → ProfileWorld → Prop} :
    Ends (current name) P E w ↔ P (w.entries name) w := Iff.rfl

@[simp] theorem ends_commit {f : ProfileWorld → ProfileWorld} {P : Unit → ProfileWorld → Prop} :
    Ends (commit f) P E w ↔ P () (f w) := by
  simp [Ends, commit]

@[simp] theorem ends_setEntry {name : String} {f : ProfileEntry → ProfileEntry} {P : Unit → ProfileWorld → Prop} :
    Ends (setEntry name f) P E w ↔ P () (w.setEntry name f) := ends_commit

@[simp] theorem ends_setPrimary {f : CaptureSession → CaptureSession} {P : Unit → ProfileWorld → Prop} :
    Ends (setPrimary f) P E w ↔ P () (w.setPrimary f) := ends_commit

@[simp] theorem ends_mark {e : SessionEvent} {P : Unit → ProfileWorld → Prop} : Ends (mark e) P E w ↔ P () (w.mark e) :=
  ends_commit

@[simp] theorem ends_startRenewal {name : String} {o : Nat} {P : Unit → ProfileWorld → Prop} :
    Ends (startRenewal name o) P E w ↔ P () (w.renew name o) := ends_commit

@[simp] theorem ends_stopRenewal {name : String} {P : Unit → ProfileWorld → Prop} :
    Ends (stopRenewal name) P E w ↔ P () (w.cancel name) := ends_commit

@[simp] theorem ends_bind {f : β → SessionAct α} {q : SessionAct β} :
    Ends (q >>= f) P E w ↔ Ends q (fun b v => Ends (f b) P E v) E w := Prog.wp_bind q f

@[simp] theorem ends_discard {P : PUnit → ProfileWorld → Prop} : Ends (discard p) P E w ↔ Ends p (fun _ v => P ⟨⟩ v) E w :=
  Prog.wp_discard p

theorem ends_tryCatch {h : Exc → SessionAct α} {F : ProfileWorld → Prop} (hp : Ends p P F w)
    (hh : ∀ e v, F v → Ends (h e) P E v) : Ends (tryCatch p h) P E w := by
  refine (Prog.wp_tryCatch p h).mpr ?_
  exact Prog.wp_consequence hp (fun _ _ hv => hv) hh

theorem ends_raiseIf {c : Prop} [Decidable c] {e : Exc} {P : Unit → ProfileWorld → Prop} (hP : ¬ c → P () w) (hE : c → E w) :
    Ends (raiseIf c e) P E w := by
  unfold raiseIf
  split
  · next h => exact hE h
  · next h => exact hP h

theorem ends_call {q : SessionAct (Except Exc α)} (h : Ends q (fun r v => (∀ a, r = .ok a → P a v) ∧ E v) E w) :
    Ends (call q) P E w := by
  refine ends_bind.mpr (h.mono ?_ fun _ => id)
  rintro r v ⟨hP, hE⟩
  exact (Prog.wp_ofExcept r).mpr ⟨hP, fun _ _ => hE⟩

theorem ends_close {o : Nat} {P : Unit → ProfileWorld → Prop} (hP : P () (w.shutDown o)) (hE : E (w.failDown o)) :
    Ends (close o) P E w := by
  refine ends_bind.mpr ?_
  rintro r -
  cases r with
  | ok => exact ends_commit (f := fun w => w.shutDown o).mpr hP
  | error e => exact ends_bind.mpr (ends_commit (f := fun w => w.failDown o).mpr hE)

theorem ends_outcome {P : Except Exc α → ProfileWorld → Prop} (h : Ends p (fun a v => P (.ok a) v) (fun v => ∀ e, P (.error e) v) w) :
    Ends (outcome p) P E w := by
  refine ends_tryCatch (F := fun v => ∀ e, P (.error e) v) ?_ fun e v hv => hv e
  exact (Prog.wp_map p Except.ok).mpr h

/-- The call reads and asks, and commits nothing. -/
def Still (p : SessionAct α) : Prop := ∀ P E w, (∀ a, P a w) → E w → Ends p P E w

theorem still_pure (a : α) : Still (pure a : SessionAct α) := fun _ _ _ h _ => h a

theorem still_throw (e : Exc) : Still (throw e : SessionAct α) := fun _ _ _ _ h => h

theorem still_query (q : SessionQuery) : Still (Prog.query q : SessionAct (SessionReply q)) := fun _ _ _ h _ r _ => h r

theorem Still.bind {q : SessionAct β} {f : β → SessionAct α} (hq : Still q) (hf : ∀ b, Still (f b)) : Still (q >>= f) :=
  fun P E w h hE => ends_bind.mpr (hq _ E w (fun b => hf b P E w h hE) hE)

theorem still_call {q : SessionAct (Except Exc α)} (hq : Still q) : Still (call q) :=
  fun _ E w h hE => ends_call (hq _ E w (fun _ => ⟨fun a _ => h a, hE⟩) hE)

theorem still_raiseIf (c : Prop) [Decidable c] (e : Exc) : Still (raiseIf c e : SessionAct Unit) :=
  fun _ _ _ h hE => ends_raiseIf (fun _ => h ()) fun _ => hE

theorem still_login (o : Nat) : Still (login o) := still_call (still_query _)

theorem still_useLogin (o : Nat) (auth : Authentication) : Still (useLogin o auth) :=
  (still_call (still_query _)).bind fun _ => still_pure auth

theorem still_accountId (o : Nat) : Still (accountId o) := still_query _

theorem still_now : Still now := still_query _

theorem still_loginState (e : ProfileEntry) : Still (loginState e) := by
  unfold loginState
  cases e.authentication with
  | none => exact still_pure _
  | some auth =>
    refine (still_query _).bind fun expiry => ?_
    cases expiry with
    | none => exact still_pure _
    | some expiry => exact (still_query _).bind fun t => still_pure _

theorem ends_make {settings : ConnectionSettings} {P : Nat → ProfileWorld → Prop} (hP : P w.made.length (w.add settings)) (hE : E w) :
    Ends (make settings) P E w := by
  refine ends_bind.mpr (still_call (still_query _) _ E w (fun _ => ?_) hE)
  exact ends_bind.mpr (ends_bind.mpr (ends_commit.mpr hP))

end Rules

/-- In a call that began in `w₀` and touches the holders `t`. -/
structure Kept (t : Holder → Prop) (w₀ : ProfileWorld) (l : Option Nat) (settled : Bool) (s : Option String) (w : ProfileWorld) : Prop where
  sound : Sound w l settled
  honest : Honest w s
  frame : Frame t w₀ w

variable {t : Holder → Prop} {l : Option Nat} {settled : Bool} {s : Option String} {name account : String} {o : Nat}

namespace Kept

/-- An update of a profile that leaves its session where it is. -/
theorem setEntry (h : Kept t w₀ l settled s w) (ht : t (.profile name)) {f : ProfileEntry → ProfileEntry} {s' : Option String}
    (hs : ∀ n, n ≠ name → s' ≠ some n → s ≠ some n) (ha : (f (w.entries name)).api = (w.entries name).api)
    (hk : ProfileWorld.Known w.trace name (f (w.entries name))) (hm : MadeFor w.made (f (w.entries name)))
    (hb : name ≠ primaryPrefix → s' ≠ some name → Backed w.trace (f (w.entries name))) :
    Kept t w₀ l settled s' (w.setEntry name f) :=
  ⟨h.sound.setEntry ha, h.honest.setEntry hs hk hm hb, h.frame.setEntry ht f⟩

/-- An update that concerns neither what a profile knows nor what it shows. -/
theorem restate (h : Kept t w₀ l settled s w) (ht : t (.profile name)) {f : ProfileEntry → ProfileEntry}
    (hs : (f (w.entries name)).settings = (w.entries name).settings) (ha : (f (w.entries name)).api = (w.entries name).api)
    (hc : (f (w.entries name)).accounts = (w.entries name).accounts)
    (hu : (f (w.entries name)).authentication = (w.entries name).authentication)
    (hd : (f (w.entries name)).data = (w.entries name).data) (hst : (f (w.entries name)).state = (w.entries name).state) :
    Kept t w₀ l settled s (w.setEntry name f) := by
  have hid : (f (w.entries name)).settings.accountId = (w.entries name).settings.accountId := by rw [hs]
  exact h.setEntry ht (fun _ _ hn => hn) ha ((h.honest.known name).congr hc hu hid) ((h.honest.madeFor name).congr ha hid)
    fun hp hn => (h.honest.backed name hp hn).congr ha hid hd hst

theorem mark (h : Kept t w₀ l settled s w) (e : SessionEvent) : Kept t w₀ l settled s (w.mark e) :=
  ⟨h.sound.mark e, h.honest.mark e, h.frame.mark e⟩

theorem add (h : Kept t w₀ none settled s w) (settings : ConnectionSettings) :
    Kept t w₀ (some w.made.length) settled s (w.add settings) :=
  ⟨h.sound.add settings, h.honest.add settings, h.frame.add settings⟩

theorem shutLoose (h : Kept t w₀ (some o) settled s w) : Kept t w₀ none settled s (w.shutDown o) :=
  ⟨h.sound.shutLoose, h.honest.congr rfl rfl rfl, h.frame.shutDown fun k _ => (h.sound.loose o rfl).2.2 k⟩

theorem failLoose (h : Kept t w₀ (some o) settled s w) {settled' : Bool} : Kept t w₀ none settled' s (w.failDown o) :=
  ⟨h.sound.failDown (Or.inr rfl), h.honest.congr rfl rfl rfl, h.frame.failDown fun k _ => (h.sound.loose o rfl).2.2 k⟩

/-- No other holder has the session of a holder. -/
theorem spared (h : Kept t w₀ l settled s w) {k : Holder} (ht : t k) (ho : w.holds k = some o) : ∀ k', ¬ t k' → w.holds k' ≠ some o := by
  intro k' hk' ho'
  exact hk' (h.sound.apart k' k o ho' ho ▸ ht)

theorem failHeld (h : Kept t w₀ none settled s w) {k : Holder} (ht : t k) (ho : w.holds k = some o) {settled' : Bool} :
    Kept t w₀ none settled' s (w.failDown o) :=
  ⟨h.sound.failDown (Or.inl rfl), h.honest.congr rfl rfl rfl, h.frame.failDown (h.spared ht ho)⟩

/-- A profile gives up the session that it has just closed. -/
theorem release (h : Kept t w₀ none settled s w) (ht : t (.profile name)) (ho : (w.entries name).api = some o)
    {f : ProfileEntry → ProfileEntry} {s' : Option String} (hf : (f (w.entries name)).api = none)
    (hs : ∀ n, n ≠ name → s' ≠ some n → s ≠ some n) (hk : ProfileWorld.Known w.trace name (f (w.entries name)))
    (hb : name ≠ primaryPrefix → s' ≠ some name → Backed w.trace (f (w.entries name))) :
    Kept t w₀ none settled s' ((w.shutDown o).setEntry name f) :=
  ⟨h.sound.release ho hf, (h.honest.congr rfl rfl rfl : Honest (w.shutDown o) s).setEntry hs hk (madeFor_none hf) hb,
    (h.frame.shutDown (h.spared ht ho)).setEntry ht f⟩

theorem cancel (h : Kept t w₀ l settled s w) (ht : t (.profile name)) (hn : name ≠ "primary") (ha : (w.entries name).api = none) :
    Kept t w₀ l settled s (w.cancel name) := by
  have hreserved : "primary" ∉ w₀.names := h.frame.names ▸ h.sound.reserved
  refine ⟨h.sound.cancel hn ha, h.honest.congr rfl rfl rfl, ?_⟩
  refine h.frame.renewers name (fun r hr => ?_) (Frame.timer_ne hreserved ht (Or.inr ⟨name, rfl, hn⟩))
  exact mem_cancel.trans ⟨And.left, fun hm => ⟨hm, hr⟩⟩

theorem cancelCapture (h : Kept t w₀ l false s w) (ht : t .capture) : Kept t w₀ l false s (w.cancel "primary") := by
  have hreserved : "primary" ∉ w₀.names := h.frame.names ▸ h.sound.reserved
  refine ⟨h.sound.cancelCapture, h.honest.congr rfl rfl rfl, ?_⟩
  refine h.frame.renewers "primary" (fun r hr => ?_) (Frame.timer_ne hreserved ht (Or.inl rfl))
  exact mem_cancel.trans ⟨And.left, fun hm => ⟨hm, hr⟩⟩

/-- A renewer is started for a holder. -/
theorem renewed (hf : Frame t w₀ w) (hp : "primary" ∉ w₀.names) {k : Holder} (ht : t k)
    (hk : k = .capture ∨ ∃ n, k = .profile n ∧ n ≠ "primary") : Frame t w₀ (w.renew k.timer o) := by
  by_cases hc : w.closing = true
  · rw [renew_closing hc]
    exact hf
  · have hmem (r : String × Nat) : r ∈ (w.renew k.timer o).renewers ↔ r ∈ w.renewers ∧ r.1 ≠ k.timer ∨ r = (k.timer, o) :=
      mem_renew (Bool.eq_false_iff.mpr hc)
    obtain ⟨rs, hr⟩ := renew_eq w k.timer o
    rw [hr] at hmem ⊢
    refine hf.renewers k.timer (fun r hne => ?_) (Frame.timer_ne hp ht hk)
    refine (hmem r).trans ⟨?_, fun hm => Or.inl ⟨hm, hne⟩⟩
    rintro (⟨hm, _⟩ | rfl)
    · exact hm
    · exact absurd rfl hne

/-- A profile takes over the session that was made for it. -/
theorem hold (h : Kept t w₀ (some o) settled s w) (ht : t (.profile name)) (hn : name ∈ w.names) (hp : name ≠ primaryPrefix)
    (hnone : (w.entries name).api = none) {settings : ConnectionSettings} (hmade : w.made[o]? = some settings)
    (hid : settings.accountId = (w.entries name).settings.accountId) (hne : settings.accountId ≠ "") :
    Kept t w₀ none settled s ((w.setEntry name fun e => { e with api := some o }).renew name o) := by
  have hreserved : "primary" ∉ w₀.names := h.frame.names ▸ h.sound.reserved
  have hprimary : name ≠ "primary" := by
    rintro rfl
    exact h.sound.reserved hn
  have hhonest : Honest (w.setEntry name fun e => { e with api := some o }) s := by
    refine h.honest.setEntry (fun _ _ hn => hn) ((h.honest.known name).congr rfl rfl rfl) ?_ fun hpp hs => ?_
    · intro q hq
      exact ⟨hid ▸ hne, settings, Option.some.inj hq ▸ hmade, hid⟩
    · have hb := h.honest.backed name hpp hs
      constructor
      · intro part rows hd
        obtain ⟨q, hq, _⟩ := hb.data part rows hd
        cases hnone.symm.trans hq
      · exact fun _ => rfl
  obtain ⟨rs, hr⟩ := renew_eq (w.setEntry name fun e => { e with api := some o }) name o
  refine ⟨h.sound.hold hn hp hnone rfl, ?_, ?_⟩
  · rw [hr]
    exact hhonest.congr rfl rfl rfl
  · exact renewed (k := .profile name) (h.frame.setEntry ht _) hreserved ht (Or.inr ⟨name, rfl, hprimary⟩)

section Capture

theorem setPrimary (h : Kept t w₀ l settled s w) (ht : t .capture) {f : CaptureSession → CaptureSession}
    (hf : (f w.primary).api = w.primary.api) (hc : (f w.primary).connection = .connected → w.primary.connection = .connected) :
    Kept t w₀ l settled s (w.setPrimary f) :=
  ⟨h.sound.setPrimary hf hc, h.honest.congr rfl rfl rfl, h.frame.setPrimary ht f⟩

theorem unsettled (h : Kept t w₀ l settled s w) : Kept t w₀ l false s w := ⟨h.sound.unsettled, h.honest, h.frame⟩

theorem releaseCapture (h : Kept t w₀ none false s w) (ht : t .capture) (ho : w.primary.api = some o)
    {f : CaptureSession → CaptureSession} (hf : (f w.primary).api = none) :
    Kept t w₀ none settled s ((w.shutDown o).setPrimary f) :=
  ⟨h.sound.releaseCapture ho hf, h.honest.congr rfl rfl rfl,
    (h.frame.shutDown (h.spared (k := .capture) ht ho)).setPrimary ht f⟩

theorem adopt (h : Kept t w₀ l settled s w) (ht : t .capture) {f : CaptureSession → CaptureSession} (hf : (f w.primary).api = some o)
    (ho : w.primary.api = some o ∧ l = none ∨ w.primary.api = none ∧ l = some o) : Kept t w₀ none false s (w.setPrimary f) :=
  ⟨h.sound.adopt hf ho, h.honest.congr rfl rfl rfl, h.frame.setPrimary ht f⟩

theorem follow (h : Kept t w₀ l false s w) (ht : t .capture) (ho : w.primary.api = some o) :
    Kept t w₀ l true s (w.renew "primary" o) := by
  have hreserved : "primary" ∉ w₀.names := h.frame.names ▸ h.sound.reserved
  obtain ⟨rs, hr⟩ := renew_eq w "primary" o
  refine ⟨h.sound.follow ho, ?_, renewed (k := .capture) h.frame hreserved ht (Or.inl rfl)⟩
  rw [hr]
  exact h.honest.congr rfl rfl rfl

theorem settle (h : Kept t w₀ l false s w) (ho : w.primary.connection = .connected → w.primary.api = none) :
    Kept t w₀ l settled s w := ⟨h.sound.settle ho, h.honest, h.frame⟩

end Capture

end Kept

/-- However the call ends, `K` holds again. -/
def Upholds (K : ProfileWorld → Prop) (p : SessionAct α) : Prop := ∀ w, K w → Ends p (fun _ => K) K w

section Upholding

variable {K : ProfileWorld → Prop}

theorem upholds_pure (a : α) : Upholds K (pure a : SessionAct α) := fun _ h => h

theorem Still.upholds (h : Still p) : Upholds K p := fun w hw => h _ K w (fun _ => hw) hw

theorem Upholds.bind {f : β → SessionAct α} {q : SessionAct β} (hq : Upholds K q) (hf : ∀ b, Upholds K (f b)) : Upholds K (q >>= f) :=
  fun w h => ends_bind.mpr ((hq w h).mono (fun b v hv => hf b v hv) fun _ => id)

theorem Upholds.discard (hp : Upholds K p) : Upholds K (discard p) := fun w h => ends_discard.mpr (hp w h)

/-- What is read of the world at hand may be used. -/
theorem upholds_world {f : ProfileWorld → SessionAct α} (hf : ∀ v, Upholds K (f v)) : Upholds K (world >>= f) := fun w h =>
  ends_bind.mpr (hf w w h)

end Upholding

section Capture

theorem upholds_setPrimary (ht : t .capture) {f : CaptureSession → CaptureSession} (hf : ∀ p, (f p).api = p.api)
    (hc : ∀ p, (f p).connection = .connected → p.connection = .connected) : Upholds (Kept t w₀ l settled s) (setPrimary f) :=
  fun w h => ends_setPrimary.mpr (h.setPrimary ht (hf w.primary) (hc w.primary))

theorem openJournal_upholds (ht : t .capture) : Upholds (Kept t w₀ l settled s) openJournal := by
  refine upholds_world fun v => ?_
  split
  · exact upholds_pure ()
  · exact (still_call (still_query (.openJournal v.primary.selected))).upholds.bind fun _ =>
      upholds_setPrimary ht (fun _ => rfl) fun _ => id

theorem closeJournal_upholds : Upholds (Kept t w₀ l settled s) closeJournal := by
  refine upholds_world fun v => ?_
  split
  · exact (still_call (still_query .closeJournal)).upholds
  · exact upholds_pure ()

theorem leave_upholds (ht : t .capture) : Upholds (Kept t w₀ none true s) leave := by
  intro w h
  refine ends_bind.mpr (ends_world.mpr ?_)
  split
  · exact h
  · next o ho =>
    have hcancel : Kept t w₀ none false s (w.cancel "primary") := h.unsettled.cancelCapture ht
    refine ends_bind.mpr (ends_stopRenewal.mpr (ends_bind.mpr (ends_close ?_ ?_)))
    · exact ends_setPrimary.mpr (hcancel.releaseCapture ht ho rfl)
    · exact hcancel.failHeld (k := .capture) ht ho

theorem chooseAccount_upholds (ht : t .capture) (account : String) : Upholds (Kept t w₀ none true s) (chooseAccount account) := by
  refine upholds_world fun v => (still_raiseIf _ _).upholds.bind fun _ => ?_
  split
  · exact upholds_pure ()
  · refine (still_raiseIf _ _).upholds.bind fun _ => (leave_upholds ht).bind fun _ => closeJournal_upholds.bind fun _ => ?_
    refine Upholds.bind (upholds_setPrimary ht ?_ ?_) fun _ => openJournal_upholds ht
    · exact fun _ => rfl
    · intro _ hc
      cases hc

theorem followRenewal_ends (ht : t .capture) (h : Kept t w₀ none false s w) :
    Ends followRenewal (fun _ => Kept t w₀ none true s) (Kept t w₀ none true s) w := by
  refine ends_bind.mpr (ends_world.mpr ?_)
  split
  · next o ho =>
    split
    · exact ends_startRenewal.mpr (h.follow ht ho)
    · next hc => exact ends_stopRenewal.mpr ((h.cancelCapture ht).settle fun hcon => absurd hcon hc)
  · next hnone => exact ends_stopRenewal.mpr ((h.cancelCapture ht).settle fun _ => hnone)

/-- The candidate is the session that there is, or a new one where there is none. -/
theorem candidateOf_ends {settings : ConnectionSettings} (h : Kept t w₀ none true s w) :
    Ends (candidateOf w.primary.api settings)
      (fun o v => ∃ l, Kept t w₀ l true s v ∧ v.primary = w.primary ∧ (w.primary.api = some o ∧ l = none ∨ w.primary.api = none ∧ l = some o))
      (Kept t w₀ none true s) w := by
  cases hapi : w.primary.api with
  | some o => exact ⟨none, h, rfl, Or.inl ⟨rfl, rfl⟩⟩
  | none => exact ends_make ⟨_, h.add settings, rfl, Or.inr ⟨rfl, rfl⟩⟩ h

theorem still_logIn (o : Nat) (authentication : Option Authentication) : Still (logIn o authentication) := by
  cases authentication with
  | some auth => exact still_useLogin o auth
  | none => exact still_login o

theorem conclude_ends (ht : t .capture) (h : Kept t w₀ l true s w)
    (ho : w.primary.api = some o ∧ l = none ∨ w.primary.api = none ∧ l = some o) (r : Except Exc Authentication) :
    Ends (conclude account w.primary.api o r) (fun _ => Kept t w₀ none false s) (Kept t w₀ none true s) w := by
  cases r with
  | ok auth => exact ends_setPrimary.mpr (h.adopt ht rfl ho)
  | error e =>
    refine ends_bind.mpr ?_
    rcases ho with ⟨hapi, rfl⟩ | ⟨hapi, rfl⟩
    · have hnew : closeNew w.primary.api o = pure () := if_neg (by simp [hapi])
      rw [hnew]
      exact ends_pure _ |>.mpr (ends_setPrimary.mpr (h.adopt ht hapi (Or.inl ⟨hapi, rfl⟩)))
    · have hnew : closeNew w.primary.api o = close o := if_pos hapi
      rw [hnew]
      refine ends_close (ends_setPrimary.mpr ?_) h.failLoose
      refine h.shutLoose.unsettled.setPrimary ht rfl fun hc => ?_
      rw [hapi] at hc
      cases hc

/-- However the login of the capture session ends, it has a renewer if it is connected. -/
theorem connect_upholds (ht : t .capture) (account : String) (authentication : Option Authentication) :
    Upholds (Kept t w₀ none true s) (connect account authentication) := by
  refine (chooseAccount_upholds ht account).bind fun _ => ?_
  intro w h
  refine ends_bind.mpr (ends_world.mpr (ends_bind.mpr (ends_setPrimary.mpr ?_)))
  have hk : Kept t w₀ none true s (w.setPrimary fun p => { p with
      orders := [], ordersAt := none, tokenMessage := "", armed := false, demoVerified := false }) :=
    h.setPrimary ht rfl id
  refine ends_bind.mpr ((candidateOf_ends hk).mono ?_ fun _ hv => hv)
  rintro o v ⟨l, hv, hp, ho⟩
  have hapi : v.primary.api = w.primary.api := by
    rw [hp]
    rfl
  change w.primary.api = some o ∧ l = none ∨ w.primary.api = none ∧ l = some o at ho
  have hend (r : Except Exc Authentication) : Ends (do
      conclude account w.primary.api o r
      followRenewal) (fun _ => Kept t w₀ none true s) (Kept t w₀ none true s) v := by
    rw [← hapi] at ho ⊢
    exact ends_bind.mpr ((conclude_ends ht hv ho r).mono (fun _ u hu => followRenewal_ends ht hu) fun _ hu => hu)
  exact ends_bind.mpr (ends_outcome (still_logIn o authentication _ _ v (fun auth => hend (.ok auth)) fun e => hend (.error e)))

theorem observe_upholds (ht : t .capture) : Upholds (Kept t w₀ none true s) observe :=
  upholds_world fun v => (still_call (still_query (.openSources v.primary.ledgerPath))).upholds.bind fun _ =>
    upholds_setPrimary ht (fun _ => rfl) fun _ => id

theorem start_upholds (ht : t .capture) (account : Option String) : Upholds (Kept t w₀ none true s) (start account) := by
  refine upholds_world fun v => ?_
  split
  · exact (still_raiseIf _ _).upholds
  · split
    · exact observe_upholds ht
    · exact (chooseAccount_upholds ht _).bind fun _ => observe_upholds ht

theorem watchFails_upholds (ht : t .capture) : Upholds (Kept t w₀ none true s) watchFails := by
  refine upholds_world fun v => ?_
  split
  · exact upholds_setPrimary ht (fun _ => rfl) fun _ => id
  · exact upholds_pure ()

theorem joinWorker_upholds (ht : t .capture) : Upholds (Kept t w₀ none true s) joinWorker := by
  refine upholds_world fun v => ?_
  split
  · refine Upholds.bind (β := Bool) (Still.upholds (still_query .workerAlive)) fun alive => ?_
    exact (still_raiseIf _ _).upholds.bind fun _ => upholds_setPrimary ht (fun _ => rfl) fun _ => id
  · exact upholds_pure ()

theorem stop_upholds (ht : t .capture) : Upholds (Kept t w₀ none true s) stop := by
  refine Upholds.bind (upholds_setPrimary ht ?_ ?_) fun _ => (joinWorker_upholds ht).bind fun _ => ?_
  · exact fun _ => rfl
  · exact fun _ => id
  intro w h
  have hcancel : Kept t w₀ none false s (w.cancel "primary") := h.unsettled.cancelCapture ht
  refine ends_bind.mpr (ends_stopRenewal.mpr (ends_bind.mpr (ends_world.mpr (ends_bind.mpr ?_))))
  cases hapi : w.primary.api with
  | none =>
    have hheld : closeHeld (w.cancel "primary").primary.api = pure () := by
      change closeHeld w.primary.api = pure ()
      rw [hapi]
      rfl
    rw [hheld]
    refine (ends_pure ()).mpr (ends_setPrimary.mpr ?_)
    have hset := hcancel.setPrimary ht (f := fun p => { p with
      api := none, tokenMessage := "", connection := .disconnected
      connectionMessage := "Connection closed. Existing broker orders were not changed."
      captureMessage := "Stopped. New events are rejected until capture starts again." }) hapi.symm (by simp)
    exact hset.settle fun _ => rfl
  | some o =>
    have hheld : closeHeld (w.cancel "primary").primary.api = close o := by
      change closeHeld w.primary.api = close o
      rw [hapi]
      rfl
    rw [hheld]
    exact ends_close (ends_setPrimary.mpr (hcancel.releaseCapture ht hapi rfl)) (hcancel.failHeld (k := .capture) ht hapi)

theorem setCopying_upholds (ht : t .capture) (enabled : Bool) : Upholds (Kept t w₀ none true s) (setCopying enabled) :=
  (still_raiseIf _ _).upholds.bind fun _ => upholds_setPrimary ht (fun _ => rfl) fun _ => id

theorem refreshSession_upholds (ht : t .capture) : Upholds (Kept t w₀ none true s) refreshSession := by
  intro w h
  refine ends_bind.mpr (ends_world.mpr ?_)
  split
  · exact h
  · next o ho =>
    have hrenew (v : ProfileWorld) (hv : Kept t w₀ none false s v) (hapi : v.primary.api = some o)
        (hc : v.primary.connection = .connected ∨ Kept t w₀ none true s v) :
        Ends (renewConnected o) (fun _ => Kept t w₀ none true s) (Kept t w₀ none true s) v := by
      refine ends_bind.mpr (ends_world.mpr ?_)
      split
      · exact ends_startRenewal.mpr (hv.follow ht hapi)
      · next hcon => exact hc.resolve_left hcon
    refine ends_bind.mpr (ends_outcome (still_login o _ _ w (fun auth => ?_) fun e => ?_))
    · refine ends_bind.mpr (ends_setPrimary.mpr (hrenew _ ?_ ho (Or.inl rfl)))
      exact h.adopt ht ho (Or.inl ⟨ho, rfl⟩)
    · refine ends_bind.mpr (ends_setPrimary.mpr (hrenew _ ?_ ho (Or.inr ?_)))
      · exact h.unsettled.setPrimary ht rfl id
      · exact h.setPrimary ht rfl id

theorem refreshOrders_upholds (ht : t .capture) : Upholds (Kept t w₀ none true s) refreshOrders := by
  refine upholds_world fun v => ?_
  split
  · exact (still_throw _).upholds
  · next o _ =>
    refine Upholds.bind (Still.upholds (still_query (.activeOrders o))) fun r => ?_
    cases r with
    | ok rows => exact Upholds.bind (Still.upholds (still_query .clock)) fun _ => upholds_setPrimary ht (fun _ => rfl) fun _ => id
    | error e => exact Upholds.bind (upholds_setPrimary ht (fun _ => rfl) fun _ => id) fun _ => (still_throw _).upholds

end Capture

section Discovery

theorem forget_upholds (ht : t (.profile name)) : Upholds (Kept t w₀ l settled s) (forget name) := fun _ h =>
  ends_setEntry.mpr (h.setEntry ht (fun _ _ hn => hn) rfl ((h.honest.known name).forget rfl rfl rfl)
    ((h.honest.madeFor name).congr rfl rfl) fun hp hn => (h.honest.backed name hp hn).congr rfl rfl rfl rfl)

theorem adoptAccounts_upholds (ht : t (.profile name)) (candidate : Nat) :
    Upholds (Kept t w₀ l settled s) (adoptAccounts name candidate) := by
  refine Upholds.bind (Still.upholds (still_call (still_query (.discoverAccounts candidate)))) fun auth => ?_
  intro w h
  refine ends_bind.mpr (ends_raiseIf (fun hids => ?_) fun _ => h)
  have hids : "" ∉ auth.found.map LoginAccount.tradingAccountId := fun hm => hids (Or.inr (Or.inl hm))
  refine ends_bind.mpr (ends_mark.mpr (ends_bind.mpr (ends_setEntry.mpr ?_)))
  have hm := h.mark (.found name (auth.found.map LoginAccount.tradingAccountId))
  have hfound : SessionEvent.found name (auth.found.map LoginAccount.tradingAccountId)
      ∈ (w.mark (.found name (auth.found.map LoginAccount.tradingAccountId))).trace :=
    List.mem_append_right _ (List.mem_singleton_self _)
  have hk : Kept t w₀ l settled s ((w.mark (.found name (auth.found.map LoginAccount.tradingAccountId))).setEntry name fun e =>
      { e with accounts := auth.found.map LoginAccount.choice, authentication := some auth }) := by
    refine hm.setEntry ht (fun _ _ hn => hn) rfl ⟨rfl, fun a ha => ?_, (hm.honest.known name).listed⟩
      ((hm.honest.madeFor name).congr rfl rfl) fun hp hn => (hm.honest.backed name hp hn).congr rfl rfl rfl rfl
    obtain ⟨b, hb, rfl⟩ := List.mem_map.mp ha
    have hmem : b.tradingAccountId ∈ auth.found.map LoginAccount.tradingAccountId := List.mem_map_of_mem hb
    refine ⟨fun he => hids (he ▸ hmem), _, hfound, hmem⟩
  refine ends_bind.mpr (ends_current.mpr (ends_bind.mpr (still_loginState _ _ _ _ (fun state => ?_) hk)))
  refine ends_bind.mpr (ends_raiseIf (fun _ => ends_setEntry.mpr ?_) fun _ => hk)
  exact hk.restate ht rfl rfl rfl rfl rfl rfl

/-- What becomes of the session of a discovery. -/
theorem tryAccounts_ends (ht : t (.profile name)) {r : Except Exc Nat} (h : Kept t w₀ r.toOption settled s w) :
    Ends (tryAccounts name r) (fun _ => Kept t w₀ none settled s) (Kept t w₀ none settled s) w := by
  cases r with
  | error e => exact forget_upholds ht w h
  | ok candidate =>
    refine ends_bind.mpr ?_
    refine Ends.mono (P := fun _ => Kept t w₀ (some candidate) settled s) (E := Kept t w₀ none settled s) ?_
      (fun _ v hv => ends_close hv.shutLoose hv.failLoose) fun _ hv => hv
    refine ends_tryCatch ((adoptAccounts_upholds ht candidate) w h) fun e v hv => ?_
    exact ends_setEntry.mpr (hv.setEntry ht (fun _ _ hn => hn) rfl ((hv.honest.known name).forget rfl rfl rfl)
      ((hv.honest.madeFor name).congr rfl rfl) fun hp hn => (hv.honest.backed name hp hn).congr rfl rfl rfl rfl)

theorem lookUp_upholds (ht : t (.profile name)) : Upholds (Kept t w₀ none settled s) (lookUp name) := by
  intro w h
  refine ends_bind.mpr (ends_setEntry.mpr (ends_bind.mpr (ends_current.mpr (ends_bind.mpr ?_))))
  have hk : Kept t w₀ none settled s (w.setEntry name fun e => { e with accounts := [], authentication := none }) :=
    h.setEntry ht (fun _ _ hn => hn) rfl ((h.honest.known name).forget rfl rfl rfl)
      ((h.honest.madeFor name).congr rfl rfl) fun hp hn => (h.honest.backed name hp hn).congr rfl rfl rfl rfl
  have hrest (r : Except Exc Nat) (v : ProfileWorld) (hv : Kept t w₀ r.toOption settled s v) :
      Ends (do
        tryAccounts name r
        setEntry name fun e => { e with revision := e.revision + 1 })
        (fun _ => Kept t w₀ none settled s) (Kept t w₀ none settled s) v := by
    refine ends_bind.mpr ((tryAccounts_ends ht hv).mono (fun _ u hu => ends_setEntry.mpr ?_) fun _ hu => hu)
    exact hu.restate ht rfl rfl rfl rfl rfl rfl
  exact ends_outcome (ends_make (hrest (.ok _) _ (hk.add _)) fun e => hrest (.error e) _ hk)

end Discovery

section Reading

/-- Nothing but events was added. -/
def Noted (w v : ProfileWorld) : Prop := ∃ more, v = { w with trace := w.trace ++ more }

theorem Noted.refl (w : ProfileWorld) : Noted w w := ⟨[], by rw [List.append_nil]⟩

theorem Noted.trans {u : ProfileWorld} (h : Noted w v) (h' : Noted v u) : Noted w u := by
  obtain ⟨m, rfl⟩ := h
  obtain ⟨n, rfl⟩ := h'
  exact ⟨m ++ n, by rw [List.append_assoc]⟩

theorem Noted.kept (hn : Noted w v) (h : Kept t w₀ l settled s w) : Kept t w₀ l settled s v := by
  obtain ⟨more, rfl⟩ := hn
  refine ⟨h.sound.congr rfl rfl rfl rfl rfl rfl rfl id, ⟨?_, h.honest.madeFor, ?_⟩, { h.frame with }⟩
  · exact fun n => (h.honest.known n).mono
  · exact fun n hp hs => (h.honest.backed n hp hs).mono

theorem part_set (d : ProfileData) (part : ReadPart) {rows : List BrokerRecord} (hb : part = .balance → ∃ r, rows = [r]) (q : ReadPart) :
    (ProfileData.set d part rows).part q = if q = part then some rows else d.part q := by
  cases part with
  | balance =>
    obtain ⟨r, rfl⟩ := hb rfl
    cases q <;> rfl
  | orders | positions => cases q <;> rfl

theorem askRows_ends {part : ReadPart} {P : List BrokerRecord → ProfileWorld → Prop}
    (hP : ∀ rows, (part = .balance → ∃ r, rows = [r]) → P rows w) (hE : E w) : Ends (askRows o part) P E w := by
  cases part with
  | balance =>
    refine ends_bind.mpr (still_call (still_query (.balance o)) _ _ w (fun r => ?_) hE)
    exact hP [r] fun _ => ⟨r, rfl⟩
  | orders => exact still_call (still_query (.activeOrders o)) _ _ w (fun rows => hP rows (by simp)) hE
  | positions => exact still_call (still_query (.openPositions o)) _ _ w (fun rows => hP rows (by simp)) hE

/-- The parts that were read are on record, and the others are as they were. -/
theorem readParts_ends (parts : List ReadPart) (d : ProfileData) :
    Ends (readParts o account parts d)
      (fun d' v => Noted w v ∧ ∀ part rows, d'.part part = some rows → d.part part = some rows ∨ .read o account part rows ∈ v.trace)
      (Noted w) w := by
  induction parts generalizing d w with
  | nil => exact ⟨Noted.refl w, fun _ _ hd => Or.inl hd⟩
  | cons part parts ih =>
    refine ends_bind.mpr (ends_bind.mpr (askRows_ends (fun rows hrows => ?_) (Noted.refl w)))
    refine ends_bind.mpr (ends_mark.mpr ((ends_pure _).mpr ?_))
    let filtered := records rows part.fields
    have hnoted : Noted w (w.mark (.read o account part filtered)) := ⟨_, rfl⟩
    refine Ends.mono (ih (w := w.mark (.read o account part filtered)) (ProfileData.set d part filtered)) ?_ fun v hv => hnoted.trans hv
    rintro d' v ⟨hv, hd⟩
    refine ⟨hnoted.trans hv, fun q qs hq => ?_⟩
    rcases hd q qs hq with hset | hread
    · have hshape : part = .balance → ∃ r, filtered = [r] := by
        intro hb
        obtain ⟨r, hr⟩ := hrows hb
        exact ⟨r.filter fun f => f.1 ∈ part.fields, by simp only [filtered, hr, records, List.map_singleton]⟩
      rw [part_set d part hshape] at hset
      split at hset
      · next he =>
        obtain ⟨more, rfl⟩ := hv
        subst he
        obtain rfl := Option.some.inj hset
        exact Or.inr (List.mem_append_left _ (List.mem_append_right _ (List.mem_singleton_self _)))
      · exact Or.inl hset
    · exact Or.inr hread

/-- A profile reads on its own session; the capture profile reads on the capture session. -/
theorem readInto_ends (ht : t (.profile name)) {api : Option Nat} (h : Kept t w₀ none true none w)
    (hown : name ≠ primaryPrefix → api = (w.entries name).api ∧ account = (w.entries name).settings.accountId) (parts : List ReadPart) :
    Ends (readInto name api account parts)
      (fun _ v => Kept t w₀ none true none v ∧ (name ≠ primaryPrefix → (v.entries name).api.isSome)) (Kept t w₀ none true none) w := by
  cases api with
  | none => exact h
  | some o =>
    refine ends_bind.mpr (still_accountId o _ _ w (fun served => ?_) h)
    refine ends_bind.mpr (ends_raiseIf (fun _ => ends_bind.mpr (ends_current.mpr (ends_bind.mpr ?_))) fun _ => h)
    refine still_now _ _ w (fun now => ?_) h
    refine ends_bind.mpr ((readParts_ends parts _).mono ?_ fun v hv => hv.kept h)
    rintro d v ⟨hnoted, hd⟩
    have hv := hnoted.kept h
    have hentries : v.entries = w.entries := by
      obtain ⟨more, rfl⟩ := hnoted
      rfl
    refine ends_setEntry.mpr ⟨?_, fun hp => ?_⟩
    · refine hv.setEntry ht (fun _ _ hn => hn) rfl ((hv.honest.known name).congr rfl rfl rfl)
        ((hv.honest.madeFor name).congr rfl rfl) fun hp hn => ?_
      obtain ⟨hapi, hacc⟩ := hown hp
      have hb := hv.honest.backed name hp hn
      constructor
      · intro part rows hrows
        rcases hd part rows hrows with hold | hread
        · have hdata : (v.entries name).data.part part = some rows := by
            rw [hentries]
            cases part <;> exact hold
          exact hb.data part rows hdata
        · refine ⟨o, ?_, ?_⟩
          · change (v.entries name).api = some o
            rw [hentries]
            exact hapi.symm
          · change SessionEvent.read o (v.entries name).settings.accountId part rows ∈ v.trace
            rw [hentries, ← hacc]
            exact hread
      · exact hb.shown
    · obtain ⟨hapi, _⟩ := hown hp
      rw [setEntry_self, hentries]
      change (w.entries name).api.isSome = true
      rw [← hapi]
      rfl

theorem still_enter (entry : ProfileEntry) (o : Nat) : Still (enter entry o) :=
  (still_loginState entry).bind fun _ => Still.bind (fun _ E w hP hE => ends_discard.mpr (still_logIn o _ _ E w (fun _ => hP _) hE))
    fun _ => (still_accountId o).bind fun _ => still_raiseIf _ _

/-- A session that a profile makes for its account is held, or closed when the login fails. -/
theorem establish_ends (ht : t (.profile name)) (h : Kept t w₀ none true none w) (hn : name ∈ w.names) (hp : name ≠ primaryPrefix)
    (hnone : (w.entries name).api = none) (hacc : (w.entries name).settings.accountId ≠ "") :
    Ends (establish name (w.entries name))
      (fun _ v => Kept t w₀ none true none v ∧ (v.entries name).settings = (w.entries name).settings) (Kept t w₀ none true none) w := by
  refine ends_bind.mpr (ends_make ?_ h)
  have hadd := h.add (w.entries name).settings
  refine ends_bind.mpr (ends_outcome (still_enter _ _ _ _ _ (fun _ => ?_) fun e => ?_))
  · refine ends_bind.mpr (ends_setEntry.mpr (ends_startRenewal.mpr ⟨?_, ?_⟩))
    · exact hadd.hold ht hn hp hnone (List.getElem?_concat_length ..) rfl hacc
    · rw [renew_entries, setEntry_self]
      rfl
  · exact ends_bind.mpr (ends_close hadd.shutLoose hadd.failLoose)

theorem readSlices_ends (ht : t (.profile name)) (h : Kept t w₀ none true none w) (hn : name ∈ w.names)
    (hacc : name ≠ primaryPrefix → (w.entries name).settings.accountId ≠ "") (action : SliceAction) :
    Ends (readSlices name (w.entries name) action)
      (fun _ v => Kept t w₀ none true none v ∧ (name ≠ primaryPrefix → (v.entries name).api.isSome)) (Kept t w₀ none true none) w := by
  unfold readSlices
  split
  · next hp =>
    refine ends_bind.mpr (ends_world.mpr (ends_bind.mpr (ends_raiseIf (fun _ => ?_) fun _ => h)))
    exact readInto_ends ht h (fun hne => absurd hp hne) _
  · next hp =>
    refine ends_bind.mpr ?_
    refine Ends.mono (P := fun _ v => Kept t w₀ none true none v ∧ (v.entries name).settings = (w.entries name).settings)
      (E := Kept t w₀ none true none) ?_ (fun _ v hv => ?_) fun _ hv => hv
    · unfold establishOnce
      split
      · next hc => exact establish_ends ht h hn hp hc.2 (hacc hp)
      · exact ⟨h, rfl⟩
    · refine ends_bind.mpr (ends_current.mpr (readInto_ends ht hv.1 (fun _ => ⟨rfl, ?_⟩) _))
      rw [hv.2]

theorem attempt_ends (ht : t (.profile name)) (h : Kept t w₀ none true none w) (hn : name ∈ w.names)
    (hacc : name ≠ primaryPrefix → (w.entries name).settings.accountId ≠ "") (action : SliceAction) :
    Ends (attempt name (w.entries name) action) (fun _ => Kept t w₀ none true none) (Kept t w₀ none true none) w := by
  refine ends_bind.mpr ((readSlices_ends ht h hn hacc action).mono ?_ fun _ hv => hv)
  rintro _ v ⟨hv, hapi⟩
  refine ends_setEntry.mpr (hv.setEntry ht (fun _ _ hn => hn) rfl ((hv.honest.known name).congr rfl rfl rfl)
    ((hv.honest.madeFor name).congr rfl rfl) fun hp hs => ?_)
  exact ⟨(hv.honest.backed name hp hs).data, fun _ => hapi hp⟩

theorem retain_upholds (ht : t (.profile name)) : Upholds (Kept t w₀ none true none) (retain name) := by
  intro w h
  refine ends_bind.mpr (ends_world.mpr (ends_setEntry.mpr ?_))
  refine h.setEntry ht (fun _ _ hn => hn) rfl ((h.honest.known name).congr rfl rfl rfl)
    ((h.honest.madeFor name).congr rfl rfl) fun hp _ => backed_empty rfl fun hc => ?_
  by_contra hnone
  simp [hp, hnone] at hc

theorem contained_ends (ht : t (.profile name)) {p : SessionAct Unit}
    (hp : Ends p (fun _ => Kept t w₀ none true none) (Kept t w₀ none true none) w) :
    Ends (contained name p) (fun _ => Kept t w₀ none true none) (Kept t w₀ none true none) w := by
  refine ends_bind.mpr ?_
  refine Ends.mono (P := fun _ => Kept t w₀ none true none) (ends_tryCatch hp fun _ v hv => retain_upholds ht v hv) (fun _ v hv => ?_)
    fun _ hv => hv
  exact ends_bind.mpr (ends_setEntry.mpr ((ends_pure _).mpr (hv.restate ht rfl rfl rfl rfl rfl rfl)))

theorem entryOf_ends {P : ProfileEntry → ProfileWorld → Prop} (hP : name ∈ w.names → P (w.entries name) w) (hE : E w) :
    Ends (entryOf name) P E w := by
  refine ends_bind.mpr (ends_world.mpr (ends_bind.mpr (ends_raiseIf (fun hn => ?_) fun _ => hE)))
  exact hP (not_not.mp hn)

theorem perform_upholds (ht : t (.profile name)) (action : SliceAction) : Upholds (Kept t w₀ none true none) (perform name action) := by
  intro w h
  refine ends_bind.mpr (entryOf_ends (fun hn => ?_) h)
  refine ends_bind.mpr (ends_raiseIf (fun hacc => contained_ends ht (attempt_ends ht h hn (fun hp he => ?_) action)) fun _ => h)
  exact hacc ⟨hp, he⟩

end Reading

section Selecting

theorem Ends.and {P' : α → ProfileWorld → Prop} {E' : ProfileWorld → Prop} (h : Ends p P E w) (h' : Ends p P' E' w) :
    Ends p (fun a v => P a v ∧ P' a v) (fun v => E v ∧ E' v) w :=
  Prog.wp_mono (Prog.wp_and h h') (fun _ _ _ => ⟨trivial, trivial⟩) (fun _ _ _ => trivial) (fun _ _ hv => hv) fun _ _ hv => hv

/-- A profile without a session. -/
theorem dropped (h : Kept t w₀ none true none w) (ht : t (.profile name)) (ha : (w.entries name).api = none)
    {f : ProfileEntry → ProfileEntry} (hf : f (w.entries name) = { w.entries name with
      api := none, state := .disconnected, data := {}, error := (f (w.entries name)).error, accounts := [], authentication := none }) :
    Kept t w₀ none true none (w.setEntry name f) := by
  have hnone : (f (w.entries name)).api = none := by rw [hf]
  refine h.setEntry ht (fun _ _ hn => hn) (hnone.trans ha.symm) ?_ (madeFor_none hnone) fun _ _ => ?_
  · rw [hf]
    exact (h.honest.known name).forget rfl rfl rfl
  · rw [hf]
    exact backed_empty rfl (by simp)

theorem dropped_release (h : Kept t w₀ none true none w) (ht : t (.profile name)) (ho : (w.entries name).api = some o)
    {f : ProfileEntry → ProfileEntry} (hf : f (w.entries name) = { w.entries name with
      api := none, state := .disconnected, data := {}, error := (f (w.entries name)).error, accounts := [], authentication := none }) :
    Kept t w₀ none true none ((w.shutDown o).setEntry name f) := by
  refine h.release ht ho (by rw [hf]) (fun _ _ hn => hn) ?_ fun _ _ => ?_
  · rw [hf]
    exact (h.honest.known name).forget rfl rfl rfl
  · rw [hf]
    exact backed_empty rfl (by simp)

theorem disconnect_ends (ht : t (.profile name)) (htc : name = primaryPrefix → t .capture) (hn : name ∈ w.names)
    (h : Kept t w₀ none true none w) : Ends (disconnect name) (fun _ => Kept t w₀ none true none) (Kept t w₀ none true none) w := by
  have hprimary : name ≠ "primary" := by
    rintro rfl
    exact h.sound.reserved hn
  have hcancel (v : ProfileWorld) (f : ProfileEntry → ProfileEntry) (hf : ∀ e, (f e).api = none)
      (hv : Kept t w₀ none true none (v.setEntry name f)) : Kept t w₀ none true none ((v.setEntry name f).cancel name) :=
    hv.cancel ht hprimary (by rw [setEntry_self, hf])
  refine ends_bind.mpr (ends_current.mpr (ends_bind.mpr ?_))
  unfold closeSession
  split
  · next hp =>
    refine (stop_upholds (htc hp) w h).mono (fun _ v hv => ?_) fun _ hv => hv
    have hnone : (v.entries name).api = none := hp ▸ hv.sound.mirrored
    exact ends_bind.mpr (ends_setEntry.mpr (ends_stopRenewal.mpr (hcancel _ _ (fun _ => rfl) (dropped hv ht hnone rfl))))
  · cases hapi : (w.entries name).api with
    | none =>
      exact (ends_pure ()).mpr (ends_bind.mpr (ends_setEntry.mpr (ends_stopRenewal.mpr
        (hcancel _ _ (fun _ => rfl) (dropped h ht hapi rfl)))))
    | some o =>
      refine ends_close (ends_bind.mpr (ends_setEntry.mpr (ends_stopRenewal.mpr (hcancel _ _ (fun _ => rfl) ?_))))
        (h.failHeld (k := .profile name) ht hapi)
      exact dropped_release h ht hapi rfl

theorem drop_upholds (ht : t (.profile name)) (htc : name = primaryPrefix → t .capture) :
    Upholds (Kept t w₀ none true none) (drop name) := by
  intro w h
  refine ends_bind.mpr (ends_discard.mpr (entryOf_ends (fun hn => ?_) h))
  exact contained_ends ht (disconnect_ends ht htc hn h)

theorem selectPrimary_upholds (htc : t .capture) (account : String) :
    Upholds (Kept t w₀ none true s) (selectPrimary name account) := by
  refine upholds_world fun v => (still_raiseIf _ _).upholds.bind fun _ => ?_
  refine Upholds.bind (fun w h => ends_current.mpr h) fun entry => Upholds.bind (upholds_setPrimary htc ?_ ?_) fun _ =>
    (still_loginState entry).upholds.bind fun state => connect_upholds htc account _
  · exact fun _ => rfl
  · exact fun _ => id

/-- Where a choice leaves the session of a profile. -/
structure Switched (t : Holder → Prop) (w₀ : ProfileWorld) (name account : String) (w v : ProfileWorld) : Prop where
  kept : Kept t w₀ none true (some name) v
  accounts : (v.entries name).accounts = (w.entries name).accounts
  session : (v.entries name).api = none ∨ account = (v.entries name).settings.accountId

theorem stale (h : Kept t w₀ none true none w) : Kept t w₀ none true (some name) w :=
  ⟨h.sound, ⟨h.honest.known, h.honest.madeFor, fun n hp _ => h.honest.backed n hp (by simp)⟩, h.frame⟩

theorem switch_ends (ht : t (.profile name)) (htc : name = primaryPrefix → t .capture) (h : Kept t w₀ none true none w) :
    Ends (switch name account) (fun _ => Switched t w₀ name account w) (Kept t w₀ none true none) w := by
  unfold switch
  split
  · next hp =>
    have hcapture : Kept (fun k => k = .capture) w none true none w := ⟨h.sound, h.honest, Frame.refl _ w⟩
    refine ((selectPrimary_upholds (htc hp) account w h).and (selectPrimary_upholds (t := fun k => k = .capture) rfl account w hcapture)).mono ?_ fun _ hv => hv.1
    rintro _ v ⟨hv, hc⟩
    have hentry : v.entries name = w.entries name := hc.frame.entries name (by simp)
    exact ⟨stale hv, by rw [hentry], Or.inl (hp ▸ hv.sound.mirrored)⟩
  · refine ends_bind.mpr (ends_current.mpr ?_)
    split
    · next hnone => exact (ends_pure ()).mpr ⟨stale h, rfl, Or.inl hnone⟩
    · next o ho =>
      split
      · next hacc =>
        have hsame : Switched t w₀ name account w w := ⟨stale h, rfl, Or.inr hacc⟩
        split
        · exact hsame
        · exact ends_discard.mpr (still_useLogin o _ _ _ w (fun _ => hsame) h)
      · refine ends_bind.mpr (ends_close (ends_setEntry.mpr ?_) (h.failHeld (k := .profile name) ht ho))
        refine ⟨h.release ht ho rfl (fun _ _ => by simp) ((h.honest.known name).congr rfl rfl rfl) fun _ hs => absurd rfl hs, ?_, ?_⟩
        · rw [setEntry_self]
          rfl
        · exact Or.inl (by rw [setEntry_self])

theorem settingsFor_accountId (st : ConnectionSettings) : (settingsFor st account).accountId = account := by
  unfold settingsFor
  split
  · next he => exact he.symm
  · rfl

theorem take_upholds (ht : t (.profile name)) (htc : name = primaryPrefix → t .capture) (account : String) :
    Upholds (Kept t w₀ none true none) (take name account) := by
  intro w h
  refine ends_bind.mpr (ends_current.mpr (ends_bind.mpr (ends_raiseIf (fun hchoice => ?_) fun _ => h)))
  refine ends_bind.mpr ((switch_ends ht htc h).mono ?_ fun _ hv => hv)
  intro _ v hv
  refine ends_bind.mpr (ends_setEntry.mpr (perform_upholds ht _ _ ?_))
  have hk := hv.kept
  obtain ⟨choice, hmem, rfl⟩ := List.mem_map.mp (not_not.mp hchoice)
  have hoffer := (hk.honest.known name).offered choice (hv.accounts ▸ hmem)
  refine hk.setEntry ht (fun n hne _ => fun he => hne (Option.some.inj he).symm) rfl ?_ ?_ fun _ _ => backed_empty rfl (by simp)
  · refine ⟨(hk.honest.known name).chosen, (hk.honest.known name).offered, fun _ => ?_⟩
    rw [settingsFor_accountId]
    exact hoffer.2
  · intro o ho
    rcases hv.session with hnone | hacc
    · cases hnone.symm.trans ho
    · have hmade := hk.honest.madeFor name o ho
      rw [← hacc] at hmade
      change (settingsFor _ choice.id).accountId ≠ "" ∧ ∃ s : ConnectionSettings, _ ∧ s.accountId = (settingsFor _ choice.id).accountId
      rw [settingsFor_accountId]
      exact hmade

theorem unlessConnected_upholds {K : ProfileWorld → Prop} {p : SessionAct Unit} (hp : Upholds K p) (state : LoginState) :
    Upholds K (unlessConnected state p) := by
  unfold unlessConnected
  split
  · exact upholds_pure ()
  · exact hp

theorem whenExpired_upholds {K : ProfileWorld → Prop} {p : SessionAct Unit} (hp : Upholds K p) (state : LoginState) :
    Upholds K (whenExpired state p) := by
  unfold whenExpired
  split
  · exact hp
  · exact upholds_pure ()

theorem entryOf_upholds : Upholds (Kept t w₀ none true none) (entryOf name) := fun _ h => entryOf_ends (fun _ => h) h

/-- By induction on the depth of the calls that discovery and choice make of each other. -/
theorem discover_select_upholds (ht : t (.profile name)) (htc : name = primaryPrefix → t .capture) (depth : Nat) :
    (∀ force, Upholds (Kept t w₀ none true none) (discover depth name force))
      ∧ ∀ account, Upholds (Kept t w₀ none true none) (select depth name account) := by
  induction depth with
  | zero => exact ⟨fun _ => (still_throw _).upholds, fun _ => (still_throw _).upholds⟩
  | succ depth ih =>
    constructor
    · intro force
      have hstate (entry : ProfileEntry) : Still (stateUnless force entry) := by
        cases force with
        | true => exact still_pure _
        | false => exact still_loginState entry
      refine entryOf_upholds.bind fun entry => (hstate entry).upholds.bind fun state =>
        (unlessConnected_upholds (lookUp_upholds ht) state).bind fun _ => ?_
      refine Upholds.bind (fun w h => ends_current.mpr h) fun entry => ?_
      split
      · exact ih.2 _
      · exact upholds_pure _
    · intro account
      refine entryOf_upholds.bind fun entry => (still_loginState entry).upholds.bind fun state =>
        (whenExpired_upholds (ih.1 true).discard state).bind fun _ => take_upholds ht htc account

theorem action_upholds (ht : t (.profile name)) (htc : name = primaryPrefix → t .capture) (depth : Nat) (a : ProfileAction) :
    Upholds (Kept t w₀ none true none) (action name depth a) := by
  cases a with
  | login => exact (discover_select_upholds ht htc depth).1 false
  | refreshLogin => exact (discover_select_upholds ht htc depth).1 true
  | select account => exact (discover_select_upholds ht htc depth).2 account
  | disconnect => exact drop_upholds ht htc
  | slice a => exact perform_upholds ht a
  | unknown => exact entryOf_upholds.discard.bind fun _ => (still_throw _).upholds

end Selecting

end Sessions

end MatchTrader
