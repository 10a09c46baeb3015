import Mathlib.Logic.Relation
import MatchTrader.ProfileCalls

/-! The dashboard from its start, over any calls in any order and any answers to them. -/

namespace MatchTrader

open Durable ProfileWorld Relation

namespace Sessions

variable {t : Holder → Prop} {w w₀ v : ProfileWorld} {l : Option Nat} {settled : Bool} {s : Option String} {name : String} {o : Nat}

section Closing

theorem closeProfile_upholds (name : String) : Upholds (Kept (fun _ => True) w₀ none true none) (closeProfile name) := by
  intro w h
  refine ends_bind.mpr (ends_current.mpr (ends_bind.mpr ?_))
  cases hapi : (w.entries name).api with
  | none =>
    have hheld : closeHeld (if name = primaryPrefix then none else none) = pure () := by
      rw [ite_self]
      rfl
    rw [hheld]
    exact (ends_pure ()).mpr (ends_setEntry.mpr (dropped h trivial hapi rfl))
  | some o =>
    have hp : name ≠ primaryPrefix := by
      rintro rfl
      cases h.sound.mirrored.symm.trans hapi
    rw [if_neg hp]
    exact ends_close (ends_setEntry.mpr (dropped_release h trivial hapi rfl)) (h.failHeld (k := .profile name) trivial hapi)

theorem upholds_forM {α : Type} {K : ProfileWorld → Prop} {f : α → SessionAct PUnit} (hf : ∀ a, Upholds K (f a)) (as : List α) :
    Upholds K (as.forM f) := by
  induction as with
  | nil => exact upholds_pure _
  | cons a as ih => exact (hf a).bind fun _ => ih

theorem closeAll_upholds : Upholds (Kept (fun _ => True) w₀ none true none) closeAll := by
  intro w h
  refine ends_bind.mpr (ends_commit.mpr ?_)
  have hclosing : Kept (fun _ => True) w₀ none true none { w with closing := true, renewers := [] } :=
    ⟨h.sound.close, h.honest.congr rfl rfl rfl, { h.frame with timers := fun _ _ hk => absurd trivial hk }⟩
  exact upholds_world (fun v => (upholds_forM closeProfile_upholds v.names).bind fun _ => stop_upholds trivial) _ hclosing

end Closing

section Showing

theorem still_sessionExpiresAt (api : Option Nat) (c : ConnectionState) : Still (sessionExpiresAt api c) := by
  unfold sessionExpiresAt
  split
  · exact still_pure _
  · split
    · exact still_query _
    · exact still_pure _

theorem still_expiryOf (e : ProfileEntry) : Still (expiryOf e) := by
  unfold expiryOf
  split
  · exact still_pure _
  · exact still_query _

/-- At most what the capture profile shows was cleared. -/
structure Cleared (w v : ProfileWorld) : Prop where
  entries : ∀ n, n ≠ primaryPrefix → v.entries n = w.entries n
  accounts : ∀ n, (v.entries n).accounts = (w.entries n).accounts
  trace : v.trace = w.trace
  names : v.names = w.names

theorem Cleared.refl (w : ProfileWorld) : Cleared w w := ⟨fun _ _ => rfl, fun _ => rfl, rfl, rfl⟩

theorem Cleared.trans {u : ProfileWorld} (h : Cleared w v) (h' : Cleared v u) : Cleared w u where
  entries n hn := (h'.entries n hn).trans (h.entries n hn)
  accounts n := (h'.accounts n).trans (h.accounts n)
  trace := h'.trace.trans h.trace
  names := h'.names.trans h.names

theorem clearStale_upholds (ht : t (.profile primaryPrefix)) : Upholds (Kept t w₀ none true none) (clearStale name) := by
  intro w h
  refine ends_bind.mpr (ends_world.mpr ?_)
  split
  · next hp =>
    obtain ⟨rfl, _⟩ := hp
    exact ends_setEntry.mpr (h.setEntry ht (fun _ _ hn => hn) rfl ((h.honest.known _).congr rfl rfl rfl)
      ((h.honest.madeFor _).congr rfl rfl) fun hne _ => absurd rfl hne)
  · exact h

/-- What a row shows is what its profile has. -/
structure Mirrors (w : ProfileWorld) (row : ProfileRow) : Prop where
  data : row.profile ≠ primaryPrefix → row.data = (w.entries row.profile).data
  account : row.profile ≠ primaryPrefix → row.accountId = (w.entries row.profile).settings.accountId
  accounts : ∀ a ∈ row.accounts, a ∈ (w.entries row.profile).accounts

theorem snapshotRow_upholds (ht : t (.profile primaryPrefix)) : Upholds (Kept t w₀ none true none) (snapshotRow name) := by
  refine Upholds.bind (fun w h => ends_current.mpr h) fun entry => (still_loginState entry).upholds.bind fun _ =>
    (still_expiryOf entry).upholds.bind fun _ => (clearStale_upholds ht).bind fun _ => upholds_world fun v => ?_
  exact (still_sessionExpiresAt _ _).upholds.bind fun _ => still_now.upholds.bind fun _ =>
    (still_sessionExpiresAt _ _).upholds.bind fun _ => Upholds.bind (fun w h => ends_current.mpr h) fun _ => upholds_pure _

theorem mapM_ends {α β : Type} {K : ProfileWorld → Prop} {Q : α → β → Prop} {f : α → SessionAct β}
    (hf : ∀ a w, K w → Ends (f a) (fun b v => K v ∧ Q a b) K w) (as : List α) (h : K w) :
    Ends (as.mapM f) (fun bs v => K v ∧ List.Forall₂ Q as bs) K w := by
  induction as generalizing w with
  | nil =>
    rw [List.mapM_nil]
    exact ⟨h, .nil⟩
  | cons a as ih =>
    rw [List.mapM_cons]
    refine ends_bind.mpr ((hf a w h).mono ?_ fun _ hv => hv)
    rintro b v ⟨hv, hq⟩
    refine ends_bind.mpr ((ih hv).mono ?_ fun _ hu => hu)
    rintro bs u ⟨hu, hqs⟩
    exact ⟨hu, .cons hq hqs⟩

theorem snapshot_upholds (ht : t (.profile primaryPrefix)) : Upholds (Kept t w₀ none true none) snapshot := by
  refine upholds_world fun v => ?_
  intro w h
  refine (mapM_ends (Q := fun _ _ => True) (fun name w hw => ?_) v.names h).mono (fun _ _ hv => hv.1) fun _ hv => hv
  exact (snapshotRow_upholds ht w hw).mono (fun _ _ hv => ⟨hv, trivial⟩) fun _ hv => hv

end Showing

section Runs

/-- A call that the dashboard is asked for, and the observer's end. -/
inductive SessionOp where
  | profile (depth : Nat) (name : String) (a : ProfileAction)
  | snapshot
  | connect (account : String)
  | start (account : Option String)
  | stop
  | watchFails
  | setCopying (enabled : Bool)
  | refreshSession
  | refreshOrders
  | close

namespace SessionOp

def run : SessionOp → SessionAct Unit
  | profile depth name a => discard (action name depth a)
  | snapshot => discard Sessions.snapshot
  | connect account => Sessions.connect account none
  | start account => Sessions.start account
  | stop => Sessions.stop
  | watchFails => Sessions.watchFails
  | setCopying enabled => Sessions.setCopying enabled
  | refreshSession => Sessions.refreshSession
  | refreshOrders => Sessions.refreshOrders
  | close => closeAll

/-- The holders that a call concerns: its profile, or the capture session, which has a profile as well. -/
def Touches : SessionOp → Holder → Prop
  | profile _ name _, k => k = .profile name ∨ name = primaryPrefix ∧ k = .capture
  | snapshot, k => k = .profile primaryPrefix
  | close, _ => True
  | _, k => k = .capture

theorem run_upholds (op : SessionOp) : Upholds (Kept op.Touches w₀ none true none) op.run := by
  cases op with
  | profile depth name a => exact (action_upholds (Or.inl rfl) (fun hp => Or.inr ⟨hp, rfl⟩) depth a).discard
  | snapshot => exact (snapshot_upholds (show snapshot.Touches (.profile primaryPrefix) from rfl)).discard
  | connect account => exact connect_upholds (show (connect account).Touches .capture from rfl) account none
  | start account => exact start_upholds (show (start account).Touches .capture from rfl) account
  | stop => exact stop_upholds rfl
  | watchFails => exact watchFails_upholds rfl
  | setCopying enabled => exact setCopying_upholds (show (setCopying enabled).Touches .capture from rfl) enabled
  | refreshSession => exact refreshSession_upholds rfl
  | refreshOrders => exact refreshOrders_upholds rfl
  | close => exact closeAll_upholds

end SessionOp

/-- One call, with these answers to what it asks. -/
def Step (w v : ProfileWorld) : Prop := ∃ (op : SessionOp) (env : Nat → (q : SessionQuery) → SessionReply q), v = (op.run.eval env w).1

/-- Where a call ends, whatever it is answered. -/
theorem Ends.eval {α : Type} {p : SessionAct α} {P : α → ProfileWorld → Prop} {E : ProfileWorld → Prop} (h : Ends p P E w)
    (env : Nat → (q : SessionQuery) → SessionReply q) :
    (∀ a, (p.eval env w).2 = .ok a → P a (p.eval env w).1) ∧ ∀ e, (p.eval env w).2 = .error e → E (p.eval env w).1 :=
  (Prog.wp_eval h env fun _ _ => trivial).2

theorem Upholds.eval {α : Type} {p : SessionAct α} {K : ProfileWorld → Prop} (h : Upholds K p) (hw : K w)
    (env : Nat → (q : SessionQuery) → SessionReply q) : K (p.eval env w).1 := by
  obtain ⟨hok, herr⟩ := (h w hw).eval env
  cases hr : (p.eval env w).2 with
  | ok a => exact hok a hr
  | error e => exact herr e hr

theorem step_kept (h : Sound w none true) (hh : Honest w none) (op : SessionOp) (env : Nat → (q : SessionQuery) → SessionReply q) :
    Kept op.Touches w none true none (op.run.eval env w).1 :=
  (SessionOp.run_upholds op).eval ⟨h, hh, Frame.refl _ w⟩ env

section Start

variable {host : ProfileHost} {values : List (String × Option String)} {profiles : List (String × ConnectionSettings)}

/-- Profiles as they are loaded. -/
structure Loaded (names : List String) (profiles : List (String × ConnectionSettings)) : Prop where
  order : profiles.map Prod.fst = names
  valid : ∀ n ∈ names, validPrefix n = true
  plain : ∀ p ∈ profiles, p.2.accountId = ""

theorem loadEach_loaded (hp : host.Plain) {names : List String} {identities : List (String × String × String)}
    (h : loadEach host values names identities = .ok profiles) : Loaded names profiles := by
  induction names generalizing identities profiles with
  | nil =>
    obtain rfl := Except.ok.inj h
    exact ⟨rfl, List.forall_mem_nil _, List.forall_mem_nil _⟩
  | cons name names ih =>
    rw [loadEach, bind_eq_ok] at h
    obtain ⟨_, hv, h⟩ := h
    obtain ⟨st, hst, h⟩ := bind_eq_ok.mp h
    obtain ⟨_, _, h⟩ := bind_eq_ok.mp h
    obtain ⟨rest, hrest, h⟩ := bind_eq_ok.mp h
    obtain rfl := Except.ok.inj h
    have hh := ih hrest
    have hvalid : validPrefix name = true := Bool.not_eq_false _ ▸ raiseIf_eq_ok.mp hv
    have hplain : st.accountId = "" := by
      refine hp _ st (fun f hf => ?_) hst
      exact of_decide_eq_true (List.mem_filter.mp hf).2
    refine ⟨by rw [List.map_cons, hh.order], fun n hn => ?_, fun p hm => ?_⟩
    · rcases List.mem_cons.mp hn with rfl | hn
      · exact hvalid
      · exact hh.valid n hn
    · rcases List.mem_cons.mp hm with rfl | hm
      · exact hplain
      · exact hh.plain p hm

theorem init_sound (h : Loaded (profiles.map Prod.fst) profiles) (labels : List (String × String)) (st : ConnectionSettings) :
    Sound (ProfileWorld.init profiles labels st) none true := by
  have hnone (k : Holder) : (ProfileWorld.init profiles labels st).holds k = none := by cases k <;> rfl
  constructor
  · exact fun _ _ => rfl
  · rfl
  · intro hm
    have hv := h.valid _ hm
    revert hv
    decide
  · intro k o ho
    cases (hnone k).symm.trans ho
  · intro k o ho
    cases (hnone k).symm.trans ho
  · intro k k' o ho
    cases (hnone k).symm.trans ho
  · intro o ho
    cases ho
  · intro o ho
    cases ho
  · intro o ho
    cases ho
  · exact List.nodup_nil
  · intro _ n o ho
    cases ho
  · intro _ _ _ _ o ho
    cases ho

theorem init_honest (h : Loaded (profiles.map Prod.fst) profiles) (labels : List (String × String)) (st : ConnectionSettings) :
    Honest (ProfileWorld.init profiles labels st) none := by
  constructor
  · intro n
    refine ⟨rfl, fun a ha => (by cases ha), fun hne => ?_⟩
    exfalso
    apply hne
    change (((Rows.lookup Prod.fst n profiles).map Prod.snd).getD { st with accountId := "" }).accountId = ""
    cases hl : Rows.lookup Prod.fst n profiles with
    | none => rfl
    | some p => exact h.plain p (Rows.lookup_mem hl).1
  · exact fun n => madeFor_none rfl
  · exact fun n _ _ => backed_empty rfl (by simp [ProfileWorld.init])

/-- The dashboard after some calls, loaded from these variables. -/
def Reachable (host : ProfileHost) (w : ProfileWorld) : Prop :=
  ∃ values profiles labels st, loadProfiles host values = .ok profiles ∧ ReflTransGen Step (ProfileWorld.init profiles labels st) w

theorem Reachable.sound (hp : host.Plain) (h : Reachable host w) : Sound w none true ∧ Honest w none := by
  obtain ⟨values, profiles, labels, st, hload, hrun⟩ := h
  obtain ⟨_, _, hload⟩ := bind_eq_ok.mp hload
  have hl := loadEach_loaded hp hload
  rw [← hl.order] at hl
  induction hrun with
  | refl => exact ⟨init_sound hl labels st, init_honest hl labels st⟩
  | tail _ hs ih =>
    obtain ⟨op, env, rfl⟩ := hs
    have hk := step_kept ih.1 ih.2 op env
    exact ⟨hk.sound, hk.honest⟩

section Sample

theorem perMinute_mem : 1 ≤ 450 ∧ 450 ≤ 500 := by decide

def sampleSettings (platformUrl accountId : String) : ConnectionSettings :=
  { platformUrl, accountId, requestsPerMinute_mem := perMinute_mem }

/-- `Settings`, of the fields that a sample has. -/
def sampleLoader : ProfileHost where
  settings fields := .ok (sampleSettings ((Rows.lookup Prod.fst "platform_url" fields).elim "" Prod.snd)
    ((Rows.lookup Prod.fst "account_id" fields).elim "" Prod.snd))
  casefold := id

theorem sampleLoader_plain : sampleLoader.Plain := by
  intro fields st hf hst
  obtain rfl := Except.ok.inj hst
  have hnone : Rows.lookup Prod.fst "account_id" fields = none := Rows.lookup_eq_none_iff.mpr hf
  change (Rows.lookup Prod.fst "account_id" fields).elim "" Prod.snd = ""
  rw [hnone]
  rfl

/-- A broker that has the account 7, with nothing on it. -/
def sampleAnswers (_ : Nat) : (q : SessionQuery) → SessionReply q
  | .clock => noon 0
  | .loginExpiry _ => none
  | .make _ | .close _ | .useLogin _ _ | .openJournal _ | .closeJournal | .openSources _ => .ok ()
  | .discoverAccounts _ | .login _ => .ok { token := "t", accounts := [⟨"7", true⟩] }
  | .accountId _ => "7"
  | .sessionExpiresAt _ => none
  | .balance _ => .ok [("balance", .str "5")]
  | .activeOrders _ | .openPositions _ => .ok []
  | .workerAlive => false

def sampleVariables : List (String × Option String) := [("B_PLATFORM_URL", some "https://b")]

def sampleProfiles : List (String × ConnectionSettings) := [("AQF", sampleSettings "" ""), ("B", sampleSettings "https://b" "")]

/-- The profile B logs in and takes its account. -/
def sampleDashboard : ProfileWorld :=
  ((SessionOp.profile 2 "B" (.select "7")).run.eval sampleAnswers
    ((SessionOp.profile 2 "B" .login).run.eval sampleAnswers (ProfileWorld.init sampleProfiles [] (sampleSettings "" ""))).1).1

theorem sampleDashboard_reachable : Reachable sampleLoader sampleDashboard := by
  refine ⟨sampleVariables, sampleProfiles, [], sampleSettings "" "", rfl, ?_⟩
  exact (ReflTransGen.single ⟨_, sampleAnswers, rfl⟩).tail ⟨_, sampleAnswers, rfl⟩

end Sample

/-- No broker session is lost: it is held by one profile or by the capture session, or `close` was called on it. A held
session was never closed, nobody else holds it, and, until the dashboard closes, the one renewer under the name of its
profile is its own; so is the one of the capture session while that is connected, as long as no `close` has raised. -/
theorem sessions_held (hp : host.Plain) (h : Reachable host w) :
    (∀ o < w.made.length, o ∈ w.shut ∨ o ∈ w.failed ∨ ∃ k, w.holds k = some o)
      ∧ (∀ k o, w.holds k = some o → o < w.made.length ∧ o ∉ w.shut ∧ ∀ k', w.holds k' = some o → k' = k)
      ∧ (w.closing = false → ∀ n o, (w.entries n).api = some o → ∀ q, (n, q) ∈ w.renewers ↔ q = o)
      ∧ (w.closing = false → w.failed = [] → w.primary.connection = .connected → ∀ o, w.primary.api = some o →
        ∀ q, ("primary", q) ∈ w.renewers ↔ q = o) := by
  obtain ⟨hs, _⟩ := h.sound hp
  have hone {n : String} {o q : Nat} (ho : (n, o) ∈ w.renewers) : (n, q) ∈ w.renewers ↔ q = o := by
    constructor
    · intro hq
      exact congrArg Prod.snd (List.inj_on_of_nodup_map hs.timers hq ho rfl)
    · rintro rfl
      exact ho
  refine ⟨fun o ho => ?_, fun k o ho => ⟨hs.made k o ho, hs.unshut k o ho, fun k' ho' => hs.apart k' k o ho' ho⟩, ?_, ?_⟩
  · rcases hs.accounted o ho with hc | hc | hc | hc
    · exact Or.inl hc
    · exact Or.inr (Or.inl hc)
    · cases hc
    · exact Or.inr (Or.inr hc)
  · intro hc n o ho q
    exact hone (hs.timed hc n o ho)
  · intro hc hf hcon o ho q
    exact hone (hs.captured rfl hc hf hcon o ho)

theorem sessions_held_sample : (∀ o < 2, o ∈ sampleDashboard.shut ∨ o ∈ sampleDashboard.failed ∨ ∃ k, sampleDashboard.holds k = some o)
    ∧ 1 ∉ sampleDashboard.shut ∧ ∀ q, ("B", q) ∈ sampleDashboard.renewers ↔ q = 1 := by
  have h := sessions_held sampleLoader_plain sampleDashboard_reachable
  exact ⟨h.1, (h.2.1 (.profile "B") 1 rfl).2.1, h.2.2.1 rfl "B" 1 rfl⟩

/-- Brokers are isolated: a call leaves every other profile as it is, and the capture session too unless it is a call on
that or on its profile; their sessions stay open, and their renewers are the same. -/
theorem calls_isolated (hp : host.Plain) (h : Reachable host w) (op : SessionOp) (env : Nat → (q : SessionQuery) → SessionReply q)
    (hv : v = (op.run.eval env w).1) :
    (∀ n, ¬ op.Touches (.profile n) → v.entries n = w.entries n) ∧ (¬ op.Touches .capture → v.primary = w.primary)
      ∧ ∀ k, ¬ op.Touches k → v.holds k = w.holds k
        ∧ (∀ o, w.holds k = some o → o ∉ v.shut ∧ (o ∈ v.failed → o ∈ w.failed))
        ∧ ((∀ n, k = .profile n → n ∈ w.names) → ∀ o, (k.timer, o) ∈ v.renewers ↔ (k.timer, o) ∈ w.renewers) := by
  obtain ⟨hs, hh⟩ := h.sound hp
  subst hv
  have hf := (step_kept hs hh op env).frame
  refine ⟨hf.entries, hf.primary, fun k hk => ⟨hf.holds hk, fun o ho => ⟨fun hc => ?_, ?_⟩, fun hn o => hf.timers k o hk hn⟩⟩
  · exact hs.unshut k o ho (hf.shut k o hk ho hc)
  · exact fun hc => hf.failed k o hk ho hc

theorem calls_isolated_sample :
    (((SessionOp.profile 2 "B" .disconnect).run.eval sampleAnswers sampleDashboard).1).entries "AQF" = sampleDashboard.entries "AQF" :=
  (calls_isolated sampleLoader_plain sampleDashboard_reachable (.profile 2 "B" .disconnect) sampleAnswers rfl).1 "AQF" (by
    simp [SessionOp.Touches])

end Start

end Runs

end Sessions

end MatchTrader
