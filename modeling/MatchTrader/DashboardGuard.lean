import MatchTrader.DashboardServer

/-! What a request to the dashboard can lead to: each call is one that its credentials allow, whatever the controller, the sockets and
the files answer, and no second answer follows one that has gone out. -/

namespace MatchTrader.Serving

open Durable Relation
open Proxy (Command)

/-- A path none of whose characters means anything else in an address. -/
def plainPath (path : String) : Bool :=
  match path.toList with
  | '/' :: c :: rest => c ≠ '/' && (c :: rest).all fun d => d.isAlphanum || d = '/' || d = '-'
  | _ => false

def ServerEvent.begins : ServerEvent → Bool
  | .began _ => true
  | _ => false

def ServerEvent.sends : ServerEvent → Bool
  | .sent _ => true
  | _ => false

def ServerEvent.acquires : ServerEvent → Bool
  | .acquired => true
  | _ => false

def ServerEvent.releases : ServerEvent → Bool
  | .released => true
  | _ => false

section Permission

variable (s : DashboardServer) (r : HttpRequest)

/-- What a call asks of a request that comes from this machine. -/
def Permitted : ServerCall → Prop
  | .view _ | .selected => s.authorized r = true
  | .act _ _ => s.authorized r = true ∧ r.command = .post
  | .notifyStream => r.command = .post ∧ (s.authorized r = true ∨ s.bearer r = true)
  | .rawAppend _ source _ _ => r.command = .post ∧ if source = "x17-signal" then r.get? "Origin" = none else s.bearer r = true
  | .receiveSignals _ => r.command = .post ∧ r.get? "Origin" = none
  | .acceptLog _ _ | .acceptRelay _ => r.command = .post ∧ r.get? "Origin" = none ∧ s.bearer r = true
  | .receiveNative _ | .receive _ => r.command = .post ∧ s.bearer r = true
  | .ticket | .forward _ _ _ _ _ => s.admitted r = true

/-- What may happen while a request is handled. -/
def Fine : ServerEvent → Prop
  | .called c => s.trusted r = true ∧ Permitted s r c
  | .received size => s.trusted r = true ∧ size ≤ maxSignalBody
  | .opened file => s.trusted r = true ∧ r.command = .get ∧ s.assets <+: file
  | .began a | .sent a => s.trusted r = true ∨ a.status = 403 ∨ a.status = 404
  | .acquired | .streamed _ | .released => s.trusted r = true ∧ s.authorized r = true
  | .shutdown => s.trusted r = true ∧ s.authorized r = true ∧ r.command = .post

end Permission

def Unsent (t : List ServerEvent) : Prop := ∀ e ∈ t, e.sends = false

/-- Every slot that was taken has been given back. -/
def Even (t : List ServerEvent) : Prop := t.countP ServerEvent.acquires = t.countP ServerEvent.releases

structure Ready (t : List ServerEvent) : Prop where
  unsent : Unsent t
  even : Even t

def Adds (s : DashboardServer) (r : HttpRequest) (t u : List ServerEvent) : Prop :=
  ∃ e, u = t ++ [e] ∧ Fine s r e ∧ (e.begins = true → Unsent t)

/-- A part of a handler, begun before an answer has gone out; after an exception none has either. -/
def Serves {α : Type} (s : DashboardServer) (r : HttpRequest) (p : Act α) (P : α → List ServerEvent → Prop) : Prop :=
  ∀ t, Ready t → p.wp (fun _ _ => True) (Adds s r) P (fun _ => Ready) t

/-- The part answers nothing. -/
abbrev Keeps {α : Type} (s : DashboardServer) (r : HttpRequest) (p : Act α) : Prop := Serves s r p fun _ => Ready

/-- There is something left to answer, or it has been answered. -/
def After {α : Type} : Option α → List ServerEvent → Prop
  | some _ => Ready
  | none => Even

variable {α β : Type} {s : DashboardServer} {r : HttpRequest} {p : Act α} {f : α → Act β} {P : α → List ServerEvent → Prop}
  {Q : β → List ServerEvent → Prop} {a : α}

section Rules

theorem Serves.mono {P' : α → List ServerEvent → Prop} (h : Serves s r p P) (hP : ∀ a t, P a t → P' a t) : Serves s r p P' :=
  fun t ht => Prog.wp_consequence (h t ht) hP fun _ _ => id

theorem Serves.bind (h : Keeps s r p) (hf : ∀ a, Serves s r (f a) Q) : Serves s r (p >>= f) Q := by
  intro t ht
  rw [Prog.wp_bind]
  exact Prog.wp_consequence (h t ht) (fun a u hu => hf a u hu) fun _ _ => id

theorem Serves.next {p : Act Unit} {q : Act β} (h : Keeps s r p) (hq : Serves s r q Q) : Serves s r (p >>= fun _ => q) Q :=
  Serves.bind h fun _ => hq

/-- Nothing is answered after the part has answered. -/
theorem Serves.last {p : Act Unit} {b : β} (h : Serves s r p fun _ => Even) (hQ : ∀ t, Even t → Q b t) :
    Serves s r (p >>= fun _ => pure b) Q := by
  intro t ht
  rw [Prog.wp_bind]
  exact Prog.wp_consequence (h t ht) (fun _ u hu => hQ u hu) fun _ _ => id

/-- Where the part has answered, what follows does nothing. -/
theorem Serves.option {p : Act (Option α)} {f : Option α → Act β} {b : β} (h : Serves s r p After) (hnone : f none = pure b)
    (hQ : ∀ t, Even t → Q b t) (hsome : ∀ a, Serves s r (f (some a)) Q) : Serves s r (p >>= f) Q := by
  intro t ht
  rw [Prog.wp_bind]
  refine Prog.wp_consequence (h t ht) (fun result u hu => ?_) fun _ _ => id
  cases result with
  | none =>
    rw [hnone]
    exact hQ u hu
  | some a => exact hsome a u hu

theorem Serves.catch {handler : Exc → Act α} (h : Serves s r p P) (hh : ∀ e, Serves s r (handler e) P) : Serves s r (tryCatch p handler) P := by
  intro t ht
  rw [Prog.wp_tryCatch]
  exact Prog.wp_consequence (h t ht) (fun _ _ => id) fun e u hu => hh e u hu

theorem serves_throw (e : Exc) : Serves s r (throw e : Act α) P := fun _ ht => ht

theorem Serves.rescue {catches : Exc → Bool} {handler : Exc → Act α} (h : Serves s r p P) (hh : ∀ e, Serves s r (handler e) P) :
    Serves s r (rescue p catches handler) P := by
  refine h.catch fun e => ?_
  by_cases he : catches e = true
  · rw [if_pos he]
    exact hh e
  · rw [if_neg he]
    exact serves_throw e

theorem keeps_pure (a : α) : Keeps s r (pure a : Act α) := fun _ ht => ht

theorem keeps_ofExcept (x : Except Exc α) : Keeps s r (Prog.ofExcept x) := by
  cases x with
  | ok a => exact keeps_pure a
  | error e => exact serves_throw e

theorem keeps_query (q : ServerQuery) : Keeps s r (Prog.query q) := fun _ ht _ _ => ht

theorem keeps_ask {p : Act (Except Exc α)} (h : Keeps s r p) : Keeps s r (ask p) := Serves.bind h keeps_ofExcept

theorem keeps_arrive : Keeps s r arrive := keeps_ask (keeps_query .arrive)

theorem Serves.map {f : α → β} (h : Keeps s r p) (hQ : ∀ a t, Ready t → Q (f a) t) : Serves s r (f <$> p) Q := by
  intro t ht
  rw [Prog.wp_map]
  exact Prog.wp_consequence (h t ht) (fun a u hu => hQ a u hu) fun _ _ => id

theorem keeps_raiseIf (c : Prop) [Decidable c] (e : Exc) : Keeps s r (raiseIf c e : Act Unit) := by
  unfold raiseIf
  by_cases hc : c
  · rw [if_pos hc]
    exact serves_throw e
  · rw [if_neg hc]
    exact keeps_pure ()

theorem Unsent.append {t : List ServerEvent} {e : ServerEvent} (h : Unsent t) (hs : e.sends = false) : Unsent (t ++ [e]) := by
  intro x hx
  rcases List.mem_append.mp hx with hx | hx
  · exact h x hx
  · rw [List.mem_singleton.mp hx]
    exact hs

theorem Even.append {t u : List ServerEvent} (ht : Even t) (hu : Even u) : Even (t ++ u) := by
  unfold Even at ht hu ⊢
  rw [List.countP_append, List.countP_append, ht, hu]

theorem Ready.append {t : List ServerEvent} {e : ServerEvent} (h : Ready t) (hs : e.sends = false) (he : Even [e]) : Ready (t ++ [e]) :=
  ⟨h.unsent.append hs, h.even.append he⟩

theorem keeps_emit {e : ServerEvent} (hf : Fine s r e) (hb : e.begins = false) (hs : e.sends = false) (he : Even [e]) : Keeps s r (emit e) := by
  intro t ht
  refine (Prog.wp_commit _).mpr ⟨⟨e, rfl, hf, fun h => ?_⟩, ht.append hs he⟩
  rw [hb] at h
  cases h

theorem keeps_call {c : ServerCall} (hf : Fine s r (.called c)) : Keeps s r (call c) :=
  Serves.next (keeps_emit hf rfl rfl rfl) (keeps_ask (keeps_query (.call c)))

theorem keeps_discard {c : ServerCall} (hf : Fine s r (.called c)) : Keeps s r (discard (call c)) := by
  intro t ht
  rw [Prog.wp_discard]
  exact Prog.wp_consequence (keeps_call hf t ht) (fun _ _ hu => hu) fun _ _ => id

theorem keeps_view (v : View) (ht : s.trusted r = true) (ha : s.authorized r = true) : Keeps s r (view v) := keeps_call ⟨ht, ha⟩

section Calls

variable (ht : s.trusted r = true) (hc : r.command = .post)

include ht hc

theorem keeps_rawAppend {direction source : String} {message : Json} (hs : source ≠ "x17-signal") (hb : s.bearer r = true) :
    Keeps s r (rawAppend direction source message s.bridgeToken) :=
  keeps_discard ⟨ht, hc, by rw [if_neg hs]; exact hb⟩

theorem keeps_perform (ha : s.authorized r = true) (a : Action) (args : List Json) : Keeps s r (perform a args) := keeps_call ⟨ht, ha, hc⟩

theorem keeps_notifyStream (ha : s.authorized r = true) : Keeps s r (discard (call .notifyStream)) := keeps_discard ⟨ht, hc, Or.inl ha⟩

end Calls

theorem serves_send {a : Answer} (ha : s.trusted r = true ∨ a.status = 403 ∨ a.status = 404) : Serves s r (send a) fun _ => Even := by
  have hbegin : Serves s r (emit (.began a)) fun _ => Ready := by
    intro t ht
    exact (Prog.wp_commit _).mpr ⟨⟨_, rfl, ha, fun _ => ht.unsent⟩, ht.append rfl rfl⟩
  refine Serves.next hbegin (Serves.bind (keeps_ask (keeps_query (.write a))) fun _ t ht => ?_)
  exact (Prog.wp_commit _).mpr ⟨⟨_, rfl, ha, fun h => (by cases h)⟩, ht.even.append rfl⟩

theorem serves_reply (status : Nat) (body : Json) (ht : s.trusted r = true) : Serves s r (reply status body) fun _ => Even :=
  serves_send (Or.inl ht)

theorem serves_refuse (status : Nat) (message : String) (ht : s.trusted r = true ∨ status = 403 ∨ status = 404) :
    Serves s r (refuse status message) fun _ => Even :=
  serves_send ht

theorem serves_tell (status : Nat) (message : String) (ht : s.trusted r = true) : Serves s r (tell status message : Act (Option α)) After :=
  Serves.last (serves_refuse status message (Or.inl ht)) fun _ he => he

theorem serves_ite {c : Prop} [Decidable c] {p q : Act α} (hp : c → Serves s r p P) (hq : ¬ c → Serves s r q P) :
    Serves s r (if c then p else q) P := by
  by_cases hc : c
  · rw [if_pos hc]
    exact hp hc
  · rw [if_neg hc]
    exact hq hc

end Rules

section Bounds

theorem forwardFrame_length {headers : List Field} {frame body : List UInt8} (h : ForwardFrame headers frame body) : body.length ≤ maxSignalBody := by
  cases h with
  | empty => exact Nat.zero_le _
  | sized _ _ _ _ _ hm => exact hm
  | chunked _ _ _ _ hm => exact hm

theorem bodyLimit_le (route : String) : bodyLimit route ≤ maxSignalBody := by
  unfold bodyLimit
  by_cases hl : route = "/logging/events"
  · rw [if_pos hl]
    decide
  · rw [if_neg hl]
    by_cases hs : route = "/capture/signals"
    · rw [if_pos hs]
    · rw [if_neg hs]
      decide

/-- The paths of the actions. -/
def actionPaths : List String :=
  "/api/shutdown" :: routes.map Prod.fst ++ ["/api/tradingbox-forwarding", "/api/broker-profiles/action", "/api/orders/closed", "/api/account-view"]

theorem actionPaths_plain {p : String} (hp : p ∈ actionPaths) : plainPath p = true ∧ p ∉ senderPaths := by
  have hall : actionPaths.all (fun p => plainPath p && !senderPaths.contains p) = true := by decide +kernel
  have h := List.all_eq_true.mp hall p hp
  rw [Bool.and_eq_true, Bool.not_eq_true', List.contains_eq_mem, decide_eq_false_iff_not] at h
  exact h

end Bounds

section Handlers

variable [ServerHost] {body : List UInt8} {route path : String} {payload : Json} {length : Nat}

theorem serves_takeForwarded (ht : s.trusted r = true) (ha : s.admitted r = true) : Serves s r (takeForwarded r) After := by
  refine Serves.rescue ?_ fun _ => serves_tell _ _ ht
  refine Serves.bind (keeps_ofExcept _) fun _ => Serves.bind (keeps_call ⟨ht, ha⟩) fun _ => Serves.bind keeps_arrive fun stream => ?_
  intro t hready
  cases hread : Dashboard.readForwardBody r.headers stream with
  | error e => exact hready
  | ok read =>
    obtain ⟨frame, -, hframe⟩ := Dashboard.readForwardBody_iff.mp hread
    have hfine : Fine s r (.received read.1.length) := ⟨ht, forwardFrame_length hframe⟩
    exact (Prog.wp_bind _ _).mpr (keeps_emit hfine rfl rfl rfl t hready)

theorem serves_forwardTradingbox : Serves s r (forwardTradingbox s r) fun _ => Even := by
  refine serves_ite (fun _ => serves_refuse _ _ (Or.inr (Or.inl rfl))) fun ht => ?_
  have ht := not_not.mp ht
  refine serves_ite (fun _ => serves_refuse _ _ (Or.inl ht)) fun ha => ?_
  have ha := not_not.mp ha
  refine Serves.option (serves_takeForwarded ht ha) rfl (fun _ h => h) fun taken => ?_
  refine Serves.option ?_ rfl (fun _ h => h) fun response => serves_send (Or.inl ht)
  exact Serves.catch (Serves.map (keeps_call ⟨ht, ha⟩) fun _ _ h => h) fun _ => serves_tell _ _ ht

omit [ServerHost] in
theorem serves_stream (k : StreamKind) (ht : s.trusted r = true) (ha : s.authorized r = true) : Serves s r (stream k) fun _ => Even := by
  refine Serves.bind (keeps_query _) fun free => serves_ite (fun _ => serves_refuse _ _ (Or.inl ht)) fun _ => ?_
  -- Between the slot's events the trace is not even.
  intro t hready
  have heven : Even ([.acquired] ++ ([.streamed k] ++ [.released])) := rfl
  have hdone : Ready (t ++ [.acquired] ++ [.streamed k] ++ [.released]) := by
    refine ⟨((hready.unsent.append rfl).append rfl).append rfl, ?_⟩
    rw [List.append_assoc, List.append_assoc]
    exact hready.even.append heven
  have hadds (u : List ServerEvent) (e : ServerEvent) (hf : Fine s r e) (he : e.begins = false) : Adds s r u (u ++ [e]) :=
    ⟨e, rfl, hf, fun h => by rw [he] at h; cases h⟩
  refine (Prog.wp_bind _ _).mpr ⟨hadds _ _ ⟨ht, ha⟩ rfl, ?_⟩
  refine (Prog.wp_bind _ _).mpr ((Prog.wp_tryCatch _ _).mpr ((Prog.wp_tryCatch _ _).mpr ((Prog.wp_bind _ _).mpr ⟨hadds _ _ ⟨ht, ha⟩ rfl, ?_⟩)))
  refine (Prog.wp_bind _ _).mpr fun outcome _ => ?_
  have hrelease : Adds s r (t ++ [.acquired] ++ [.streamed k]) (t ++ [.acquired] ++ [.streamed k] ++ [.released]) := hadds _ _ ⟨ht, ha⟩ rfl
  cases outcome with
  | ok => exact ⟨hrelease, hdone.even⟩
  | error e =>
    change Prog.wp _ _ (if Proxy.isOsError e then pure () else throw e) _ _ _
    by_cases he : Proxy.isOsError e = true
    · rw [if_pos he]
      exact ⟨hrelease, hdone.even⟩
    · rw [if_neg he]
      exact ⟨hrelease, hdone⟩

theorem serves_getApi (ht : s.trusted r = true) (ha : s.authorized r = true) : Serves s r (getApi s r path) fun _ => Even := by
  unfold getApi
  cases Rows.lookup Prod.fst path plainViews with
  | some found =>
    obtain ⟨name, v⟩ := found
    dsimp only
    cases absent s v with
    | some shown => exact serves_reply _ _ ht
    | none => exact Serves.bind (keeps_view v ht ha) fun _ => serves_reply _ _ ht
  | none =>
    refine serves_ite (fun _ => serves_stream _ ht ha) fun _ => ?_
    refine serves_ite (fun _ => serves_stream _ ht ha) fun _ => ?_
    refine serves_ite (fun _ => serves_stream _ ht ha) fun _ => ?_
    refine serves_ite (fun _ => ?_) fun _ => ?_
    · refine Serves.rescue ?_ fun _ => serves_refuse _ _ (Or.inl ht)
      refine Serves.bind (keeps_ofExcept _) fun _ => Serves.bind (keeps_view _ ht ha) fun _ => ?_
      exact Serves.bind (keeps_ofExcept _) fun _ => serves_reply _ _ ht
    refine serves_ite (fun _ => ?_) fun _ => ?_
    · refine Serves.rescue ?_ fun _ => serves_refuse _ _ (Or.inl ht)
      exact Serves.bind (keeps_ofExcept _) fun _ => Serves.bind (keeps_view _ ht ha) fun _ => serves_reply _ _ ht
    refine serves_ite (fun _ => ?_) fun _ => serves_refuse _ _ (Or.inl ht)
    refine Serves.bind (keeps_view _ ht ha) fun _ => Serves.bind (keeps_view _ ht ha) fun _ => ?_
    exact Serves.bind (keeps_view _ ht ha) fun _ => serves_reply _ _ ht

theorem serves_asset (ht : s.trusted r = true) (hg : r.command = .get) : Serves s r (asset s path) fun _ => Even := by
  refine Serves.bind (keeps_ask (keeps_query (.resolve _))) fun target => ?_
  refine serves_ite (fun _ => serves_refuse _ _ (Or.inl ht)) fun hunder => ?_
  refine Serves.bind (keeps_ask (keeps_query (.isFile _))) fun found => ?_
  refine serves_ite (fun _ => serves_refuse _ _ (Or.inl ht)) fun _ => ?_
  refine Serves.next (keeps_emit ⟨ht, hg, not_not.mp hunder⟩ rfl rfl rfl) ?_
  exact Serves.bind (keeps_ask (keeps_query (.readFile _))) fun _ => serves_send (Or.inl ht)

theorem serves_doGet (hg : r.command = .get) : Serves s r (doGet s r) fun _ => Even := by
  refine serves_ite (fun _ => serves_forwardTradingbox) fun _ => ?_
  refine serves_ite (fun _ => serves_refuse _ _ (Or.inr (Or.inl rfl))) fun ht => ?_
  have ht := not_not.mp ht
  refine Serves.bind (keeps_ofExcept _) fun url => serves_ite (fun _ => serves_reply _ _ ht) fun _ => ?_
  refine serves_ite (fun _ => ?_) fun _ => serves_asset ht hg
  exact serves_ite (fun _ => serves_refuse _ _ (Or.inl ht)) fun ha => serves_getApi ht (not_not.mp ha)

section Senders

variable (ht : s.trusted r = true) (hc : r.command = .post)

include ht hc

theorem serves_postSignals : Serves s r (postSignals s r body) fun _ => Even := by
  refine serves_ite (fun _ => serves_refuse _ _ (Or.inl ht)) fun ho => ?_
  have ho : r.get? "Origin" = none := Option.not_isSome_iff_eq_none.mp ho
  have hraw (direction : String) (message : Json) : Keeps s r (rawAppend direction "x17-signal" message s.bridgeToken) :=
    keeps_discard ⟨ht, hc, by rw [if_pos rfl]; exact ho⟩
  refine Serves.next (hraw _ _) (Serves.bind ?_ fun outcome => Serves.next (hraw _ _) (serves_reply _ _ ht))
  refine Serves.catch ?_ fun _ => keeps_pure _
  exact Serves.bind (keeps_ofExcept _) fun _ => Serves.bind (keeps_call ⟨ht, hc, ho⟩) fun _ => keeps_pure _

omit [ServerHost] in
theorem serves_postLogging : Serves s r (postLogging s r body length) fun _ => Even := by
  refine serves_ite (fun _ => serves_refuse _ _ (Or.inl ht)) fun hn => ?_
  obtain ⟨ho, hb⟩ := not_or.mp hn
  have ho : r.get? "Origin" = none := Option.not_isSome_iff_eq_none.mp ho
  have hb := not_not.mp hb
  refine serves_ite (fun _ => serves_refuse _ _ (Or.inl ht)) fun _ => ?_
  refine Serves.bind (keeps_call ⟨ht, hc, ho, hb⟩) fun _ => Serves.next (keeps_rawAppend ht hc (by decide) hb) ?_
  exact Serves.next (keeps_rawAppend ht hc (by decide) hb) (serves_reply _ _ ht)

theorem serves_postRelay : Serves s r (postRelay s r body) fun _ => Even := by
  refine serves_ite (fun _ => serves_refuse _ _ (Or.inl ht)) fun hn => ?_
  obtain ⟨ho, hb⟩ := not_or.mp hn
  have ho : r.get? "Origin" = none := Option.not_isSome_iff_eq_none.mp ho
  have hb := not_not.mp hb
  refine Serves.bind (keeps_ofExcept _) fun _ => Serves.bind (keeps_call ⟨ht, hc, ho, hb⟩) fun _ => ?_
  refine Serves.next ?_ (serves_reply _ _ ht)
  refine Serves.bind (keeps_ofExcept _) fun _ => serves_ite (fun _ => keeps_pure ()) fun _ => ?_
  refine Serves.bind (keeps_ofExcept _) fun _ => Serves.bind (keeps_ofExcept _) fun _ => ?_
  exact Serves.next (keeps_rawAppend ht hc (by decide) hb) (keeps_discard ⟨ht, hc, Or.inr hb⟩)

theorem serves_postCapture : Serves s r (postCapture s r body) fun _ => Even := by
  refine serves_ite (fun _ => serves_refuse _ _ (Or.inl ht)) fun hb => ?_
  have hb := not_not.mp hb
  refine Serves.next (keeps_rawAppend ht hc (by decide) hb) (Serves.bind (keeps_ofExcept _) fun _ => ?_)
  refine Serves.bind (keeps_call ⟨ht, hc, hb⟩) fun _ => Serves.next (keeps_rawAppend ht hc (by decide) hb) (serves_reply _ _ ht)

theorem serves_postEvents : Serves s r (postEvents s r body) fun _ => Even := by
  refine serves_ite (fun _ => serves_refuse _ _ (Or.inl ht)) fun hset => Serves.bind ?_ fun _ => serves_reply _ _ ht
  refine serves_ite (fun _ => keeps_pure _) fun hb => serves_ite (fun _ => keeps_pure _) fun _ => ?_
  have hb : s.bearer r = true := by
    unfold DashboardServer.bearer
    rw [Bool.and_eq_true, decide_eq_true_eq, decide_eq_true_eq]
    exact ⟨hset, not_not.mp hb⟩
  refine Serves.rescue ?_ fun _ => keeps_pure _
  exact Serves.bind (keeps_ofExcept _) fun _ => Serves.bind (keeps_call ⟨ht, hc, hb⟩) fun _ => keeps_pure _

end Senders

section Actions

variable (ht : s.trusted r = true) (hc : r.command = .post) (ha : s.authorized r = true)

include ht hc ha

theorem serves_surface {how : Surfaced} {p : Act Json} (hp : Keeps s r p) : Serves s r (surface how p) After := by
  refine Serves.catch (Serves.map hp fun _ _ h => h) fun e => ?_
  cases how with
  | generic => exact serves_throw e
  | value => exact serves_ite (fun _ => serves_tell _ _ ht) fun _ => serves_throw e
  | valueOrType => exact serves_ite (fun _ => serves_tell _ _ ht) fun _ => serves_throw e
  | checked => exact serves_ite (fun _ => Serves.next (keeps_notifyStream ht hc ha) (serves_tell _ _ ht)) fun _ => serves_throw e
  | read message => exact serves_tell _ _ ht

theorem serves_accountView : Serves s r (accountView payload) After := by
  unfold accountView
  exact serves_surface ht hc ha (Serves.bind (keeps_ofExcept _) fun _ => keeps_perform ht hc ha _ _)

theorem serves_closedOrders : Serves s r (closedOrders s payload) After := by
  unfold closedOrders
  refine serves_surface ht hc ha (serves_ite (fun _ => ?_) fun _ => ?_)
  · refine Serves.bind (keeps_call ⟨ht, ha⟩) fun _ => Serves.next (keeps_raiseIf _ _) (keeps_perform ht hc ha _ _)
  · exact Serves.next (keeps_raiseIf _ _) (keeps_perform ht hc ha _ _)

theorem serves_configureForwarding : Serves s r (configureForwarding s payload) After :=
  Serves.next (keeps_raiseIf _ _) (serves_surface ht hc ha (keeps_perform ht hc ha _ _))

omit [ServerHost] in
theorem serves_profileAction : Serves s r (profileAction s payload) After := by
  refine serves_ite (fun _ => serves_tell _ _ ht) fun _ => ?_
  refine Serves.option ?_ rfl (fun _ h => h) fun _ => Serves.map (keeps_view .brokerProfiles ht ha) fun _ _ h => h
  refine Serves.catch (Serves.map (keeps_perform ht hc ha _ _) fun _ _ h => h) fun e => ?_
  exact serves_ite (fun _ => Serves.next (keeps_notifyStream ht hc ha) (serves_tell _ _ ht)) fun _ => serves_throw e

theorem serves_runAction : Serves s r (runAction s r payload) After := by
  unfold runAction
  cases Rows.lookup Prod.fst r.path routes with
  | some found => exact serves_surface ht hc ha (keeps_perform ht hc ha _ _)
  | none =>
    refine serves_ite (fun _ => serves_configureForwarding ht hc ha) fun _ => ?_
    refine serves_ite (fun _ => serves_profileAction ht hc ha) fun _ => ?_
    refine serves_ite (fun _ => serves_closedOrders ht hc ha) fun _ => ?_
    exact serves_ite (fun _ => serves_accountView ht hc ha) fun _ => serves_tell _ _ ht

end Actions

/-- A request without the session's token may name no action: then nothing is done. -/
theorem runAction_unknown (hp : r.path ∉ actionPaths) : runAction s r payload = tell 404 "Unknown endpoint" := by
  have hmem {p : String} (hin : p ∈ actionPaths) : r.path ≠ p := fun he => hp (he ▸ hin)
  have hnone : Rows.lookup Prod.fst r.path routes = none :=
    Rows.lookup_eq_none_iff.mpr fun x hx he =>
      hp (he ▸ List.mem_append_left _ (List.mem_cons_of_mem _ (List.mem_map_of_mem hx)))
  have hlast {p : String} (hin : p ∈ ["/api/tradingbox-forwarding", "/api/broker-profiles/action", "/api/orders/closed", "/api/account-view"]) :
      r.path ≠ p := hmem (List.mem_append_right _ hin)
  unfold runAction
  rw [hnone]
  change (if r.path = "/api/tradingbox-forwarding" then _ else _) = _
  rw [if_neg (hlast (by simp)), if_neg (hlast (by simp)), if_neg (hlast (by simp)), if_neg (hlast (by simp))]

theorem serves_postApi (ht : s.trusted r = true) (hc : r.command = .post) (ha : s.authorized r = true ∨ r.path ∉ actionPaths) :
    Serves s r (postApi s r body) fun _ => Even := by
  refine Serves.bind (keeps_ofExcept _) fun payload => Serves.next (keeps_raiseIf _ _) (serves_ite (fun hp => ?_) fun _ => ?_)
  · have ha : s.authorized r = true := ha.resolve_right fun hn => hn (hp ▸ List.mem_cons_self)
    have hfine : Fine s r (.called (.act .stop [])) := ⟨ht, ha, hc⟩
    -- The server is told to stop once the answer has gone out.
    refine Serves.next (keeps_discard hfine) fun t hready => ?_
    refine (Prog.wp_bind _ _).mpr (Prog.wp_consequence (serves_reply _ _ ht t hready) (fun _ u hu => ?_) fun _ _ => id)
    exact (Prog.wp_commit _).mpr ⟨⟨_, rfl, ⟨ht, ha, hc⟩, fun h => (by cases h)⟩, hu.append rfl⟩
  · by_cases hauth : s.authorized r = true
    · refine Serves.option (serves_runAction ht hc hauth) rfl (fun _ h => h) fun result => ?_
      exact Serves.next (keeps_notifyStream ht hc hauth) (serves_reply _ _ ht)
    · rw [runAction_unknown (ha.resolve_left hauth)]
      change Serves s r ((refuse 404 "Unknown endpoint" >>= fun _ => pure none) >>= _) _
      rw [bind_assoc]
      exact Serves.last (b := ()) (serves_refuse _ _ (Or.inl ht)) fun _ h => h

theorem serves_postBody (ht : s.trusted r = true) (hc : r.command = .post) (hn : length ≤ maxSignalBody)
    (ha : s.authorized r = true ∨ r.path ∉ actionPaths) : Serves s r (postBody s r route length) fun _ => Even := by
  refine Serves.bind keeps_arrive fun stream => Serves.next (keeps_emit ⟨ht, ?_⟩ rfl rfl rfl) ?_
  · exact le_trans (List.length_take_le _ _) hn
  refine serves_ite (fun _ => serves_postSignals ht hc) fun _ => serves_ite (fun _ => serves_postLogging ht hc) fun _ => ?_
  refine serves_ite (fun _ => serves_postRelay ht hc) fun _ => serves_ite (fun _ => serves_postCapture ht hc) fun _ => ?_
  exact serves_ite (fun _ => serves_postEvents ht hc) fun _ => serves_postApi ht hc ha

/-- What `urlsplit` makes of a path that is nothing but a path. -/
def SplitsPlain : Prop := ∀ path url, plainPath path = true → WebHost.urlsplit path = .ok url → url.path = path

theorem serves_doPost (hsplit : SplitsPlain) (hc : r.command = .post) : Serves s r (doPost s r) fun _ => Even := by
  refine serves_ite (fun _ => serves_forwardTradingbox) fun _ => ?_
  refine serves_ite (fun _ => serves_refuse _ _ (Or.inr (Or.inl rfl))) fun ht => ?_
  have ht := not_not.mp ht
  intro t hready
  rw [Prog.wp_bind]
  cases hurl : WebHost.urlsplit r.path with
  | error e => exact hready
  | ok url =>
    refine serves_ite (fun _ => serves_refuse _ _ (Or.inl ht)) (fun hn => ?_) t hready
    refine serves_ite (fun _ => serves_refuse _ _ (Or.inl ht)) fun hlength => ?_
    obtain ⟨hlow, hhigh⟩ := not_not.mp (not_or.mp hlength).1
    refine Serves.catch (serves_postBody ht hc ?_ ?_) fun _ => serves_reply _ _ ht
    · have hlimit := bodyLimit_le url.path
      omega
    · by_cases ha : s.authorized r = true
      · exact Or.inl ha
      · refine Or.inr fun hp => hn ⟨?_, ha⟩
        obtain ⟨hplain, hother⟩ := actionPaths_plain hp
        rw [hsplit r.path url hplain hurl]
        exact hother

theorem serves_handle (hsplit : SplitsPlain) : Serves s r (handle s r) fun _ => Even := by
  have hother : Serves s r (doOther s r) fun _ => Even :=
    serves_ite (fun _ => serves_forwardTradingbox) fun _ => serves_refuse _ _ (Or.inr (Or.inr rfl))
  unfold handle
  cases hc : r.command with
  | get => exact serves_doGet hc
  | post => exact serves_doPost hsplit hc
  | put | patch | delete | options | head => exact hother

end Handlers

section Tokens

variable [ServerHost] {token path : String}

omit [ServerHost] in
theorem trusted_token : ({ s with sessionToken := token } : DashboardServer).trusted r = s.trusted r := rfl

theorem forwardTradingbox_token : forwardTradingbox { s with sessionToken := token } r = forwardTradingbox s r := by
  unfold forwardTradingbox
  rfl

theorem asset_token : asset { s with sessionToken := token } path = asset s path := rfl

theorem doGet_token (hs : s.authorized r = false) (ht : ({ s with sessionToken := token } : DashboardServer).authorized r = false)
    (hout : ∀ url, WebHost.urlsplit r.path = .ok url → url.path ≠ "/api/session") :
    doGet { s with sessionToken := token } r = doGet s r := by
  unfold doGet
  rw [forwardTradingbox_token, trusted_token, hs, ht]
  cases hurl : WebHost.urlsplit r.path with
  | error e =>
    have hraise (f : SplitUrl → Act Unit) : (do let u ← Prog.ofExcept (.error e); f u) = throw e := rfl
    rw [hraise, hraise]
  | ok url =>
    have hbind (f : SplitUrl → Act Unit) : (do let u ← Prog.ofExcept (.ok url); f u) = f url := rfl
    rw [hbind, hbind, if_neg (hout url hurl), if_neg (hout url hurl), if_pos Bool.false_ne_true, if_pos Bool.false_ne_true, asset_token]

theorem doPost_token (hs : s.authorized r = false) (ht : ({ s with sessionToken := token } : DashboardServer).authorized r = false) :
    doPost { s with sessionToken := token } r = doPost s r := by
  unfold doPost
  rw [forwardTradingbox_token, trusted_token, hs, ht]
  rfl

/-- A request that brings neither token is handled alike, unless it asks for the token itself. -/
theorem handle_token (hs : s.authorized r = false) (ht : ({ s with sessionToken := token } : DashboardServer).authorized r = false)
    (hout : ∀ url, WebHost.urlsplit r.path = .ok url → r.command = .get → url.path ≠ "/api/session") :
    handle { s with sessionToken := token } r = handle s r := by
  have hother : doOther { s with sessionToken := token } r = doOther s r := by
    unfold doOther
    rw [forwardTradingbox_token]
  unfold handle
  rw [doPost_token hs ht, hother]
  cases hc : r.command with
  | get => exact doGet_token hs ht fun url hurl => hout url hurl hc
  | post | put | patch | delete | options | head => rfl

end Tokens

section Runs

/-- After an answer has gone out none is begun. -/
def OneAnswer (t : List ServerEvent) : Prop :=
  ∀ before e after, t = before ++ e :: after → e.sends = true → ∀ x ∈ after, x.begins = false

theorem added {t : List ServerEvent} (h : ReflTransGen (Adds s r) [] t) : (∀ e ∈ t, Fine s r e) ∧ OneAnswer t := by
  induction h with
  | refl => exact ⟨List.forall_mem_nil _, fun before e after he => absurd he (by simp)⟩
  | @tail t u _ hadd ih =>
    obtain ⟨e, rfl, hfine, hbegins⟩ := hadd
    refine ⟨fun x hx => ?_, fun before x after he hx y hy => ?_⟩
    · rcases List.mem_append.mp hx with hx | hx
      · exact ih.1 x hx
      · rw [List.mem_singleton.mp hx]
        exact hfine
    · rcases List.eq_nil_or_concat after with rfl | ⟨rest, last, rfl⟩
      · cases hy
      · have hsplit : t ++ [e] = (before ++ x :: rest) ++ [last] := by
          rw [he, List.concat_eq_append, List.append_assoc, List.cons_append]
        obtain ⟨rfl, hlast⟩ := List.append_inj' hsplit rfl
        obtain rfl := List.singleton_inj.mp hlast
        rw [List.concat_eq_append] at hy
        rcases List.mem_append.mp hy with hy | hy
        · exact ih.2 before x rest rfl hx y hy
        · rw [List.mem_singleton.mp hy]
          cases hb : e.begins with
          | false => rfl
          | true =>
            have hsent := hbegins hb x (List.mem_append_right _ List.mem_cons_self)
            rw [hx] at hsent
            cases hsent

theorem ready_nil : Ready [] := ⟨List.forall_mem_nil _, rfl⟩

/-- A stranger is told no, and nothing else happens. -/
theorem fine_untrusted {e : ServerEvent} (h : Fine s r e) (ht : s.trusted r = false) :
    ∃ a, (e = .began a ∨ e = .sent a) ∧ (a.status = 403 ∨ a.status = 404) := by
  have hnot : ¬ s.trusted r = true := by rw [ht]; decide
  cases e with
  | began a => exact ⟨a, Or.inl rfl, h.resolve_left hnot⟩
  | sent a => exact ⟨a, Or.inr rfl, h.resolve_left hnot⟩
  | called _ | received _ | opened _ | acquired | streamed _ | released | shutdown => exact absurd h.1 hnot

variable [ServerHost]

/-- However the controller, the sockets and the files answer, and wherever a request's handling stops: each thing done is one that its
credentials allow, no answer is begun after one has gone out, a stranger is only told no, and a slot of the event streams is given back. A
request without the session's token is handled as it would be under any other token that it does not bring, unless it asks for the token. -/
theorem requests_guarded (s : DashboardServer) (r : HttpRequest) (hsplit : SplitsPlain) (answers : Nat → (q : ServerQuery) → ServerReply q)
    (n : Nat) :
    (∀ e ∈ (handle s r).stop n answers [], Fine s r e) ∧ OneAnswer ((handle s r).stop n answers [])
    ∧ (s.trusted r = false → ∀ e ∈ (handle s r).stop n answers [],
      ∃ a, (e = .began a ∨ e = .sent a) ∧ (a.status = 403 ∨ a.status = 404))
    ∧ Even ((handle s r).eval answers []).1
    ∧ ∀ token, s.authorized r = false → ({ s with sessionToken := token } : DashboardServer).authorized r = false →
      (∀ url, WebHost.urlsplit r.path = .ok url → r.command = .get → url.path ≠ "/api/session") →
      (handle { s with sessionToken := token } r).stop n answers [] = (handle s r).stop n answers [] := by
  have hwp := serves_handle (s := s) (r := r) hsplit [] ready_nil
  obtain ⟨hfine, hone⟩ := added (Prog.wp_stop hwp n answers fun _ _ => trivial)
  obtain ⟨-, hdone, hfailed⟩ := Prog.wp_eval hwp answers fun _ _ => trivial
  refine ⟨hfine, hone, fun ht e he => fine_untrusted (hfine e he) ht, ?_, fun token hs ht hout => ?_⟩
  · cases hresult : ((handle s r).eval answers []).2 with
    | ok a => exact hdone a hresult
    | error e => exact (hfailed e hresult).even
  · rw [handle_token hs ht hout]

end Runs

section Sample

@[reducible] def sampleServerHost : ServerHost where
  urlsplit path := .ok ⟨"", "", path, "", none, .ok none, none, none⟩
  unquote path := path
  loads _ := .ok (.obj [])
  cursor _ _ := .ok 0
  b64decode _ := .ok []
  guessType _ := none
  errors _ := ""

attribute [local instance] sampleServerHost

def sampleServer : DashboardServer where
  port := 8780
  assets := ["dist"]
  bridgeToken := "sender"
  sessionToken := "session"
  forwarder := none
  profiles := false

def sampleRequest (command : Command) (path : String) (fields : List (String × String)) : HttpRequest where
  command
  path
  headers := (("Host", "localhost:8780") :: fields).map fun f => (Utf8.ascii f.1, Utf8.ascii f.2)

def stopRequest : HttpRequest := sampleRequest .post "/api/stop" [("X-Session-Token", "session"), ("Content-Length", "2")]

def statusRequest : HttpRequest := sampleRequest .get "/api/status" []

/-- Only actions are answered by the controller. -/
def sampleAnswers (_ : Nat) : (q : ServerQuery) → ServerReply q
  | .arrive => .ok (Utf8.ascii "\x7b\x7d")
  | .call (.act _ _) | .call .notifyStream => Except.ok Json.null
  | .call _ => .error (Exc.value "")
  | .write _ | .stream _ => .ok ()
  | .resolve _ => .ok []
  | .isFile _ => .ok false
  | .readFile _ => .ok []
  | .acquire => false

theorem requests_guarded_sample :
    ((handle sampleServer stopRequest).stop 20 sampleAnswers []).any ServerEvent.sends = true
    ∧ OneAnswer ((handle sampleServer stopRequest).stop 20 sampleAnswers [])
    ∧ Even ((handle sampleServer stopRequest).eval sampleAnswers []).1
    ∧ (handle { sampleServer with sessionToken := "other" } statusRequest).stop 20 sampleAnswers []
      = (handle sampleServer statusRequest).stop 20 sampleAnswers [] := by
  have hsplit : SplitsPlain := fun path url _ h => by
    obtain rfl := Except.ok.inj h
    rfl
  obtain ⟨-, hone, -, heven, -⟩ := requests_guarded sampleServer stopRequest hsplit sampleAnswers 20
  obtain ⟨-, -, -, -, htoken⟩ := requests_guarded sampleServer statusRequest hsplit sampleAnswers 20
  refine ⟨by decide +kernel, hone, heven, htoken "other" (by decide +kernel) (by decide +kernel) fun url h _ => ?_⟩
  obtain rfl := Except.ok.inj h
  exact by decide

end Sample

end MatchTrader.Serving
