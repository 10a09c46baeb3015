import MatchTrader.Runs
import MatchTrader.WebSocketIngress

/-! The admission protocol of the WebSocket ingress. The pending table is the queue with the job in
hand, and a client's places are taken by the events it waits for, queued or answered, as long as no
event is admitted again while a final answer to it is still on its way. -/

namespace MatchTrader

open Durable

section Results

variable {e : CaptureEvent} {r : NativeResult}

/-- The result is one of the event. -/
abbrev Names (e : CaptureEvent) (r : NativeResult) : Prop := r.eventId = e.eventId

def EitherNames (e : CaptureEvent) : Except NativeResult NativeResult → Prop
  | .ok r | .error r => Names e r

theorem names_failed (h : Names e r) (exc : Exc) : Names e (Automatic.failed r exc) := by
  unfold Automatic.failed
  split <;> exact h

theorem receiveAgain_names (row : EventRow) : (Router.receiveAgain e row).Yields (Names e) := by
  unfold Router.receiveAgain
  refine Prog.yields_bind fun journal => Prog.yields_bind fun recovered => ?_
  exact Prog.yields_pure rfl

theorem routerReceive_names [Host] (arming : Arming) (route : Option RouteConfig) (api : Option Api) (destination : String) :
    (Router.receive arming route e api destination).Yields (Names e) := by
  unfold Router.receive
  refine Prog.yields_bind fun recorded => ?_
  obtain ⟨row, duplicate⟩ := recorded
  simp only
  split
  · exact receiveAgain_names row
  · refine Prog.yields_bind fun decided => Prog.yields_bind fun _ => Prog.yields_bind fun journal => ?_
    exact Prog.yields_pure rfl

theorem settle_names (h : Names e r) {p : Act NativeResult} (hp : p.Yields (Names e)) : (Automatic.settle e r p).Yields (Names e) := by
  have hcaught := hp.tryCatch fun exc => Prog.yields_pure (names_failed h exc)
  exact hcaught.bind fun r hr => Prog.yields_bind fun _ => Prog.yields_pure hr

theorem settleSignal_names (h : Names e r) {p : Act NativeResult} (hp : p.Yields (Names e)) :
    (Automatic.settleSignal e r p).Yields (Names e) := by
  unfold Automatic.settleSignal
  have hok : (Except.ok <$> p : Act (Except NativeResult NativeResult)).Yields (EitherNames e) :=
    hp.bind fun r hr => Prog.yields_pure hr
  have hcaught := hok.tryCatch fun exc =>
    Prog.yields_pure (show EitherNames e (.error (Automatic.failed r exc)) from names_failed h exc)
  refine hcaught.bind fun updated hu => ?_
  cases updated with
  | ok r =>
    have hr : Names e r := hu
    exact (Prog.yields_bind fun _ => Prog.yields_pure hr).tryCatch fun exc =>
      Prog.yields_bind fun _ => Prog.yields_pure (names_failed hr exc)
  | error r =>
    have hr : Names e r := hu
    exact Prog.yields_bind fun _ => Prog.yields_pure hr

theorem cancelSignalCopy_names [Host] (h : Names e r) (rows : List SignalRow) : (Automatic.cancelSignalCopy e rows r).Yields (Names e) := by
  unfold Automatic.cancelSignalCopy
  split
  · refine Prog.yields_bind fun decisions => ?_
    cases decisions with
    | nil => exact Prog.yields_throw _
    | cons decision rest => exact Prog.yields_pure h
  · exact Prog.yields_throw _

theorem cancel_names [Host] (h : Names e r) (identity : String) : (Automatic.cancel e identity r).Yields (Names e) := by
  unfold Automatic.cancel
  refine Prog.yields_bind fun m => Prog.yields_bind fun outcome => ?_
  cases outcome with
  | none => exact Prog.yields_throw _
  | some o => exact Prog.yields_pure h

theorem create_names [Host] (h : Names e r) (identity : String) : (Automatic.create e identity r).Yields (Names e) := by
  unfold Automatic.create
  refine Prog.yields_bind fun w => ?_
  extract_lets m
  refine Prog.yields_bind fun _ => ?_
  split
  · exact Prog.yields_throw _
  · refine Prog.yields_bind fun mapping => Prog.yields_bind fun _ => Prog.yields_bind fun at_ => Prog.yields_bind fun _ =>
      Prog.yields_bind fun _ => Prog.yields_bind fun lots => Prog.yields_bind fun _ => Prog.yields_bind fun o => ?_
    exact Prog.yields_pure h

theorem act_names [Host] (h : Names e r) (identity : String) : (Automatic.act e identity r).Yields (Names e) := by
  unfold Automatic.act
  refine Prog.yields_bind fun w => ?_
  extract_lets trade rows
  split
  · split
    · exact settle_names h (Prog.yields_pure h)
    · split
      · exact settleSignal_names h (cancelSignalCopy_names h rows)
      · exact settle_names h (cancel_names h identity)
  · exact settle_names h (create_names h identity)

/-- The controller's result is one of the event that it received. -/
theorem receiveNative_names [Host] (e : CaptureEvent) (captureGeneration : Option Nat) :
    (Controller.receiveNative e captureGeneration).Yields (Names e) := by
  unfold Controller.receiveNative Automatic.receive
  refine Prog.yields_bind fun m => Prog.yields_bind fun _ => Prog.yields_bind fun m => ?_
  refine (routerReceive_names _ _ _ _).bind fun r hr => ?_
  split
  · exact Prog.yields_pure hr
  · split
    · exact Prog.yields_pure hr
    · exact act_names hr _

/-- Under another generation the controller refuses, and does nothing. -/
theorem receiveNative_stale [Host] {generation : Nat} {w : World} (h : generation ≠ w.mem.captureGeneration)
    (env : Nat → (q : Query) → Reply q) :
    (Controller.receiveNative e (some generation)).eval env w = (w, .error (Exc.value "Capture is stopped")) := by
  have hc : (!w.mem.running) = true ∨ (some generation).any (fun g => g ≠ w.mem.captureGeneration) = true := Or.inr (by simpa using h)
  change (Prog.bind (raiseIf _ _) _).eval env w = _
  rw [raiseIf, if_pos hc]
  rfl

end Results

/-- Every entry of a record is accounted for by those before it. -/
def Preceded {α : Type} (P : α → List α → Prop) (l : List α) : Prop := ∀ pre x post, l = pre ++ x :: post → P x pre

theorem Preceded.append {α : Type} {P : α → List α → Prop} {l m : List α} (h : Preceded P l) (hm : ∀ x ∈ m, ∀ pre, P x (l ++ pre)) :
    Preceded P (l ++ m) := by
  intro pre x post he
  rcases List.append_eq_append_iff.mp he with ⟨mid, hpre, hmid⟩ | ⟨mid, hl, hmid⟩
  · exact hpre ▸ hm x (hmid ▸ List.mem_append_right _ List.mem_cons_self) mid
  · cases mid with
    | nil =>
      obtain rfl : x :: post = m := hmid
      have hx := hm x List.mem_cons_self []
      rwa [List.append_nil, hl, List.append_nil] at hx
    | cons y mid =>
      obtain ⟨rfl, rfl⟩ := List.cons.inj hmid
      exact h pre x mid hl

namespace CaptureWebSocketServer

variable {s t : CaptureWebSocketServer} {j c : Nat} {job : CaptureJob} {client : CaptureClient} {message : Frame} {l : List Nat}

section Answers

def room (s : CaptureWebSocketServer) (c : Nat) : Bool := (s.client? c).any fun client => client.out.length < 64

/-- What answering some clients comes to. -/
structure Answered (j : Nat) (message : Frame) (l : List Nat) (s t : CaptureWebSocketServer) : Prop where
  same : t = { s with clients := t.clients, notes := t.notes }
  length : t.clients.length = s.clients.length
  clients : ∀ i, t.client? i = (s.client? i).map fun client => if i ∈ l then client.offer message true else client
  notes : t.notes = s.notes ++ (l.filter s.isOpen).map fun c => .offered j c message (s.room c)

theorem Answered.made (h : Answered j message l s t) : t.made = s.made := by rw [h.same]

theorem Answered.pending (h : Answered j message l s t) : t.pending = s.pending := by rw [h.same]

theorem Answered.worker (h : Answered j message l s t) : t.worker = s.worker := by rw [h.same]

theorem Answered.jobs (h : Answered j message l s t) : t.jobs = s.jobs := by rw [h.same]

theorem Answered.maxInflight (h : Answered j message l s t) : t.maxInflight = s.maxInflight := by rw [h.same]

theorem offer_closed (h : client.closed = true) (release : Bool) : client.offer message release = client := if_pos h

theorem answered_one (j : Nat) (message : Frame) (s : CaptureWebSocketServer) (c : Nat) :
    Answered j message [c] s (answer j message s c) := by
  unfold answer
  cases hc : s.client? c with
  | none =>
    refine ⟨rfl, rfl, fun i => ?_, by simp [isOpen, hc]⟩
    by_cases hi : i = c
    · subst hi
      rw [hc]
      rfl
    · simp [hi]
  | some client =>
    by_cases hclosed : client.closed = true
    · simp only [hclosed, if_true]
      refine ⟨rfl, rfl, fun i => ?_, by simp [isOpen, hc, hclosed]⟩
      by_cases hi : i = c
      · subst hi
        rw [hc, Option.map_some, if_pos List.mem_cons_self, offer_closed hclosed]
      · simp [hi]
    · simp only [hclosed, Bool.false_eq_true, if_false]
      refine ⟨rfl, List.length_modify .., fun i => ?_, by simp [isOpen, room, hc, hclosed]⟩
      simp only [client?, offer, List.getElem?_modify, List.mem_singleton]
      by_cases hi : i = c
      · simp [hi]
      · simp [hi, Ne.symm hi]

/-- The waiters are answered each on its own. -/
theorem answered_all (j : Nat) (message : Frame) (s : CaptureWebSocketServer) (hl : l.Nodup) :
    Answered j message l s (l.foldl (answer j message) s) := by
  induction l generalizing s with
  | nil => exact ⟨rfl, rfl, fun i => by simp, by simp⟩
  | cons c l ih =>
    obtain ⟨hc, hl⟩ := List.nodup_cons.mp hl
    have h₁ := answered_one j message s c
    have h := ih (answer j message s c) hl
    have hother {i : Nat} (hi : i ∈ l) : (answer j message s c).client? i = s.client? i := by
      have hne : i ≠ c := fun he => hc (he ▸ hi)
      simp [h₁.clients i, hne]
    rw [List.foldl_cons]
    refine ⟨?_, h.length.trans h₁.length, fun i => ?_, ?_⟩
    · rw [h.same, h₁.same]
    · rw [h.clients, h₁.clients, Option.map_map]
      congr 1
      funext client
      by_cases hi : i = c
      · subst hi
        simp [hc]
      · simp [hi]
    · have hopen : l.filter (answer j message s c).isOpen = l.filter s.isOpen :=
        List.filter_congr fun i hi => by rw [isOpen, isOpen, hother hi]
      have hroom : (l.filter s.isOpen).map (fun i => IngressNote.offered j i message ((answer j message s c).room i))
          = (l.filter s.isOpen).map fun i => .offered j i message (s.room i) :=
        List.map_congr_left fun i hi => by rw [room, room, hother (List.mem_filter.mp hi).1]
      rw [h.notes, h₁.notes, hopen, hroom, List.append_assoc, ← List.map_append, ← List.filter_append]
      rfl

end Answers

/-- The job in hand, and those in the queue. -/
def atWork (s : CaptureWebSocketServer) : List Nat := s.worker.job?.toList ++ s.jobs

/-- The pending table has the jobs at work, one for each key. -/
structure Queued (s : CaptureWebSocketServer) (work : List Nat) : Prop where
  pending : s.pending.map Prod.snd = work
  keys : (s.pending.map Prod.fst).Nodup
  made : ∀ p ∈ s.pending, ∃ job, s.made[p.2]? = some job ∧ job.key = p.1
  waiters : ∀ job ∈ s.made, job.waiters.Nodup ∧ ∀ c ∈ job.waiters, c < s.clients.length

namespace Queued

theorem of_same {work : List Nat} (h : s.Queued work) (hm : t.made = s.made) (hp : t.pending = s.pending)
    (hc : s.clients.length ≤ t.clients.length) : t.Queued work where
  pending := hp ▸ h.pending
  keys := hp ▸ h.keys
  made := by
    rw [hm, hp]
    exact h.made
  waiters := by
    rw [hm]
    exact fun job hj => ⟨(h.waiters job hj).1, fun c hw => ((h.waiters job hj).2 c hw).trans_le hc⟩

/-- No job is at work twice, nor is a key. -/
theorem nodup {work : List Nat} (h : s.Queued work) : work.Nodup ∧ (work.filterMap fun j => s.made[j]?.map CaptureJob.key).Nodup := by
  have hkeys : work.filterMap (fun j => s.made[j]?.map CaptureJob.key) = s.pending.map Prod.fst := by
    rw [← h.pending, List.filterMap_map]
    rw [← List.filterMap_eq_map]
    refine List.filterMap_congr fun p hp => ?_
    obtain ⟨job, hj, hk⟩ := h.made p hp
    simp [hj, hk]
  refine ⟨?_, hkeys ▸ h.keys⟩
  rw [← h.pending]
  refine List.Nodup.map_on ?_ h.keys.of_map
  rintro ⟨k, j⟩ hp ⟨k', j'⟩ hp' rfl
  obtain ⟨job, hj, rfl⟩ := h.made _ hp
  obtain ⟨job', hj', rfl⟩ := h.made _ hp'
  obtain rfl := Option.some.inj (hj.symm.trans hj')
  rfl

theorem lt_length {work : List Nat} (h : s.Queued work) (hj : j ∈ work) : j < s.made.length := by
  rw [← h.pending] at hj
  obtain ⟨p, hp, rfl⟩ := List.mem_map.mp hj
  obtain ⟨job, hj, _⟩ := h.made p hp
  exact (List.getElem?_eq_some_iff.mp hj).1

theorem pendingJob?_none {work : List Nat} (h : s.Queued work) {key : String × String} (hn : s.pendingJob? key = none) :
    ∀ p ∈ s.pending, p.1 ≠ key := by
  intro p hp hk
  have hf : (s.pending.find? fun p => p.1 = key).isSome = true := by
    rw [List.find?_isSome]
    exact ⟨p, hp, decide_eq_true hk⟩
  obtain ⟨q, hq⟩ := Option.isSome_iff_exists.mp hf
  obtain ⟨job, hj, _⟩ := h.made q (List.mem_of_find?_eq_some hq)
  simp [pendingJob?, hq, hj] at hn

theorem pendingJob?_some {key : String × String} (hs : s.pendingJob? key = some (j, job)) :
    (key, j) ∈ s.pending ∧ s.made[j]? = some job := by
  simp only [pendingJob?, bind, Option.bind_eq_some_iff] at hs
  obtain ⟨⟨k, i⟩, hf, job', hj, he⟩ := hs
  simp only [pure, Option.some.injEq, Prod.mk.injEq] at he
  obtain ⟨rfl, rfl⟩ := he
  have hk : k = key := by simpa using List.find?_some hf
  exact ⟨hk ▸ List.mem_of_find?_eq_some hf, hj⟩

theorem join {work : List Nat} (h : s.Queued work) (hc : c < s.clients.length) : (s.join j c).Queued work where
  pending := h.pending
  keys := h.keys
  made p hp := by
    obtain ⟨job, hj, hk⟩ := h.made p hp
    refine ⟨_, by simp only [CaptureWebSocketServer.join, List.getElem?_modify, hj]; rfl, ?_⟩
    simp only [← hk, CaptureJob.key]
    split
    · split <;> rfl
    · rfl
  waiters job hjob := by
    obtain ⟨i, hi, rfl⟩ := List.mem_iff_getElem.mp hjob
    simp only [CaptureWebSocketServer.join, List.length_modify] at hi
    obtain ⟨hnd, hlt⟩ := h.waiters _ (List.getElem_mem hi)
    simp only [CaptureWebSocketServer.join, List.getElem_modify]
    split
    · split
      · exact ⟨hnd, hlt⟩
      · next hn =>
        refine ⟨?_, fun i hi => ?_⟩
        · refine List.nodup_append.mpr ⟨hnd.filter _, List.nodup_singleton c, fun a ha b hb he => ?_⟩
          obtain rfl := List.mem_singleton.mp hb
          exact hn (he ▸ (List.mem_filter.mp ha).1)
        · rcases List.mem_append.mp hi with hi | hi
          · exact hlt i (List.mem_filter.mp hi).1
          · obtain rfl := List.mem_singleton.mp hi
            exact hc
    · exact ⟨hnd, hlt⟩

theorem enqueue {work : List Nat} (h : s.Queued work) (hc : c < s.clients.length) {event : CaptureEvent}
    (hnew : ∀ p ∈ s.pending, p.1 ≠ (event.machine, event.eventId)) : (s.enqueue c event).Queued (work ++ [s.made.length]) where
  pending := by simp [CaptureWebSocketServer.enqueue, h.pending]
  keys := by
    simp only [CaptureWebSocketServer.enqueue, List.map_append, List.map_cons, List.map_nil]
    refine List.nodup_append.mpr ⟨h.keys, List.nodup_singleton _, fun a ha b hb he => ?_⟩
    obtain ⟨p, hp, rfl⟩ := List.mem_map.mp ha
    obtain rfl := List.mem_singleton.mp hb
    exact hnew p hp he
  made p hp := by
    simp only [CaptureWebSocketServer.enqueue] at hp ⊢
    rcases List.mem_append.mp hp with hp | hp
    · obtain ⟨job, hj, hk⟩ := h.made p hp
      exact ⟨job, by rw [List.getElem?_append_left (List.getElem?_eq_some_iff.mp hj).1, hj], hk⟩
    · obtain rfl := List.mem_singleton.mp hp
      exact ⟨_, List.getElem?_concat_length, rfl⟩
  waiters job hjob := by
    simp only [CaptureWebSocketServer.enqueue] at hjob ⊢
    rcases List.mem_append.mp hjob with hjob | hjob
    · exact h.waiters job hjob
    · obtain rfl := List.mem_singleton.mp hjob
      exact ⟨List.nodup_singleton c, fun i hi => by rwa [List.mem_singleton.mp hi]⟩

/-- The pending entry of the job that ends is the first one. -/
theorem filter_pending {rest : List Nat} (h : s.Queued (j :: rest)) (hj : s.made[j]? = some job) :
    ∃ more, s.pending = (job.key, j) :: more ∧ s.pending.filter (fun p => p.1 ≠ job.key) = more := by
  obtain ⟨p, more, hp, hpj, _⟩ := List.map_eq_cons_iff.mp h.pending
  obtain ⟨job', hj', hk⟩ := h.made p (hp ▸ List.mem_cons_self)
  rw [hpj, hj] at hj'
  obtain rfl := Option.some.inj hj'
  have hkeys := h.keys
  rw [hp, List.map_cons, List.nodup_cons] at hkeys
  rw [← hk] at hkeys
  refine ⟨more, hp.trans (congrArg (· :: more) (Prod.ext hk.symm hpj)), ?_⟩
  rw [hp, List.filter_cons_of_neg (by simp [hk]), List.filter_eq_self.mpr]
  intro q hq
  have hmem : q.1 ∈ more.map Prod.fst := List.mem_map_of_mem hq
  exact decide_eq_true fun he => hkeys.1 (he ▸ hmem)

theorem retire {rest : List Nat} (h : s.Queued (j :: rest)) (hj : s.made[j]? = some job) : (s.retire j job).Queued rest := by
  obtain ⟨more, hp, hfilter⟩ := h.filter_pending hj
  have hpend := h.pending
  have hkeys := h.keys
  rw [hp] at hpend hkeys
  have hsame : (s.retire j job).pending = more := hfilter
  refine ⟨hsame ▸ (List.cons.inj hpend).2, hsame ▸ (List.nodup_cons.mp hkeys).2, ?_, h.waiters⟩
  rw [hsame]
  exact fun p hm => h.made p (hp ▸ List.mem_cons_of_mem _ hm)

theorem concluded {work : List Nat} (h : s.Queued work) (hj : s.made[j]? = some job) (message : Frame) :
    Answered j message job.waiters (s.retire j job) (s.conclude j job message) :=
  answered_all j message _ (h.waiters job (List.mem_of_getElem? hj)).1

theorem conclude {rest : List Nat} (h : s.Queued (j :: rest)) (hj : s.made[j]? = some job) :
    (s.conclude j job message).Queued rest := by
  have hans := h.concluded hj message
  exact (h.retire hj).of_same hans.made hans.pending hans.length.ge

end Queued

end CaptureWebSocketServer

/-- The events of the final answers that are on their way to the client. -/
def CaptureClient.answers (client : CaptureClient) : List String :=
  ((client.sending.toList ++ client.out).filter Prod.snd).map fun m => m.1.eventId

/-- A client's places are taken by what it awaits and by what is being answered, and nothing is both. -/
structure Held (maxInflight : Nat) (awaited : String × String → Prop) (client : CaptureClient) : Prop where
  nodup : client.inflight.Nodup
  bounded : client.inflight.length ≤ maxInflight
  answers : ∀ i ∈ client.answers, i ∈ client.inflight
  once : client.answers.Nodup
  awaited : ∀ key, awaited key → key.1 = client.machine ∧ key.2 ∈ client.inflight ∧ key.2 ∉ client.answers

namespace Held

variable {n : Nat} {awaited awaited' : String × String → Prop} {client : CaptureClient} {message : Frame} {id : String}

theorem mono (h : Held n awaited client) (ha : ∀ key, awaited' key → awaited key) : Held n awaited' client :=
  { h with awaited := fun key hk => h.awaited key (ha key hk) }

theorem of_answers {f : CaptureClient} (h : Held n awaited client) (hi : f.inflight = client.inflight)
    (hm : f.machine = client.machine) (ha : f.answers.Sublist client.answers) : Held n awaited f where
  nodup := hi ▸ h.nodup
  bounded := hi ▸ h.bounded
  answers i hf := hi ▸ h.answers i (ha.subset hf)
  once := h.once.sublist ha
  awaited key hk := by
    obtain ⟨hkm, hin, hout⟩ := h.awaited key hk
    exact ⟨hkm.trans hm.symm, hi ▸ hin, fun hf => hout (ha.subset hf)⟩

theorem offer_plain (h : Held n awaited client) : Held n awaited (client.offer message false) := by
  unfold CaptureClient.offer
  split
  · exact h
  · split
    · exact h.of_answers rfl rfl (by simp [CaptureClient.answers])
    · exact h.of_answers rfl rfl (List.Sublist.refl _)

/-- A final answer is offered to an event that is awaited no more. -/
theorem offer_final (h : Held n awaited client) (hin : message.eventId ∈ client.inflight) (hout : message.eventId ∉ client.answers)
    (ha : ∀ key, awaited' key → awaited key ∧ key.2 ≠ message.eventId) : Held n awaited' (client.offer message true) := by
  have hmono := h.mono fun key hk => (ha key hk).1
  unfold CaptureClient.offer
  split
  · exact hmono
  · split
    · have hanswers : ({ client with out := client.out ++ [(message, true)] } : CaptureClient).answers
          = client.answers ++ [message.eventId] := by
        simp [CaptureClient.answers]
      refine ⟨h.nodup, h.bounded, fun i hi => ?_, ?_, fun key hk => ?_⟩
      · rw [hanswers] at hi
        rcases List.mem_append.mp hi with hi | hi
        · exact h.answers i hi
        · exact List.mem_singleton.mp hi ▸ hin
      · rw [hanswers]
        refine List.nodup_append.mpr ⟨h.once, List.nodup_singleton _, fun a hm b hb he => ?_⟩
        exact hout (List.mem_singleton.mp hb ▸ he ▸ hm)
      · obtain ⟨hkey, hne⟩ := ha key hk
        obtain ⟨hm, hi, ho⟩ := h.awaited key hkey
        refine ⟨hm, hi, fun hmem => ?_⟩
        rw [hanswers] at hmem
        exact (List.mem_append.mp hmem).elim ho fun hl => hne (List.mem_singleton.mp hl)
    · exact hmono.of_answers rfl rfl (List.Sublist.refl _)

theorem sent (h : Held n awaited client) : Held n awaited client.sent := by
  unfold CaptureClient.sent
  cases hs : client.sending with
  | none => exact h
  | some m =>
    obtain ⟨message, release⟩ := m
    simp only
    cases release with
    | false =>
      simp only [Bool.false_eq_true, and_false, if_false]
      exact h.of_answers rfl rfl (by simp [CaptureClient.answers, hs])
    | true =>
      have hanswers : client.answers = message.eventId :: (client.out.filter Prod.snd).map fun m => m.1.eventId := by
        simp [CaptureClient.answers, hs]
      have hnd := h.once
      rw [hanswers, List.nodup_cons] at hnd
      split
      · refine ⟨h.nodup.filter _, (List.length_filter_le _ _).trans h.bounded, fun i hi => ?_, by simpa [CaptureClient.answers] using hnd.2,
          fun key hk => ?_⟩
        · have hrest : i ∈ (client.out.filter Prod.snd).map fun m => m.1.eventId := by simpa [CaptureClient.answers] using hi
          have hin := h.answers i (hanswers ▸ List.mem_cons_of_mem _ hrest)
          exact List.mem_filter.mpr ⟨hin, decide_eq_true fun he => hnd.1 (he ▸ hrest)⟩
        · obtain ⟨hm, hi, ho⟩ := h.awaited key hk
          rw [hanswers, List.mem_cons, not_or] at ho
          exact ⟨hm, List.mem_filter.mpr ⟨hi, decide_eq_true ho.1⟩, by simpa [CaptureClient.answers] using ho.2⟩
      · refine h.of_answers rfl rfl ?_
        rw [hanswers]
        simp [CaptureClient.answers]

theorem hold (h : Held n awaited client) (hroom : id ∈ client.inflight ∨ client.inflight.length < n) (hout : id ∉ client.answers)
    (ha : ∀ key, awaited' key → awaited key ∨ key = (client.machine, id)) :
    Held n awaited' { client with inflight := client.inflight.insert id } where
  nodup := h.nodup.insert
  bounded := by
    by_cases hi : id ∈ client.inflight
    · simpa [hi] using h.bounded
    · have hlt := hroom.resolve_left hi
      simp only [List.length_insert_of_not_mem hi]
      omega
  answers i hi := List.mem_insert_of_mem (h.answers i hi)
  once := h.once
  awaited key hk := by
    rcases ha key hk with hk | rfl
    · obtain ⟨hm, hi, ho⟩ := h.awaited key hk
      exact ⟨hm, List.mem_insert_of_mem hi, ho⟩
    · exact ⟨rfl, List.mem_insert_self, hout⟩

end Held

def IngressNote.offers (j c : Nat) : IngressNote → Bool
  | offered i k _ _ => i = j ∧ k = c
  | called .. | ended .. => false

/-- An acknowledgement was offered after the controller had returned it. -/
def Returned (n : IngressNote) (pre : List IngressNote) : Prop :=
  ∀ j c r room, n = .offered j c (.ack r) room → ∃ before after, .called j before after (.ok r) ∈ pre

namespace CaptureWebSocketServer

variable {s t : CaptureWebSocketServer} {j c : Nat} {job : CaptureJob} {client : CaptureClient} {message : Frame} {work rest : List Nat}

/-- What was noted of the jobs. -/
structure Noted (s : CaptureWebSocketServer) (work : List Nat) : Prop where
  called : ∀ j before after result, .called j before after result ∈ s.notes → ∃ job, s.made[j]? = some job
    ∧ (job.generation ≠ before.mem.captureGeneration → after = before ∧ result = .error (Exc.value "Capture is stopped"))
    ∧ ∀ r, result = .ok r → Names job.event r
  returned : ∀ j result, s.worker = .returned j result → ∃ before after, .called j before after result ∈ s.notes
  ended : ∀ j waiting, .ended j waiting ∈ s.notes → j < s.made.length ∧ j ∉ work
  fresh : ∀ j, j ∈ work ∨ s.made.length ≤ j → ∀ c, s.notes.countP (IngressNote.offers j c) = 0
  offers : ∀ j waiting, .ended j waiting ∈ s.notes → ∀ c, s.notes.countP (IngressNote.offers j c) = if c ∈ waiting then 1 else 0
  answers : ∀ j c a room, .offered j c a room ∈ s.notes → ∃ job, s.made[j]? = some job ∧ a.eventId = job.event.eventId
  acked : Preceded Returned s.notes

/-- The jobs keep their events and generations. -/
def Kept (s t : CaptureWebSocketServer) : Prop := s.made.length ≤ t.made.length
  ∧ ∀ (j : Nat) (job : CaptureJob), s.made[j]? = some job →
    ∃ q : CaptureJob, t.made[j]? = some q ∧ q.event = job.event ∧ q.generation = job.generation

theorem Kept.of_made (h : t.made = s.made) : Kept s t := ⟨h ▸ Nat.le_refl _, fun _ job hj => ⟨job, h ▸ hj, rfl, rfl⟩⟩

namespace Noted

/-- No note is new, and no job has ended. -/
theorem of_kept (h : s.Noted work) (hk : Kept s t) (hn : t.notes = s.notes) (hw : ∀ j result, t.worker = .returned j result → t.worker = s.worker)
    {more : List Nat} (hmore : ∀ j ∈ more, j ∈ work ∨ s.made.length ≤ j) : t.Noted more where
  called j before after result hc := by
    obtain ⟨job, hj, hs, hr⟩ := h.called j before after result (hn ▸ hc)
    obtain ⟨q, hq, he, hg⟩ := hk.2 j job hj
    exact ⟨q, hq, hg ▸ hs, fun r hr' => (hr r hr').trans (congrArg _ he.symm)⟩
  returned j result hr := hn ▸ h.returned j result ((hw j result hr).symm.trans hr)
  ended j waiting he := by
    obtain ⟨hlt, hout⟩ := h.ended j waiting (hn ▸ he)
    refine ⟨hlt.trans_le hk.1, fun hin => ?_⟩
    rcases hmore j hin with hw | hle
    · exact hout hw
    · omega
  fresh j hj := by
    rw [hn]
    refine h.fresh j ?_
    rcases hj with hj | hj
    · exact hmore j hj
    · exact Or.inr (hk.1.trans hj)
  offers := hn ▸ h.offers
  answers j c a room ha := by
    obtain ⟨job, hj, he⟩ := h.answers j c a room (hn ▸ ha)
    obtain ⟨q, hq, hqe, _⟩ := hk.2 j job hj
    exact ⟨q, hq, hqe ▸ he⟩
  acked := hn ▸ h.acked

theorem call {before after : World} {result : Except Exc NativeResult} (h : s.Noted work) (hj : s.made[j]? = some job)
    (hs : job.generation ≠ before.mem.captureGeneration → after = before ∧ result = .error (Exc.value "Capture is stopped"))
    (hr : ∀ r, result = .ok r → Names job.event r) (w : World) :
    ({ s with world := w, worker := .returned j result, notes := s.notes ++ [.called j before after result] }
      : CaptureWebSocketServer).Noted work where
  called i b a r hc := by
    rcases List.mem_append.mp hc with hc | hc
    · exact h.called i b a r hc
    · obtain ⟨rfl, rfl, rfl, rfl⟩ := IngressNote.called.inj (List.mem_singleton.mp hc)
      exact ⟨job, hj, hs, hr⟩
  returned i r hi := by
    obtain ⟨rfl, rfl⟩ := IngressWorker.returned.inj hi
    exact ⟨before, after, List.mem_append_right _ List.mem_cons_self⟩
  ended i waiting hi := h.ended i waiting (by simpa using hi)
  fresh i hi c := by
    rw [List.countP_append, h.fresh i hi c]
    rfl
  offers i waiting hi c := by
    rw [List.countP_append, h.offers i waiting (by simpa using hi) c]
    rfl
  answers i c a room hi := h.answers i c a room (by simpa using hi)
  acked := h.acked.append fun n hn pre i c r room he => by
    rw [List.mem_singleton.mp hn] at he
    cases he

theorem conclude (h : s.Noted (j :: rest)) (hq : s.Queued (j :: rest)) (hj : s.made[j]? = some job)
    (hid : message.eventId = job.event.eventId) (hack : ∀ r, message = .ack r → ∃ before after, .called j before after (.ok r) ∈ s.notes) :
    (s.conclude j job message).Noted rest := by
  have ha := hq.concluded hj message
  have hnodup := (hq.waiters job (List.mem_of_getElem? hj)).1
  have hmade : (s.conclude j job message).made = s.made := ha.made
  let told : List IngressNote := (job.waiters.filter s.isOpen).map fun c => .offered j c message (s.room c)
  have hnotes : (s.conclude j job message).notes = s.notes ++ ([.ended j (job.waiters.filter s.isOpen)] ++ told) := by
    rw [ha.notes, ← List.append_assoc]
    rfl
  have hout : j ∉ rest := (List.nodup_cons.mp hq.nodup.1).1
  have hopen : (job.waiters.filter s.isOpen).Nodup := hnodup.filter _
  have htold (i c : Nat) : told.countP (IngressNote.offers i c) = if i = j ∧ c ∈ job.waiters.filter s.isOpen then 1 else 0 := by
    rw [List.countP_map]
    by_cases hi : i = j
    · have hcount : (job.waiters.filter s.isOpen).countP (IngressNote.offers i c ∘ fun c => .offered j c message (s.room c))
          = (job.waiters.filter s.isOpen).count c := by
        refine List.countP_congr fun k _ => ?_
        simp [IngressNote.offers, hi]
      rw [hcount, hopen.count]
      simp [hi]
    · rw [if_neg fun hc => hi hc.1]
      exact List.countP_eq_zero.mpr fun k _ => by simp [IngressNote.offers, Ne.symm hi]
  have hcount (i c : Nat) : (s.conclude j job message).notes.countP (IngressNote.offers i c)
      = s.notes.countP (IngressNote.offers i c) + if i = j ∧ c ∈ job.waiters.filter s.isOpen then 1 else 0 := by
    rw [hnotes, List.countP_append, List.countP_append, htold]
    simp [IngressNote.offers]
  have hnote {n : IngressNote} (hn : n ∈ (s.conclude j job message).notes) :
      n ∈ s.notes ∨ n = .ended j (job.waiters.filter s.isOpen) ∨ ∃ c, n = .offered j c message (s.room c) := by
    rw [hnotes] at hn
    rcases List.mem_append.mp hn with hn | hn
    · exact Or.inl hn
    rcases List.mem_append.mp hn with hn | hn
    · exact Or.inr (Or.inl (List.mem_singleton.mp hn))
    · obtain ⟨c, _, rfl⟩ := List.mem_map.mp hn
      exact Or.inr (Or.inr ⟨c, rfl⟩)
  refine ⟨?_, ?_, ?_, ?_, ?_, ?_, ?_⟩
  · intro i before after result hc
    rcases hnote hc with hc | hc | ⟨k, hc⟩
    · exact hmade ▸ h.called i before after result hc
    · cases hc
    · cases hc
  · intro i result hr
    rw [ha.worker] at hr
    cases hr
  · intro i waiting he
    rw [hmade]
    rcases hnote he with he | he | ⟨k, he⟩
    · obtain ⟨hlt, hnot⟩ := h.ended i waiting he
      exact ⟨hlt, fun hin => hnot (List.mem_cons_of_mem _ hin)⟩
    · obtain ⟨rfl, rfl⟩ := IngressNote.ended.inj he
      exact ⟨hq.lt_length List.mem_cons_self, hout⟩
    · cases he
  · intro i hi c
    rw [hmade] at hi
    have hne : i ≠ j := by
      rintro rfl
      rcases hi with hi | hi
      · exact hout hi
      · exact absurd (hq.lt_length List.mem_cons_self) (by omega)
    rw [hcount, h.fresh i (hi.imp_left (List.mem_cons_of_mem _)), if_neg fun hc => hne hc.1]
  · intro i waiting he c
    rw [hcount]
    rcases hnote he with he | he | ⟨k, he⟩
    · have hne : i ≠ j := fun hij => (h.ended i waiting he).2 (hij ▸ List.mem_cons_self)
      rw [h.offers i waiting he, if_neg (c := i = j ∧ _) fun hc => hne hc.1, Nat.add_zero]
    · obtain ⟨rfl, rfl⟩ := IngressNote.ended.inj he
      rw [h.fresh i (Or.inl List.mem_cons_self)]
      simp
    · cases he
  · intro i c a room hi
    rw [hmade]
    rcases hnote hi with hi | hi | ⟨k, hi⟩
    · exact h.answers i c a room hi
    · cases hi
    · obtain ⟨rfl, rfl, rfl, rfl⟩ := IngressNote.offered.inj hi
      exact ⟨job, hj, hid⟩
  · rw [hnotes]
    refine h.acked.append fun n hn pre i c r room he => ?_
    rcases List.mem_append.mp hn with hn | hn
    · rw [List.mem_singleton.mp hn] at he
      cases he
    · obtain ⟨k, _, rfl⟩ := List.mem_map.mp hn
      obtain ⟨rfl, rfl, rfl, rfl⟩ := IngressNote.offered.inj he
      obtain ⟨before, after, hcalled⟩ := hack r rfl
      exact ⟨before, after, List.mem_append_left _ hcalled⟩

end Noted

/-- What every run keeps. -/
structure Sound (s : CaptureWebSocketServer) : Prop where
  queued : s.Queued s.atWork
  noted : s.Noted s.atWork

/-- The client waits for the job of the key. -/
def Awaited (s : CaptureWebSocketServer) (c : Nat) (key : String × String) : Prop :=
  ∃ j job, (key, j) ∈ s.pending ∧ s.made[j]? = some job ∧ c ∈ job.waiters

/-- Every client's places are accounted for. -/
def Places (s : CaptureWebSocketServer) : Prop :=
  ∀ c client, s.client? c = some client → Held s.maxInflight (s.Awaited c) client

/-- An event is admitted again while a final answer to it is on its way to the client. -/
def Reenters (s : CaptureWebSocketServer) (c : Nat) (event : CaptureEvent) : Prop :=
  ∃ client, s.client? c = some client ∧ s.refusal client event = none ∧ event.eventId ∈ client.answers

def Settles (s : CaptureWebSocketServer) : IngressAction → Prop
  | .receive c event => ¬ s.Reenters c event
  | _ => True

/-- Only clients, the world or the flags change. -/
theorem Sound.of_same (h : s.Sound) (hm : t.made = s.made) (hp : t.pending = s.pending) (hj : t.jobs = s.jobs)
    (hw : t.worker = s.worker) (hn : t.notes = s.notes) (hc : s.clients.length ≤ t.clients.length) : t.Sound := by
  have hwork : t.atWork = s.atWork := by rw [atWork, atWork, hj, hw]
  exact ⟨hwork ▸ h.queued.of_same hm hp hc, h.noted.of_kept (.of_made hm) hn (fun _ _ _ => hw) fun j hin => Or.inl (hwork ▸ hin)⟩

theorem Sound.clients {f : CaptureClient → CaptureClient} (h : s.Sound) : ({ s with clients := s.clients.modify c f } : CaptureWebSocketServer).Sound :=
  h.of_same rfl rfl rfl rfl rfl (List.length_modify ..).ge

theorem Places.modify {f : CaptureClient → CaptureClient} (h : s.Places)
    (hf : ∀ client, s.client? c = some client → Held s.maxInflight (s.Awaited c) client → Held s.maxInflight (s.Awaited c) (f client)) :
    ({ s with clients := s.clients.modify c f } : CaptureWebSocketServer).Places := by
  intro i client hi
  simp only [client?, List.getElem?_modify] at hi
  obtain ⟨old, hold, rfl⟩ := Option.map_eq_some_iff.mp hi
  split
  · next hc =>
    subst hc
    exact hf old hold (h _ old hold)
  · exact h i old hold

theorem kept_join : Kept s (s.join j c) := by
  refine ⟨(List.length_modify ..).ge, fun i job hi => ?_⟩
  refine ⟨_, by simp only [join, List.getElem?_modify, hi]; rfl, ?_⟩
  split
  · beta_reduce
    split <;> exact ⟨rfl, rfl⟩
  · exact ⟨rfl, rfl⟩

theorem kept_enqueue {event : CaptureEvent} : Kept s (s.enqueue c event) := by
  refine ⟨by simp [enqueue], fun i job hi => ⟨job, ?_, rfl, rfl⟩⟩
  rw [enqueue, List.getElem?_append_left (List.getElem?_eq_some_iff.mp hi).1, hi]

theorem Sound.join (h : s.Sound) (hc : c < s.clients.length) : (s.join j c).Sound :=
  ⟨h.queued.join hc, h.noted.of_kept kept_join rfl (fun _ _ _ => rfl) fun _ hj => Or.inl hj⟩

theorem Sound.enqueue {event : CaptureEvent} (h : s.Sound) (hc : c < s.clients.length)
    (hnone : s.pendingJob? (event.machine, event.eventId) = none) : (s.enqueue c event).Sound := by
  have hwork : (s.enqueue c event).atWork = s.atWork ++ [s.made.length] := (List.append_assoc ..).symm
  refine ⟨hwork ▸ h.queued.enqueue hc (h.queued.pendingJob?_none hnone), ?_⟩
  refine h.noted.of_kept kept_enqueue rfl (fun _ _ _ => rfl) fun j hj => ?_
  rw [hwork] at hj
  rcases List.mem_append.mp hj with hj | hj
  · exact Or.inl hj
  · exact Or.inr (List.mem_singleton.mp hj).ge

theorem Sound.receiveEvent {event : CaptureEvent} (h : s.Sound) (hc : s.client? c = some client) : (s.receiveEvent c client event).Sound := by
  have hlt : c < s.clients.length := (List.getElem?_eq_some_iff.mp hc).1
  unfold CaptureWebSocketServer.receiveEvent
  split
  · exact h.clients
  · split
    · exact (h.join hlt).clients
    · next hnone => exact (h.enqueue hlt hnone).clients

theorem Sound.conclude (h : s.Queued (j :: s.jobs)) (hn : s.Noted (j :: s.jobs)) (hj : s.made[j]? = some job)
    (hid : message.eventId = job.event.eventId) (hack : ∀ r, message = .ack r → ∃ before after, .called j before after (.ok r) ∈ s.notes) :
    (s.conclude j job message).Sound := by
  have ha := h.concluded hj message
  have hwork : (s.conclude j job message).atWork = s.jobs := by
    rw [atWork, ha.worker, ha.jobs]
    rfl
  exact ⟨hwork ▸ h.conclude hj, hwork ▸ hn.conclude h hj hid hack⟩

theorem response_eventId {event : CaptureEvent} {result : Except Exc NativeResult} (h : ∀ r, result = .ok r → Names event r) :
    (response event result).eventId = event.eventId := by
  unfold response
  split
  · exact h _ rfl
  · split <;> rfl

theorem Sound.take (h : s.Sound) (ht : s.take = some t) : t.Sound := by
  unfold CaptureWebSocketServer.take at ht
  split at ht
  · next j rest hw hjobs =>
    have hwork : s.atWork = j :: rest := by
      rw [atWork, hw, hjobs]
      rfl
    split at ht
    · simp at ht
    · next job hj =>
      split at ht
      · obtain rfl := Option.some.inj ht
        have hq := hwork ▸ h.queued
        have hn := hwork ▸ h.noted
        refine Sound.conclude (s := { s with jobs := rest }) ⟨hq.pending, hq.keys, hq.made, hq.waiters⟩
          (hn.of_kept (t := { s with jobs := rest }) (.of_made rfl) rfl (fun _ _ _ => rfl) fun _ hi => Or.inl hi) hj rfl
          fun r hr => ?_
        cases hr
      · obtain rfl := Option.some.inj ht
        refine ⟨?_, ?_⟩
        · have hq := hwork ▸ h.queued
          exact ⟨hq.pending, hq.keys, hq.made, hq.waiters⟩
        · refine h.noted.of_kept (t := { s with jobs := rest, worker := .processing j }) (.of_made rfl) rfl (fun _ _ hr => ?_)
            fun i hi => Or.inl (hwork ▸ hi)
          cases hr
  · next hw hjobs =>
    split at ht
    · obtain rfl := Option.some.inj ht
      have hwork : s.atWork = [] := by
        rw [atWork, hw, hjobs]
        rfl
      refine ⟨?_, ?_⟩
      · have hq := hwork ▸ h.queued
        exact ⟨by rw [atWork, hjobs]; exact hq.pending, hq.keys, hq.made, hq.waiters⟩
      · refine h.noted.of_kept (t := { s with sentinel := false, worker := .ended }) (.of_made rfl) rfl (fun _ _ hr => ?_)
          fun i hi => ?_
        · cases hr
        · simp [atWork, hjobs, IngressWorker.job?] at hi
    · simp at ht
  · simp at ht

theorem Sound.call [Host] (h : s.Sound) {env : Nat → (q : Query) → Reply q} (ht : s.call env = some t) : t.Sound := by
  unfold CaptureWebSocketServer.call at ht
  split at ht
  · next j hw =>
    split at ht
    · simp at ht
    · next job hj =>
      simp only at ht
      generalize heval : (Controller.receiveNative job.event (some job.generation)).eval env s.world = ran at ht
      obtain ⟨after, result⟩ := ran
      obtain rfl := Option.some.inj ht
      have hwork : s.atWork = j :: s.jobs := by
        rw [atWork, hw]
        rfl
      refine ⟨?_, ?_⟩
      · have hq := hwork ▸ h.queued
        exact ⟨hq.pending, hq.keys, hq.made, hq.waiters⟩
      · refine (hwork ▸ h.noted).call hj (fun hg => ?_) (fun r hr => ?_) after
        · obtain ⟨rfl, rfl⟩ := Prod.mk.inj ((receiveNative_stale hg env).symm.trans heval)
          exact ⟨rfl, rfl⟩
        · have hret : ((Controller.receiveNative job.event (some job.generation)).eval env s.world).2 = .ok r := by
            rw [heval, hr]
          exact (receiveNative_names job.event (some job.generation)).eval hret
  · simp at ht

theorem Sound.finish (h : s.Sound) (ht : s.finish = some t) : t.Sound := by
  unfold CaptureWebSocketServer.finish at ht
  split at ht
  · next j result hw =>
    split at ht
    · simp at ht
    · next job hj =>
      obtain rfl := Option.some.inj ht
      have hwork : s.atWork = j :: s.jobs := by
        rw [atWork, hw]
        rfl
      obtain ⟨before, after, hcalled⟩ := h.noted.returned j result hw
      obtain ⟨job', hj', _, hnames⟩ := h.noted.called j before after result hcalled
      obtain rfl := Option.some.inj (hj.symm.trans hj')
      refine Sound.conclude (hwork ▸ h.queued) (hwork ▸ h.noted) hj (response_eventId hnames) fun r hr => ?_
      cases result with
      | ok x =>
        obtain rfl := Frame.ack.inj hr
        exact ⟨before, after, hcalled⟩
      | error e =>
        unfold response at hr
        simp only at hr
        split at hr <;> cases hr
  · simp at ht

theorem Sound.step [Host] (h : s.Sound) {a : IngressAction} (ht : s.step a = some t) : t.Sound := by
  cases a with
  | connect machine =>
    simp only [CaptureWebSocketServer.step, CaptureWebSocketServer.connect] at ht
    split at ht
    · obtain rfl := Option.some.inj ht
      exact h.of_same rfl rfl rfl rfl rfl (by simp)
    · simp at ht
  | receive c event =>
    simp only [CaptureWebSocketServer.step] at ht
    split at ht
    · next client hc =>
      split at ht
      · obtain rfl := Option.some.inj ht
        exact h.receiveEvent hc
      · simp at ht
    · simp at ht
  | fault c code identity =>
    simp only [CaptureWebSocketServer.step] at ht
    split at ht
    · obtain rfl := Option.some.inj ht
      exact h.clients
    · simp at ht
  | write c =>
    simp only [CaptureWebSocketServer.step] at ht
    split at ht
    · split at ht
      · split at ht
        · obtain rfl := Option.some.inj ht
          exact h.clients
        · simp at ht
      · simp at ht
    · simp at ht
  | sent c =>
    obtain rfl := Option.some.inj ht
    exact h.clients
  | writeFails c =>
    obtain rfl := Option.some.inj ht
    exact h.clients
  | disconnect c =>
    obtain rfl := Option.some.inj ht
    exact h.clients
  | take => exact h.take ht
  | call env => exact h.call ht
  | finish => exact h.finish ht
  | stop =>
    obtain rfl := Option.some.inj ht
    exact h.of_same rfl rfl rfl rfl rfl (Nat.le_refl _)
  | shutdown =>
    simp only [CaptureWebSocketServer.step] at ht
    split at ht
    · obtain rfl := Option.some.inj ht
      exact h.of_same rfl rfl rfl rfl rfl (Nat.le_refl _)
    · simp at ht
  | mark =>
    simp only [CaptureWebSocketServer.step] at ht
    split at ht
    · obtain rfl := Option.some.inj ht
      exact h.of_same rfl rfl rfl rfl rfl (Nat.le_refl _)
    · simp at ht
  | elsewhere w =>
    obtain rfl := Option.some.inj ht
    exact h.of_same rfl rfl rfl rfl rfl (Nat.le_refl _)

theorem Places.reject (h : s.Places) {code : String} {identity : Option String} : (s.reject c code identity).Places :=
  h.modify fun _ _ hh => hh.offer_plain

theorem Places.hold {event : CaptureEvent} (h : s.Places) (hc : s.client? c = some client) (hm : event.machine = client.machine)
    (hroom : event.eventId ∈ client.inflight ∨ client.inflight.length < s.maxInflight) (hout : event.eventId ∉ client.answers)
    (hclients : t.clients = s.clients) (hn : t.maxInflight = s.maxInflight)
    (ha : ∀ i key, t.Awaited i key → s.Awaited i key ∨ i = c ∧ key = (event.machine, event.eventId)) : (t.hold c event).Places := by
  intro i found hi
  have hsame : (t.hold c event).maxInflight = s.maxInflight := hn
  rw [hsame]
  simp only [client?, CaptureWebSocketServer.hold, List.getElem?_modify, hclients] at hi
  obtain ⟨old, hold, rfl⟩ := Option.map_eq_some_iff.mp hi
  split
  · next hci =>
    subst hci
    obtain rfl := Option.some.inj (hc.symm.trans hold)
    refine (h c client hc).hold hroom hout fun key hk => (ha c key hk).imp_right fun he => ?_
    rw [← hm]
    exact he.2
  · next hci => exact (h i old hold).mono fun key hk => (ha i key hk).resolve_right fun he => hci he.1.symm

theorem Places.receiveEvent {event : CaptureEvent} (h : s.Places) (hs : s.Sound) (hc : s.client? c = some client)
    (hm : event.machine = client.machine) (hsettled : ¬ s.Reenters c event) : (s.receiveEvent c client event).Places := by
  unfold CaptureWebSocketServer.receiveEvent
  split
  · exact h.reject
  next hnone =>
  have hout : event.eventId ∉ client.answers := fun hin => hsettled ⟨client, hc, hnone, hin⟩
  have hroom : event.eventId ∈ client.inflight ∨ client.inflight.length < s.maxInflight := by
    unfold refusal at hnone
    split at hnone
    · simp at hnone
    split at hnone
    · simp at hnone
    · next hr =>
      by_cases hin : event.eventId ∈ client.inflight
      · exact Or.inl hin
      · exact Or.inr (Nat.lt_of_not_le fun hle => hr ⟨hle, hin⟩)
  split
  · next j job hp =>
    obtain ⟨hpending, hj⟩ := Queued.pendingJob?_some hp
    refine h.hold hc hm hroom hout rfl rfl fun i key ⟨k, q, hk, hq, hi⟩ => ?_
    simp only [CaptureWebSocketServer.join, List.getElem?_modify] at hq
    obtain ⟨o, ho, rfl⟩ := Option.map_eq_some_iff.mp hq
    by_cases hio : i ∈ o.waiters
    · exact Or.inl ⟨k, o, hk, ho, hio⟩
    split at hi
    · next hjk =>
      subst hjk
      split at hi
      · exact absurd hi hio
      · obtain ⟨o₁, ho₁, hkey₁⟩ := hs.queued.made _ hk
        obtain ⟨o₂, ho₂, hkey₂⟩ := hs.queued.made _ hpending
        obtain rfl := Option.some.inj (ho₁.symm.trans ho₂)
        rcases List.mem_append.mp hi with hi | hi
        · exact absurd (List.mem_filter.mp hi).1 hio
        · exact Or.inr ⟨List.mem_singleton.mp hi, hkey₁.symm.trans hkey₂⟩
    · exact absurd hi hio
  · next hp =>
    refine h.hold hc hm hroom hout rfl rfl fun i key ⟨k, q, hk, hq, hi⟩ => ?_
    simp only [CaptureWebSocketServer.enqueue] at hk hq
    rcases List.mem_append.mp hk with hk | hk
    · obtain ⟨o, ho, _⟩ := hs.queued.made _ hk
      rw [List.getElem?_append_left (List.getElem?_eq_some_iff.mp ho).1] at hq
      exact Or.inl ⟨k, q, hk, hq, hi⟩
    · obtain ⟨rfl, rfl⟩ := Prod.mk.inj (List.mem_singleton.mp hk)
      rw [List.getElem?_concat_length] at hq
      obtain rfl := Option.some.inj hq
      exact Or.inr ⟨List.mem_singleton.mp hi, rfl⟩

theorem Places.conclude (h : s.Places) (hq : s.Queued (j :: rest)) (hj : s.made[j]? = some job)
    (hid : message.eventId = job.event.eventId) : (s.conclude j job message).Places := by
  have ha := hq.concluded hj message
  obtain ⟨more, hp, _⟩ := hq.filter_pending hj
  have hawaited {i : Nat} {key : String × String} (hk : (s.conclude j job message).Awaited i key) : s.Awaited i key ∧ key ≠ job.key := by
    obtain ⟨k, o, hk, ho, hi⟩ := hk
    rw [ha.pending] at hk
    rw [ha.made] at ho
    obtain ⟨hk, hne⟩ := List.mem_filter.mp hk
    exact ⟨⟨k, o, hk, ho, hi⟩, of_decide_eq_true hne⟩
  intro i found hi
  rw [ha.clients] at hi
  obtain ⟨old, hold, rfl⟩ := Option.map_eq_some_iff.mp hi
  rw [ha.maxInflight]
  have hheld : Held s.maxInflight (s.Awaited i) old := h i old hold
  split
  · next hin =>
    have hself : s.Awaited i job.key := ⟨j, job, hp ▸ List.mem_cons_self, hj, hin⟩
    obtain ⟨hm, hinflight, hanswers⟩ := hheld.awaited job.key hself
    refine hheld.offer_final (hid ▸ hinflight) (hid ▸ hanswers) fun key hk => ?_
    obtain ⟨hk, hne⟩ := hawaited hk
    exact ⟨hk, fun he => hne (Prod.ext ((hheld.awaited key hk).1.trans hm.symm) (he.trans hid))⟩
  · exact hheld.mono fun key hk => (hawaited hk).1

theorem Places.take (h : s.Places) (hs : s.Sound) (ht : s.take = some t) : t.Places := by
  unfold CaptureWebSocketServer.take at ht
  split at ht
  · next j rest hw hjobs =>
    have hwork : s.atWork = j :: rest := by
      rw [atWork, hw, hjobs]
      rfl
    split at ht
    · simp at ht
    · next job hj =>
      split at ht
      · obtain rfl := Option.some.inj ht
        have hq := hwork ▸ hs.queued
        exact Places.conclude (s := { s with jobs := rest }) h ⟨hq.pending, hq.keys, hq.made, hq.waiters⟩ hj rfl
      · obtain rfl := Option.some.inj ht
        exact h
  · split at ht
    · obtain rfl := Option.some.inj ht
      exact h
    · simp at ht
  · simp at ht

theorem Places.finish (h : s.Places) (hs : s.Sound) (ht : s.finish = some t) : t.Places := by
  unfold CaptureWebSocketServer.finish at ht
  split at ht
  · next j result hw =>
    split at ht
    · simp at ht
    · next job hj =>
      obtain rfl := Option.some.inj ht
      have hwork : s.atWork = j :: s.jobs := by
        rw [atWork, hw]
        rfl
      obtain ⟨before, after, hcalled⟩ := hs.noted.returned j result hw
      obtain ⟨job', hj', _, hnames⟩ := hs.noted.called j before after result hcalled
      obtain rfl := Option.some.inj (hj.symm.trans hj')
      exact h.conclude (hwork ▸ hs.queued) hj (response_eventId hnames)
  · simp at ht

theorem Places.step [Host] {a : IngressAction} (h : s.Places) (hs : s.Sound) (ha : s.Settles a) (ht : s.step a = some t) : t.Places := by
  cases a with
  | connect machine =>
    simp only [CaptureWebSocketServer.step, CaptureWebSocketServer.connect] at ht
    split at ht
    · obtain rfl := Option.some.inj ht
      intro i client hi
      simp only [client?] at hi
      by_cases hlt : i < s.clients.length
      · rw [List.getElem?_append_left hlt] at hi
        exact h i client hi
      · rw [List.getElem?_append_right (Nat.le_of_not_lt hlt)] at hi
        obtain rfl := List.mem_singleton.mp (List.mem_of_getElem? hi)
        refine ⟨List.nodup_nil, Nat.zero_le _, by simp [CaptureClient.answers], by simp [CaptureClient.answers], ?_⟩
        rintro key ⟨j, job, _, hj, hin⟩
        exact absurd ((hs.queued.waiters job (List.mem_of_getElem? hj)).2 i hin) hlt
    · simp at ht
  | receive c event =>
    simp only [CaptureWebSocketServer.step] at ht
    split at ht
    · next client hc =>
      split at ht
      · next hm =>
        obtain rfl := Option.some.inj ht
        exact h.receiveEvent hs hc hm.2 ha
      · simp at ht
    · simp at ht
  | fault c code identity =>
    simp only [CaptureWebSocketServer.step] at ht
    split at ht
    · obtain rfl := Option.some.inj ht
      exact h.reject
    · simp at ht
  | write c =>
    simp only [CaptureWebSocketServer.step] at ht
    split at ht
    · next client hc =>
      split at ht
      · next message rest hout =>
        split at ht
        · next hfree =>
          obtain rfl := Option.some.inj ht
          refine h.modify fun old hold hh => hh.of_answers rfl rfl ?_
          obtain rfl := Option.some.inj (hc.symm.trans hold)
          have hsending : client.sending = none := by simpa using hfree.2
          simp [CaptureClient.answers, hsending, hout]
        · simp at ht
      · simp at ht
    · simp at ht
  | sent c =>
    obtain rfl := Option.some.inj ht
    exact h.modify fun _ _ hh => hh.sent
  | writeFails c =>
    obtain rfl := Option.some.inj ht
    refine h.modify fun old _ hh => hh.of_answers rfl rfl ?_
    exact ((List.sublist_append_right _ _).filter _).map _
  | disconnect c =>
    obtain rfl := Option.some.inj ht
    refine h.modify fun old _ hh => hh.of_answers rfl rfl ?_
    exact ((List.sublist_append_right _ _).filter _).map _
  | take => exact h.take hs ht
  | call env =>
    simp only [CaptureWebSocketServer.step, CaptureWebSocketServer.call] at ht
    split at ht
    · split at ht
      · simp at ht
      · obtain rfl := Option.some.inj ht
        exact h
    · simp at ht
  | finish => exact h.finish hs ht
  | stop =>
    obtain rfl := Option.some.inj ht
    exact h
  | shutdown =>
    simp only [CaptureWebSocketServer.step] at ht
    split at ht
    · obtain rfl := Option.some.inj ht
      exact h
    · simp at ht
  | mark =>
    simp only [CaptureWebSocketServer.step] at ht
    split at ht
    · obtain rfl := Option.some.inj ht
      exact h
    · simp at ht
  | elsewhere w =>
    obtain rfl := Option.some.inj ht
    exact h

/-- No event is admitted while a final answer to it is on its way to the same client. -/
def Orderly [Host] (s : CaptureWebSocketServer) : List IngressAction → Prop
  | [] => True
  | a :: rest => s.Settles a ∧ ∀ t, s.step a = some t → t.Orderly rest

theorem Sound.run [Host] {actions : List IngressAction} (h : s.Sound) (ht : s.run actions = some t) : t.Sound := by
  induction actions generalizing s with
  | nil =>
    obtain rfl := Option.some.inj ht
    exact h
  | cons a rest ih =>
    obtain ⟨u, hu, ht⟩ := Option.bind_eq_some_iff.mp ht
    exact ih (h.step hu) ht

theorem Places.run [Host] {actions : List IngressAction} (h : s.Places) (hs : s.Sound) (ho : s.Orderly actions)
    (ht : s.run actions = some t) : t.Places := by
  induction actions generalizing s with
  | nil =>
    obtain rfl := Option.some.inj ht
    exact h
  | cons a rest ih =>
    obtain ⟨u, hu, ht⟩ := Option.bind_eq_some_iff.mp ht
    exact ih (h.step hs ho.1 hu) (hs.step hu) (ho.2 u hu) ht

/-- A server that has just started. -/
def fresh (queueLimit maxInflight : Nat) (world : World) : CaptureWebSocketServer := { queueLimit, maxInflight, world }

theorem fresh_sound (n m : Nat) (w : World) : (fresh n m w).Sound where
  queued := ⟨rfl, List.nodup_nil, by simp [fresh], by simp [fresh]⟩
  noted := by
    refine ⟨by simp [fresh], by simp [fresh], by simp [fresh], by simp [fresh], by simp [fresh], by simp [fresh], ?_⟩
    intro pre x post he
    simp [fresh] at he

theorem fresh_places (n m : Nat) (w : World) : (fresh n m w).Places := by simp [Places, fresh, client?]

/-- The client's event is admitted, and no final answer to it is sent. -/
def Unanswered (s : CaptureWebSocketServer) (c : Nat) (client : CaptureClient) (id : String) : Prop :=
  (∃ machine, s.Awaited c (machine, id)) ∨ id ∈ client.answers

theorem Places.length_le (h : s.Places) (hc : s.client? c = some client) {ids : List String} (hids : ids.Nodup)
    (hu : ∀ id ∈ ids, s.Unanswered c client id) : ids.length ≤ s.maxInflight := by
  have hheld := h c client hc
  have hsub : ids ⊆ client.inflight := fun id hid => by
    rcases hu id hid with ⟨machine, ha⟩ | ha
    · exact (hheld.awaited _ ha).2.1
    · exact hheld.answers id ha
  exact (List.subperm_of_subset hids hsub).length_le.trans hheld.bounded

end CaptureWebSocketServer

open CaptureWebSocketServer

/-- Over any history of the ingress: no key has two jobs at work; a job that ends has offered one final answer to each open
client that waited on it, and to no other; a job of an earlier generation is refused by the controller without effect; and an
acknowledgement is offered only after the controller has returned it. And if no event is admitted while a final answer to it
is on its way to the same client, then no client has more unanswered events than `max_inflight`. -/
theorem ws_admissions [Host] {queueLimit maxInflight : Nat} {w : World} {actions : List IngressAction} {s : CaptureWebSocketServer}
    (h : (CaptureWebSocketServer.fresh queueLimit maxInflight w).run actions = some s) :
    (s.atWork.filterMap fun j => s.made[j]?.map CaptureJob.key).Nodup
      ∧ (∀ j waiting, .ended j waiting ∈ s.notes → ∀ c, s.notes.countP (IngressNote.offers j c) = if c ∈ waiting then 1 else 0)
      ∧ (∀ j c a room, .offered j c a room ∈ s.notes → ∃ job, s.made[j]? = some job ∧ a.eventId = job.event.eventId)
      ∧ (∀ j before after result job, .called j before after result ∈ s.notes → s.made[j]? = some job →
          job.generation ≠ before.mem.captureGeneration → after = before ∧ result = .error (Exc.value "Capture is stopped"))
      ∧ (∀ pre post j c r room, s.notes = pre ++ .offered j c (.ack r) room :: post → ∃ before after, .called j before after (.ok r) ∈ pre)
      ∧ ((CaptureWebSocketServer.fresh queueLimit maxInflight w).Orderly actions → ∀ c client, s.client? c = some client →
          ∀ ids : List String, ids.Nodup → (∀ id ∈ ids, s.Unanswered c client id) → ids.length ≤ s.maxInflight) := by
  have hs : s.Sound := (fresh_sound _ _ _).run h
  refine ⟨hs.queued.nodup.2, hs.noted.offers, hs.noted.answers, ?_, ?_, ?_⟩
  · intro j before after result job hc hj hg
    obtain ⟨job', hj', hstale, _⟩ := hs.noted.called j before after result hc
    obtain rfl := Option.some.inj (hj.symm.trans hj')
    exact hstale hg
  · intro pre post j c r room he
    exact hs.noted.acked pre _ post he j c r room rfl
  · intro ho c client hc ids hids hu
    exact ((fresh_places _ _ _).run (fresh_sound _ _ _) ho h).length_le hc hids hu

section Sample

attribute [local instance] sampleHost

def sampleActions : List IngressAction :=
  [.connect "PC", .receive 0 sampleEvent, .take, .call sampleAnswers, .finish, .write 0, .sent 0, .write 0, .sent 0]

theorem ws_admissions_sample : ∃ w s, (CaptureWebSocketServer.fresh 256 1 w).run sampleActions = some s
    ∧ s.notes.any (IngressNote.offers 0 0) = true ∧ (s.atWork.filterMap fun j => s.made[j]?.map CaptureJob.key).Nodup := by
  have hrun : ((CaptureWebSocketServer.fresh 256 1 (started bridgeMemory)).run sampleActions).any
      (fun s => s.notes.any (IngressNote.offers 0 0)) = true := by decide +kernel
  obtain ⟨w, hw⟩ : ∃ w, w = started bridgeMemory := ⟨_, rfl⟩
  rw [← hw] at hrun
  obtain ⟨s, hs, hoffered⟩ := (Option.any_eq_true _ _).mp hrun
  exact ⟨w, s, hs, hoffered, (ws_admissions hs).1⟩

def secondEvent : CaptureEvent := { sampleEvent with eventId := "e2", eventId_bounds := second_bounds }

/-- The event comes again after its job has ended, and before the answer is sent. -/
def resentActions : List IngressAction :=
  [.connect "PC", .receive 0 sampleEvent, .take, .call sampleAnswers, .finish, .receive 0 sampleEvent,
    .write 0, .sent 0, .write 0, .sent 0, .receive 0 secondEvent]

def awaits (s : CaptureWebSocketServer) (c : Nat) (key : String × String) : Bool :=
  s.pending.any fun p => p.1 = key ∧ s.made[p.2]?.any fun job => c ∈ job.waiters

theorem awaited_of_awaits {s : CaptureWebSocketServer} {c : Nat} {key : String × String} (h : awaits s c key = true) :
    s.Awaited c key := by
  obtain ⟨p, hp, hk⟩ := List.any_eq_true.mp h
  obtain ⟨rfl, hw⟩ := of_decide_eq_true hk
  obtain ⟨job, hj, hc⟩ := (Option.any_eq_true _ _).mp hw
  exact ⟨p.2, job, hp, hj, of_decide_eq_true hc⟩

/-- The answer to the first job gives back the place of the second, and the client has two unanswered events for one place. -/
theorem ws_inflight_exceeded : ∃ w s client, (CaptureWebSocketServer.fresh 256 1 w).run resentActions = some s
    ∧ s.client? 0 = some client ∧ client.closed = false ∧ s.maxInflight = 1
    ∧ (∀ id ∈ ["e1", "e2"], s.Unanswered 0 client id) ∧ ["e1", "e2"].Nodup := by
  have hrun : ((CaptureWebSocketServer.fresh 256 1 (started bridgeMemory)).run resentActions).any
      (fun s => (s.client? 0).any fun client => !client.closed ∧ s.maxInflight = 1
        ∧ awaits s 0 ("PC", "e1") ∧ awaits s 0 ("PC", "e2")) = true := by decide +kernel
  obtain ⟨w, hw⟩ : ∃ w, w = started bridgeMemory := ⟨_, rfl⟩
  rw [← hw] at hrun
  obtain ⟨s, hs, hclient⟩ := (Option.any_eq_true _ _).mp hrun
  obtain ⟨client, hc, hstate⟩ := (Option.any_eq_true _ _).mp hclient
  obtain ⟨hopen, hmax, h₁, h₂⟩ := of_decide_eq_true hstate
  refine ⟨w, s, client, hs, hc, by simpa using hopen, hmax, ?_, by decide⟩
  intro id hid
  rcases List.mem_cons.mp hid with rfl | hid
  · exact Or.inl ⟨"PC", awaited_of_awaits h₁⟩
  · obtain rfl := List.mem_singleton.mp hid
    exact Or.inl ⟨"PC", awaited_of_awaits h₂⟩

end Sample

end MatchTrader
