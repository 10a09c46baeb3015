import MatchTrader.WebSocketAdmissions

/-! The order of the ingress: events are received as they were admitted, each is answered, and the answers go to the machine that
sent it. -/

namespace MatchTrader

open Durable

def IngressNote.endedJob? : IngressNote → Option Nat
  | ended j _ => some j
  | called .. | offered .. => none

def IngressNote.calledJob? : IngressNote → Option Nat
  | called j .. => some j
  | ended .. | offered .. => none

def IngressWorker.returned? : IngressWorker → Option Nat
  | returned j _ => some j
  | idle | processing _ | ended => none

namespace CaptureWebSocketServer

variable {s t : CaptureWebSocketServer} {j c : Nat} {job : CaptureJob} {client : CaptureClient} {message : Frame} {rest : List Nat}

/-- The jobs that have ended, in their order. -/
def finished (s : CaptureWebSocketServer) : List Nat := s.notes.filterMap IngressNote.endedJob?

/-- The jobs that the controller was called for, in their order. -/
def calls (s : CaptureWebSocketServer) : List Nat := s.notes.filterMap IngressNote.calledJob?

section Order

/-- The jobs are at work or have ended in the order in which they were made, and none is made once the end of the queue is marked. -/
structure InOrder (s : CaptureWebSocketServer) : Prop where
  order : s.finished ++ s.atWork = List.range s.made.length
  called : s.calls.Sublist (s.finished ++ s.worker.returned?.toList)
  closing : s.sentinel = true ∨ s.worker = .ended → s.accepting = false
  drained : s.worker = .ended → s.jobs = []

theorem InOrder.of_same (h : s.InOrder) (hm : t.made.length = s.made.length) (hj : t.jobs = s.jobs) (hw : t.worker = s.worker)
    (hn : t.notes = s.notes) (hs : t.sentinel = true → s.sentinel = true ∨ t.accepting = false)
    (ha : s.accepting = false → t.accepting = false) : t.InOrder where
  order := by
    rw [finished, atWork, hn, hj, hw, hm]
    exact h.order
  called := by
    rw [calls, finished, hn, hw]
    exact h.called
  closing hc := by
    rcases hc with hc | hc
    · exact (hs hc).elim (fun hold => ha (h.closing (Or.inl hold))) id
    · exact ha (h.closing (Or.inr (hw ▸ hc)))
  drained hd := hj ▸ h.drained (hw ▸ hd)

theorem InOrder.enqueue (h : s.InOrder) (ha : s.accepting = true) {event : CaptureEvent} : (s.enqueue c event).InOrder where
  order := by
    have hlength : (s.enqueue c event).made.length = s.made.length + 1 := by simp [CaptureWebSocketServer.enqueue]
    have hwork : (s.enqueue c event).atWork = s.atWork ++ [s.made.length] := (List.append_assoc ..).symm
    have hfinished : (s.enqueue c event).finished = s.finished := rfl
    rw [hlength, hwork, hfinished, ← List.append_assoc, h.order, List.range_succ]
  called := h.called
  closing hc := by
    rw [h.closing hc] at ha
    cases ha
  drained hd := by
    rw [h.closing (Or.inr hd)] at ha
    cases ha

/-- The first job at work ends. -/
theorem InOrder.conclude (hq : s.Queued (j :: s.jobs)) (ho : s.finished ++ j :: s.jobs = List.range s.made.length)
    (hc : s.calls.Sublist (s.finished ++ [j])) (hs : s.sentinel = true → s.accepting = false) (hj : s.made[j]? = some job) :
    (s.conclude j job message).InOrder := by
  have ha := hq.concluded hj message
  have hworker : (s.conclude j job message).worker = .idle := ha.worker
  have hnotes : (s.conclude j job message).notes = s.notes ++ [.ended j (job.waiters.filter s.isOpen)]
      ++ (job.waiters.filter (s.retire j job).isOpen).map fun c => .offered j c message ((s.retire j job).room c) := ha.notes
  have hoffered (l : List Nat) : (l.map fun c => IngressNote.offered j c message ((s.retire j job).room c)).filterMap IngressNote.endedJob? = []
      ∧ (l.map fun c => IngressNote.offered j c message ((s.retire j job).room c)).filterMap IngressNote.calledJob? = [] := by
    constructor
    · rw [List.filterMap_map]
      exact List.filterMap_eq_nil_iff.mpr fun _ _ => rfl
    · rw [List.filterMap_map]
      exact List.filterMap_eq_nil_iff.mpr fun _ _ => rfl
  have hfinished : (s.conclude j job message).finished = s.finished ++ [j] := by
    rw [finished, hnotes, List.filterMap_append, List.filterMap_append, (hoffered _).1, List.append_nil]
    rfl
  have hcalls : (s.conclude j job message).calls = s.calls := by
    rw [calls, hnotes, List.filterMap_append, List.filterMap_append, (hoffered _).2, List.append_nil]
    exact List.append_nil _
  have hflags : (s.conclude j job message).sentinel = s.sentinel ∧ (s.conclude j job message).accepting = s.accepting := by
    rw [ha.same]
    exact ⟨rfl, rfl⟩
  refine ⟨?_, ?_, ?_, ?_⟩
  · rw [hfinished, atWork, hworker, ha.jobs, ha.made, List.append_assoc]
    exact ho
  · rw [hcalls, hfinished, hworker]
    exact (List.append_nil _).symm ▸ hc
  · rintro (hsent | hend)
    · rw [hflags.1] at hsent
      rw [hflags.2]
      exact hs hsent
    · rw [hworker] at hend
      cases hend
  · intro hend
    rw [hworker] at hend
    cases hend

theorem InOrder.receiveEvent {event : CaptureEvent} (h : s.InOrder) : (s.receiveEvent c client event).InOrder := by
  unfold CaptureWebSocketServer.receiveEvent
  split
  · exact h.of_same rfl rfl rfl rfl Or.inl id
  · next hnone =>
    split
    · exact h.of_same (List.length_modify ..) rfl rfl rfl Or.inl id
    · have haccepting : s.accepting = true := by
        by_contra hno
        rw [refusal, if_pos (Or.inl (by simpa using hno))] at hnone
        cases hnone
      exact (h.enqueue haccepting).of_same rfl rfl rfl rfl Or.inl id

theorem InOrder.take (h : s.InOrder) (hs : s.Sound) (ht : s.take = some t) : t.InOrder := by
  unfold CaptureWebSocketServer.take at ht
  split at ht
  · next j rest hw hjobs =>
    have hwork : s.atWork = j :: rest := by
      rw [atWork, hw, hjobs]
      rfl
    have horder := h.order
    have hcalled := h.called
    rw [hwork] at horder
    rw [hw] at hcalled
    split at ht
    · cases ht
    · next job hj =>
      split at ht
      · obtain rfl := Option.some.inj ht
        have hq := hwork ▸ hs.queued
        refine InOrder.conclude (s := { s with jobs := rest }) ⟨hq.pending, hq.keys, hq.made, hq.waiters⟩ horder ?_
          (fun hsent => h.closing (Or.inl hsent)) hj
        exact hcalled.trans ((List.append_nil s.finished).symm ▸ List.sublist_append_left ..)
      · obtain rfl := Option.some.inj ht
        refine ⟨horder, hcalled, ?_, fun hend => ?_⟩
        · rintro (hsent | hend)
          · exact h.closing (Or.inl hsent)
          · cases hend
        · cases hend
  · next hw hjobs =>
    split at ht
    · next hsent =>
      obtain rfl := Option.some.inj ht
      have hwork : s.atWork = [] := by
        rw [atWork, hw, hjobs]
        rfl
      have horder := h.order
      have hcalled := h.called
      rw [hwork] at horder
      rw [hw] at hcalled
      refine ⟨?_, hcalled, fun _ => h.closing (Or.inl hsent), fun _ => hjobs⟩
      rw [atWork, hjobs]
      exact horder
    · cases ht
  · cases ht

theorem InOrder.call [Host] (h : s.InOrder) {env : Nat → (q : Query) → Reply q} (ht : s.call env = some t) : t.InOrder := by
  unfold CaptureWebSocketServer.call at ht
  split at ht
  · next j hw =>
    split at ht
    · cases ht
    · obtain rfl := Option.some.inj ht
      have hcalled := h.called
      have horder := h.order
      rw [atWork, hw] at horder
      rw [hw] at hcalled
      refine ⟨?_, ?_, ?_, fun hend => ?_⟩
      · rw [finished, List.filterMap_append]
        exact (congrArg (· ++ _) (List.append_nil _)).trans horder
      · rw [calls, finished, List.filterMap_append, List.filterMap_append]
        have hold : s.calls.Sublist s.finished := (List.append_nil s.finished) ▸ hcalled
        exact (List.append_nil s.finished).symm ▸ hold.append (List.Sublist.refl [j])
      · rintro (hsent | hend)
        · exact h.closing (Or.inl hsent)
        · cases hend
      · cases hend
  · cases ht

theorem InOrder.finish (h : s.InOrder) (hs : s.Sound) (ht : s.finish = some t) : t.InOrder := by
  unfold CaptureWebSocketServer.finish at ht
  split at ht
  · next j result hw =>
    split at ht
    · cases ht
    · next job hj =>
      obtain rfl := Option.some.inj ht
      have hwork : s.atWork = j :: s.jobs := by
        rw [atWork, hw]
        rfl
      have horder := h.order
      have hcalled := h.called
      rw [hwork] at horder
      rw [hw] at hcalled
      exact InOrder.conclude (hwork ▸ hs.queued) horder hcalled (fun hsent => h.closing (Or.inl hsent)) hj
  · cases ht

theorem InOrder.step [Host] (h : s.InOrder) (hs : s.Sound) {a : IngressAction} (ht : s.step a = some t) : t.InOrder := by
  cases a with
  | connect machine =>
    simp only [CaptureWebSocketServer.step, CaptureWebSocketServer.connect] at ht
    split at ht
    · obtain rfl := Option.some.inj ht
      exact h.of_same rfl rfl rfl rfl Or.inl id
    · cases ht
  | receive c event =>
    simp only [CaptureWebSocketServer.step] at ht
    split at ht
    · split at ht
      · obtain rfl := Option.some.inj ht
        exact h.receiveEvent
      · cases ht
    · cases ht
  | fault c code identity =>
    simp only [CaptureWebSocketServer.step] at ht
    split at ht
    · obtain rfl := Option.some.inj ht
      exact h.of_same rfl rfl rfl rfl Or.inl id
    · cases ht
  | write c =>
    simp only [CaptureWebSocketServer.step] at ht
    split at ht
    · split at ht
      · split at ht
        · obtain rfl := Option.some.inj ht
          exact h.of_same rfl rfl rfl rfl Or.inl id
        · cases ht
      · cases ht
    · cases ht
  | sent c =>
    obtain rfl := Option.some.inj ht
    exact h.of_same rfl rfl rfl rfl Or.inl id
  | writeFails c =>
    obtain rfl := Option.some.inj ht
    exact h.of_same rfl rfl rfl rfl Or.inl id
  | disconnect c =>
    obtain rfl := Option.some.inj ht
    exact h.of_same rfl rfl rfl rfl Or.inl id
  | take => exact h.take hs ht
  | call env => exact h.call ht
  | finish => exact h.finish hs ht
  | stop =>
    obtain rfl := Option.some.inj ht
    exact h.of_same rfl rfl rfl rfl Or.inl id
  | shutdown =>
    simp only [CaptureWebSocketServer.step] at ht
    split at ht
    · obtain rfl := Option.some.inj ht
      exact h.of_same rfl rfl rfl rfl Or.inl fun _ => rfl
    · cases ht
  | mark =>
    simp only [CaptureWebSocketServer.step] at ht
    split at ht
    · next hm =>
      obtain rfl := Option.some.inj ht
      have haccepting : s.accepting = false := by simpa using hm.1
      exact h.of_same rfl rfl rfl rfl (fun _ => Or.inr haccepting) id
    · cases ht
  | elsewhere w =>
    obtain rfl := Option.some.inj ht
    exact h.of_same rfl rfl rfl rfl Or.inl id

end Order

section Machines

/-- Machines have one connection each, and what is open is connected; who waits on a job or is answered for it is of its machine. -/
structure Separate (s : CaptureWebSocketServer) : Prop where
  few : (s.clients.filter CaptureClient.connected).length ≤ 8
  alone : ∀ c d client other, s.client? c = some client → s.client? d = some other → client.connected = true → other.connected = true →
    client.machine = other.machine → c = d
  connected : ∀ client ∈ s.clients, client.closed = false → client.connected = true
  waiters : ∀ job ∈ s.made, ∀ c ∈ job.waiters, ∃ client, s.client? c = some client ∧ client.machine = job.event.machine
  offered : ∀ j c message room, .offered j c message room ∈ s.notes →
    ∃ job client, s.made[j]? = some job ∧ s.client? c = some client ∧ client.machine = job.event.machine

/-- What may become of a connection: it keeps its machine, and never opens again. -/
structure Becomes (client later : CaptureClient) : Prop where
  machine : later.machine = client.machine
  connected : later.connected = true → client.connected = true
  closed : (client.closed = false → client.connected = true) → later.closed = false → later.connected = true

theorem Becomes.refl (client : CaptureClient) : Becomes client client := ⟨rfl, id, id⟩

theorem countP_le_of_forall₂ {α : Type} {p : α → Bool} {l m : List α} (h : List.Forall₂ (fun x y => p y = true → p x = true) l m) :
    m.countP p ≤ l.countP p := by
  induction h with
  | nil => exact Nat.le_refl 0
  | @cons x y l m hxy hrest ih =>
    rw [List.countP_cons, List.countP_cons]
    by_cases hy : p y = true
    · rw [if_pos hy, if_pos (hxy hy)]
      omega
    · rw [if_neg hy]
      omega

theorem Separate.follow (h : s.Separate) (hf : List.Forall₂ Becomes s.clients t.clients) (hk : Kept s t)
    (hw : ∀ job ∈ t.made, ∀ c ∈ job.waiters, ∃ client, s.client? c = some client ∧ client.machine = job.event.machine)
    (hn : ∀ j c message room, .offered j c message room ∈ t.notes →
      ∃ job client, s.made[j]? = some job ∧ s.client? c = some client ∧ client.machine = job.event.machine) : t.Separate := by
  have hnow {c : Nat} {later : CaptureClient} (hc : t.client? c = some later) : ∃ client, s.client? c = some client ∧ Becomes client later := by
    obtain ⟨hlt, rfl⟩ := List.getElem?_eq_some_iff.mp hc
    have hlt' : c < s.clients.length := hf.length_eq ▸ hlt
    exact ⟨_, List.getElem?_eq_getElem hlt', hf.get hlt' hlt⟩
  have hthen {c : Nat} {client : CaptureClient} (hc : s.client? c = some client) : ∃ later, t.client? c = some later ∧ Becomes client later := by
    obtain ⟨hlt, rfl⟩ := List.getElem?_eq_some_iff.mp hc
    have hlt' : c < t.clients.length := hf.length_eq ▸ hlt
    exact ⟨_, List.getElem?_eq_getElem hlt', hf.get hlt hlt'⟩
  refine ⟨?_, ?_, ?_, ?_, ?_⟩
  · rw [← List.countP_eq_length_filter]
    refine (countP_le_of_forall₂ (hf.imp fun client later hb => hb.connected)).trans ?_
    rw [List.countP_eq_length_filter]
    exact h.few
  · intro c d client other hc hd hcc hdc hm
    obtain ⟨client₀, hc₀, hb⟩ := hnow hc
    obtain ⟨other₀, hd₀, hb'⟩ := hnow hd
    exact h.alone c d client₀ other₀ hc₀ hd₀ (hb.connected hcc) (hb'.connected hdc) (hb.machine.symm.trans (hm.trans hb'.machine))
  · intro later hl hopen
    obtain ⟨c, hc⟩ := List.mem_iff_getElem?.mp hl
    obtain ⟨client, hc₀, hb⟩ := hnow hc
    exact hb.closed (h.connected client (List.mem_of_getElem? hc₀)) hopen
  · intro job hj c hc
    obtain ⟨client, hclient, hm⟩ := hw job hj c hc
    obtain ⟨later, hlater, hb⟩ := hthen hclient
    exact ⟨later, hlater, hb.machine.trans hm⟩
  · intro j c message room hoffered
    obtain ⟨job, client, hj, hclient, hm⟩ := hn j c message room hoffered
    obtain ⟨job', hj', he, -⟩ := hk.2 j job hj
    obtain ⟨later, hlater, hb⟩ := hthen hclient
    exact ⟨job', later, hj', hlater, hb.machine.trans (hm.trans (congrArg CaptureEvent.machine he.symm))⟩

theorem becomes_modify {f : CaptureClient → CaptureClient} (hf : ∀ client, Becomes client (f client)) (l : List CaptureClient) (c : Nat) :
    List.Forall₂ Becomes l (l.modify c f) := by
  refine List.forall₂_iff_get.mpr ⟨(List.length_modify ..).symm, fun i hi hi' => ?_⟩
  rw [List.get_eq_getElem, List.get_eq_getElem, List.getElem_modify]
  split
  · exact hf _
  · exact .refl _

/-- Only a connection changes. -/
theorem Separate.modify (h : s.Separate) {f : CaptureClient → CaptureClient} (hf : ∀ client, Becomes client (f client)) :
    ({ s with clients := s.clients.modify c f } : CaptureWebSocketServer).Separate :=
  h.follow (becomes_modify hf s.clients c) (.of_made rfl) h.waiters h.offered

theorem becomes_offer (message : Frame) (release : Bool) (client : CaptureClient) : Becomes client (client.offer message release) := by
  unfold CaptureClient.offer
  split
  · exact .refl client
  · split
    · exact ⟨rfl, id, id⟩
    · exact ⟨rfl, id, fun _ hopen => by cases hopen⟩

theorem becomes_sent (client : CaptureClient) : Becomes client client.sent := by
  unfold CaptureClient.sent
  split
  · exact .refl client
  · exact ⟨rfl, id, id⟩

theorem Separate.connect (h : s.Separate) {machine : String} (ht : s.connect machine = some t) : t.Separate := by
  unfold CaptureWebSocketServer.connect at ht
  split at ht
  · next hroom =>
    obtain rfl := Option.some.inj ht
    obtain ⟨hfew, hnew⟩ := hroom
    have hold {c : Nat} {client : CaptureClient} (hc : s.client? c = some client) {l : List CaptureClient} : (s.clients ++ l)[c]? = some client :=
      (List.getElem?_append_left (List.getElem?_eq_some_iff.mp hc).1).trans hc
    have hcases {c : Nat} {client x : CaptureClient} (hc : (s.clients ++ [x])[c]? = some client) :
        s.client? c = some client ∨ c = s.clients.length ∧ client = x := by
      by_cases hlt : c < s.clients.length
      · rw [List.getElem?_append_left hlt] at hc
        exact Or.inl hc
      · obtain ⟨hlen, -⟩ := List.getElem?_eq_some_iff.mp hc
        rw [List.length_append, List.length_singleton] at hlen
        obtain rfl : c = s.clients.length := by omega
        rw [List.getElem?_concat_length] at hc
        exact Or.inr ⟨rfl, (Option.some.inj hc).symm⟩
    refine ⟨?_, ?_, ?_, ?_, ?_⟩
    · rw [List.filter_append, List.length_append]
      have hone := List.length_filter_le CaptureClient.connected [{ machine, out := [(Frame.ready s.maxInflight s.world.mem.running, false)] }]
      rw [List.length_singleton] at hone
      omega
    · intro c d client other hc hd hcc hdc hm
      rcases hcases hc with hc | ⟨rfl, rfl⟩
      · rcases hcases hd with hd | ⟨rfl, rfl⟩
        · exact h.alone c d client other hc hd hcc hdc hm
        · exact absurd hm (hnew client (List.mem_of_getElem? hc) hcc)
      · rcases hcases hd with hd | ⟨rfl, rfl⟩
        · exact absurd hm.symm (hnew other (List.mem_of_getElem? hd) hdc)
        · rfl
    · intro client hc hopen
      rcases List.mem_append.mp hc with hc | hc
      · exact h.connected client hc hopen
      · obtain rfl := List.mem_singleton.mp hc
        rfl
    · intro job hj c hc
      obtain ⟨client, hclient, hm⟩ := h.waiters job hj c hc
      exact ⟨client, hold hclient, hm⟩
    · intro j c message room hoffered
      obtain ⟨job, client, hj, hclient, hm⟩ := h.offered j c message room hoffered
      exact ⟨job, client, hj, hold hclient, hm⟩
  · cases ht

theorem becomes_hold (event : CaptureEvent) (client : CaptureClient) :
    Becomes client { client with inflight := client.inflight.insert event.eventId } := ⟨rfl, id, id⟩

theorem Separate.receiveEvent {event : CaptureEvent} (h : s.Separate) (hs : s.Sound) (hc : s.client? c = some client)
    (hm : event.machine = client.machine) : (s.receiveEvent c client event).Separate := by
  unfold CaptureWebSocketServer.receiveEvent
  split
  · exact h.modify fun old => becomes_offer _ _ old
  · split
    · next j job hp =>
      obtain ⟨hpending, hj⟩ := Queued.pendingJob?_some hp
      obtain ⟨job', hj', hkey⟩ := hs.queued.made _ hpending
      obtain rfl := Option.some.inj (hj.symm.trans hj')
      have hkept : Kept s (s.join j c) := kept_join
      refine h.follow (becomes_modify (becomes_hold event) s.clients c) hkept ?_ h.offered
      intro job' hmem i hi
      obtain ⟨k, hk⟩ := List.mem_iff_getElem?.mp hmem
      change (s.made.modify j _)[k]? = some job' at hk
      rw [List.getElem?_modify] at hk
      obtain ⟨old, hold, rfl⟩ := Option.map_eq_some_iff.mp hk
      have hwaiters := h.waiters old (List.mem_of_getElem? hold)
      split at hi
      · next hjk =>
        subst hjk
        obtain rfl := Option.some.inj (hold.symm.trans hj)
        simp only at hi ⊢
        split at hi
        · next hin =>
          rw [if_pos trivial, if_pos hin]
          exact hwaiters i hi
        · next hout =>
          rw [if_pos trivial, if_neg hout]
          rcases List.mem_append.mp hi with hi | hi
          · exact hwaiters i (List.mem_filter.mp hi).1
          · obtain rfl := List.mem_singleton.mp hi
            exact ⟨client, hc, hm.symm.trans (congrArg Prod.fst hkey).symm⟩
      · next hjk =>
        rw [if_neg hjk]
        exact hwaiters i hi
    · have hkept : Kept s (s.enqueue c event) := kept_enqueue
      refine h.follow (becomes_modify (becomes_hold event) s.clients c) hkept ?_ h.offered
      intro job hmem i hi
      rcases List.mem_append.mp hmem with hmem | hmem
      · exact h.waiters job hmem i hi
      · obtain rfl := List.mem_singleton.mp hmem
        obtain rfl := List.mem_singleton.mp hi
        exact ⟨client, hc, hm.symm⟩

theorem Separate.conclude (h : s.Separate) (hq : s.Queued (j :: rest)) (hj : s.made[j]? = some job) :
    (s.conclude j job message).Separate := by
  have ha := hq.concluded hj message
  have hmade : (s.conclude j job message).made = s.made := ha.made
  have hclients : List.Forall₂ Becomes s.clients (s.conclude j job message).clients := by
    refine List.forall₂_iff_get.mpr ⟨ha.length.symm, fun i hi hi' => ?_⟩
    have hnow := ha.clients i
    change (s.conclude j job message).clients[i]? = s.clients[i]?.map _ at hnow
    rw [List.getElem?_eq_getElem hi', List.getElem?_eq_getElem hi, Option.map_some] at hnow
    rw [List.get_eq_getElem, List.get_eq_getElem, Option.some.inj hnow]
    split
    · exact becomes_offer _ _ _
    · exact .refl _
  refine h.follow hclients (.of_made hmade) (hmade ▸ h.waiters) ?_
  intro i c answer room hoffered
  have hnotes : (s.conclude j job message).notes = s.notes ++ [.ended j (job.waiters.filter s.isOpen)]
      ++ (job.waiters.filter (s.retire j job).isOpen).map fun c => .offered j c message ((s.retire j job).room c) := ha.notes
  rw [hnotes] at hoffered
  rcases List.mem_append.mp hoffered with hoffered | hoffered
  · rcases List.mem_append.mp hoffered with hoffered | hoffered
    · exact h.offered i c answer room hoffered
    · cases List.mem_singleton.mp hoffered
  · obtain ⟨d, hd, he⟩ := List.mem_map.mp hoffered
    obtain ⟨rfl, rfl, -, -⟩ := IngressNote.offered.inj he
    obtain ⟨client, hclient, hm⟩ := h.waiters job (List.mem_of_getElem? hj) d (List.mem_filter.mp hd).1
    exact ⟨job, client, hj, hclient, hm⟩

theorem Separate.take (h : s.Separate) (hs : s.Sound) (ht : s.take = some t) : t.Separate := by
  unfold CaptureWebSocketServer.take at ht
  split at ht
  · next j rest hw hjobs =>
    have hwork : s.atWork = j :: rest := by
      rw [atWork, hw, hjobs]
      rfl
    split at ht
    · cases ht
    · next job hj =>
      split at ht
      · obtain rfl := Option.some.inj ht
        have hq := hwork ▸ hs.queued
        have hsame : ({ s with jobs := rest } : CaptureWebSocketServer).Separate := ⟨h.few, h.alone, h.connected, h.waiters, h.offered⟩
        exact hsame.conclude (s := { s with jobs := rest }) ⟨hq.pending, hq.keys, hq.made, hq.waiters⟩ hj
      · obtain rfl := Option.some.inj ht
        exact ⟨h.few, h.alone, h.connected, h.waiters, h.offered⟩
  · split at ht
    · obtain rfl := Option.some.inj ht
      exact ⟨h.few, h.alone, h.connected, h.waiters, h.offered⟩
    · cases ht
  · cases ht

theorem Separate.call [Host] (h : s.Separate) {env : Nat → (q : Query) → Reply q} (ht : s.call env = some t) : t.Separate := by
  unfold CaptureWebSocketServer.call at ht
  split at ht
  · split at ht
    · cases ht
    · obtain rfl := Option.some.inj ht
      refine ⟨h.few, h.alone, h.connected, h.waiters, fun i c message room hoffered => ?_⟩
      rcases List.mem_append.mp hoffered with hoffered | hoffered
      · exact h.offered i c message room hoffered
      · cases List.mem_singleton.mp hoffered
  · cases ht

theorem Separate.finish (h : s.Separate) (hs : s.Sound) (ht : s.finish = some t) : t.Separate := by
  unfold CaptureWebSocketServer.finish at ht
  split at ht
  · next j result hw =>
    split at ht
    · cases ht
    · next job hj =>
      obtain rfl := Option.some.inj ht
      have hwork : s.atWork = j :: s.jobs := by
        rw [atWork, hw]
        rfl
      exact h.conclude (hwork ▸ hs.queued) hj
  · cases ht

theorem Separate.step [Host] (h : s.Separate) (hs : s.Sound) {a : IngressAction} (ht : s.step a = some t) : t.Separate := by
  cases a with
  | connect machine => exact h.connect ht
  | receive c event =>
    simp only [CaptureWebSocketServer.step] at ht
    split at ht
    · next client hc =>
      split at ht
      · next hm =>
        obtain rfl := Option.some.inj ht
        exact h.receiveEvent hs hc hm.2
      · cases ht
    · cases ht
  | fault c code identity =>
    simp only [CaptureWebSocketServer.step] at ht
    split at ht
    · obtain rfl := Option.some.inj ht
      exact h.modify fun old => becomes_offer _ _ old
    · cases ht
  | write c =>
    simp only [CaptureWebSocketServer.step] at ht
    split at ht
    · split at ht
      · split at ht
        · obtain rfl := Option.some.inj ht
          exact h.modify fun old => ⟨rfl, id, id⟩
        · cases ht
      · cases ht
    · cases ht
  | sent c =>
    obtain rfl := Option.some.inj ht
    exact h.modify becomes_sent
  | writeFails c =>
    obtain rfl := Option.some.inj ht
    exact h.modify fun old => ⟨rfl, id, id⟩
  | disconnect c =>
    obtain rfl := Option.some.inj ht
    exact h.modify fun old => ⟨rfl, (fun hc => by cases hc), fun _ hc => by cases hc⟩
  | take => exact h.take hs ht
  | call env => exact h.call ht
  | finish => exact h.finish hs ht
  | stop =>
    obtain rfl := Option.some.inj ht
    exact ⟨h.few, h.alone, h.connected, h.waiters, h.offered⟩
  | shutdown =>
    simp only [CaptureWebSocketServer.step] at ht
    split at ht
    · obtain rfl := Option.some.inj ht
      exact ⟨h.few, h.alone, h.connected, h.waiters, h.offered⟩
    · cases ht
  | mark =>
    simp only [CaptureWebSocketServer.step] at ht
    split at ht
    · obtain rfl := Option.some.inj ht
      exact ⟨h.few, h.alone, h.connected, h.waiters, h.offered⟩
    · cases ht
  | elsewhere w =>
    obtain rfl := Option.some.inj ht
    exact ⟨h.few, h.alone, h.connected, h.waiters, h.offered⟩

end Machines

section Runs

/-- The open clients that wait on a job are one at most. -/
theorem Separate.waiting (h : s.Separate) (hs : s.Sound) (hj : job ∈ s.made) : (job.waiters.filter s.isOpen).length ≤ 1 := by
  have hnodup : (job.waiters.filter s.isOpen).Nodup := (hs.queued.waiters job hj).1.filter _
  have hsame : ∀ c ∈ job.waiters.filter s.isOpen, ∀ d ∈ job.waiters.filter s.isOpen, c = d := by
    intro c hc d hd
    have hopen {i : Nat} (hi : i ∈ job.waiters.filter s.isOpen) :
        ∃ client, s.client? i = some client ∧ client.machine = job.event.machine ∧ client.connected = true := by
      obtain ⟨hw, ho⟩ := List.mem_filter.mp hi
      obtain ⟨client, hclient, hm⟩ := h.waiters job hj i hw
      rw [isOpen, hclient, Option.any_some] at ho
      exact ⟨client, hclient, hm, h.connected client (List.mem_of_getElem? hclient) (by simpa using ho)⟩
    obtain ⟨client, hclient, hm, hcc⟩ := hopen hc
    obtain ⟨other, hother, hm', hdc⟩ := hopen hd
    exact h.alone c d client other hclient hother hcc hdc (hm.trans hm'.symm)
  cases hl : job.waiters.filter s.isOpen with
  | nil => exact Nat.zero_le 1
  | cons c l =>
    cases l with
    | nil => exact Nat.le_refl 1
    | cons d l =>
      rw [hl] at hnodup hsame
      have hcd := hsame c List.mem_cons_self d (List.mem_cons_of_mem c List.mem_cons_self)
      exact absurd (hcd ▸ List.mem_cons_self) (List.nodup_cons.mp hnodup).1

attribute [local instance] sampleHost

end Runs

end CaptureWebSocketServer

end MatchTrader
