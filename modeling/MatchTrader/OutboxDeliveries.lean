import MatchTrader.DurableOutbox
import MatchTrader.Runs

/-! The journal holds the sender's events once each and in their order. Only the first file is ever
posted, so a request carries an event that is on record, or the next one. -/

namespace MatchTrader

open Durable Relation

namespace Journal

variable {j k : Journal}

/-- The events on record, in their order. -/
def payloads (j : Journal) : List CaptureEvent := j.events.map EventRow.payload

/-- Each row is under its event's own key. -/
def Keyed (j : Journal) : Prop := ∀ r ∈ j.events, r.eventKey = (r.payload.machine, r.payload.eventId)

theorem Keyed.recordEvent [Host] {e : CaptureEvent} {now identity : String} {a : EventRow × Bool} (hk : j.Keyed)
    (hone : ∀ x ∈ j.payloads, x.eventId = e.eventId → x = e) (h : j.recordEvent e now identity = .ok (a, k)) :
    k.Keyed ∧ e ∈ k.payloads ∧ (k.payloads = j.payloads ∨ e ∉ j.payloads ∧ k.payloads = j.payloads ++ [e]) := by
  obtain ⟨row, again⟩ := a
  obtain ⟨hkey, ⟨_, hrow, rfl⟩ | ⟨_, rfl, hevents, hnew⟩⟩ := recordEvent_cases h
  · have hx : row.payload ∈ k.payloads := List.mem_map_of_mem hrow
    have hid : row.payload.eventId = e.eventId := congrArg Prod.snd ((hk row hrow).symm.trans hkey)
    exact ⟨hk, hone _ hx hid ▸ hx, Or.inl rfl⟩
  · have hp : k.payloads = j.payloads ++ [row.payload] := by simp [payloads, hevents]
    refine ⟨fun r hr => ?_, hp ▸ List.mem_append_right _ List.mem_cons_self, Or.inr ⟨fun hmem => ?_, hp⟩⟩
    · rw [hevents] at hr
      rcases List.mem_append.mp hr with hr | hr
      · exact hk r hr
      · obtain rfl := List.mem_singleton.mp hr
        exact hkey
    · obtain ⟨r, hr, hrp⟩ := List.mem_map.mp hmem
      exact hnew r hr ((hk r hr).trans (hrp ▸ hkey.symm))

@[simp] theorem events_link (trade nativeId evidence at_ : String) (side : Leg) (scope : LegScope) (kind : Kind) :
    (j.link trade side scope kind nativeId evidence at_).events = j.events :=
  (Passive.link j trade nativeId evidence at_ side scope kind).events

@[simp] theorem events_updateTrade (i : String) (f : TradeRow → TradeRow) : (j.updateTrade i f).events = j.events := rfl

theorem events_initMapping {broker : String} (h : initMapping broker j = .ok k) : k.events = j.events :=
  initMapping_keeps (K := fun j k => k.events = j.events) h (fun _ => rfl) (fun h hh => hh.trans h)
    (fun _ _ _ _ _ _ _ _ => events_link ..) (fun _ _ => rfl) fun _ _ _ _ _ => rfl

end Journal

section Receiver

variable {w : World} {A : (q : Query) → Reply q → Prop} {e : CaptureEvent}

/-- What a request may do to the receiver's record. -/
def Tells (e : CaptureEvent) (s t : World) : Prop :=
  s.journal.Keyed → (∀ x ∈ s.journal.payloads, x.eventId = e.eventId → x = e) →
    t.journal.Keyed ∧ (t.journal.payloads = s.journal.payloads
      ∨ e ∉ s.journal.payloads ∧ t.journal.payloads = s.journal.payloads ++ [e])

theorem Tells.of_journal {s t : World} (h : t.journal = s.journal) : Tells e s t := fun hk _ => by
  rw [h]
  exact ⟨hk, Or.inl rfl⟩

theorem Tells.trans {s t u : World} (h : Tells e s t) (hh : Tells e t u) : Tells e s u := fun hk hone => by
  obtain ⟨hkt, ht⟩ := h hk hone
  have hmem : ∀ x ∈ t.journal.payloads, x.eventId = e.eventId → x = e := by
    intro x hx hid
    rcases ht with ht | ⟨_, ht⟩
    · exact hone x (ht ▸ hx) hid
    · rw [ht] at hx
      rcases List.mem_append.mp hx with hx | hx
      · exact hone x hx hid
      · exact List.mem_singleton.mp hx
  obtain ⟨hku, hu⟩ := hh hkt hmem
  refine ⟨hku, ?_⟩
  rcases ht with ht | ⟨hnew, ht⟩ <;> rcases hu with hu | ⟨hnew', hu⟩
  · exact Or.inl (hu.trans ht)
  · exact Or.inr ⟨ht ▸ hnew', by rw [hu, ht]⟩
  · exact Or.inr ⟨hnew, by rw [hu, ht]⟩
  · exact absurd (ht ▸ List.mem_append_right _ List.mem_cons_self) hnew'

theorem tells_of_steps {s t : World} (h : ReflTransGen (Tells e) s t) : Tells e s t := by
  induction h with
  | refl => exact .of_journal rfl
  | tail _ hstep ih => exact ih.trans hstep

theorem record_tells [Host] (hk : w.journal.Keyed) (hone : ∀ x ∈ w.journal.payloads, x.eventId = e.eventId → x = e) :
    (Store.record e).wp A (Tells e) (fun _ v => e ∈ v.journal.payloads) (fun _ _ => True) w := by
  unfold Store.record
  rw [Prog.wp_bind, wp_now]
  intro at_ _
  rw [Prog.wp_bind, wp_uuid4]
  intro identity _
  refine wp_transact (.of_journal rfl) trivial (fun _ _ => trivial) fun a j hj => ?_
  exact ⟨fun hk hone => (hk.recordEvent hone hj).imp_right And.right, (hk.recordEvent hone hj).2.1⟩

theorem openJournal_events [Host] (broker : String) : (Store.openJournal broker).wp A
    (fun s t => t.journal.events = s.journal.events) (fun _ _ => True) (fun _ _ => True) w := by
  unfold Store.openJournal
  rw [Prog.wp_bind]
  refine Store.wp_change rfl trivial (fun _ _ => trivial) fun j hj => ⟨Journal.events_initMapping hj, ?_⟩
  rw [Prog.wp_bind]
  refine wp_transact rfl trivial (fun _ _ => trivial) fun interrupted k hk => ?_
  simp only [Except.ok.injEq, Prod.mk.injEq] at hk
  obtain ⟨_, rfl⟩ := hk
  refine ⟨rfl, Prog.wp_forM (I := fun _ _ => True) (E := fun _ _ => True) _ (fun a _ v _ => ?_) trivial⟩
  unfold Store.recordReason
  rw [Prog.wp_bind, wp_now]
  intro at_ _
  refine Store.wp_change rfl trivial (fun _ _ => trivial) fun k hk => ⟨?_, trivial⟩
  unfold Journal.recordReason at hk
  split at hk
  · simp at hk
  · obtain rfl := Except.ok.inj hk
    rfl

theorem events_of_steps {s t : World} (h : ReflTransGen (fun s t : World => t.journal.events = s.journal.events) s t) :
    t.journal.events = s.journal.events := by
  induction h with
  | refl => rfl
  | tail _ hstep ih => exact hstep.trans ih

end Receiver

/-- The file that the pump's round is about. -/
def Pump.file? : Pump → Option OutboxFile
  | .idle => none
  | .read f | .posted _ f | .acknowledged f => some f

namespace Feed

/-- The events of the sender that the journal has. -/
def stored (s : Feed) : List CaptureEvent := s.receiver.journal.payloads

/-- What the history keeps: the journal has the events of the deleted files, and maybe the one of the
first file left, and no request carries any other event. -/
structure Sound (s : Feed) : Prop where
  ordered : (s.outbox.files.map OutboxFile.sequence).Pairwise (· < ·)
  numbered : s.running = true → ∀ f ∈ s.outbox.files, f.sequence ≤ s.outbox.sequence
  kept : s.enqueued = s.deleted ++ s.outbox.files.map OutboxFile.event
  distinct : (s.enqueued.map CaptureEvent.eventId).Nodup
  keyed : s.receiver.journal.Keyed
  stored : s.stored = s.deleted ∨ ∃ f, s.outbox.files.head? = some f ∧ s.stored = s.deleted ++ [f.event]
  posts : ∀ e ∈ s.posts, e ∈ s.deleted ∨ ∃ f, s.outbox.files.head? = some f ∧ f.event = e
  answers : ∀ i, (i, true) ∈ s.answers → ∃ e, s.posts[i]? = some e ∧ e ∈ s.stored
  head : ∀ f, s.outbox.pump.file? = some f → s.outbox.files.head? = some f
  posted : ∀ n f, s.outbox.pump = .posted n f → s.posts[n]? = some f.event
  acknowledged : ∀ f, s.outbox.pump = .acknowledged f → f.event ∈ s.stored

/-- A history's start. -/
structure Fresh (s : Feed) : Prop where
  files : s.outbox.files = []
  pump : s.outbox.pump = .idle
  posts : s.posts = []
  answers : s.answers = []
  enqueued : s.enqueued = []
  deleted : s.deleted = []
  events : s.receiver.journal.events = []

namespace Sound

variable {s t : Feed} {f : OutboxFile} {e : CaptureEvent}

theorem of_fresh (h : s.Fresh) : s.Sound where
  ordered := by simp [h.files]
  numbered := by simp [h.files]
  kept := by simp [h.files, h.enqueued, h.deleted]
  distinct := by simp [h.enqueued]
  keyed := by simp [Journal.Keyed, h.events]
  stored := Or.inl (by simp [Feed.stored, Journal.payloads, h.events, h.deleted])
  posts := by simp [h.posts]
  answers := by simp [h.answers]
  head := by simp [h.pump, Pump.file?]
  posted := by simp [h.pump]
  acknowledged := by simp [h.pump]

theorem deleted_subset (h : s.Sound) (he : e ∈ s.deleted) : e ∈ s.stored := by
  rcases h.stored with hs | ⟨f, _, hs⟩
  · exact hs ▸ he
  · exact hs ▸ List.mem_append_left _ he

theorem stored_isPrefix (h : s.Sound) : s.stored <+: s.enqueued := by
  rw [h.kept]
  rcases h.stored with hs | ⟨f, hf, hs⟩
  · exact hs ▸ List.prefix_append ..
  · obtain ⟨rest, hrest⟩ := List.head?_eq_some_iff.mp hf
    rw [hs, hrest, List.map_cons]
    exact ⟨rest.map OutboxFile.event, by simp⟩

theorem first_eq (h : s.Sound) : s.outbox.first = s.outbox.files.head? := by
  have hle : s.outbox.files.Pairwise fun a b => a.sequence ≤ b.sequence :=
    (List.pairwise_map.mp h.ordered).imp Nat.le_of_lt
  rw [DurableOutbox.first, hle.insertionSort_eq]

theorem mem_enqueued (h : s.Sound) (he : e ∈ s.posts) : e ∈ s.enqueued := by
  rw [h.kept]
  rcases h.posts e he with hd | ⟨f, hf, rfl⟩
  · exact List.mem_append_left _ hd
  · exact List.mem_append_right _ (List.mem_map_of_mem (List.mem_of_mem_head? hf))

/-- What is on record under the id of a request is that request's event. -/
theorem one (h : s.Sound) (he : e ∈ s.posts) : ∀ x ∈ s.receiver.journal.payloads, x.eventId = e.eventId → x = e :=
  fun _ hx => List.inj_on_of_nodup_map h.distinct (h.stored_isPrefix.subset hx) (h.mem_enqueued he)

/-- The round ends, or no round was on: only the outbox's own state changes. -/
theorem idle (h : s.Sound) : ({ s with outbox := { s.outbox with pump := .idle } } : Feed).Sound :=
  { h with
    head := by simp [Pump.file?]
    posted := by simp
    acknowledged := by simp }

theorem enqueue (h : s.Sound) (hr : s.running = true) {item : CaptureEvent} {guid : String}
    (hid : item.eventId ∉ s.enqueued.map CaptureEvent.eventId) :
    ({ s with
      outbox := { s.outbox with
        sequence := s.outbox.sequence + 1, files := s.outbox.files ++ [⟨s.outbox.sequence + 1, guid, item⟩] }
      enqueued := s.enqueued ++ [item] } : Feed).Sound := by
  have hhead {f : OutboxFile} (hf : s.outbox.files.head? = some f) :
      (s.outbox.files ++ [OutboxFile.mk (s.outbox.sequence + 1) guid item]).head? = some f := by
    rw [List.head?_append, hf]
    rfl
  exact {
    ordered := by
      rw [List.map_append, List.pairwise_append]
      refine ⟨h.ordered, by simp, fun a ha b hb => ?_⟩
      obtain ⟨f, hf, rfl⟩ := List.mem_map.mp ha
      obtain rfl := List.mem_singleton.mp hb
      exact Nat.lt_succ_of_le (h.numbered hr f hf)
    numbered := fun _ f hf => by
      rcases List.mem_append.mp hf with hf | hf
      · exact Nat.le_succ_of_le (h.numbered hr f hf)
      · obtain rfl := List.mem_singleton.mp hf
        exact Nat.le_refl _
    kept := by simp [h.kept]
    distinct := by
      rw [List.map_append, List.map_singleton, List.nodup_append_comm]
      exact List.nodup_cons.mpr (And.intro hid h.distinct)
    keyed := h.keyed
    stored := h.stored.imp_right fun ⟨f, hf, hs⟩ => ⟨f, hhead hf, hs⟩
    posts := fun e he => (h.posts e he).imp_right fun ⟨f, hf, hfe⟩ => ⟨f, hhead hf, hfe⟩
    answers := h.answers
    head := fun f hf => hhead (h.head f hf)
    posted := h.posted
    acknowledged := h.acknowledged }

theorem read (h : s.Sound) (hf : s.outbox.first = some f) :
    ({ s with outbox := { s.outbox with pump := .read f } } : Feed).Sound :=
  { h with
    head := by
      rintro _ ⟨⟩
      exact h.first_eq ▸ hf
    posted := by simp
    acknowledged := by simp }

theorem post (h : s.Sound) (hp : s.outbox.pump = .read f) :
    ({ s with outbox := { s.outbox with pump := .posted s.posts.length f }, posts := s.posts ++ [f.event] } : Feed).Sound :=
  have hhead : s.outbox.files.head? = some f := h.head f (by rw [hp]; rfl)
  { h with
    posts := fun e he => by
      rcases List.mem_append.mp he with he | he
      · exact h.posts e he
      · obtain rfl := List.mem_singleton.mp he
        exact Or.inr ⟨f, hhead, rfl⟩
    answers := fun i hi => by
      obtain ⟨e, he, hs⟩ := h.answers i hi
      have hlt := (List.getElem?_eq_some_iff.mp he).1
      exact ⟨e, by rw [List.getElem?_append_left hlt, he], hs⟩
    head := by
      rintro _ ⟨⟩
      exact hhead
    posted := by
      rintro _ _ ⟨⟩
      exact List.getElem?_concat_length
    acknowledged := by simp }

theorem tells {w : World} (h : s.Sound) (he : e ∈ s.posts) (ht : Tells e s.receiver w) :
    ({ s with receiver := w } : Feed).Sound := by
  obtain ⟨hkeyed, hcases⟩ := ht h.keyed (h.one he)
  have hsub : ∀ x ∈ s.stored, x ∈ w.journal.payloads := fun x hx => by
    rcases hcases with hw | ⟨_, hw⟩
    · exact hw ▸ hx
    · exact hw ▸ List.mem_append_left _ hx
  refine { h with keyed := hkeyed, stored := ?_, answers := fun i hi => ?_, acknowledged := fun f hf => ?_ }
  · rcases hcases with hw | ⟨hnew, hw⟩
    · exact h.stored.imp (hw.trans ·) fun ⟨f, hf, hs⟩ => ⟨f, hf, hw.trans hs⟩
    · obtain ⟨f, hf, rfl⟩ := (h.posts e he).resolve_left fun hd => hnew (h.deleted_subset hd)
      rcases h.stored with hs | ⟨g, hg, hs⟩
      · exact Or.inr ⟨f, hf, hw.trans (congrArg (· ++ [f.event]) hs)⟩
      · obtain rfl := Option.some.inj (hf.symm.trans hg)
        have hmem : f.event ∈ s.stored := hs ▸ List.mem_append_right _ List.mem_cons_self
        exact absurd hmem hnew
  · obtain ⟨e, he, hs⟩ := h.answers i hi
    exact ⟨e, he, hsub e hs⟩
  · exact hsub _ (h.acknowledged f hf)

theorem receiver {w : World} (h : s.Sound) (hw : w.journal.events = s.receiver.journal.events) :
    ({ s with receiver := w } : Feed).Sound := by
  have hp : ({ s with receiver := w } : Feed).stored = s.stored := by simp [Journal.payloads, Feed.stored, hw]
  exact { h with
    keyed := by
      have hk := h.keyed
      rwa [Journal.Keyed, ← hw] at hk
    stored := by
      rw [hp]
      exact h.stored
    answers := fun i hi => by
      obtain ⟨e, he, hs⟩ := h.answers i hi
      exact ⟨e, he, hp.symm ▸ hs⟩
    acknowledged := fun f hf => hp.symm ▸ h.acknowledged f hf }

theorem answer (h : s.Sound) {i : Nat} {accepted : Bool} (ha : (i, accepted) ∈ s.answers) :
    ({ s with outbox := s.outbox.answer i accepted } : Feed).Sound := by
  unfold DurableOutbox.answer
  split
  · next n f hp =>
    split
    · next hn =>
      cases accepted with
      | false => exact h.idle
      | true =>
        obtain ⟨e, he, hs⟩ := h.answers i ha
        have hf := h.posted n f hp
        rw [hn, he] at hf
        obtain rfl := Option.some.inj hf
        have hhead := h.head f (by rw [hp]; rfl)
        exact { h with
          head := by
            rintro _ ⟨⟩
            exact hhead
          posted := by simp
          acknowledged := by
            rintro _ ⟨⟩
            exact hs }
    · exact h
  · exact h

theorem delete (h : s.Sound) (hp : s.outbox.pump = .acknowledged f) :
    ({ s with outbox := s.outbox.delete f, deleted := s.deleted ++ [f.event] } : Feed).Sound := by
  obtain ⟨rest, hrest⟩ := List.head?_eq_some_iff.mp (h.head f (by rw [hp]; rfl))
  have hord := h.ordered
  rw [hrest, List.map_cons, List.pairwise_cons] at hord
  have hfiles : (s.outbox.delete f).files = rest := by
    have hne : ∀ g ∈ rest, g.name ≠ f.name := fun g hg hn => by
      have hlt := hord.1 g.sequence (List.mem_map_of_mem hg)
      have heq : g.sequence = f.sequence := congrArg Prod.fst hn
      omega
    simp only [DurableOutbox.delete, hrest]
    rw [List.filter_cons_of_neg (by simp), List.filter_eq_self.mpr fun g hg => by simpa using hne g hg]
  have hkept : s.enqueued = s.deleted ++ f.event :: rest.map OutboxFile.event := by rw [h.kept, hrest, List.map_cons]
  have hstored : s.stored = s.deleted ++ [f.event] := by
    rcases h.stored with hs | ⟨g, hg, hs⟩
    · have hmem : f.event ∈ s.deleted := hs ▸ h.acknowledged f hp
      have hnd := hkept ▸ h.distinct.of_map
      exact absurd hmem fun hd => (List.nodup_append.mp hnd).2.2 _ hd _ List.mem_cons_self rfl
    · rw [hrest] at hg
      obtain rfl := Option.some.inj hg
      exact hs
  exact {
    ordered := hfiles ▸ hord.2
    numbered := fun hr g hg => h.numbered hr g (hrest ▸ List.mem_cons_of_mem _ (hfiles ▸ hg))
    kept := by simp [hfiles, hkept]
    distinct := h.distinct
    keyed := h.keyed
    stored := Or.inl hstored
    posts := fun e he => by
      rcases h.posts e he with hd | ⟨g, hg, rfl⟩
      · exact Or.inl (List.mem_append_left _ hd)
      · rw [hrest] at hg
        obtain rfl := Option.some.inj hg
        exact Or.inl (List.mem_append_right _ List.mem_cons_self)
    answers := h.answers
    head := by simp [DurableOutbox.delete, Pump.file?]
    posted := by simp [DurableOutbox.delete]
    acknowledged := by simp [DurableOutbox.delete] }

theorem start (h : s.Sound) : ({ s with running := true, outbox := s.outbox.start } : Feed).Sound :=
  { h.idle with
    numbered := fun _ f hf => by
      have hle (l : List Nat) (m : Nat) : m ≤ l.foldl max m ∧ ∀ n ∈ l, n ≤ l.foldl max m := by
        induction l generalizing m with
        | nil => simp
        | cons a l ih =>
          obtain ⟨hm, hl⟩ := ih (max m a)
          refine ⟨(Nat.le_max_left m a).trans hm, fun n hn => ?_⟩
          rcases List.mem_cons.mp hn with rfl | hn
          · exact (Nat.le_max_right m n).trans hm
          · exact hl n hn
      exact (hle _ 0).2 _ (List.mem_map_of_mem hf) }

end Sound

end Feed

theorem DurableOutbox.enqueue_cases {o o' : DurableOutbox} {item : CaptureEvent} {guid : String} {writeFails : Bool}
    {r : Except Exc Unit} (h : o.enqueue item guid writeFails = (o', r)) :
    r = .ok () ∧ o' = { o with sequence := o.sequence + 1, files := o.files ++ [⟨o.sequence + 1, guid, item⟩] }
      ∨ r.toOption = none ∧ ∃ n, o.sequence ≤ n ∧ o' = { o with sequence := n } := by
  unfold DurableOutbox.enqueue at h
  split at h
  · obtain ⟨rfl, rfl⟩ := Prod.mk.inj h
    exact Or.inr ⟨rfl, _, Nat.le_refl _, rfl⟩
  · cases writeFails with
    | true =>
      obtain ⟨rfl, rfl⟩ := Prod.mk.inj h
      exact Or.inr ⟨rfl, _, Nat.le_succ _, rfl⟩
    | false =>
      obtain ⟨rfl, rfl⟩ := Prod.mk.inj h
      exact Or.inl ⟨rfl, rfl⟩

section Histories

variable [Host] {s t : Feed}

theorem FeedMove.sound (h : FeedMove s t) (hs : s.Sound) : t.Sound := by
  cases h with
  | enqueued item guid hr hid ho =>
    rcases DurableOutbox.enqueue_cases ho with ⟨_, rfl⟩ | ⟨hnone, _⟩
    · exact hs.enqueue hr hid
    · simp [Except.toOption] at hnone
  | refused item guid writeFails hr ho =>
    rcases DurableOutbox.enqueue_cases ho with ⟨hok, _⟩ | ⟨_, n, hn, rfl⟩
    · simp at hok
    · exact { hs with numbered := fun hr f hf => (hs.numbered hr f hf).trans hn }
  | read f hr hp hf => exact hs.read hf
  | post f hp => exact hs.post hp
  | record i e he env =>
    have hmem := List.mem_of_getElem? he
    have hone := hs.one hmem
    obtain ⟨hsteps, hok, _⟩ := Prog.wp_eval (record_tells (A := fun _ _ => True) hs.keyed hone) env fun _ _ => trivial
    have ht := hs.tells hmem (tells_of_steps hsteps)
    refine { ht with answers := fun k hk => ?_ }
    rcases List.mem_append.mp hk with hk | hk
    · exact ht.answers k hk
    · obtain ⟨rfl, hanswer⟩ := Prod.mk.inj (List.mem_singleton.mp hk)
      obtain ⟨a, ha⟩ := Option.isSome_iff_exists.mp hanswer.symm
      refine ⟨e, he, hok a ?_⟩
      cases hr : ((Store.record e).eval env s.receiver).2 with
      | error x => simp [hr, Except.toOption] at ha
      | ok b => simpa [hr, Except.toOption] using ha
  | answered i accepted ha => exact hs.answer ha
  | receiverStops i e he env n =>
    have hmem := List.mem_of_getElem? he
    have hone := hs.one hmem
    have hsteps := Prog.wp_stop (record_tells (A := fun _ _ => True) hs.keyed hone) n env fun _ _ => trivial
    exact hs.tells hmem (tells_of_steps hsteps)
  | receiverStarts broker env =>
    exact hs.receiver (events_of_steps (Prog.wp_eval (openJournal_events (A := fun _ _ => True) broker) env fun _ _ => trivial).1)
  | startStops broker env n =>
    exact hs.receiver (events_of_steps (Prog.wp_stop (openJournal_events (A := fun _ _ => True) broker) n env fun _ _ => trivial))
  | abandon => exact hs.idle
  | delete f hp => exact hs.delete hp
  | senderStops => exact { hs.idle with numbered := by simp }
  | senderStarts hr => exact hs.start

/-- Over any history from an empty outbox and an empty journal, the journal has a first part of the
enqueued events, in their order and once each, and every event whose file was deleted. -/
theorem outbox_recorded_once (h₀ : s.Fresh) (h : ReflTransGen FeedMove s t) :
    t.stored <+: t.enqueued ∧ t.stored.Nodup ∧ ∀ e ∈ t.deleted, e ∈ t.stored := by
  have ht : t.Sound := invariant_of_reflTransGen h (fun _ _ hs hm => hm.sound hs) (.of_fresh h₀)
  exact ⟨ht.stored_isPrefix, ht.distinct.of_map.sublist ht.stored_isPrefix.sublist, fun _ => ht.deleted_subset⟩

end Histories

section Sample

attribute [local instance] sampleHost

def sampleFile : OutboxFile := ⟨1, "g1", sampleEvent⟩

def sampleFeed (pump : Pump) (posts : List CaptureEvent) (answers : List (Nat × Bool)) (receiver : World) : Feed where
  outbox := { maxPending := 100, files := [sampleFile], sequence := 1, pump }
  posts := posts
  answers := answers
  receiver := receiver
  enqueued := [sampleEvent]

def sampleReceived (w : World) : World := ((Store.record sampleEvent).eval sampleAnswers w).1

theorem sampleFeed_record (pump : Pump) (posts : List CaptureEvent) (answers : List (Nat × Bool)) (w : World) (i : Nat)
    (hi : posts[i]? = some sampleEvent)
    (hw : ((Store.record sampleEvent).eval sampleAnswers w).2.toOption.isSome = true) :
    FeedMove (sampleFeed pump posts answers w) (sampleFeed pump posts (answers ++ [(i, true)]) (sampleReceived w)) := by
  have h := FeedMove.record (s := sampleFeed pump posts answers w) i sampleEvent hi sampleAnswers
  simp only [sampleFeed, hw] at h
  exact h

/-- The answer to the first request is lost; the second one finds the event on record. -/
theorem outbox_recorded_once_sample : ∃ t : Feed, ReflTransGen FeedMove
      { outbox := { maxPending := 100 }, receiver := started bridgeMemory } t
    ∧ t.deleted = [sampleEvent] ∧ t.stored <+: t.enqueued ∧ t.stored.Nodup ∧ ∀ e ∈ t.deleted, e ∈ t.stored := by
  obtain ⟨w, hw⟩ : ∃ w, w = started bridgeMemory := ⟨_, rfl⟩
  obtain ⟨v, hv⟩ : ∃ v, v = sampleReceived w := ⟨_, rfl⟩
  obtain ⟨u, hu⟩ : ∃ u, u = sampleReceived v := ⟨_, rfl⟩
  have hfirst := sampleFeed_record (.posted 0 sampleFile) [sampleEvent] [] w 0 rfl (by subst hw; decide +kernel)
  have hagain := sampleFeed_record (.posted 1 sampleFile) [sampleEvent, sampleEvent] [(0, true)] v 1 rfl
    (by subst hv hw; decide +kernel)
  rw [← hv] at hfirst
  rw [← hu] at hagain
  rw [← hw]
  let s : Feed := { outbox := { maxPending := 100 }, receiver := w }
  have h₁ : ReflTransGen FeedMove s (sampleFeed .idle [] [] w) :=
    .single (.enqueued sampleEvent "g1" rfl (by simp [s]) rfl)
  have h₂ : ReflTransGen FeedMove s (sampleFeed (.posted 0 sampleFile) [sampleEvent] [] w) :=
    .tail (.tail h₁ (.read sampleFile rfl rfl rfl)) (.post sampleFile rfl)
  have h₃ : ReflTransGen FeedMove s (sampleFeed .idle [sampleEvent] [(0, true)] v) := .tail (.tail h₂ hfirst) .abandon
  have h₄ : ReflTransGen FeedMove s (sampleFeed (.posted 1 sampleFile) [sampleEvent, sampleEvent] [(0, true)] v) :=
    .tail (.tail h₃ (.read sampleFile rfl rfl rfl)) (.post sampleFile rfl)
  have h₅ : ReflTransGen FeedMove s
      (sampleFeed (.acknowledged sampleFile) [sampleEvent, sampleEvent] [(0, true), (1, true)] u) :=
    .tail (.tail h₄ hagain) (.answered 1 true (by simp [sampleFeed]))
  have h₆ := h₅.tail (.delete sampleFile rfl)
  have hempty : w.journal.events = [] := by
    subst hw
    rfl
  exact ⟨_, h₆, rfl, outbox_recorded_once ⟨rfl, rfl, rfl, rfl, rfl, rfl, hempty⟩ h₆⟩

end Sample

end MatchTrader
