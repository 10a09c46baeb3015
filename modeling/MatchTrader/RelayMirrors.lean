import MatchTrader.RelayArchives
import MatchTrader.RelayCollector

/-! What the archive has of a file is what the file begins with. A message is kept until it is
acknowledged, so whatever arrives of a stream, once or again or late, is a chunk on record or the next
one. -/

namespace MatchTrader

open Durable Tiling Relation

namespace RelayLogStore

variable {db : RelayLogStore} {e : Envelope} {receivedAt : String}

theorem contents_append (i : String) : (db.append e receivedAt).contents i =
    if i = e.streamId then db.contents i ++ e.payload else db.contents i := by
  rw [contents, chunksOf_append]
  split
  · rw [List.flatMap_append, List.flatMap_singleton]
    rfl
  · rfl

variable [RelayHost]

theorem WellFormed.length_contents (h : db.WellFormed) (i : String) : (db.contents i).length = db.nextOffset i := by
  have hl : 0 + (db.contents i).length = db.nextOffset i := (h.tiles i).length_flatMap fun _ _ => rfl
  rwa [Nat.zero_add] at hl

/-- A chunk on record lies within the contents of its stream. -/
theorem Stored.le_length (hs : db.Stored e) (h : db.WellFormed) : e.offset + e.payload.length ≤ (db.contents e.streamId).length := by
  obtain ⟨c, hc, hh⟩ := hs
  obtain ⟨hm, hkey⟩ := Rows.lookup_mem hc
  obtain ⟨hstream, hoff⟩ := Prod.mk.inj hkey
  have hle := ((h.tiles e.streamId).mem (List.mem_filter.mpr ⟨hm, decide_eq_true hstream⟩)).2
  rw [h.length_contents]
  rw [size, hh.payload] at hle
  exact hoff ▸ hle

end RelayLogStore

namespace RelayCollector

variable [RelayHost] {name stream : String} {offset : Nat} {payload : List UInt8}

def envelope (name stream : String) (offset : Nat) (payload : List UInt8) : Envelope :=
  ⟨stream, RelayHost.node, name, offset, RelayHost.sha256 payload, payload⟩

theorem payload_message : (message name stream offset payload).payload = payload := by
  simp [message, RelayMessage.payload, Base64.decode_encode]

theorem read_message {e : Envelope} (h : Envelope.read (message name stream offset payload).json = .ok e) :
    e = envelope name stream offset payload := by
  have htext (field value : String) (refusal : Exc) {a : String} {j : Json} (hj : j.get? field = some (.str value))
      (ha : Envelope.text j field refusal = .ok a) : a = value := by
    simp only [Envelope.text, hj, Option.bind_some, Json.text?, Except.ok.injEq] at ha
    exact ha.symm
  simp only [Envelope.read, Envelope.machineField, Envelope.filenameField, bind_eq_ok, raiseIf_eq_ok, pure, Except.pure,
    Except.ok.injEq] at h
  obtain ⟨_, _, _, _, i, hi, _, _, m, ⟨_, hm, _, _, rfl⟩, f, ⟨_, hf, _, _, rfl⟩, n, hn, p, hp, _, _, rfl⟩ := h
  have hstream := htext "stream_id" stream _ rfl hi
  have hmachine := htext "machine" RelayHost.node _ rfl hm
  have hfilename := htext "filename" name _ rfl hf
  have hpayload : Envelope.payloadField (message name stream offset payload).json = .ok payload := by
    have hd : ((message name stream offset payload).json.get? "data_base64").bind Json.text? = some (Base64.encode payload) := rfl
    simp only [Envelope.payloadField, hd, Option.bind_some, Base64.decode_encode]
  have hoffset : n = offset := by
    have hd : ((message name stream offset payload).json.get? "offset").bind Json.int? = some (offset : Int) := rfl
    simp only [Envelope.offsetField, hd] at hn
    split at hn
    · exact (Except.ok.inj hn).symm
    · simp at hn
  obtain rfl := Except.ok.inj (hpayload.symm.trans hp)
  rw [hstream, hmachine, hfilename, hoffset]
  rfl

omit [RelayHost] in
theorem wholeLines_isPrefix (p : List UInt8) : wholeLines p <+: p := by
  unfold wholeLines
  extract_lets lines
  split
  · exact List.prefix_rfl
  · have hs : lines <:+ p.reverse := List.dropWhile_suffix _
    exact List.reverse_suffix.mp (by rwa [List.reverse_reverse])

omit [RelayHost] in
theorem wholeLines_ne_nil {p : List UInt8} (h : p ≠ []) : wholeLines p ≠ [] := by
  unfold wholeLines
  extract_lets lines
  split
  · exact h
  · next hl => simpa using hl

end RelayCollector

namespace Mirror

open RelayCollector

variable {s t u : Mirror} {r : Checkpoint} {m : RelayMessage} {p : PendingRow}

/-- Files only grow, and no stream is given up. -/
structure Grows (s t : Mirror) : Prop where
  files : ∀ n f, s.file? n = some f →
    ∃ g, t.file? n = some g ∧ g.regular = f.regular ∧ g.identity = f.identity ∧ f.bytes <+: g.bytes
  rows : ∀ r ∈ s.checkpoints, ∃ q ∈ t.checkpoints, q.path = r.path ∧ q.stream = r.stream ∧ r.offset ≤ q.offset

theorem Grows.refl (s : Mirror) : Grows s s :=
  ⟨fun _ f hf => ⟨f, hf, rfl, rfl, List.prefix_rfl⟩, fun r hr => ⟨r, hr, rfl, rfl, Nat.le_refl _⟩⟩

theorem Grows.trans (h : Grows s t) (hh : Grows t u) : Grows s u where
  files n f hf := by
    obtain ⟨g, hg, hgr, hgi, hgb⟩ := h.files n f hf
    obtain ⟨k, hk, hkr, hki, hkb⟩ := hh.files n g hg
    exact ⟨k, hk, hkr.trans hgr, hki.trans hgi, hgb.trans hkb⟩
  rows r hr := by
    obtain ⟨q, hq, hqp, hqs, hqo⟩ := h.rows r hr
    obtain ⟨o, ho, hop, hos, hoo⟩ := hh.rows q hq
    exact ⟨o, ho, hop.trans hqp, hos.trans hqs, hqo.trans hoo⟩

theorem Grows.bytesOf (h : Grows s t) (n : String) : s.bytesOf n <+: t.bytesOf n := by
  simp only [Mirror.bytesOf]
  cases hf : s.file? n with
  | none => exact List.nil_prefix
  | some f =>
    obtain ⟨g, hg, _, _, hb⟩ := h.files n f hf
    rw [hg]
    exact hb

/-- Nothing but the files and what is in them is new. -/
theorem Grows.of_rows (hf : t.files = s.files)
    (hr : ∀ r ∈ s.checkpoints, ∃ q ∈ t.checkpoints, q.path = r.path ∧ q.stream = r.stream ∧ r.offset ≤ q.offset) : Grows s t where
  files n f h := ⟨f, by rwa [file?, hf], rfl, rfl, List.prefix_rfl⟩
  rows := hr

variable [RelayHost]

/-- The message holds what comes next in the file of a row. -/
def Next (s : Mirror) (r : Checkpoint) (m : RelayMessage) : Prop :=
  ∃ payload, payload ≠ [] ∧ payload <+: (s.bytesOf r.path).drop r.offset ∧ m = message r.path r.stream r.offset payload

/-- The chunk of a message is on record. -/
def Delivered (s : Mirror) (m : RelayMessage) : Prop := ∃ e, Envelope.read m.json = .ok e ∧ s.store.Stored e

/-- What a history keeps: each file has one stream, of which the archive has what lies before the
row's offset, and at most the pending message too. -/
structure Sound (s : Mirror) : Prop where
  names : (s.files.map LogFile.name).Nodup
  paths : (s.checkpoints.map Checkpoint.path).Nodup
  streams : (s.checkpoints.map Checkpoint.stream).Nodup
  drawn : ∀ r ∈ s.checkpoints, ∃ k < s.drawn, RelayHost.uuid4 k = r.stream
  identity : ∀ r ∈ s.checkpoints, ∃ f, s.file? r.path = some f ∧ f.identity = r.identity
  head : ∀ r ∈ s.checkpoints, r.head <+: s.bytesOf r.path
  contents : ∀ r ∈ s.checkpoints, s.store.contents r.stream <+: s.bytesOf r.path
  place : ∀ r ∈ s.checkpoints, (s.store.contents r.stream).length = r.offset
    ∨ ∃ p ∈ s.pending, p.path = r.path ∧ (s.store.contents r.stream).length = r.offset + p.message.payload.length
  once : (s.pending.map PendingRow.path).Nodup
  next : ∀ p ∈ s.pending, ∃ r ∈ s.checkpoints, r.path = p.path ∧ s.Next r p.message
  posted : ∀ m ∈ s.posted, (∃ p ∈ s.pending, p.message = m) ∨ s.Delivered m
  formed : s.store.WellFormed
  owned : ∀ c ∈ s.store.chunks, ∃ r ∈ s.checkpoints, r.stream = c.streamId ∧ r.path = c.filename

theorem Next.of_bytes (h : s.Next r m) (hb : s.bytesOf r.path <+: t.bytesOf r.path) : t.Next r m := by
  obtain ⟨payload, hne, hp, rfl⟩ := h
  exact ⟨payload, hne, hp.trans (hb.drop _), rfl⟩

namespace Sound

theorem row_eq (h : s.Sound) {q : Checkpoint} (hr : r ∈ s.checkpoints) (hq : q ∈ s.checkpoints) (hp : r.path = q.path) :
    r = q := List.inj_on_of_nodup_map h.paths hr hq hp

theorem row_eq_of_stream (h : s.Sound) {q : Checkpoint} (hr : r ∈ s.checkpoints) (hq : q ∈ s.checkpoints)
    (hs : r.stream = q.stream) : r = q := List.inj_on_of_nodup_map h.streams hr hq hs

theorem offset_le (h : s.Sound) (hr : r ∈ s.checkpoints) : r.offset ≤ (s.store.contents r.stream).length := by
  rcases h.place r hr with he | ⟨_, _, _, he⟩
  · exact he.ge
  · omega

theorem files {files : List LogFile} (h : s.Sound) (hn : (files.map LogFile.name).Nodup)
    (hg : Grows s { s with files }) : ({ s with files } : Mirror).Sound :=
  { h with
    names := hn
    identity := fun r hr => by
      obtain ⟨f, hf, hi⟩ := h.identity r hr
      obtain ⟨g, hg, _, hgi, _⟩ := hg.files _ f hf
      exact ⟨g, hg, hgi.trans hi⟩
    head := fun r hr => (h.head r hr).trans (hg.bytesOf _)
    contents := fun r hr => (h.contents r hr).trans (hg.bytesOf _)
    next := fun p hp => by
      obtain ⟨r, hr, hrp, hnext⟩ := h.next p hp
      exact ⟨r, hr, hrp, hnext.of_bytes (hg.bytesOf _)⟩ }

theorem post (h : s.Sound) (hp : p ∈ s.pending) : ({ s with posted := s.posted ++ [p.message] } : Mirror).Sound :=
  { h with
    posted := fun m hm => by
      rcases List.mem_append.mp hm with hm | hm
      · exact h.posted m hm
      · obtain rfl := List.mem_singleton.mp hm
        exact Or.inl ⟨p, hp, rfl⟩ }

theorem draw (h : s.Sound) : ({ s with drawn := s.drawn + 1 } : Mirror).Sound :=
  { h with
    drawn := fun r hr => by
      obtain ⟨k, hk, he⟩ := h.drawn r hr
      exact ⟨k, Nat.lt_succ_of_lt hk, he⟩ }

theorem append {e : Envelope} {receivedAt : String} (h : s.Sound) (hp : p ∈ s.pending)
    (hread : Envelope.read p.message.json = .ok e)
    (howner : ∀ q, s.store.stream? e.streamId = some q → q.machine = e.machine ∧ q.filename = e.filename)
    (hoff : e.offset = s.store.nextOffset e.streamId) : ({ s with store := s.store.append e receivedAt } : Mirror).Sound := by
  obtain ⟨r, hr, hrp, payload, hne, hpayload, hm⟩ := h.next p hp
  have hsized := Envelope.read_ok hread
  rw [hm] at hread
  obtain rfl := read_message hread
  have hlen : (s.store.contents r.stream).length = r.offset := (h.formed.length_contents _).trans hoff.symm
  have hcontents (i : String) : (s.store.append (envelope r.path r.stream r.offset payload) receivedAt).contents i
      = if i = r.stream then s.store.contents i ++ payload else s.store.contents i := RelayLogStore.contents_append i
  exact { h with
    contents := fun q hq => by
      rw [hcontents]
      split
      · next hs =>
        obtain rfl := h.row_eq_of_stream hq hr hs
        obtain ⟨rest, hrest⟩ := h.contents q hq
        rw [← hlen, ← hrest, List.drop_left] at hpayload
        obtain ⟨more, hmore⟩ := hpayload
        exact ⟨more, by rw [List.append_assoc, hmore, hrest]; rfl⟩
      · exact h.contents q hq
    place := fun q hq => by
      change (RelayLogStore.contents _ _).length = _ ∨ ∃ p ∈ s.pending, _ ∧ (RelayLogStore.contents _ _).length = _
      rw [hcontents]
      split
      · next hs =>
        obtain rfl := h.row_eq_of_stream hq hr hs
        refine Or.inr ⟨p, hp, hrp.symm, ?_⟩
        rw [List.length_append, hlen, hm, payload_message]
      · exact h.place q hq
    posted := fun m hm => (h.posted m hm).imp_right fun ⟨e, he, c, hc, hh⟩ =>
      ⟨e, he, c, RelayLogStore.chunk?_append hc, hh⟩
    formed := h.formed.append howner hoff hsized
    owned := fun c hc => by
      rcases List.mem_append.mp hc with hc | hc
      · exact h.owned c hc
      · obtain rfl := List.mem_singleton.mp hc
        exact ⟨r, hr, rfl, rfl⟩ }

theorem accept {receivedAt : String} {fails : Bool} {a : Except Exc Ack} {store : RelayLogStore} (h : s.Sound)
    (hm : (∃ p ∈ s.pending, p.message = m) ∨ s.Delivered m) (ha : s.store.accept m.json receivedAt fails = (a, store)) :
    ({ s with store } : Mirror).Sound ∧ ∀ ack, a = .ok ack → ({ s with store } : Mirror).Delivered m := by
  refine ⟨?_, fun ack hack => ?_⟩
  · rcases RelayLogStore.accept_cases ha with ⟨_, _, rfl⟩ | ⟨e, ack, hread, _, hi, _⟩
    · exact h
    rcases RelayLogStore.insert_ok hi with ⟨_, _, _, _, rfl⟩ | ⟨hnew, howner, hoff, _, rfl⟩
    · exact h
    rcases hm with ⟨p, hp, rfl⟩ | ⟨e', hread', hs⟩
    · exact h.append hp hread howner hoff
    · obtain rfl := Except.ok.inj (hread'.symm.trans hread)
      obtain ⟨c, hc, _⟩ := hs
      rw [hnew] at hc
      simp at hc
  · rcases RelayLogStore.accept_cases ha with ⟨_, he, _⟩ | ⟨e, _, hread, _, hi, _⟩
    · rw [he] at hack
      simp at hack
    · exact ⟨e, hread, (RelayLogStore.stored_insert hi).1⟩

theorem begins {f : LogFile} (h : s.Sound) {row : Checkpoint} (hnone : s.checkpoint? row.path = none)
    (hf : s.file? row.path = some f) (hi : f.identity = row.identity) (hhead : row.head <+: s.bytesOf row.path)
    (hoff : row.offset = 0) {k : Nat} (hk : k < s.drawn) (hstream : RelayHost.uuid4 k = row.stream)
    (hnew : ∀ r ∈ s.checkpoints, r.stream ≠ row.stream) :
    ({ s with checkpoints := s.checkpoints ++ [row] } : Mirror).Sound := by
  have hempty : s.store.contents row.stream = [] := by
    rw [RelayLogStore.contents, RelayLogStore.chunksOf, List.filter_eq_nil_iff.mpr, List.flatMap_nil]
    intro c hc he
    obtain ⟨r, hr, hrs, _⟩ := h.owned c hc
    exact hnew r hr (hrs.trans (of_decide_eq_true he))
  have hrow {P : Checkpoint → Prop} (hold : ∀ r ∈ s.checkpoints, P r) (hlast : P row) : ∀ r ∈ s.checkpoints ++ [row], P r := by
    intro r hr
    rcases List.mem_append.mp hr with hr | hr
    · exact hold r hr
    · obtain rfl := List.mem_singleton.mp hr
      exact hlast
  exact { h with
    paths := Rows.nodup_append h.paths (Rows.lookup_eq_none_iff.mp hnone)
    streams := Rows.nodup_append h.streams hnew
    drawn := hrow h.drawn ⟨k, hk, hstream⟩
    identity := hrow h.identity ⟨f, hf, hi⟩
    head := hrow h.head hhead
    contents := hrow h.contents (hempty ▸ List.nil_prefix)
    place := hrow h.place (Or.inl (by rw [hempty, hoff]; rfl))
    next := fun p hp => by
      obtain ⟨r, hr, hrp, hnext⟩ := h.next p hp
      exact ⟨r, List.mem_append_left _ hr, hrp, hnext⟩
    owned := fun c hc => by
      obtain ⟨r, hr, hrc⟩ := h.owned c hc
      exact ⟨r, List.mem_append_left _ hr, hrc⟩ }

theorem update {f : Checkpoint → Checkpoint} {pending : List PendingRow} (h : s.Sound)
    (hf : ∀ r, (f r).path = r.path ∧ (f r).stream = r.stream ∧ (f r).identity = r.identity)
    (hhead : ∀ r ∈ s.checkpoints, (f r).head <+: s.bytesOf r.path)
    (hplace : ∀ r ∈ s.checkpoints, (s.store.contents r.stream).length = (f r).offset
      ∨ ∃ p ∈ pending, p.path = r.path ∧ (s.store.contents r.stream).length = (f r).offset + p.message.payload.length)
    (honce : (pending.map PendingRow.path).Nodup)
    (hnext : ∀ p ∈ pending, ∃ r ∈ s.checkpoints, r.path = p.path ∧ s.Next (f r) p.message)
    (hposted : ∀ m ∈ s.posted, (∃ p ∈ pending, p.message = m) ∨ s.Delivered m) :
    ({ s with checkpoints := s.checkpoints.map f, pending } : Mirror).Sound := by
  have hkeys {key : Checkpoint → String} (hk : ∀ r, key (f r) = key r) : (s.checkpoints.map f).map key = s.checkpoints.map key := by
    rw [List.map_map]
    exact List.map_congr_left fun r _ => hk r
  exact {
    names := h.names
    paths := (hkeys fun r => (hf r).1).symm ▸ h.paths
    streams := (hkeys fun r => (hf r).2.1).symm ▸ h.streams
    drawn := List.forall_mem_map.mpr fun r hr => (hf r).2.1.symm ▸ h.drawn r hr
    identity := List.forall_mem_map.mpr fun r hr => by
      rw [(hf r).1, (hf r).2.2]
      exact h.identity r hr
    head := List.forall_mem_map.mpr fun r hr => (hf r).1.symm ▸ hhead r hr
    contents := List.forall_mem_map.mpr fun r hr => by
      rw [(hf r).2.1, (hf r).1]
      exact h.contents r hr
    place := List.forall_mem_map.mpr fun r hr => by
      rw [(hf r).2.1, (hf r).1]
      exact hplace r hr
    once := honce
    next := fun p hp => by
      obtain ⟨r, hr, hrp, hn⟩ := hnext p hp
      exact ⟨f r, List.mem_map_of_mem hr, (hf r).1.trans hrp, hn⟩
    posted := hposted
    formed := h.formed
    owned := fun c hc => by
      obtain ⟨r, hr, hrs, hrf⟩ := h.owned c hc
      exact ⟨f r, List.mem_map_of_mem hr, (hf r).2.1.trans hrs, (hf r).1.trans hrf⟩ }

theorem keep {name : String} {head payload : List UInt8} (h : s.Sound) (hr : r ∈ s.checkpoints) (hpath : r.path = name)
    (hne : payload ≠ []) (hp : payload <+: (s.bytesOf r.path).drop r.offset)
    (hk : keep name head r.offset payload (message name r.stream r.offset payload) s = .ok t) :
    t.Sound ∧ Grows s t ∧ ⟨name, message name r.stream r.offset payload⟩ ∈ t.pending := by
  subst hpath
  unfold RelayCollector.keep at hk
  split at hk
  · simp at hk
  next hnone =>
  simp only [Bool.not_eq_true, Rows.has_eq_false_iff] at hnone
  obtain rfl := Except.ok.inj hk
  let f (q : Checkpoint) : Checkpoint :=
    if (head = [] ∧ r.offset = 0) ∧ q.path = r.path then { q with head := payload.take 32 } else q
  have hrows : (if head = [] ∧ r.offset = 0 then
        Rows.updateWhere (fun q => q.path = r.path) (fun q => { q with head := payload.take 32 }) s.checkpoints
      else s.checkpoints) = s.checkpoints.map f := by
    split
    · next hc => simp [Rows.updateWhere, f, hc]
    · next hc => simp [f, hc]
  have hf (q : Checkpoint) : (f q).path = q.path ∧ (f q).stream = q.stream ∧ (f q).identity = q.identity
      ∧ (f q).offset = q.offset := by
    unfold f
    split <;> simp
  have hnext {q : Checkpoint} {m : RelayMessage} (hq : s.Next q m) : s.Next (f q) m := by
    obtain ⟨content, hcne, hc, rfl⟩ := hq
    obtain ⟨h₁, h₂, _, h₃⟩ := hf q
    exact ⟨content, hcne, by rw [h₁, h₃]; exact hc, by rw [h₁, h₂, h₃]⟩
  rw [hrows]
  refine ⟨h.update (fun q => ⟨(hf q).1, (hf q).2.1, (hf q).2.2.1⟩) (fun q hq => ?_) (fun q hq => ?_) ?_ (fun p hp => ?_)
    fun m hm => ?_, .of_rows rfl fun q hq => ?_, List.mem_append_right _ List.mem_cons_self⟩
  · unfold f
    split
    · next hc =>
      rw [hc.1.2, List.drop_zero] at hp
      exact ((List.take_prefix _ _).trans hp).trans (hc.2 ▸ List.prefix_rfl)
    · exact h.head q hq
  · rw [(hf q).2.2.2]
    refine (h.place q hq).imp_right fun hpending => ?_
    obtain ⟨p, hp, hpq⟩ := hpending
    exact ⟨p, List.mem_append_left _ hp, hpq⟩
  · exact Rows.nodup_append h.once hnone
  · rcases List.mem_append.mp hp with hp | hp
    · obtain ⟨q, hq, hqp, hn⟩ := h.next p hp
      exact ⟨q, hq, hqp, hnext hn⟩
    · obtain rfl := List.mem_singleton.mp hp
      exact ⟨r, hr, rfl, hnext ⟨payload, hne, by assumption, rfl⟩⟩
  · refine (h.posted m hm).imp_left fun hpending => ?_
    obtain ⟨p, hp, hpm⟩ := hpending
    exact ⟨p, List.mem_append_left _ hp, hpm⟩
  · exact ⟨f q, List.mem_map_of_mem hq, (hf q).1, (hf q).2.1, (hf q).2.2.2.ge⟩

theorem advance (h : s.Sound) (hp : p ∈ s.pending) (hd : s.Delivered p.message) :
    (advance p.path p.message s).Sound ∧ Grows s (advance p.path p.message s) := by
  obtain ⟨r, hr, hrp, payload, hne, hpayload, hm⟩ := h.next p hp
  obtain ⟨e, hread, hstored⟩ := hd
  rw [hm] at hread
  obtain rfl := read_message hread
  have hlen : (s.store.contents r.stream).length = r.offset + payload.length := by
    have hle : r.offset + payload.length ≤ (s.store.contents r.stream).length := hstored.le_length h.formed
    have hpos := List.length_pos_iff.mpr hne
    rcases h.place r hr with hplace | ⟨q, hq, hqp, hplace⟩
    · omega
    · obtain rfl := List.inj_on_of_nodup_map h.once hq hp (hqp.trans hrp)
      rwa [hm, payload_message] at hplace
  have hpm : p.message.offset + p.message.payload.length = r.offset + payload.length := by
    rw [hm, payload_message]
    rfl
  have hstream : p.message.streamId = r.stream := by rw [hm]; rfl
  let f (q : Checkpoint) : Checkpoint :=
    if q.path = p.path ∧ q.stream = p.message.streamId then { q with offset := p.message.offset + p.message.payload.length } else q
  have hrows : (RelayCollector.advance p.path p.message s).checkpoints = s.checkpoints.map f := by
    simp [RelayCollector.advance, Rows.updateWhere, f]
  have hother {q : Checkpoint} (hq : q.path ≠ p.path) : f q = q := if_neg fun hc => hq hc.1
  have hself : f r = { r with offset := r.offset + payload.length } := by
    unfold f
    rw [if_pos ⟨hrp, hstream.symm⟩, hpm]
  have hf (q : Checkpoint) : (f q).path = q.path ∧ (f q).stream = q.stream ∧ (f q).identity = q.identity ∧ (f q).head = q.head := by
    unfold f
    split <;> simp
  have hkept {q : PendingRow} (hq : q ∈ s.pending) (hne : q.path ≠ p.path) : q ∈ s.pending.filter fun q => q.path ≠ p.path :=
    List.mem_filter.mpr ⟨hq, decide_eq_true hne⟩
  have hstate : RelayCollector.advance p.path p.message s
      = { s with checkpoints := s.checkpoints.map f, pending := s.pending.filter fun q => q.path ≠ p.path } := by
    rw [← hrows]
    rfl
  rw [hstate]
  refine ⟨h.update (fun q => ⟨(hf q).1, (hf q).2.1, (hf q).2.2.1⟩) (fun q hq => ?_) (fun q hq => ?_) ?_ (fun q hq => ?_)
    fun m hm => ?_, .of_rows rfl fun q hq => ?_⟩
  · rw [(hf q).2.2.2]
    exact h.head q hq
  · by_cases hqp : q.path = p.path
    · obtain rfl := h.row_eq hq hr (hqp.trans hrp.symm)
      exact Or.inl (by rw [hself, hlen])
    · rw [hother hqp]
      refine (h.place q hq).imp_right fun hpending => ?_
      obtain ⟨o, ho, hoq, hplace⟩ := hpending
      refine ⟨o, hkept ho ?_, hoq, hplace⟩
      exact hoq.symm ▸ hqp
  · exact h.once.sublist (List.filter_sublist.map _)
  · obtain ⟨hq, hne⟩ := List.mem_filter.mp hq
    obtain ⟨o, ho, hoq, hn⟩ := h.next q hq
    have hne : o.path ≠ p.path := hoq.symm ▸ of_decide_eq_true hne
    exact ⟨o, ho, hoq, (hother hne).symm ▸ hn⟩
  · rcases h.posted m hm with ⟨q, hq, rfl⟩ | hd
    · by_cases hqp : q.path = p.path
      · obtain rfl := List.inj_on_of_nodup_map h.once hq hp hqp
        exact Or.inr ⟨_, by rw [hm]; exact hread, hstored⟩
      · exact Or.inl ⟨q, hkept hq hqp, rfl⟩
    · exact Or.inr hd
  · refine ⟨f q, List.mem_map_of_mem hq, (hf q).1, (hf q).2.1, ?_⟩
    by_cases hqp : q.path = p.path
    · obtain rfl := h.row_eq hq hr (hqp.trans hrp.symm)
      rw [hself]
      exact Nat.le_add_right _ _
    · rw [hother hqp]

end Sound

/-- What goes on around the collector leaves its tables alone. -/
structure Around (s t : Mirror) : Prop where
  sound : t.Sound
  grows : Grows s t
  checkpoints : t.checkpoints = s.checkpoints
  pending : t.pending = s.pending

theorem Sound.around (h : s.Sound) : Around s s := ⟨h, .refl s, rfl, rfl⟩

theorem Around.trans (h : Around s t) (hh : Around t u) : Around s u :=
  ⟨hh.sound, h.grows.trans hh.grows, hh.checkpoints.trans h.checkpoints, hh.pending.trans h.pending⟩

theorem Sound.happen (h : s.Sound) (x : Happening) : Around s (s.happen x) := by
  cases x with
  | created f =>
    simp only [Mirror.happen]
    split
    · exact h.around
    · next hnew =>
      simp only [Bool.not_eq_true, Rows.has_eq_false_iff] at hnew
      have hg : Grows s { s with files := s.files ++ [f] } := by
        refine ⟨fun n g hn => ⟨g, ?_, rfl, rfl, List.prefix_rfl⟩, fun r hr => ⟨r, hr, rfl, rfl, Nat.le_refl _⟩⟩
        simp only [file?] at hn
        rw [file?, Rows.lookup_append, hn, Option.some_or]
      exact ⟨h.files (Rows.nodup_append h.names hnew) hg, hg, rfl, rfl⟩
  | grown name more =>
    simp only [Mirror.happen]
    have hg : Grows s { s with
        files := Rows.updateWhere (fun f => f.name = name) (fun f => { f with bytes := f.bytes ++ more }) s.files } := by
      refine ⟨fun n g hn => ?_, fun r hr => ⟨r, hr, rfl, rfl, Nat.le_refl _⟩⟩
      simp only [file?] at hn
      rw [file?, Rows.lookup_updateWhere (f := fun f : LogFile => { f with bytes := f.bytes ++ more }) fun _ => rfl, hn]
      refine ⟨_, rfl, ?_⟩
      beta_reduce
      split
      · exact ⟨rfl, rfl, List.prefix_append _ _⟩
      · exact ⟨rfl, rfl, List.prefix_rfl⟩
    refine ⟨h.files ?_ hg, hg, rfl, rfl⟩
    rw [Rows.keys_updateWhere (f := fun f : LogFile => { f with bytes := f.bytes ++ more }) fun _ => rfl]
    exact h.names
  | arrived request receivedAt fails =>
    simp only [Mirror.happen]
    cases hm : s.posted[request]? with
    | none => exact h.around
    | some m =>
      obtain ⟨hs, _⟩ := h.accept (h.posted m (List.mem_of_getElem? hm))
        (show s.store.accept m.json receivedAt fails = (_, (s.store.accept m.json receivedAt fails).2) from rfl)
      exact ⟨hs, .of_rows rfl fun r hr => ⟨r, hr, rfl, rfl, Nat.le_refl _⟩, rfl, rfl⟩

theorem Sound.happens (h : s.Sound) (hs : List Happening) : Around s (hs.foldl Mirror.happen s) := by
  induction hs generalizing s with
  | nil => exact h.around
  | cons x hs ih => exact (h.happen x).trans (ih (h.happen x).sound)

/-- What one transaction keeps. -/
def Moves (s t : Mirror) : Prop := s.Sound → t.Sound ∧ Grows s t

end Mirror

section Programs

open Mirror RelayCollector

variable [RelayHost] {w : Mirror} {name : String}

def AnyAnswer : (q : CollectorQuery) → CollectorReply q → Prop := fun _ _ => True

/-- From a state in form, whatever is answered and wherever it stops, the program's transactions keep
the form, and a return meets `P`. -/
def Ensures {α : Type} (p : Collect α) (P : α → Mirror → Prop) (w : Mirror) : Prop :=
  p.wp AnyAnswer Moves P (fun _ _ => True) w

variable {α β : Type} {P Q : α → Mirror → Prop} {p : Collect α}

theorem ensures_pure {a : α} (h : P a w) : Ensures (pure a) P w := h

theorem Ensures.mono (h : Ensures p P w) (hP : ∀ a v, P a v → Q a v) : Ensures p Q w :=
  Prog.wp_consequence h hP fun _ _ _ => trivial

theorem Ensures.bind {f : α → Collect β} {R : β → Mirror → Prop} (h : Ensures p P w) (hf : ∀ a v, P a v → Ensures (f a) R v) :
    Ensures (p >>= f) R w := (Prog.wp_bind p f).mpr (Prog.wp_consequence h hf fun _ _ _ => trivial)

theorem ensures_raiseIf {c : Prop} [Decidable c] {e : Exc} {P : Unit → Mirror → Prop} (h : ¬ c → P () w) : Ensures (raiseIf c e) P w := by
  unfold raiseIf
  split
  · trivial
  · next hc => exact h hc

theorem ensures_reads {f : Mirror → α} (h : P (f w) w) : Ensures (Prog.reads f) P w := h

theorem ensures_tick {P : Unit → Mirror → Prop} (hw : w.Sound) (h : ∀ v, Around w v → P () v) : Ensures tick P w := by
  intro hs _
  have ha := hw.happens hs
  exact ⟨fun _ => ⟨ha.sound, ha.grows⟩, h _ ha⟩

theorem ensures_transact {f : Mirror → Except Exc Mirror} {P : Unit → Mirror → Prop}
    (h : ∀ v, f w = .ok v → Moves w v ∧ P () v) : Ensures (RelayCollector.transact f) P w := by
  unfold RelayCollector.transact
  refine Ensures.bind (P := fun _ v => v = w) (fun _ _ => rfl) ?_
  rintro b v rfl
  refine Ensures.bind (P := fun _ u => u = v) (ensures_raiseIf fun _ => rfl) ?_
  rintro _ u rfl
  refine (Prog.wp_attempt _).mpr ⟨fun _ _ => trivial, fun a t ht => ?_⟩
  cases hf : f u with
  | error e => rw [hf] at ht; simp [Except.map] at ht
  | ok v =>
    rw [hf] at ht
    obtain ⟨_, rfl⟩ := Prod.mk.inj (Except.ok.inj ht)
    exact h v hf

theorem ensures_deliver {q : PendingRow} (hw : w.Sound) (hq : q ∈ w.pending) :
    Ensures (deliver q.message) (fun _ v => Around w v ∧ v.Delivered q.message) w := by
  unfold deliver
  have hpost : Around w { w with posted := w.posted ++ [q.message] } :=
    ⟨hw.post hq, .of_rows rfl fun r hr => ⟨r, hr, rfl, rfl, Nat.le_refl _⟩, rfl, rfl⟩
  refine Ensures.bind (P := fun _ v => Around w v) ⟨fun _ => ⟨hpost.sound, hpost.grows⟩, hpost⟩ fun _ v hv => ?_
  refine Ensures.bind (P := fun _ v => Around w v) (fun _ _ => hv) fun c v hv => ?_
  refine Ensures.bind (P := fun _ v => Around w v) (ensures_raiseIf fun _ => hv) fun _ v hv => ?_
  refine Ensures.bind (P := fun _ v => Around w v ∧ v.Delivered q.message) ?_ fun ack v hv => ?_
  · refine (Prog.wp_attempt _).mpr ⟨fun _ _ => trivial, fun ack t ht => ?_⟩
    split at ht
    · next ack' store ha =>
      obtain ⟨rfl, rfl⟩ := Prod.mk.inj (Except.ok.inj ht)
      obtain ⟨hs, hd⟩ := hv.sound.accept (Or.inl ⟨q, hv.pending ▸ hq, rfl⟩) ha
      have hg : Grows v { v with store } := .of_rows rfl fun r hr => ⟨r, hr, rfl, rfl, Nat.le_refl _⟩
      exact ⟨fun _ => ⟨hs, hg⟩, hv.trans ⟨hs, hg, rfl, rfl⟩, hd _ rfl⟩
    · simp at ht
  · exact Ensures.bind (P := fun _ v => Around w v ∧ v.Delivered q.message) (ensures_raiseIf fun _ => hv) fun _ v hv => hv

theorem ensures_deliverPending {q : PendingRow} (hw : w.Sound) (hq : q ∈ w.pending) :
    Ensures (deliverPending q.path q.message)
      (fun _ v => v.Sound ∧ Grows w v ∧ v.pending = w.pending.filter fun p => p.path ≠ q.path) w := by
  unfold deliverPending
  refine Ensures.bind (ensures_deliver hw hq) fun ack v hv => ?_
  refine Ensures.bind (P := fun _ v => Around w v ∧ v.Delivered q.message) (ensures_raiseIf fun _ => hv) fun _ v ⟨hv, hd⟩ => ?_
  refine ensures_transact fun t ht => ?_
  obtain rfl := Except.ok.inj ht
  obtain ⟨hs, hg⟩ := hv.sound.advance (hv.pending ▸ hq) hd
  exact ⟨fun _ => ⟨hs, hg⟩, hs, hv.grows.trans hg, by rw [← hv.pending]; rfl⟩

theorem ensures_place (huuid : Function.Injective RelayHost.uuid4) {f : LogFile} {identity : String} {size : Nat} {head : List UInt8}
    (hw : w.Sound) (hf : w.file? name = some f) (hi : f.identity = identity) (hhead : head <+: w.bytesOf name)
    (hsame : ∀ r, w.checkpoint? name = some r → r.identity = identity ∧ r.offset ≤ size ∧ head = r.head) :
    Ensures (place name identity size head (w.checkpoint? name))
      (fun a v => v.Sound ∧ Grows w v ∧ ∃ r ∈ v.checkpoints, r.path = name ∧ r.stream = a.1 ∧ r.offset = a.2) w := by
  unfold place
  cases hr : w.checkpoint? name with
  | some r =>
    rw [Option.filter_some, if_pos (decide_eq_true (hsame r hr))]
    obtain ⟨hm, hp⟩ := Rows.lookup_mem hr
    exact ensures_pure ⟨hw, .refl w, r, hm, hp, rfl, rfl⟩
  | none =>
    rw [Option.filter_none]
    have hdraw : Ensures RelayCollector.uuid4
        (fun a v => v = { w with drawn := w.drawn + 1 } ∧ a = RelayHost.uuid4 w.drawn) w :=
      ⟨fun _ => ⟨hw.draw, .of_rows rfl fun r hr => ⟨r, hr, rfl, rfl, Nat.le_refl _⟩⟩, rfl, rfl⟩
    refine Ensures.bind hdraw ?_
    rintro _ _ ⟨rfl, rfl⟩
    let row : Checkpoint := ⟨name, RelayHost.uuid4 w.drawn, identity, 0, head⟩
    have hnew : ∀ r ∈ w.checkpoints, r.stream ≠ row.stream := fun r hr he => by
      obtain ⟨k, hk, hks⟩ := hw.drawn r hr
      have hkd := huuid (hks.trans he)
      omega
    have hrows : Rows.upsert Checkpoint.path row (fun _ => row) w.checkpoints = w.checkpoints ++ [row] :=
      if_neg (by simpa only [Bool.not_eq_true] using Rows.has_eq_false_iff.mpr (Rows.lookup_eq_none_iff.mp hr))
    have hbegin : ({ w with drawn := w.drawn + 1, checkpoints := w.checkpoints ++ [row] } : Mirror).Sound :=
      hw.draw.begins hr hf hi hhead rfl (Nat.lt_succ_self _) rfl hnew
    have hgrows : Grows w { w with drawn := w.drawn + 1, checkpoints := w.checkpoints ++ [row] } :=
      .of_rows rfl fun r hr => ⟨r, List.mem_append_left _ hr, rfl, rfl, Nat.le_refl _⟩
    refine Ensures.bind (P := fun _ v => v = { w with drawn := w.drawn + 1, checkpoints := w.checkpoints ++ [row] })
      (ensures_transact fun t ht => ?_) ?_
    · change Except.ok { w with
        drawn := w.drawn + 1, checkpoints := Rows.upsert Checkpoint.path row (fun _ => row) w.checkpoints } = _ at ht
      rw [hrows] at ht
      obtain rfl := Except.ok.inj ht
      exact ⟨fun _ => ⟨hbegin, .of_rows rfl fun r hr => ⟨r, List.mem_append_left _ hr, rfl, rfl, Nat.le_refl _⟩⟩, rfl⟩
    · rintro _ _ rfl
      exact ensures_pure ⟨hbegin, hgrows, row, List.mem_append_right _ List.mem_cons_self, rfl, rfl, rfl⟩

theorem ensures_send {r : Checkpoint} {head payload : List UInt8} (hw : w.Sound) (hr : r ∈ w.checkpoints) (hpath : r.path = name)
    (hne : payload ≠ []) (hp : payload <+: (w.bytesOf r.path).drop r.offset) :
    Ensures (send name head r.stream r.offset payload) (fun n v => v.Sound ∧ Grows w v ∧ n ≠ 0) w := by
  unfold send
  refine Ensures.bind (P := fun _ v => v.Sound ∧ Grows w v ∧ ⟨name, message name r.stream r.offset payload⟩ ∈ v.pending)
    (ensures_transact fun t ht => ?_) fun _ v ⟨hv, hg, hmem⟩ => ?_
  · obtain ⟨hs, hg, hmem⟩ := hw.keep hr hpath hne hp ht
    exact ⟨fun _ => ⟨hs, hg⟩, hs, hg, hmem⟩
  · refine Ensures.bind (ensures_deliverPending hv hmem) fun _ u ⟨hu, hgu, _⟩ => ?_
    exact ensures_pure ⟨hu, hg.trans hgu, Nat.one_ne_zero⟩

/-- A file of which nothing is sent was read to its end. -/
def Caught (w : Mirror) (name : String) (n : Nat) (v : Mirror) : Prop :=
  v.Sound ∧ Grows w v ∧ (n = 0 → ∃ r ∈ v.checkpoints, r.path = name ∧ (w.bytesOf name).length ≤ r.offset)

theorem ensures_follow (huuid : Function.Injective RelayHost.uuid4) {f : LogFile} (hw : w.Sound) (hf : w.file? name = some f) :
    Ensures (follow name) (Caught w name) w := by
  unfold follow
  refine Ensures.bind (P := fun _ v => w = v) (fun _ _ => rfl) ?_
  rintro fails _ rfl
  refine Ensures.bind (P := fun _ v => w = v) (ensures_raiseIf fun _ => rfl) ?_
  rintro _ _ rfl
  refine Ensures.bind (P := fun _ v => Around w v) (ensures_tick hw fun _ hv => hv) fun _ v hv => ?_
  obtain ⟨g, hg, _, _, _⟩ := hv.grows.files name f hf
  refine Ensures.bind (P := fun a u => some g = a ∧ v = u) (ensures_reads ⟨hg.symm, rfl⟩) ?_
  rintro _ _ ⟨rfl, rfl⟩
  refine Ensures.bind (P := fun _ u => Around v u) (ensures_tick hv.sound fun _ hu => hu) fun _ u hu => ?_
  refine Ensures.bind (P := fun a t => u.checkpoint? name = a ∧ u = t) (ensures_reads ⟨rfl, rfl⟩) ?_
  rintro _ _ ⟨rfl, rfl⟩
  refine Ensures.bind (P := fun a t => (u.bytesOf name).take ((u.checkpoint? name).elim 32 fun r => r.head.length) = a ∧ u = t)
    (ensures_reads ⟨rfl, rfl⟩) ?_
  rintro _ _ ⟨rfl, rfl⟩
  obtain ⟨k, hk, _, hki, _⟩ := hu.grows.files name g hg
  refine Ensures.bind (ensures_place huuid hu.sound hk hki (List.take_prefix _ _) fun r hr => ?_) ?_
  · obtain ⟨hm, hp⟩ := Rows.lookup_mem hr
    have hmv : r ∈ v.checkpoints := hu.checkpoints ▸ hm
    obtain ⟨o, ho, hoi⟩ := hv.sound.identity r hmv
    rw [hp, hg] at ho
    obtain rfl := Option.some.inj ho
    have hle := (hv.sound.offset_le hmv).trans (hv.sound.contents r hmv).length_le
    have hbytes : v.bytesOf r.path = g.bytes := by simp [Mirror.bytesOf, hp, hg]
    have hhead := List.prefix_iff_eq_take.mp (hu.sound.head r hm)
    rw [hp] at hhead
    rw [hbytes] at hle
    exact ⟨hoi.symm, hle, by rw [hr]; exact hhead.symm⟩
  rintro ⟨stream, offset⟩ t ⟨ht, hgt, r, hr, hrp, hstream, hoffset⟩
  refine Ensures.bind (P := fun _ x => Around t x) (ensures_tick ht fun _ hx => hx) fun _ x hx => ?_
  refine Ensures.bind (P := fun a y => ((x.bytesOf name).drop offset).take chunkBytes = a ∧ x = y) (ensures_reads ⟨rfl, rfl⟩) ?_
  rintro _ _ ⟨rfl, rfl⟩
  have hgrows : Grows w x := ((hv.grows.trans hu.grows).trans hgt).trans hx.grows
  simp only at hstream hoffset
  subst hstream hoffset
  have hmx : r ∈ x.checkpoints := hx.checkpoints ▸ hr
  split
  · next hnil =>
    refine ensures_pure ⟨hx.sound, hgrows, fun _ => ⟨r, hmx, hrp, ?_⟩⟩
    have hend : (x.bytesOf name).length ≤ r.offset := by
      rcases List.take_eq_nil_iff.mp hnil with hz | hd
      · simp [chunkBytes] at hz
      · exact List.drop_eq_nil_iff.mp hd
    exact (hgrows.bytesOf name).length_le.trans hend
  · next hne =>
    refine Ensures.bind (P := fun _ y => Around x y) (ensures_tick hx.sound fun _ hy => hy) fun _ y hy => ?_
    have hpayload : wholeLines (((x.bytesOf name).drop r.offset).take chunkBytes) <+: (y.bytesOf r.path).drop r.offset :=
      ((wholeLines_isPrefix _).trans (List.take_prefix _ _)).trans (hrp ▸ (hy.grows.bytesOf r.path).drop _)
    refine (ensures_send hy.sound (hy.checkpoints ▸ hmx) hrp (wholeLines_ne_nil hne) hpayload).mono ?_
    rintro n z ⟨hz, hgz, hn⟩
    exact ⟨hz, (hgrows.trans hy.grows).trans hgz, fun h => absurd h hn⟩

theorem ensures_pollFile (huuid : Function.Injective RelayHost.uuid4) (hw : w.Sound) (name : String) :
    Ensures (pollFile name) (fun n v => v.Sound ∧ Grows w v ∧ (n = 0 → ∀ f, w.file? name = some f → mirrored f →
      ∃ r ∈ v.checkpoints, r.path = name ∧ f.bytes.length ≤ r.offset)) w := by
  unfold pollFile
  refine Ensures.bind (P := fun _ v => Around w v) (ensures_tick hw fun _ hv => hv) fun _ v hv => ?_
  refine Ensures.bind (P := fun a u => v.file? name = a ∧ v = u) (ensures_reads ⟨rfl, rfl⟩) ?_
  rintro _ _ ⟨rfl, rfl⟩
  have hfile {f : LogFile} (hf : w.file? name = some f) (hm : mirrored f = true) :
      (v.file? name).any mirrored = true ∧ f.bytes <+: v.bytesOf name := by
    obtain ⟨g, hg, hgr, _, hgb⟩ := hv.grows.files name f hf
    have hname : g.name = f.name := (Rows.lookup_mem hg).2.trans (Rows.lookup_mem hf).2.symm
    rw [Mirror.bytesOf, hg]
    refine ⟨?_, hgb⟩
    rw [Option.any_some, mirrored, hgr, hname]
    exact hm
  split
  · next hm =>
    obtain ⟨g, hg⟩ : ∃ g, v.file? name = some g := by
      cases hg : v.file? name with
      | none => rw [hg] at hm; simp at hm
      | some g => exact ⟨g, rfl⟩
    refine (ensures_follow huuid hv.sound hg).mono ?_
    rintro n u ⟨hu, hgu, hn⟩
    refine ⟨hu, hv.grows.trans hgu, fun h f hf hm => ?_⟩
    obtain ⟨r, hr, hrp, hle⟩ := hn h
    exact ⟨r, hr, hrp, (hfile hf hm).2.length_le.trans hle⟩
  · next hm => exact ensures_pure ⟨hv.sound, hv.grows, fun _ f hf hmf => absurd (hfile hf hmf).1 hm⟩

/-- A poll keeps the form; one that delivers nothing has read every file to its end. -/
theorem ensures_poll (huuid : Function.Injective RelayHost.uuid4) (hw : w.Sound) :
    Ensures poll (fun n v => v.Sound ∧ Grows w v ∧ (n = 0 → ∀ f ∈ w.files, mirrored f →
      ∃ r ∈ v.checkpoints, r.path = f.name ∧ f.bytes.length ≤ r.offset)) w := by
  unfold poll
  refine Ensures.bind (P := fun _ v => Around w v) (ensures_tick hw fun _ hv => hv) fun _ v hv => ?_
  refine Ensures.bind (P := fun a u => (v.pending.insertionSort fun p q => p.path ≤ q.path) = a ∧ v = u) (ensures_reads ⟨rfl, rfl⟩) ?_
  rintro _ _ ⟨rfl, rfl⟩
  have hpending : Ensures ((v.pending.insertionSort fun p q => p.path ≤ q.path).forM fun p => deliverPending p.path p.message)
      (fun _ u => u.Sound ∧ Grows v u) v := by
    have hperm := List.perm_insertionSort (fun p q : PendingRow => p.path ≤ q.path) v.pending
    have h := Prog.wp_forM (A := AnyAnswer) (G := Moves) (f := fun p : PendingRow => deliverPending p.path p.message)
      (I := fun rest u => u.Sound ∧ Grows v u ∧ (rest.map PendingRow.path).Nodup ∧ ∀ p ∈ rest, p ∈ u.pending)
      (E := fun _ _ => True) (v.pending.insertionSort fun p q => p.path ≤ q.path) ?_
      ⟨hv.sound, .refl v, (hperm.map _).nodup_iff.mpr hv.sound.once, fun p hp => hperm.mem_iff.mp hp⟩
    · exact Ensures.mono h fun _ u hu => ⟨hu.1, hu.2.1⟩
    · rintro p rest u ⟨hu, hgu, hnd, hmem⟩
      obtain ⟨hne, hnd⟩ := List.nodup_cons.mp hnd
      refine (ensures_deliverPending hu (hmem p List.mem_cons_self)).mono ?_
      rintro _ t ⟨ht, hgt, hrest⟩
      refine ⟨ht, hgu.trans hgt, hnd, fun q hq => hrest ▸ List.mem_filter.mpr ⟨hmem q (List.mem_cons_of_mem _ hq), ?_⟩⟩
      exact decide_eq_true fun he => hne (he ▸ List.mem_map_of_mem hq)
  refine Ensures.bind hpending fun _ u ⟨hu, hgu⟩ => ?_
  refine Ensures.bind (P := fun _ x => Around u x) (ensures_tick hu fun _ hx => hx) fun _ x hx => ?_
  refine Ensures.bind (P := fun a y => ((x.files.map LogFile.name).insertionSort fun a b => a ≤ b) = a ∧ x = y)
    (ensures_reads ⟨rfl, rfl⟩) ?_
  rintro _ _ ⟨rfl, rfl⟩
  have hgx : Grows w x := (hv.grows.trans hgu).trans hx.grows
  have hfile {f : LogFile} (hf : f ∈ w.files) : w.file? f.name = some f := Rows.lookup_of_mem hw.names hf
  have h := Prog.wp_foldlM (A := AnyAnswer) (G := Moves)
    (f := fun delivered name => (do return delivered + (← pollFile name) : Collect Nat))
    (I := fun rest n y => y.Sound ∧ Grows w y ∧ (n = 0 → ∀ f ∈ w.files, mirrored f →
      f.name ∈ rest ∨ ∃ r ∈ y.checkpoints, r.path = f.name ∧ f.bytes.length ≤ r.offset))
    (E := fun _ _ => True) ((x.files.map LogFile.name).insertionSort fun a b => a ≤ b)
    (c := (v.pending.insertionSort fun p q => p.path ≤ q.path).length) ?_ ⟨hx.sound, hgx, fun _ f hf _ => Or.inl ?_⟩
  · refine Ensures.mono h fun n y hy => ⟨hy.1, hy.2.1, fun hn f hf hm => ?_⟩
    simpa using hy.2.2 hn f hf hm
  · rintro name rest n y ⟨hy, hgy, hn⟩
    refine Ensures.bind (ensures_pollFile huuid hy name) ?_
    rintro k z ⟨hz, hgz, hk⟩
    refine ensures_pure ⟨hz, hgy.trans hgz, fun hsum f hf hm => ?_⟩
    obtain ⟨hn₀, hk₀⟩ : n = 0 ∧ k = 0 := by omega
    rcases hn hn₀ f hf hm with hmem | ⟨r, hr, hrp, hle⟩
    · rcases List.mem_cons.mp hmem with rfl | hmem
      · obtain ⟨g, hg, hgr, _, hgb⟩ := hgy.files f.name f (hfile hf)
        have hname : g.name = f.name := (Rows.lookup_mem hg).2
        have hmg : mirrored g = true := by rw [mirrored, hgr, hname]; exact hm
        obtain ⟨r, hr, hrp, hle⟩ := hk hk₀ g hg hmg
        exact Or.inr ⟨r, hr, hrp, hgb.length_le.trans hle⟩
      · exact Or.inl hmem
    · obtain ⟨q, hq, hqp, _, hqo⟩ := hgz.rows r hr
      exact Or.inr ⟨q, hq, hqp.trans hrp, hle.trans hqo⟩
  · obtain ⟨g, hg, _, _, _⟩ := hgx.files f.name f (hfile hf)
    obtain ⟨hm, hname⟩ := Rows.lookup_mem hg
    exact (List.perm_insertionSort _ _).mem_iff.mpr (hname ▸ List.mem_map_of_mem hm)

end Programs

/-- The chunks that the archive has of a file. -/
def RelayLogStore.chunksNamed (db : RelayLogStore) (name : String) : List Chunk := db.chunks.filter fun c => c.filename = name

def RelayLogStore.copyOf (db : RelayLogStore) (name : String) : List UInt8 := (db.chunksNamed name).flatMap Chunk.payload

section Histories

open Mirror RelayCollector RelayLogStore

variable [RelayHost] {s t : Mirror} {r : Checkpoint}

theorem Mirror.Sound.chunksNamed (h : s.Sound) (hr : r ∈ s.checkpoints) : s.store.chunksNamed r.path = s.store.chunksOf r.stream := by
  refine List.filter_congr fun c hc => ?_
  obtain ⟨q, hq, hqs, hqf⟩ := h.owned c hc
  rw [decide_eq_decide, ← hqs, ← hqf]
  constructor
  · intro hp
    rw [h.row_eq hq hr hp]
  · intro hs
    rw [h.row_eq_of_stream hq hr hs]

/-- What the archive has of a file is one stream in form, and a first part of the file. -/
structure Mirrors (s : Mirror) (f : LogFile) : Prop where
  stream : ∀ c ∈ s.store.chunksNamed f.name, ∀ d ∈ s.store.chunksNamed f.name, c.streamId = d.streamId
  tiles : Tiles Chunk.offset RelayLogStore.size (s.store.chunksNamed f.name) 0 (s.store.copyOf f.name).length
  copy : s.store.copyOf f.name <+: f.bytes

theorem Mirror.Sound.mirrors (h : s.Sound) {f : LogFile} (hf : f ∈ s.files) : Mirrors s f := by
  have hbytes : s.bytesOf f.name = f.bytes := by
    rw [Mirror.bytesOf, Mirror.file?, Rows.lookup_of_mem h.names hf]
    rfl
  by_cases hrow : ∃ r ∈ s.checkpoints, r.path = f.name
  · obtain ⟨r, hr, hp⟩ := hrow
    have hc : s.store.chunksNamed f.name = s.store.chunksOf r.stream := hp ▸ h.chunksNamed hr
    have hcopy : s.store.copyOf f.name = s.store.contents r.stream := congrArg (List.flatMap Chunk.payload) hc
    refine ⟨?_, ?_, ?_⟩
    · intro c hcm d hdm
      rw [hc] at hcm hdm
      exact (of_decide_eq_true (List.mem_filter.mp hcm).2).trans (of_decide_eq_true (List.mem_filter.mp hdm).2).symm
    · rw [hc, hcopy, h.formed.length_contents]
      exact h.formed.tiles r.stream
    · rw [hcopy, ← hbytes, ← hp]
      exact h.contents r hr
  · have hnil : s.store.chunksNamed f.name = [] := by
      refine List.filter_eq_nil_iff.mpr fun c hc hn => hrow ?_
      obtain ⟨r, hr, _, hrf⟩ := h.owned c hc
      exact ⟨r, hr, hrf.trans (of_decide_eq_true hn)⟩
    have hcopy : s.store.copyOf f.name = [] := congrArg (List.flatMap Chunk.payload) hnil
    refine ⟨by simp [hnil], ?_, hcopy ▸ List.nil_prefix⟩
    rw [hnil, hcopy]
    rfl

theorem MirrorMove.sound (huuid : Function.Injective RelayHost.uuid4) (h : MirrorMove s t) (hs : s.Sound) : t.Sound := by
  have hsteps {u v : Mirror} (h : ReflTransGen Moves u v) (hu : u.Sound) : v.Sound :=
    invariant_of_reflTransGen h (fun _ _ hx hm => (hm hx).1) hu
  cases h with
  | happen x => exact (hs.happen x).sound
  | poll env => exact hsteps (Prog.wp_eval (ensures_poll huuid hs) env fun _ _ => trivial).1 hs
  | stop n env => exact hsteps (Prog.wp_stop (ensures_poll huuid hs) n env fun _ _ => trivial) hs

theorem Mirror.sound_empty : ({} : Mirror).Sound where
  names := List.nodup_nil
  paths := List.nodup_nil
  streams := List.nodup_nil
  drawn := by simp
  identity := by simp
  head := by simp
  contents := by simp
  place := by simp
  once := List.nodup_nil
  next := by simp
  posted := by simp
  formed := Relay.sound_empty.formed
  owned := by simp

/-- Over any history, the archive has of each file a first part of its bytes, without gap and without any twice. A poll
that delivers nothing leaves no byte out that the file had when the poll began: the archive has what the file was when
it was read. -/
theorem relay_mirrors (huuid : Function.Injective RelayHost.uuid4) (h : ReflTransGen MirrorMove {} s) :
    (∀ f ∈ s.files, Mirrors s f)
      ∧ ∀ env, poll.eval env s = (t, .ok 0) → ∀ f ∈ s.files, mirrored f →
          ∃ g ∈ t.files, g.name = f.name ∧ f.bytes <+: t.store.copyOf f.name ∧ t.store.copyOf f.name <+: g.bytes := by
  have hs : s.Sound := invariant_of_reflTransGen h (fun _ _ hx hm => hm.sound huuid hx) Mirror.sound_empty
  refine ⟨fun f hf => hs.mirrors hf, fun env hpoll f hf hm => ?_⟩
  obtain ⟨_, hok, _⟩ := Prog.wp_eval (ensures_poll huuid hs) env fun _ _ => trivial
  rw [hpoll] at hok
  obtain ⟨ht, hgrows, hcaught⟩ := hok 0 rfl
  obtain ⟨r, hr, hrp, hle⟩ := hcaught rfl f hf hm
  obtain ⟨g, hg, _, _, hgb⟩ := hgrows.files f.name f (Rows.lookup_of_mem hs.names hf)
  obtain ⟨hgm, hname⟩ := Rows.lookup_mem hg
  have hcopy : t.store.copyOf f.name <+: g.bytes := hname ▸ (ht.mirrors hgm).copy
  have hcontents : t.store.copyOf f.name = t.store.contents r.stream :=
    congrArg (List.flatMap Chunk.payload) (hrp ▸ ht.chunksNamed hr)
  refine ⟨g, hgm, hname, ?_, hcopy⟩
  refine List.prefix_of_prefix_length_le hgb hcopy ?_
  rw [hcontents]
  exact hle.trans (ht.offset_le hr)

end Histories

section Sample

attribute [local instance] sampleRelayHost

theorem sampleRelayHost_uuid4 : Function.Injective (RelayHost.uuid4 : Nat → String) := by
  intro a b h
  have hl := congrArg (fun s : String => s.toList.length) h
  simp only [RelayHost.uuid4, String.toList_ofList, List.length_append, List.length_replicate] at hl
  omega

/-- Every request gets through and is answered. -/
def sampleCarriage : CollectorAnswers
  | _, .elapse => []
  | _, .opens _ => false
  | _, .statementFails => false
  | _, .carry => ⟨true, "t1", false, true⟩

def sampleLog : LogFile := ⟨"x.log", true, "1:1", [97, 98, 99]⟩

def samplePolled : Mirror := (RelayCollector.poll.eval sampleCarriage (({} : Mirror).happen (.created sampleLog))).1

theorem relay_mirrors_sample : ∃ t, RelayCollector.poll.eval sampleCarriage samplePolled = (t, .ok 0)
    ∧ Mirrors samplePolled sampleLog ∧ ∃ g ∈ t.files, sampleLog.bytes <+: t.store.copyOf "x.log" ∧ t.store.copyOf "x.log" <+: g.bytes := by
  have hpoll : (RelayCollector.poll.eval sampleCarriage samplePolled).2.toOption.any (fun n => n = 0) = true := by
    decide +kernel
  obtain ⟨n, hn, hzero⟩ := exists_ok hpoll
  obtain rfl : n = 0 := by simpa using hzero
  have hrun : RelayCollector.poll.eval sampleCarriage samplePolled = (_, .ok 0) := Prod.ext rfl hn
  have hf : sampleLog ∈ samplePolled.files := List.mem_cons_self
  obtain ⟨hmirrors, hcaught⟩ := relay_mirrors sampleRelayHost_uuid4
    (.tail (.single (.happen (.created sampleLog))) (.poll sampleCarriage))
  obtain ⟨g, hg, _, hcopy⟩ := hcaught sampleCarriage hrun sampleLog hf (by decide +kernel)
  exact ⟨_, hrun, hmirrors _ hf, g, hg, hcopy⟩

end Sample

end MatchTrader
