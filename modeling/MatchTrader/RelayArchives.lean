import Mathlib.Data.List.Sort
import Mathlib.Logic.Relation
import MatchTrader.RelayStore

/-! Whatever is passed to the archive, the chunks of a stream tile what was accepted of it, and a
reader that goes from page to page is shown every chunk once, in the order of acceptance. -/

namespace MatchTrader

open Tiling

namespace Envelope

variable [RelayHost] {message : Json} {e : Envelope}

theorem read_ok (h : read message = .ok e) :
    1 ≤ e.payload.length ∧ e.payload.length ≤ chunkBytes ∧ e.digest = RelayHost.sha256 e.payload := by
  simp only [read, bind_eq_ok, raiseIf_eq_ok] at h
  obtain ⟨_, _, _, _, _, _, _, _, _, _, _, _, _, _, _, _, _, hsize, h⟩ := h
  obtain rfl := Except.ok.inj h
  simp only [not_or, not_not] at hsize
  exact ⟨hsize.1.1, hsize.1.2, rfl⟩

end Envelope

namespace RelayLogStore

variable {db db' : RelayLogStore} {e : Envelope} {receivedAt : String} {ack : Ack}

/-- The chunk holds what the envelope brings. -/
structure Holds (e : Envelope) (c : Chunk) : Prop where
  machine : c.machine = e.machine
  filename : c.filename = e.filename
  digest : c.digest = e.digest
  payload : c.payload = e.payload

/-- What an acceptance can do: it finds the chunk, or it is the next of its stream. -/
theorem insert_ok (h : db.insert e receivedAt = .ok (ack, db')) :
    (∃ c, db.chunk? e.streamId e.offset = some c ∧ Holds e c ∧ ack = e.ack true ∧ db' = db)
      ∨ (db.chunk? e.streamId e.offset = none
        ∧ (∀ s, db.stream? e.streamId = some s → s.machine = e.machine ∧ s.filename = e.filename)
        ∧ e.offset = db.nextOffset e.streamId ∧ ack = e.ack false ∧ db' = db.append e receivedAt) := by
  unfold insert at h
  cases hc : db.chunk? e.streamId e.offset with
  | some c =>
    simp only [hc, bind_eq_ok, raiseIf_eq_ok, not_not] at h
    obtain ⟨_, heq, h⟩ := h
    obtain ⟨rfl, rfl⟩ := Prod.mk.inj (Except.ok.inj h)
    simp only [Prod.mk.injEq] at heq
    exact Or.inl ⟨c, rfl, ⟨heq.1, heq.2.1, heq.2.2.1, heq.2.2.2⟩, rfl, rfl⟩
  | none =>
    simp only [hc, bind_eq_ok, raiseIf_eq_ok, not_not] at h
    obtain ⟨_, howner, _, hoff, _, _, h⟩ := h
    obtain ⟨rfl, rfl⟩ := Prod.mk.inj (Except.ok.inj h)
    refine Or.inr ⟨rfl, fun s hs => ?_, hoff, rfl, rfl⟩
    simpa [hs] using howner

theorem chunk?_append {i : String} {n : Nat} {c : Chunk} (h : db.chunk? i n = some c) :
    (db.append e receivedAt).chunk? i n = some c := by
  simp only [chunk?] at h
  simp only [chunk?, append, Rows.lookup_append, h, Option.some_or]

theorem chunk?_append_self (h : db.chunk? e.streamId e.offset = none) :
    ∃ c, (db.append e receivedAt).chunk? e.streamId e.offset = some c ∧ Holds e c := by
  simp only [chunk?] at h
  simp only [chunk?, append, Rows.lookup_append, h, Option.none_or, Chunk.key, if_true, Option.some.injEq, exists_eq_left']
  exact ⟨rfl, rfl, rfl, rfl⟩

theorem stream?_append (i : String) : (db.append e receivedAt).stream? i =
    if i = e.streamId then some ((db.stream? i).elim ⟨e.streamId, e.machine, e.filename, e.offset + e.payload.length⟩
      fun s => { s with nextOffset := e.offset + e.payload.length }) else db.stream? i :=
  Rows.lookup_upsert fun _ => rfl

theorem nextOffset_append (i : String) : (db.append e receivedAt).nextOffset i =
    if i = e.streamId then e.offset + e.payload.length else db.nextOffset i := by
  simp only [nextOffset, stream?_append]
  split
  · cases db.stream? i <;> rfl
  · rfl

theorem chunksOf_append (i : String) : (db.append e receivedAt).chunksOf i = if i = e.streamId then
      db.chunksOf i ++ [⟨db.nextSeq, e.streamId, e.machine, e.filename, e.offset, e.digest, e.payload, receivedAt⟩]
    else db.chunksOf i := by
  simp only [chunksOf, append, List.filter_append, List.filter_cons, List.filter_nil, decide_eq_true_eq]
  by_cases hi : i = e.streamId
  · simp [hi]
  · simp [hi, Ne.symm hi]

/-- The two tables belong together. -/
structure WellFormed [RelayHost] (db : RelayLogStore) : Prop where
  seqs : db.chunks.map Chunk.seq = List.range' 1 db.chunks.length
  tiles : ∀ i, Tiles Chunk.offset size (db.chunksOf i) 0 (db.nextOffset i)
  owned : ∀ c ∈ db.chunks, ∃ s, db.stream? c.streamId = some s ∧ s.machine = c.machine ∧ s.filename = c.filename
  sized : ∀ c ∈ db.chunks, 1 ≤ c.payload.length ∧ c.payload.length ≤ chunkBytes ∧ c.digest = RelayHost.sha256 c.payload

theorem foldl_max_range' (n : Nat) : (List.range' 1 n).foldl max 0 = n := by
  induction n with
  | zero => rfl
  | succ n ih =>
    rw [List.range'_1_concat, List.foldl_append, ih]
    simp only [List.foldl_cons, List.foldl_nil]
    omega

section Accepting

variable [RelayHost] {message : Json} {fails : Bool} {r : Except Exc Ack}

theorem WellFormed.nextSeq (h : db.WellFormed) : db.nextSeq = db.chunks.length + 1 := by
  rw [RelayLogStore.nextSeq, h.seqs, foldl_max_range']

theorem WellFormed.append (h : db.WellFormed)
    (howner : ∀ s, db.stream? e.streamId = some s → s.machine = e.machine ∧ s.filename = e.filename)
    (hoff : e.offset = db.nextOffset e.streamId)
    (he : 1 ≤ e.payload.length ∧ e.payload.length ≤ chunkBytes ∧ e.digest = RelayHost.sha256 e.payload) :
    (db.append e receivedAt).WellFormed where
  seqs := by
    simp only [RelayLogStore.append, List.map_append, List.map_cons, List.map_nil, List.length_append, List.length_singleton,
      h.seqs, h.nextSeq, List.range'_1_concat, Nat.add_comm 1]
  tiles i := by
    rw [chunksOf_append, nextOffset_append]
    split
    · next hi =>
      subst hi
      have ht := h.tiles e.streamId
      rw [← hoff] at ht
      exact ht.concat rfl
    · exact h.tiles i
  owned c hc := by
    simp only [stream?_append]
    rcases List.mem_append.mp hc with hc | hc
    · obtain ⟨s, hs, hm, hf⟩ := h.owned c hc
      split
      · exact ⟨_, rfl, by simpa [hs] using hm, by simpa [hs] using hf⟩
      · exact ⟨s, hs, hm, hf⟩
    · obtain rfl := List.mem_singleton.mp hc
      simp only [if_true, Option.some.injEq, exists_eq_left']
      cases hs : db.stream? e.streamId with
      | none => exact ⟨rfl, rfl⟩
      | some s => exact howner s hs
  sized c hc := by
    rcases List.mem_append.mp hc with hc | hc
    · exact h.sized c hc
    · obtain rfl := List.mem_singleton.mp hc
      exact he

/-- An acceptance comes of an envelope that was read, and of its statements; else nothing changes. -/
theorem accept_cases (h : db.accept message receivedAt fails = (r, db')) :
    (∃ exc, r = .error exc ∧ db' = db)
      ∨ ∃ e ack, Envelope.read message = .ok e ∧ fails = false ∧ db.insert e receivedAt = .ok (ack, db') ∧ r = .ok ack := by
  unfold accept at h
  split at h
  · next ack db'' hh =>
    obtain ⟨rfl, rfl⟩ := Prod.mk.inj h
    simp only [bind_eq_ok, raiseIf_eq_ok, Bool.not_eq_true] at hh
    obtain ⟨e, he, _, hf, hi⟩ := hh
    exact Or.inr ⟨e, ack, he, hf, hi, rfl⟩
  · next exc hh =>
    obtain ⟨rfl, rfl⟩ := Prod.mk.inj h
    exact Or.inl ⟨exc, rfl, rfl⟩

theorem accept_of_insert (he : Envelope.read message = .ok e) (h : db.insert e receivedAt = .ok (ack, db')) :
    db.accept message receivedAt false = (.ok ack, db') := by
  unfold accept
  rw [he]
  simp only [bind, Except.bind, raiseIf, Bool.false_eq_true, if_false, pure, Except.pure, h]

theorem WellFormed.accept (h : db.WellFormed) (ha : db.accept message receivedAt fails = (r, db')) : db'.WellFormed := by
  rcases accept_cases ha with ⟨_, _, rfl⟩ | ⟨e, ack, he, _, hi, _⟩
  · exact h
  · rcases insert_ok hi with ⟨_, _, _, _, rfl⟩ | ⟨_, howner, hoff, _, rfl⟩
    · exact h
    · exact h.append howner hoff (Envelope.read_ok he)

/-- The chunk of an envelope is on record. -/
def Stored (db : RelayLogStore) (e : Envelope) : Prop := ∃ c, db.chunk? e.streamId e.offset = some c ∧ Holds e c

omit [RelayHost] in
theorem stored_insert (h : db.insert e receivedAt = .ok (ack, db')) : db'.Stored e ∧ { ack with duplicate := true } = e.ack true := by
  rcases insert_ok h with ⟨c, hc, hh, rfl, rfl⟩ | ⟨hn, _, _, rfl, rfl⟩
  · exact ⟨⟨c, hc, hh⟩, rfl⟩
  · exact ⟨chunk?_append_self hn, rfl⟩

theorem Stored.accept (h : db.Stored e) (ha : db.accept message receivedAt fails = (r, db')) : db'.Stored e := by
  rcases accept_cases ha with ⟨_, _, rfl⟩ | ⟨e', ack, _, _, hi, _⟩
  · exact h
  · rcases insert_ok hi with ⟨_, _, _, _, rfl⟩ | ⟨_, _, _, _, rfl⟩
    · exact h
    · obtain ⟨c, hc, hh⟩ := h
      exact ⟨c, chunk?_append hc, hh⟩

omit [RelayHost] in
/-- A chunk on record is acknowledged as a duplicate. -/
theorem Stored.insert (h : db.Stored e) : db.insert e receivedAt = .ok (e.ack true, db) := by
  obtain ⟨c, hc, hh⟩ := h
  unfold RelayLogStore.insert
  rw [hc]
  simp only [hh.machine, hh.filename, hh.digest, hh.payload, ne_eq, not_true_eq_false, raiseIf, if_false]
  rfl

theorem accept_chunks (ha : db.accept message receivedAt fails = (r, db')) : db.chunks <+: db'.chunks := by
  rcases accept_cases ha with ⟨_, _, rfl⟩ | ⟨e, ack, _, _, hi, _⟩
  · exact List.prefix_rfl
  · rcases insert_ok hi with ⟨_, _, _, _, rfl⟩ | ⟨_, _, _, _, rfl⟩
    · exact List.prefix_rfl
    · exact List.prefix_append _ _

end Accepting

section Paging

variable [RelayHost]

theorem WellFormed.seq_eq (h : db.WellFormed) {k : Nat} (hk : k < db.chunks.length) : (db.chunks[k]).seq = k + 1 := by
  have hlt : k < (db.chunks.map Chunk.seq).length := by simpa using hk
  have hs : (db.chunks.map Chunk.seq)[k] = (db.chunks[k]).seq := List.getElem_map _
  rw [← hs]
  simp only [h.seqs, List.getElem_range']
  omega

/-- A page holds the chunks that follow the ones shown before. -/
theorem WellFormed.selectAfter (h : db.WellFormed) {n : Nat} {limit : Int} :
    db.selectAfter n limit = (db.chunks.drop n).take limit.toNat := by
  have hfilter : db.chunks.filter (fun c => decide ((n : Int) < c.seq)) = db.chunks.drop n := by
    have hsplit : db.chunks.filter (fun c => decide ((n : Int) < c.seq))
        = (db.chunks.take n ++ db.chunks.drop n).filter (fun c => decide ((n : Int) < c.seq)) := by
      rw [List.take_append_drop]
    rw [hsplit, List.filter_append, List.filter_eq_nil_iff.mpr fun c hc => ?_, List.nil_append,
      List.filter_eq_self.mpr fun c hc => ?_]
    · obtain ⟨k, hk, rfl⟩ := List.mem_iff_getElem.mp hc
      rw [List.length_drop] at hk
      rw [List.getElem_drop, h.seq_eq (by omega)]
      simp only [decide_eq_true_eq]
      omega
    · obtain ⟨k, hk, rfl⟩ := List.mem_iff_getElem.mp hc
      rw [List.length_take] at hk
      rw [List.getElem_take, h.seq_eq (by omega)]
      simp only [decide_eq_true_eq]
      omega
  have hsorted : (db.chunks.drop n).Pairwise fun c d => c.seq ≤ d.seq := by
    rw [List.pairwise_iff_getElem]
    intro i j hi hj hij
    rw [List.length_drop] at hi hj
    simp only [List.getElem_drop, h.seq_eq (show n + i < db.chunks.length by omega),
      h.seq_eq (show n + j < db.chunks.length by omega)]
    omega
  rw [RelayLogStore.selectAfter, hfilter, hsorted.insertionSort_eq]

/-- Where a page of the chunks after the first `n` leaves its reader. -/
theorem WellFormed.feed (h : db.WellFormed) {n : Nat} (hn : n ≤ db.chunks.length) {limit : Int} {page : Page}
    (hp : db.feed n limit = .ok page) :
    page.records = ((db.chunks.drop n).take limit.toNat).map record ∧ page.nextAfter = (n + page.records.length : Nat)
      ∧ 1 ≤ limit := by
  unfold RelayLogStore.feed at hp
  split at hp
  · simp at hp
  · next hl =>
    simp only [not_or, not_not] at hl
    obtain rfl := Except.ok.inj hp
    rw [h.selectAfter]
    refine ⟨rfl, ?_, hl.2.1⟩
    simp only [List.length_map]
    cases hlast : ((db.chunks.drop n).take limit.toNat).getLast? with
    | none => simp [List.getLast?_eq_none_iff.mp hlast]
    | some c =>
      rw [List.getLast?_eq_getElem?, List.getElem?_eq_some_iff] at hlast
      obtain ⟨hk, rfl⟩ := hlast
      simp only [Option.elim_some, List.getElem_take, List.getElem_drop]
      have hlen : ((db.chunks.drop n).take limit.toNat).length ≤ db.chunks.length - n := by
        rw [List.length_take, List.length_drop]
        omega
      rw [h.seq_eq (by omega)]
      congr 1
      omega

end Paging

end RelayLogStore

/-- A reader that goes on from the last chunk it was shown, beside the archive. -/
structure Relay where
  db : RelayLogStore := {}
  after : Int := 0
  shown : List RelayLogStore.FeedRecord := []
deriving DecidableEq

section Runs

variable [RelayHost]

inductive Relay.Step : Relay → Relay → Prop
  | accept {s : Relay} (message : Json) (receivedAt : String) (fails : Bool) :
    Step s { s with db := (s.db.accept message receivedAt fails).2 }
  | page {s : Relay} {limit : Int} {page : RelayLogStore.Page} (h : s.db.feed s.after limit = .ok page) :
    Step s { s with after := page.nextAfter, shown := s.shown ++ page.records }

abbrev Relay.Steps : Relay → Relay → Prop := Relation.ReflTransGen Relay.Step

/-- The reader was shown the first chunks, each one once. -/
structure Relay.Sound (s : Relay) : Prop where
  formed : s.db.WellFormed
  shown : s.shown = (s.db.chunks.take s.shown.length).map RelayLogStore.record
  after : s.after = s.shown.length

namespace Relay

variable {s t : Relay}

theorem Sound.length_le (h : s.Sound) : s.shown.length ≤ s.db.chunks.length := by
  have hl := congrArg List.length h.shown
  rw [List.length_map, List.length_take] at hl
  omega

theorem Sound.feed (h : s.Sound) {limit : Int} {page : RelayLogStore.Page} (hp : s.db.feed s.after limit = .ok page) :
    page.records = ((s.db.chunks.drop s.shown.length).take limit.toNat).map RelayLogStore.record
      ∧ page.nextAfter = (s.shown.length + page.records.length : Nat) ∧ 1 ≤ limit := by
  rw [h.after] at hp
  exact h.formed.feed h.length_le hp

theorem Sound.step (h : s.Sound) (hs : Step s t) : t.Sound := by
  cases hs with
  | accept message receivedAt fails =>
    generalize ha : s.db.accept message receivedAt fails = a
    obtain ⟨r, db⟩ := a
    obtain ⟨rest, hrest⟩ := RelayLogStore.accept_chunks ha
    refine ⟨h.formed.accept ha, ?_, h.after⟩
    rw [← hrest, List.take_append_of_le_length h.length_le]
    exact h.shown
  | @page limit page hp =>
    obtain ⟨hrecords, hnext, _⟩ := h.feed hp
    refine ⟨h.formed, ?_, ?_⟩
    · have hlen := congrArg List.length hrecords
      have hpage : page.records
          = ((s.db.chunks.drop s.shown.length).take page.records.length).map RelayLogStore.record := by
        rw [List.length_map, List.length_take] at hlen
        rw [hlen, ← List.take_eq_take_min]
        exact hrecords
      change s.shown ++ page.records = (s.db.chunks.take (s.shown ++ page.records).length).map RelayLogStore.record
      rw [List.length_append, List.take_add, List.map_append, ← h.shown, ← hpage]
    · rw [hnext, List.length_append]

theorem Sound.steps (h : s.Sound) (hs : Steps s t) : t.Sound := by
  induction hs with
  | refl => exact h
  | tail _ hst ih => exact ih.step hst

theorem sound_empty : ({} : Relay).Sound where
  formed := by
    refine ⟨rfl, fun _ => rfl, fun c hc => ?_, fun c hc => ?_⟩
    · simp at hc
    · simp at hc
  shown := rfl
  after := rfl

theorem stored_steps {e : Envelope} (h : s.db.Stored e) (hs : Steps s t) : t.db.Stored e := by
  induction hs with
  | refl => exact h
  | tail _ hst ih =>
    cases hst with
    | accept message receivedAt fails => exact ih.accept rfl
    | page => exact ih

end Relay

/-- What the archive promises for a stream: its chunks cover every byte below the next offset once, and no other, and
come from one file of one machine. -/
structure Archived (db : RelayLogStore) (i : String) : Prop where
  tiles : Tiles Chunk.offset RelayLogStore.size (db.chunksOf i) 0 (db.nextOffset i)
  once : ∀ p, (db.chunksOf i).countP (covers Chunk.offset RelayLogStore.size p) = if p < db.nextOffset i then 1 else 0
  owner : ∀ c ∈ db.chunksOf i, ∀ d ∈ db.chunksOf i, c.machine = d.machine ∧ c.filename = d.filename
  sized : ∀ c ∈ db.chunksOf i, 1 ≤ c.payload.length ∧ c.payload.length ≤ 8192 ∧ c.digest = RelayHost.sha256 c.payload

theorem RelayLogStore.WellFormed.archived {db : RelayLogStore} (h : db.WellFormed) (i : String) : Archived db i where
  tiles := h.tiles i
  once p := by simpa using (h.tiles i).countP
  owner c hc d hd := by
    simp only [RelayLogStore.chunksOf, List.mem_filter, decide_eq_true_eq] at hc hd
    obtain ⟨s, hs, hm, hf⟩ := h.owned c hc.1
    obtain ⟨t, ht, hm', hf'⟩ := h.owned d hd.1
    rw [hc.2] at hs
    rw [hd.2, hs] at ht
    obtain rfl := Option.some.inj ht
    exact ⟨hm.symm.trans hm', hf.symm.trans hf'⟩
  sized c hc := h.sized c (List.mem_filter.mp hc).1

/-- After any messages and any pages: every stream is in form; a message that raises changes nothing; a message that was
accepted is acknowledged again in the same way, as a duplicate; and the pages show the chunks in the order of acceptance, each
one once, until none is left. -/
theorem relay_store_well_formed {s : Relay} (h : Relay.Steps {} s) :
    (∀ i, Archived s.db i)
      ∧ (∀ message receivedAt fails exc db, s.db.accept message receivedAt fails = (.error exc, db) → db = s.db)
      ∧ (∀ message receivedAt fails ack db, s.db.accept message receivedAt fails = (.ok ack, db) →
          ∀ t, Relay.Steps { s with db } t → ∀ again,
            t.db.accept message again false = (.ok { ack with duplicate := true }, t.db))
      ∧ s.shown = (s.db.chunks.take s.shown.length).map RelayLogStore.record
      ∧ ∀ limit page, s.db.feed s.after limit = .ok page →
          page.records = ((s.db.chunks.drop s.shown.length).take limit.toNat).map RelayLogStore.record
            ∧ (page.records = [] → s.shown = s.db.chunks.map RelayLogStore.record) := by
  have hsound := Relay.sound_empty.steps h
  refine ⟨hsound.formed.archived, ?_, ?_, hsound.shown, ?_⟩
  · intro message receivedAt fails exc db ha
    rcases RelayLogStore.accept_cases ha with ⟨_, _, hdb⟩ | ⟨_, _, _, _, _, hr⟩
    · exact hdb
    · simp at hr
  · intro message receivedAt fails ack db ha t ht again
    rcases RelayLogStore.accept_cases ha with ⟨_, hr, _⟩ | ⟨e, ack', he, _, hi, hr⟩
    · simp at hr
    · obtain rfl := Except.ok.inj hr
      obtain ⟨hstored, hack⟩ := RelayLogStore.stored_insert hi
      rw [hack]
      exact RelayLogStore.accept_of_insert he (Relay.stored_steps (s := { s with db }) hstored ht).insert
  · intro limit page hp
    obtain ⟨hrecords, _, hlimit⟩ := hsound.feed hp
    refine ⟨hrecords, fun hnil => ?_⟩
    have hle := hsound.length_le
    have hlen := congrArg List.length (hrecords.symm.trans hnil)
    rw [List.length_map, List.length_take, List.length_drop, List.length_nil] at hlen
    have hall : s.db.chunks.length ≤ s.shown.length := by omega
    rw [hsound.shown, List.take_of_length_le (by simpa using hall)]

end Runs

section Sample

/-- Bytes are identified by their own text, and a text of thirty-six characters reads as an identity. -/
@[reducible] def sampleRelayHost : RelayHost where
  sha256 := Base64.encode
  uuid s := s.length = 36
  uuid4 n := String.ofList (List.replicate 35 '0' ++ List.replicate (n + 1) '1')
  node := "PC"

attribute [local instance] sampleRelayHost

def sampleStream : String := "00000000-0000-4000-8000-000000000000"

/-- A chunk whose text is its own checksum. -/
def sampleChunk (offset : Nat) (data : String) : Json :=
  .obj [("version", .str "1.0.0"), ("stream_id", .str sampleStream), ("machine", .str "PC"), ("filename", .str "x.log"),
    ("offset", .num (.ofNat offset)), ("sha256", .str data), ("data_base64", .str data)]

/-- Two chunks, the first of them twice. -/
def sampleArchive : RelayLogStore :=
  let first := (({} : RelayLogStore).accept (sampleChunk 0 "YWJj") "t1" false).2
  let again := (first.accept (sampleChunk 0 "YWJj") "t2" false).2
  (again.accept (sampleChunk 3 "ZA==") "t3" false).2

theorem relay_store_well_formed_sample :
    ∃ s, Relay.Steps {} s ∧ s.shown.length = 2 ∧ Archived s.db sampleStream
      ∧ s.shown = (s.db.chunks.take s.shown.length).map RelayLogStore.record := by
  have hpage : (sampleArchive.feed 0 100).toOption.any (fun page => page.records.length = 2) = true := by decide +kernel
  obtain ⟨page, hp, hlen⟩ := exists_ok hpage
  have haccept : Relay.Steps {} { db := sampleArchive } :=
    .tail (.tail (.single (.accept (sampleChunk 0 "YWJj") "t1" false)) (.accept (sampleChunk 0 "YWJj") "t2" false))
      (.accept (sampleChunk 3 "ZA==") "t3" false)
  have hsteps : Relay.Steps {} { db := sampleArchive, after := page.nextAfter, shown := page.records } :=
    haccept.tail (.page (s := { db := sampleArchive }) hp)
  have h := relay_store_well_formed hsteps
  exact ⟨_, hsteps, by simpa using hlen, h.1 sampleStream, h.2.2.2.1⟩

end Sample

end MatchTrader
