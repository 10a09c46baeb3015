import MatchTrader.EventStream

/-! The stream of the dashboard: each connection is sent the sections that differ from what it was sent before, and the browser
merges them over what it has. -/

namespace MatchTrader

/-- The store as the stream finds it when its wait ends. -/
structure StreamStore where
  closed : Bool
  revision : Nat

def StreamStore.notifyStream (s : StreamStore) : StreamStore := { s with revision := s.revision + 1 }

/-- The revision, and whether there is anything after the one given. -/
def StreamStore.streamSnapshot (s : StreamStore) (after : Int) : Option (Int × Bool) :=
  if s.closed then none else if s.revision = after then some (after, false) else some (s.revision, true)

/-- A change that is committed is seen by whoever waits from an earlier revision. -/
theorem streamSnapshot_notify {s : StreamStore} {after : Int} (hs : s.closed = false) (h : after ≤ s.revision) :
    s.notifyStream.streamSnapshot after = some ((s.revision : Int) + 1, true) := by
  have hne : ¬ ((s.revision + 1 : Nat) : Int) = after := by omega
  unfold StreamStore.streamSnapshot StreamStore.notifyStream
  rw [hs, if_neg (by decide), if_neg hne]
  rfl

/-- What `dashboard_sections` builds. -/
structure DashboardSections where
  status : List (String × Json)
  events : Json
  captureEvents : Json
  mappings : Json
  brokerProfiles : Json
  copyControls : Json
  paperSends : Json
  verifiedTrades : Json

def DashboardSections.items (s : DashboardSections) : List (String × Json) :=
  [("status", .obj s.status), ("events", s.events), ("capture_events", s.captureEvents), ("mappings", s.mappings),
    ("broker_profiles", s.brokerProfiles), ("copy_controls", s.copyControls), ("paper_sends", s.paperSends),
    ("verified_trades", s.verifiedTrades)]

def DashboardSections.Writable (s : DashboardSections) : Prop := ∀ f ∈ s.items, f.2.writable = true

/-- What of a section tells it from another: the time of the server does not. -/
def digested (name : String) (v : Json) : Json :=
  match v with
  | .obj fields => if name = "status" then .obj (fields.filter fun f => f.1 ≠ "server_time") else .obj fields
  | v => v

/-- The text of which `section_digest` takes the digest. -/
def digestText (f : String × Json) : List Char := (digested f.1 f.2).sortKeys.dumps

/-- One turn of the loop of `stream_dashboard`: the store when the wait ended, whether the stream was stopped by then, and the
sections that were built if it came to that. -/
structure Tick where
  store : StreamStore
  stop : Bool
  sections : DashboardSections

section Server

variable (sha256 : List Char → String)

/-- One section, over what the connection has been sent and the payload so far. -/
def addSection (p : List (String × String) × List (String × Json)) (f : String × Json) : List (String × String) × List (String × Json) :=
  if (Rows.lookup Prod.fst f.1 p.1).map Prod.snd = some (sha256 (digestText f)) then p
  else (Rows.setItem (f.1, sha256 (digestText f)) p.1, Rows.setItem f p.2)

def payload (sent : List (String × String)) (revision : Int) (sections : List (String × Json)) :
    List (String × String) × List (String × Json) :=
  sections.foldl (addSection sha256) (sent, [("revision", .num (Decimal.ofNat revision.toNat))])

/-- The packets of a connection, each with the sections that were built for it. A heartbeat has none. -/
def streamDashboard (revision : Int) (sent : List (String × String)) : List Tick → List (List Char × Option DashboardSections)
  | [] => []
  | t :: ticks =>
    if t.stop then []
    else
      match t.store.streamSnapshot revision with
      | none => []
      | some (r, events) =>
        let p := if events then payload sha256 sent r t.sections.items else (sent, [("revision", .num (Decimal.ofNat r.toNat))])
        let packet := if 1 < p.2.length then ("data: ".toList ++ (Json.obj p.2).dumps, some t.sections) else (": heartbeat".toList, none)
        packet :: streamDashboard r p.1 ticks

/-- A connection from its first turn. -/
def streamed (ticks : List Tick) : List (List Char × Option DashboardSections) := streamDashboard sha256 (-1) [] ticks

/-- What is written to a connection. -/
def written (ticks : List Tick) : List UInt8 := encode ((streamed sha256 ticks).flatMap fun p => p.1 ++ ['\n', '\n'])

/-- The sections built for the data packets of a connection. -/
def builds (ticks : List Tick) : List DashboardSections := (streamed sha256 ticks).filterMap Prod.snd

end Server

/-- The turns of the server on one connection, and the pieces in which the browser received what was written. -/
structure StreamConnection where
  ticks : List Tick
  pieces : List (List UInt8)

/-- A connection over the snapshot of those before. -/
def followDashboard (merged : StreamSnapshot) (c : StreamConnection) : Follower := (c.pieces.foldl StreamReader.receive { follower := { merged } }).follower

/-- One connection after the other. -/
def followAll (merged : StreamSnapshot) : List StreamConnection → List Follower
  | [] => []
  | c :: connections => followDashboard merged c :: followAll (followDashboard merged c).merged connections

/-- Section by section, the snapshot has what was built, but for the server's time. -/
def Agrees (s : DashboardSections) (m : StreamSnapshot) : Prop :=
  ∀ f ∈ s.items, ∃ v, Rows.lookup Prod.fst f.1 m = some (f.1, v) ∧ (digested f.1 v).Same (digested f.1 f.2)

theorem names_items (s : DashboardSections) : (s.items.map Prod.fst).Nodup ∧ "revision" ∉ s.items.map Prod.fst := by
  have hnames : s.items.map Prod.fst = ["status", "events", "capture_events", "mappings", "broker_profiles", "copy_controls", "paper_sends",
    "verified_trades"] := rfl
  rw [hnames]
  decide +kernel

theorem writable_digested {f : String × Json} (h : f.2.writable = true) : (digested f.1 f.2).writable = true := by
  obtain ⟨name, v⟩ := f
  cases v with
  | obj fields =>
    by_cases hname : name = "status"
    · obtain ⟨hkeys, hall⟩ := Json.writable_obj.mp h
      have hsub : (fields.filter fun f => f.1 ≠ "server_time").Sublist fields := List.filter_sublist
      have hdigested : digested name (.obj fields) = .obj (fields.filter fun f => f.1 ≠ "server_time") := if_pos hname
      rw [hdigested]
      exact Json.writable_obj.mpr ⟨hkeys.sublist (hsub.map Prod.fst), fun f hf => hall f (hsub.subset hf)⟩
    · have hdigested : digested name (.obj fields) = .obj fields := if_neg hname
      rw [hdigested]
      exact h
  | _ => exact h

section Server

variable {sha256 : List Char → String} {sections : List (String × Json)} {p : List (String × String) × List (String × Json)} {name : String}

theorem addSection_other {f : String × Json} (h : name ≠ f.1) :
    Rows.lookup Prod.fst name (addSection sha256 p f).1 = Rows.lookup Prod.fst name p.1
      ∧ Rows.lookup Prod.fst name (addSection sha256 p f).2 = Rows.lookup Prod.fst name p.2 := by
  unfold addSection
  split
  · exact ⟨rfl, rfl⟩
  · exact ⟨Rows.lookup_put.trans (if_neg h), Rows.lookup_put.trans (if_neg h)⟩

theorem addSection_self {f : String × Json} :
    (Rows.lookup Prod.fst f.1 (addSection sha256 p f).1).map Prod.snd = some (sha256 (digestText f))
      ∧ Rows.lookup Prod.fst f.1 (addSection sha256 p f).2
        = if (Rows.lookup Prod.fst f.1 p.1).map Prod.snd = some (sha256 (digestText f)) then Rows.lookup Prod.fst f.1 p.2 else some f := by
  unfold addSection
  split
  · next h => exact ⟨h, rfl⟩
  · have hsent : Rows.lookup Prod.fst f.1 (Rows.setItem (f.1, sha256 (digestText f)) p.1) = some (f.1, sha256 (digestText f)) :=
      Rows.lookup_put.trans (if_pos rfl)
    refine ⟨congrArg _ hsent, Rows.lookup_put.trans (if_pos rfl)⟩

theorem foldl_other (h : name ∉ sections.map Prod.fst) :
    Rows.lookup Prod.fst name (sections.foldl (addSection sha256) p).1 = Rows.lookup Prod.fst name p.1
      ∧ Rows.lookup Prod.fst name (sections.foldl (addSection sha256) p).2 = Rows.lookup Prod.fst name p.2 := by
  induction sections generalizing p with
  | nil => exact ⟨rfl, rfl⟩
  | cons f sections ih =>
    obtain ⟨hne, hrest⟩ := not_or.mp (mt List.mem_cons.mpr h)
    have hf := @addSection_other sha256 p _ _ hne
    have hfold := @ih (addSection sha256 p f) hrest
    exact ⟨hfold.1.trans hf.1, hfold.2.trans hf.2⟩

/-- After all sections each has its digest sent, and is in the payload if it was not sent before. -/
theorem foldl_mem (hn : (sections.map Prod.fst).Nodup) {f : String × Json} (hf : f ∈ sections) :
    (Rows.lookup Prod.fst f.1 (sections.foldl (addSection sha256) p).1).map Prod.snd = some (sha256 (digestText f))
      ∧ Rows.lookup Prod.fst f.1 (sections.foldl (addSection sha256) p).2
        = if (Rows.lookup Prod.fst f.1 p.1).map Prod.snd = some (sha256 (digestText f)) then Rows.lookup Prod.fst f.1 p.2 else some f := by
  induction sections generalizing p with
  | nil => exact absurd hf List.not_mem_nil
  | cons g sections ih =>
    obtain ⟨hnew, hrest⟩ := List.nodup_cons.mp hn
    rw [List.foldl_cons]
    obtain rfl | hf := List.mem_cons.mp hf
    · obtain ⟨hsent, hpayload⟩ := @foldl_other sha256 _ (addSection sha256 p f) _ hnew
      rw [hsent, hpayload]
      exact addSection_self
    · have hne : f.1 ≠ g.1 := fun he => hnew (he ▸ List.mem_map_of_mem hf)
      obtain ⟨hsent, hpayload⟩ := @addSection_other sha256 p _ _ hne
      rw [← hsent, ← hpayload]
      exact ih hrest hf

/-- The payload has different keys, and what it says is the revision or a section. -/
theorem foldl_fields (hn : (p.2.map Prod.fst).Nodup) : ((sections.foldl (addSection sha256) p).2.map Prod.fst).Nodup
    ∧ ∀ f ∈ (sections.foldl (addSection sha256) p).2, f ∈ p.2 ∨ f ∈ sections := by
  induction sections generalizing p with
  | nil => exact ⟨hn, fun f hf => Or.inl hf⟩
  | cons g sections ih =>
    have hstep : ((addSection sha256 p g).2.map Prod.fst).Nodup ∧ ∀ f ∈ (addSection sha256 p g).2, f ∈ p.2 ∨ f = g := by
      unfold addSection
      split
      · exact ⟨hn, fun f hf => Or.inl hf⟩
      · refine ⟨Rows.nodup_put hn, fun f hf => ?_⟩
        obtain ⟨q, hq, rfl⟩ | ⟨rfl, -⟩ := Rows.mem_upsert hf
        · split
          · exact Or.inr rfl
          · exact Or.inl hq
        · exact Or.inr rfl
    obtain ⟨hkeys, hfields⟩ := ih hstep.1
    refine ⟨hkeys, fun f hf => ?_⟩
    obtain hf | hf := hfields f hf
    · obtain hold | rfl := hstep.2 f hf
      · exact Or.inl hold
      · exact Or.inr List.mem_cons_self
    · exact Or.inr (List.mem_cons_of_mem g hf)

variable {sent : List (String × String)} {merged : StreamSnapshot} {r : Int}

/-- What is known of the sections of a connection: they can be written, and digests tell their texts apart. -/
structure Known (sha256 : List Char → String) (K : String × Json → Prop) : Prop where
  writable : ∀ f, K f → f.2.writable = true
  distinct : ∀ f g, K f → K g → sha256 (digestText f) = sha256 (digestText g) → digestText f = digestText g

/-- The snapshot has a section of each digest that was sent. -/
def Holds (sha256 : List Char → String) (K : String × Json → Prop) (sent : List (String × String)) (merged : StreamSnapshot) : Prop :=
  ∀ name d, (Rows.lookup Prod.fst name sent).map Prod.snd = some d →
    ∃ v, Rows.lookup Prod.fst name merged = some (name, v) ∧ d = sha256 (digestText (name, v)) ∧ K (name, v)

theorem payload_revision (s : DashboardSections) :
    Rows.lookup Prod.fst "revision" (payload sha256 sent r s.items).2 = some ("revision", .num (Decimal.ofNat r.toNat)) :=
  (foldl_other (names_items s).2).2

theorem payload_nodup (s : DashboardSections) : ((payload sha256 sent r s.items).2.map Prod.fst).Nodup :=
  (foldl_fields (p := (sent, [("revision", .num (Decimal.ofNat r.toNat))])) (List.nodup_singleton "revision")).1

theorem payload_fields (s : DashboardSections) : ∀ f ∈ (payload sha256 sent r s.items).2,
    f ∈ [("revision", Json.num (Decimal.ofNat r.toNat))] ∨ f ∈ s.items :=
  (foldl_fields (p := (sent, [("revision", .num (Decimal.ofNat r.toNat))])) (List.nodup_singleton "revision")).2

/-- The sections of a payload over a snapshot that has what was sent: they agree with what was built. -/
theorem spread_payload {K : String × Json → Prop} (hK : Known sha256 K) {s : DashboardSections} (hs : ∀ f ∈ s.items, K f)
    (h : Holds sha256 K sent merged) :
    Holds sha256 K (payload sha256 sent r s.items).1
        (spread merged ((payload sha256 sent r s.items).2.filter fun f => f.1 ≠ "revision"))
      ∧ Agrees s (spread merged ((payload sha256 sent r s.items).2.filter fun f => f.1 ≠ "revision")) := by
  obtain ⟨hnames, hrevision⟩ := names_items s
  have hkeys : (((payload sha256 sent r s.items).2.filter fun f => f.1 ≠ "revision").map Prod.fst).Nodup :=
    (payload_nodup s).sublist (List.filter_sublist.map _)
  have hlookup : ∀ name, name ≠ "revision" →
      Rows.lookup Prod.fst name (spread merged ((payload sha256 sent r s.items).2.filter fun f => f.1 ≠ "revision"))
        = (Rows.lookup Prod.fst name (payload sha256 sent r s.items).2).or (Rows.lookup Prod.fst name merged) := fun name hname => by
    rw [lookup_spread hkeys, Rows.lookup_filter_ne hname]
  have hsection : ∀ f ∈ s.items, ∃ v, Rows.lookup Prod.fst f.1
      (spread merged ((payload sha256 sent r s.items).2.filter fun f => f.1 ≠ "revision")) = some (f.1, v)
        ∧ sha256 (digestText (f.1, v)) = sha256 (digestText f) ∧ K (f.1, v) := by
    intro f hf
    have hname : f.1 ≠ "revision" := fun he => hrevision (he ▸ List.mem_map_of_mem hf)
    have hnone : Rows.lookup Prod.fst f.1 [("revision", Json.num (Decimal.ofNat r.toNat))] = none := by
      simp [Rows.lookup, Ne.symm hname]
    have hpayload : Rows.lookup Prod.fst f.1 (payload sha256 sent r s.items).2 = _ := (foldl_mem hnames hf).2
    rw [hlookup f.1 hname, hpayload]
    by_cases hsame : (Rows.lookup Prod.fst f.1 sent).map Prod.snd = some (sha256 (digestText f))
    · obtain ⟨v, hv, hd, hk⟩ := h f.1 _ hsame
      exact ⟨v, by rw [if_pos hsame, hnone, hv]; rfl, hd.symm, hk⟩
    · exact ⟨f.2, by rw [if_neg hsame]; rfl, rfl, hs f hf⟩
  constructor
  · intro name d hd
    by_cases hname : name ∈ s.items.map Prod.fst
    · obtain ⟨f, hf, rfl⟩ := List.mem_map.mp hname
      have hsent : (Rows.lookup Prod.fst f.1 (payload sha256 sent r s.items).1).map Prod.snd = _ := (foldl_mem hnames hf).1
      obtain ⟨v, hv, hdigest, hk⟩ := hsection f hf
      exact ⟨v, hv, (Option.some.inj (hd.symm.trans hsent)).trans hdigest.symm, hk⟩
    · have hsent : Rows.lookup Prod.fst name (payload sha256 sent r s.items).1 = Rows.lookup Prod.fst name sent := (foldl_other hname).1
      obtain ⟨v, hv, hdigest, hk⟩ := h name d (hsent ▸ hd)
      have hnone : Rows.lookup Prod.fst name ((payload sha256 sent r s.items).2.filter fun f => f.1 ≠ "revision") = none := by
        refine Rows.lookup_eq_none_iff.mpr fun g hg he => ?_
        obtain ⟨hg, hne⟩ := List.mem_filter.mp hg
        obtain hg | hg := payload_fields s g hg
        · rw [List.mem_singleton.mp hg] at hne
          simp at hne
        · exact hname (he ▸ List.mem_map_of_mem hg)
      exact ⟨v, by rw [lookup_spread hkeys, hnone, Option.none_or, hv], hdigest, hk⟩
  · intro f hf
    obtain ⟨v, hv, hdigest, hk⟩ := hsection f hf
    have htext := hK.distinct _ _ hk (hs f hf) hdigest
    exact ⟨v, hv, Json.same_of_dumps (writable_digested (hK.writable _ hk)) (writable_digested (hK.writable _ (hs f hf))) htext⟩

/-- A payload of nothing but the revision has no section. -/
theorem payload_short (s : DashboardSections) (h : ¬ 1 < (payload sha256 sent r s.items).2.length) :
    ((payload sha256 sent r s.items).2.filter fun f => f.1 ≠ "revision") = [] := by
  obtain ⟨hmem, -⟩ := Rows.lookup_mem (@payload_revision sha256 sent r s)
  obtain ⟨g, hg⟩ : ∃ g, (payload sha256 sent r s.items).2 = [g] :=
    List.length_eq_one_iff.mp (le_antisymm (not_lt.mp h) (List.length_pos_of_mem hmem))
  rw [hg] at hmem ⊢
  rw [← List.mem_singleton.mp hmem]
  exact List.filter_cons_of_neg (by simp)

theorem payload_writable {s : DashboardSections} (hs : s.Writable) : (Json.obj (payload sha256 sent r s.items).2).writable = true := by
  refine Json.writable_obj.mpr ⟨payload_nodup s, fun f hf => ?_⟩
  obtain hf | hf := payload_fields s f hf
  · rw [List.mem_singleton.mp hf]
    rfl
  · exact hs f hf

theorem no_line_feed (v : Json) : '\n' ∉ v.dumps := fun hm => absurd (Json.printable_dumps v _ hm).1 (by decide)

/-- What a data packet does to a follower. -/
theorem packet_data {fields : List (String × Json)} (hw : (Json.obj fields).writable = true) (hr : ∃ v, ("revision", v) ∈ fields)
    {c : Follower} (hc : c.failed = false) : c.packet ("data: ".toList ++ (Json.obj fields).dumps)
      = { c with merged := spread c.merged (fields.filter fun f => f.1 ≠ "revision")
                 delivered := c.delivered ++ [spread c.merged (fields.filter fun f => f.1 ≠ "revision")] } := by
  obtain ⟨t, ht⟩ : ∃ t, (Json.obj fields).dumps = '{' :: t := by
    cases fields with
    | nil => exact ⟨_, rfl⟩
    | cons f fields => exact ⟨_, rfl⟩
  have hdata : packetData ("data: ".toList ++ (Json.obj fields).dumps) = (Json.obj fields).dumps := by
    have hfeed := no_line_feed (.obj fields)
    rw [ht] at hfeed ⊢
    exact packetData_line (by decide) hfeed
  have hne : ¬ (Json.obj fields).dumps = [] := by
    rw [ht]
    exact List.cons_ne_nil _ _
  have hany : (fields.any fun f => f.1 = "revision") = true := by
    obtain ⟨v, hv⟩ := hr
    exact List.any_eq_true.mpr ⟨_, hv, decide_eq_true rfl⟩
  have hvalid : Follower.validate c.merged (.obj fields) = some (spread c.merged (fields.filter fun f => f.1 ≠ "revision")) := if_pos hany
  unfold Follower.packet
  rw [hc, hdata, if_neg (by decide), if_neg hne, Json.parse_dumps hw, Option.bind_some, hvalid]

theorem packet_heartbeat (c : Follower) : c.packet ": heartbeat".toList = c := by
  have hdata : packetData ": heartbeat".toList = [] := packetData_comment (by decide)
  unfold Follower.packet
  rw [hdata, if_pos rfl, ite_self]

/-- A follower of the packets has delivered a snapshot for each data packet, which agrees with the sections built for it. -/
def Follows (packets : List (List Char × Option DashboardSections)) (c : Follower) : Prop :=
  ((packets.map Prod.fst).foldl Follower.packet c).failed = false
    ∧ ∃ snapshots, ((packets.map Prod.fst).foldl Follower.packet c).delivered = c.delivered ++ snapshots
      ∧ List.Forall₂ Agrees (packets.filterMap Prod.snd) snapshots

theorem Follows.nil {c : Follower} (hc : c.failed = false) : Follows [] c := ⟨hc, [], (List.append_nil _).symm, List.Forall₂.nil⟩

variable {text : List Char} {packets : List (List Char × Option DashboardSections)}

theorem Follows.heartbeat {c : Follower} (h : c.packet text = c) (hp : Follows packets c) : Follows ((text, none) :: packets) c := by
  unfold Follows
  rw [List.map_cons, List.foldl_cons, h]
  exact hp

theorem Follows.data {c : Follower} {s : DashboardSections} {m : StreamSnapshot}
    (h : c.packet text = { c with merged := m, delivered := c.delivered ++ [m] }) (hs : Agrees s m)
    (hp : Follows packets { c with merged := m, delivered := c.delivered ++ [m] }) : Follows ((text, some s) :: packets) c := by
  obtain ⟨hfailed, snapshots, hdelivered, hagree⟩ := hp
  unfold Follows
  rw [List.map_cons, List.foldl_cons, h]
  refine ⟨hfailed, m :: snapshots, ?_, List.Forall₂.cons hs hagree⟩
  rw [hdelivered, List.append_assoc, List.singleton_append]

theorem stream_stopped {t : Tick} {ticks : List Tick} (h : t.stop = true ∨ t.store.streamSnapshot r = none) :
    streamDashboard sha256 r sent (t :: ticks) = [] := by
  rw [streamDashboard]
  obtain h | h := h
  · rw [if_pos h]
  · rw [h, ite_self]

theorem stream_idle {t : Tick} {ticks : List Tick} {r' : Int} (hstop : ¬ t.stop = true) (h : t.store.streamSnapshot r = some (r', false)) :
    streamDashboard sha256 r sent (t :: ticks) = (": heartbeat".toList, none) :: streamDashboard sha256 r' sent ticks := by
  rw [streamDashboard, if_neg hstop, h]
  rfl

theorem stream_built {t : Tick} {ticks : List Tick} {r' : Int} (hstop : ¬ t.stop = true) (h : t.store.streamSnapshot r = some (r', true)) :
    streamDashboard sha256 r sent (t :: ticks)
      = (if 1 < (payload sha256 sent r' t.sections.items).2.length
          then ("data: ".toList ++ (Json.obj (payload sha256 sent r' t.sections.items).2).dumps, some t.sections)
          else (": heartbeat".toList, none)) :: streamDashboard sha256 r' (payload sha256 sent r' t.sections.items).1 ticks := by
  rw [streamDashboard, if_neg hstop, h]
  rfl

/-- Any first packets of a connection are followed, from a snapshot that has what was sent. -/
theorem follow_served {K : String × Json → Prop} (hK : Known sha256 K) {ticks : List Tick}
    (hs : ∀ t ∈ ticks, ∀ f ∈ t.sections.items, K f) (k : Nat) {c : Follower} (hc : c.failed = false) (h : Holds sha256 K sent c.merged) :
    Follows ((streamDashboard sha256 r sent ticks).take k) c := by
  induction ticks generalizing r sent c k with
  | nil =>
    rw [streamDashboard, List.take_nil]
    exact Follows.nil hc
  | cons t ticks ih =>
    have hrest := fun u hu => hs u (List.mem_cons_of_mem t hu)
    have ht := hs t List.mem_cons_self
    cases k with
    | zero => exact Follows.nil hc
    | succ k =>
      by_cases hstop : t.stop = true
      · rw [stream_stopped (Or.inl hstop), List.take_nil]
        exact Follows.nil hc
      cases hsnap : t.store.streamSnapshot r with
      | none =>
        rw [stream_stopped (Or.inr hsnap), List.take_nil]
        exact Follows.nil hc
      | some q =>
        obtain ⟨r', events⟩ := q
        cases events with
        | false =>
          rw [stream_idle hstop hsnap, List.take_succ_cons]
          exact Follows.heartbeat (packet_heartbeat c) (ih hrest k hc h)
        | true =>
          obtain ⟨hholds, hagree⟩ := spread_payload (r := r') hK ht h
          rw [stream_built hstop hsnap, List.take_succ_cons]
          by_cases hlong : 1 < (payload sha256 sent r' t.sections.items).2.length
          · obtain ⟨hrevision, -⟩ := Rows.lookup_mem (@payload_revision sha256 sent r' t.sections)
            have hsections : t.sections.Writable := fun f hf => hK.writable f (ht f hf)
            have hwritable : (Json.obj (payload sha256 sent r' t.sections.items).2).writable = true := payload_writable hsections
            rw [if_pos hlong]
            refine Follows.data (packet_data hwritable ⟨_, hrevision⟩ hc) hagree ?_
            refine ih hrest k ?_ ?_
            · exact hc
            · dsimp only
              exact hholds
          · rw [payload_short t.sections hlong] at hholds
            have hsame : spread c.merged [] = c.merged := rfl
            rw [hsame] at hholds
            rw [if_neg hlong]
            exact Follows.heartbeat (packet_heartbeat c) (ih hrest k hc hholds)

/-- No packet has a line feed, and all is in ASCII. -/
theorem streamed_printable (ticks : List Tick) : ∀ p ∈ streamDashboard sha256 r sent ticks, Json.Printable p.1 := by
  have hheartbeat : Json.Printable ": heartbeat".toList := by decide +kernel
  have hdata : ∀ v : Json, Json.Printable ("data: ".toList ++ v.dumps) := fun v => by
    refine Json.printable_append.mpr ⟨?_, Json.printable_dumps v⟩
    decide +kernel
  induction ticks generalizing r sent with
  | nil => exact nofun
  | cons t ticks ih =>
    intro p hp
    by_cases hstop : t.stop = true
    · rw [stream_stopped (Or.inl hstop)] at hp
      exact absurd hp List.not_mem_nil
    cases hsnap : t.store.streamSnapshot r with
    | none =>
      rw [stream_stopped (Or.inr hsnap)] at hp
      exact absurd hp List.not_mem_nil
    | some q =>
      obtain ⟨r', events⟩ := q
      cases events with
      | false =>
        rw [stream_idle hstop hsnap] at hp
        obtain rfl | hp := List.mem_cons.mp hp
        · exact hheartbeat
        · exact ih p hp
      | true =>
        rw [stream_built hstop hsnap] at hp
        obtain hpacket | hp := List.mem_cons.mp hp
        · rw [hpacket]
          split
          · exact hdata _
          · exact hheartbeat
        · exact ih p hp

/-- The reader of some first bytes of a connection has seen some first packets of it, and all packets once it has all bytes. -/
theorem read_streamed {packets : List (List Char × Option DashboardSections)} (hp : ∀ p ∈ packets, Json.Printable p.1) {bytes : List UInt8}
    (hb : bytes <+: encode (packets.flatMap fun p => p.1 ++ ['\n', '\n'])) (c : Follower) :
    ∃ k, (StreamReader.receive { follower := c } bytes).follower = ((packets.take k).map Prod.fst).foldl Follower.packet c
      ∧ (bytes = encode (packets.flatMap fun p => p.1 ++ ['\n', '\n']) → packets.take k = packets) := by
  let text := packets.flatMap fun p => p.1 ++ ['\n', '\n']
  have hascii : ∀ x ∈ text, x.toNat < 128 := by
    intro x hx
    obtain ⟨p, hmem, hx⟩ := List.mem_flatMap.mp hx
    obtain hx | hx := List.mem_append.mp hx
    · exact (hp p hmem x hx).2.trans (by decide)
    · obtain rfl : x = '\n' := by simpa using hx
      decide
  have hfeed : ∀ q ∈ packets.map Prod.fst, '\n' ∉ q := by
    intro q hq hm
    obtain ⟨p, hmem, rfl⟩ := List.mem_map.mp hq
    exact absurd (hp p hmem _ hm).1 (by decide)
  have hall : drain text = (packets.map Prod.fst, []) := by
    rw [← drain_packets hfeed, List.flatMap_map]
  have hbytes : bytes = encode (text.take bytes.length) := by
    rw [encode, List.map_take]
    exact List.prefix_iff_eq_take.mp hb
  have hdecode : (({} : TextDecoder).decode bytes).1 = text.take bytes.length := by
    rw [hbytes, decode_encode rfl fun x hx => hascii x (List.mem_of_mem_take hx), ← hbytes]
  have hpackets : (drain (text.take bytes.length)).1 <+: packets.map Prod.fst := by
    have hsplit := drain_append (text.take bytes.length) (text.drop bytes.length)
    rw [List.take_append_drop, hall] at hsplit
    exact ⟨_, (congrArg Prod.fst hsplit).symm⟩
  refine ⟨(drain (text.take bytes.length)).1.length, ?_, ?_⟩
  · rw [List.map_take, ← List.prefix_iff_eq_take.mp hpackets]
    change (drain ([] ++ (({} : TextDecoder).decode bytes).1)).1.foldl Follower.packet c = _
    rw [hdecode, List.nil_append]
  · intro he
    have hlength : bytes.length = text.length := by
      rw [he]
      exact List.length_map _
    rw [hlength, List.take_length, hall, List.length_map, List.take_length]

variable (sha256)

/-- What the stream's sections are: fit to be written as JSON, with digests that do not collide. -/
structure Streamed (c : StreamConnection) : Prop where
  writable : ∀ t ∈ c.ticks, t.sections.Writable
  collisionFree : ∀ t ∈ c.ticks, ∀ u ∈ c.ticks, ∀ f ∈ t.sections.items, ∀ g ∈ u.sections.items,
    sha256 (digestText f) = sha256 (digestText g) → digestText f = digestText g
  received : c.pieces.flatten <+: written sha256 c.ticks

/-- Each snapshot that is delivered agrees with what was built for its data packet, and none is missing once all has come. -/
def Reconstructs (c : StreamConnection) (f : Follower) : Prop :=
  f.failed = false ∧ List.Forall₂ Agrees ((builds sha256 c.ticks).take f.delivered.length) f.delivered
    ∧ (c.pieces.flatten = written sha256 c.ticks → f.delivered.length = (builds sha256 c.ticks).length)

variable {sha256}

theorem followDashboard_reconstructs (merged : StreamSnapshot) {c : StreamConnection} (h : Streamed sha256 c) :
    Reconstructs sha256 c (followDashboard merged c) := by
  let K : String × Json → Prop := fun f => ∃ t ∈ c.ticks, f ∈ t.sections.items
  have hK : Known sha256 K := by
    refine ⟨fun f ⟨t, ht, hf⟩ => h.writable t ht f hf, ?_⟩
    rintro f g ⟨t, ht, hf⟩ ⟨u, hu, hg⟩
    exact h.collisionFree t ht u hu f hf g hg
  have hstart : Holds sha256 K [] ({ merged } : Follower).merged := nofun
  obtain ⟨k, hk, hend⟩ := read_streamed (streamed_printable c.ticks) h.received { merged }
  obtain ⟨hfailed, snapshots, hdelivered, hagree⟩ := follow_served (r := -1) hK (fun t ht f hf => ⟨t, ht, hf⟩) k rfl hstart
  have hstreamed : streamDashboard sha256 (-1) [] c.ticks = streamed sha256 c.ticks := rfl
  rw [hstreamed] at hfailed hdelivered hagree hend
  have hfollower : followDashboard merged c = (((streamed sha256 c.ticks).take k).map Prod.fst).foldl Follower.packet { merged } := by
    unfold followDashboard
    rw [foldl_receive rfl]
    exact hk
  have hbuilds : ((streamed sha256 c.ticks).take k).filterMap Prod.snd <+: builds sha256 c.ticks :=
    (List.take_prefix k _).filterMap Prod.snd
  rw [← hfollower] at hfailed hdelivered
  rw [List.nil_append] at hdelivered
  have hlength : snapshots.length = (((streamed sha256 c.ticks).take k).filterMap Prod.snd).length := hagree.length_eq.symm
  refine ⟨hfailed, ?_, ?_⟩
  · rw [hdelivered, hlength, ← List.prefix_iff_eq_take.mp hbuilds]
    exact hagree
  · intro he
    rw [hdelivered, hlength, hend he]
    rfl

/-- Over any connections, one after the other, whatever the ticks of the server and the pieces in which its bytes arrive: each
snapshot delivered agrees, section by section, with the sections built for its data packet. -/
theorem stream_reconstructs {connections : List StreamConnection} (h : ∀ c ∈ connections, Streamed sha256 c) (merged : StreamSnapshot) :
    List.Forall₂ (Reconstructs sha256) connections (followAll merged connections) := by
  induction connections generalizing merged with
  | nil => exact List.Forall₂.nil
  | cons c connections ih =>
    have hfirst := followDashboard_reconstructs merged (h c List.mem_cons_self)
    exact List.Forall₂.cons hfirst (ih (fun d hd => h d (List.mem_cons_of_mem c hd)) _)

end Server

section Sample

/-- What is built at a time while one thing is recorded. -/
def sampleSections (time event : String) : DashboardSections where
  status := [("connection", .str "connected"), ("server_time", .str time)]
  events := .obj [("events", .arr [.str event])]
  captureEvents := .obj [("events", .arr [])]
  mappings := .obj [("account_id", .null), ("mappings", .arr [])]
  brokerProfiles := .obj [("profiles", .arr []), ("limit", .num (Decimal.ofNat 5))]
  copyControls := .obj []
  paperSends := .arr []
  verifiedTrades := .arr []

/-- A first packet, a turn without a change, one with nothing but a later time, and one with another event. -/
def sampleTicks : List Tick :=
  [⟨⟨false, 1⟩, false, sampleSections "10:00:00" "a"⟩, ⟨⟨false, 1⟩, false, sampleSections "10:00:10" "a"⟩,
    ⟨⟨false, 2⟩, false, sampleSections "10:00:20" "a"⟩, ⟨⟨false, 3⟩, false, sampleSections "10:00:30" "b"⟩]

/-- All bytes, cut in two. -/
def sampleConnection : StreamConnection :=
  ⟨sampleTicks, [(written String.ofList sampleTicks).take 100, (written String.ofList sampleTicks).drop 100]⟩

theorem stream_reconstructs_sample : List.Forall₂ (Reconstructs String.ofList) [sampleConnection, sampleConnection]
    (followAll [] [sampleConnection, sampleConnection]) := by
  have hinjective : Function.Injective String.ofList := fun a b h => by simpa using congrArg String.toList h
  have hstreamed : Streamed String.ofList sampleConnection := by
    refine ⟨?_, fun _ _ _ _ _ _ _ _ h => hinjective h, ?_⟩
    · intro t ht f hf
      simp only [sampleConnection, sampleTicks, List.mem_cons, List.not_mem_nil, or_false] at ht
      rcases ht with rfl | rfl | rfl | rfl <;> revert f hf <;> unfold DashboardSections.items <;> decide +kernel
    · rw [sampleConnection, List.flatten_cons, List.flatten_cons, List.flatten_nil, List.append_nil, List.take_append_drop]
  exact stream_reconstructs (fun c hc => by simpa [show c = sampleConnection by simpa using hc] using hstreamed) []

end Sample

end MatchTrader
