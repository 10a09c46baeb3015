import Mathlib.Data.List.Nodup
import MatchTrader.Connections

/-! Whoever acquires and releases, and in whatever order: a connection is open as long as somebody
has a lease on it, the registry has the open ones, and the last lease shuts its connection down. -/

namespace MatchTrader

variable {r q : Registry} {n : Nat → Nat} {i : Nat} {c : BaseConnection} {cls : ConnectionClass}
  {settings : ConnectionSettings} {kwargs : Bool} {outcome shutdown result : Except Exc Unit}

namespace Registry

/-- A connection with so many leases outstanding. -/
structure Counted (c : BaseConnection) (m : Nat) : Prop where
  leases : c.leases = (m : Int)
  closed : c.closed = true ↔ m = 0
  shutdowns : c.shutdowns = if c.closed then 1 else 0
  key : c.registryKey = c.cls.identity c.settings

/-- The registry against the number of leases that are outstanding on each connection. -/
structure Leased (r : Registry) (n : Nat → Nat) : Prop where
  counted : ∀ i c, r.connections[i]? = some c → Counted c (n i)
  unmade : ∀ i, r.connections.length ≤ i → n i = 0
  registered : ∀ key i, (key, i) ∈ r.registry ↔ ∃ c, r.connections[i]? = some c ∧ c.closed = false ∧ c.registryKey = key
  keys : (r.registry.map Prod.fst).Nodup

theorem leased_empty : Leased {} fun _ => 0 where
  counted i c h := by cases h
  unmade _ _ := rfl
  registered key i := by simp
  keys := List.nodup_nil

theorem Leased.existing (h : r.Leased n) {key : Identity} (he : r.existing? key = some (i, c)) :
    r.connections[i]? = some c ∧ c.closed = false ∧ c.registryKey = key := by
  obtain ⟨⟨k, j⟩, hl, hj⟩ := Option.bind_eq_some_iff.mp he
  obtain ⟨hmem, hk⟩ := Rows.lookup_mem hl
  obtain ⟨d, hd, hopen, hkey⟩ := (h.registered k j).mp hmem
  simp only [hd, Option.map_some, Option.some.injEq, Prod.mk.injEq] at hj
  obtain ⟨rfl, rfl⟩ := hj
  exact ⟨hd, hopen, hkey.trans hk⟩

theorem Leased.not_existing (h : r.Leased n) {key : Identity} (he : r.existing? key = none) : ∀ e ∈ r.registry, e.1 ≠ key := by
  rintro ⟨k, j⟩ hmem hk
  obtain ⟨d, hd, _, _⟩ := (h.registered k j).mp hmem
  have hl := Rows.lookup_of_mem h.keys hmem
  rw [hk] at hl
  simp [existing?, hl, hd] at he

/-- A change of one connection and of the leases on it, which takes it off the registry when it closes. -/
theorem Leased.set (h : r.Leased n) {d : BaseConnection} {m : Nat} {registry : List (Identity × Nat)}
    (hc : r.connections[i]? = some c) (hd : Counted d m) (hopen : c.closed = false) (hkey : d.registryKey = c.registryKey)
    (hreg : ∀ key j, (key, j) ∈ registry ↔ (key, j) ∈ r.registry ∧ (j = i → d.closed = false))
    (hkeys : (registry.map Prod.fst).Nodup) : Leased ⟨r.connections.set i d, registry⟩ (Function.update n i m) := by
  have hlt : i < r.connections.length := (List.getElem?_eq_some_iff.mp hc).1
  refine ⟨?_, ?_, ?_, hkeys⟩
  · intro j e he
    by_cases hj : j = i
    · subst hj
      rw [List.getElem?_set_self hlt] at he
      obtain rfl := Option.some.inj he
      rwa [Function.update_self]
    · rw [List.getElem?_set_ne (Ne.symm hj)] at he
      rw [Function.update_of_ne hj]
      exact h.counted j e he
  · intro j hj
    rw [List.length_set] at hj
    rw [Function.update_of_ne (by omega)]
    exact h.unmade j hj
  · intro key j
    rw [hreg, h.registered]
    by_cases hj : j = i
    · subst hj
      rw [List.getElem?_set_self hlt]
      constructor
      · rintro ⟨⟨e, he, _, hk⟩, hd⟩
        obtain rfl := Option.some.inj (hc.symm.trans he)
        exact ⟨d, rfl, hd rfl, hkey.trans hk⟩
      · rintro ⟨e, he, hclosed, hk⟩
        obtain rfl := Option.some.inj he
        exact ⟨⟨c, hc, hopen, hkey.symm.trans hk⟩, fun _ => hclosed⟩
    · rw [List.getElem?_set_ne (Ne.symm hj)]
      exact and_iff_left fun hh => absurd hh hj

theorem Leased.add (h : r.Leased n) (hnew : ∀ e ∈ r.registry, e.1 ≠ cls.identity settings) :
    Leased ⟨r.connections ++ [.init cls settings], Rows.setItem (cls.identity settings, r.connections.length) r.registry⟩
      (Function.update n r.connections.length (n r.connections.length + 1)) := by
  have hput : Rows.setItem (cls.identity settings, r.connections.length) r.registry
      = r.registry ++ [(cls.identity settings, r.connections.length)] := by
    have hhas := Rows.has_eq_false_iff.mpr hnew
    simp [Rows.setItem, Rows.put, Rows.upsert, hhas]
  have hold : ∀ {j d}, r.connections[j]? = some d → (r.connections ++ [.init cls settings])[j]? = some d ∧ j ≠ r.connections.length := by
    intro j d hd
    have hlt : j < r.connections.length := (List.getElem?_eq_some_iff.mp hd).1
    exact ⟨by rw [List.getElem?_append_left hlt, hd], by omega⟩
  have hsplit : ∀ {j d}, (r.connections ++ [.init cls settings])[j]? = some d →
      r.connections[j]? = some d ∨ (j = r.connections.length ∧ d = .init cls settings) := by
    intro j d hd
    by_cases hlt : j < r.connections.length
    · rw [List.getElem?_append_left hlt] at hd
      exact Or.inl hd
    · rw [List.getElem?_append_right (by omega), List.getElem?_singleton] at hd
      split at hd
      · exact Or.inr ⟨by omega, (Option.some.inj hd).symm⟩
      · cases hd
  rw [hput]
  refine ⟨?_, ?_, ?_, ?_⟩
  · intro j d hd
    rcases hsplit hd with hd | ⟨rfl, rfl⟩
    · rw [Function.update_of_ne (hold hd).2]
      exact h.counted j d hd
    · rw [Function.update_self, h.unmade _ (Nat.le_refl _)]
      exact ⟨rfl, by simp [BaseConnection.init], rfl, rfl⟩
  · intro j hj
    rw [List.length_append, List.length_singleton] at hj
    rw [Function.update_of_ne (by omega)]
    exact h.unmade j (by omega)
  · intro key j
    rw [List.mem_append, h.registered, List.mem_singleton, Prod.mk.injEq]
    constructor
    · rintro (⟨d, hd, hopen, hk⟩ | ⟨rfl, rfl⟩)
      · exact ⟨d, (hold hd).1, hopen, hk⟩
      · exact ⟨.init cls settings, List.getElem?_concat_length, rfl, rfl⟩
    · rintro ⟨d, hd, hopen, hk⟩
      rcases hsplit hd with hd | ⟨rfl, rfl⟩
      · exact Or.inl ⟨d, hd, hopen, hk⟩
      · exact Or.inr ⟨hk.symm, rfl⟩
  · exact Rows.nodup_append h.keys hnew

/-- The connection that an acquisition returns is open and has the settings that were asked for, and
there is one lease more on it. -/
theorem Leased.acquire (h : r.Leased n) (ha : r.acquire cls settings kwargs outcome = (.ok i, q)) :
    q.Leased (Function.update n i (n i + 1))
      ∧ ∃ c, q.connections[i]? = some c ∧ c.closed = false ∧ c.cls = cls ∧ c.settings = settings := by
  unfold Registry.acquire at ha
  cases he : r.existing? (cls.identity settings) with
  | some found =>
    obtain ⟨j, c⟩ := found
    simp only [he] at ha
    obtain ⟨hc, hopen, hk⟩ := h.existing he
    split at ha
    · cases (Prod.mk.inj ha).1
    · next hs =>
      split at ha
      · cases (Prod.mk.inj ha).1
      · obtain ⟨hi, rfl⟩ := Prod.mk.inj ha
        obtain rfl := Except.ok.inj hi
        have hcount := h.counted j c hc
        have hsame : c.settings = settings := not_not.mp hs
        have hlt : j < r.connections.length := (List.getElem?_eq_some_iff.mp hc).1
        have hcls : c.cls = cls := congrArg Identity.cls (hcount.key.symm.trans hk)
        refine ⟨h.set hc ⟨?_, ?_, hcount.shutdowns, hcount.key⟩ hopen rfl ?_ h.keys, _, List.getElem?_set_self hlt, hopen, hcls, hsame⟩
        · rw [hcount.leases]
          push_cast
          rfl
        · simp [hopen]
        · exact fun key j => (and_iff_left fun _ => hopen).symm
  | none =>
    simp only [he] at ha
    cases hn : construct cls settings outcome with
    | error e => simp only [hn, Prod.mk.injEq, reduceCtorEq, false_and] at ha
    | ok c =>
      simp only [hn] at ha
      obtain ⟨hi, rfl⟩ := Prod.mk.inj ha
      obtain rfl := Except.ok.inj hi
      simp only [construct, bind_eq_ok] at hn
      obtain ⟨_, _, _, _, hn⟩ := hn
      obtain rfl := Except.ok.inj hn
      exact ⟨h.add (h.not_existing he), .init cls settings, List.getElem?_concat_length, rfl, rfl, rfl⟩

theorem acquire_error {e : Exc} (ha : r.acquire cls settings kwargs outcome = (.error e, q)) : q = r := by
  unfold Registry.acquire at ha
  split at ha
  · split at ha
    · exact (Prod.mk.inj ha).2.symm
    · split at ha
      · exact (Prod.mk.inj ha).2.symm
      · cases (Prod.mk.inj ha).1
  · split at ha
    · exact (Prod.mk.inj ha).2.symm
    · cases (Prod.mk.inj ha).1

/-- A release takes one lease away; the last one closes the connection and shuts it down, whether or
not the shutdown raises. -/
theorem Leased.release (h : r.Leased n) (hi : 0 < n i) (hr : r.release i shutdown = (result, q)) :
    q.Leased (Function.update n i (n i - 1)) ∧ result = if n i = 1 then shutdown else .ok () := by
  unfold Registry.release at hr
  cases hc : r.connections[i]? with
  | none =>
    have hz := h.unmade i (List.getElem?_eq_none_iff.mp hc)
    omega
  | some c =>
    have hcount := h.counted i c hc
    have hopen : c.closed = false := by
      rw [Bool.eq_false_iff]
      intro hclosed
      have hz := hcount.closed.mp hclosed
      omega
    have hmem : (c.registryKey, i) ∈ r.registry := (h.registered _ i).mpr ⟨c, hc, hopen, rfl⟩
    simp only [hc, hopen, Bool.false_eq_true, if_false, hcount.leases] at hr
    by_cases hone : n i = 1
    · rw [if_pos (by omega)] at hr
      obtain ⟨rfl, rfl⟩ := Prod.mk.inj hr
      rw [if_pos hone]
      refine ⟨h.set hc ⟨by dsimp only; omega, by simp [hone], ?_, hcount.key⟩ hopen rfl ?_ ?_, rfl⟩
      · simp [hcount.shutdowns, hopen]
      · intro key j
        simp only [List.mem_filter, decide_eq_true_eq, reduceCtorEq, imp_false]
        refine and_congr_right fun hj => not_congr ⟨fun hk => ?_, fun he => ?_⟩
        · exact congrArg Prod.snd (List.inj_on_of_nodup_map h.keys hj hmem hk)
        · obtain ⟨d, hd, _, hk⟩ := (h.registered key j).mp hj
          rw [he, hc] at hd
          obtain rfl := Option.some.inj hd
          exact hk.symm
      · exact h.keys.sublist (List.filter_sublist.map Prod.fst)
    · rw [if_neg (by omega)] at hr
      obtain ⟨rfl, rfl⟩ := Prod.mk.inj hr
      rw [if_neg hone]
      refine ⟨h.set hc ⟨by dsimp only; omega, ?_, ?_, hcount.key⟩ hopen rfl ?_ h.keys, rfl⟩
      · simp only [Bool.false_eq_true, false_iff]
        omega
      · simp [hcount.shutdowns, hopen]
      · exact fun key j => (and_iff_left fun _ => rfl).symm

theorem length_release (i : Nat) : (r.release i shutdown).2.connections.length = r.connections.length := by
  unfold Registry.release
  split
  · rfl
  · split
    · rfl
    · dsimp only
      split <;> exact List.length_set

theorem Leased.open_ (h : r.Leased n) (hi : 0 < n i) : ∃ c, r.connections[i]? = some c ∧ c.closed = false := by
  cases hc : r.connections[i]? with
  | none =>
    have hz := h.unmade i (List.getElem?_eq_none_iff.mp hc)
    omega
  | some c =>
    refine ⟨c, rfl, Bool.eq_false_iff.mpr fun hclosed => ?_⟩
    have hz := (h.counted i c hc).closed.mp hclosed
    omega

end Registry

namespace Sharing

open Registry

variable {p v : Sharing} {k : Nat} {api : MatchTraderAPI} {owners : List MatchTraderAPI}

/-- One owner's leases change, and nobody else's. -/
theorem count_set (new : MatchTraderAPI) (h : owners[k]? = some api) :
    ((owners.set k new).flatMap MatchTraderAPI.holds).count i + api.holds.count i
      = (owners.flatMap MatchTraderAPI.holds).count i + new.holds.count i := by
  induction owners generalizing k with
  | nil => cases h
  | cons a rest ih =>
    cases k with
    | zero =>
      obtain rfl := Option.some.inj h
      simp only [List.set_cons_zero, List.flatMap_cons, List.count_append]
      omega
    | succ k =>
      have hh := ih h
      simp only [List.set_cons_succ, List.flatMap_cons, List.count_append]
      omega

theorem outstanding_pos (h : p.owners[k]? = some api) (hi : i ∈ api.holds) : 0 < p.outstanding i := by
  have hmem : i ∈ p.owners.flatMap MatchTraderAPI.holds := List.mem_flatMap.mpr ⟨api, List.mem_of_getElem? h, hi⟩
  have hpos := List.count_pos_iff.mpr hmem
  unfold outstanding
  omega

/-- What holds of every history: the registry counts the leases that are outstanding. -/
def Sound (p : Sharing) : Prop := p.registry.Leased p.outstanding

/-- The count of one connection went from `a` to `b`, and no other one changed. -/
theorem sound_of_update {m : Nat} (h : v.registry.Leased (Function.update p.outstanding i m))
    (hi : v.outstanding i = m) (hother : ∀ j, j ≠ i → v.outstanding j = p.outstanding j) : v.Sound := by
  have he : v.outstanding = Function.update p.outstanding i m := by
    funext j
    by_cases hj : j = i
    · rw [hj, Function.update_self, hi]
    · rw [Function.update_of_ne hj, hother j hj]
  rwa [Sound, he]

theorem Sound.acquire (h : p.Sound) : (p.acquire cls settings kwargs outcome).Sound := by
  unfold Sharing.acquire
  split
  · next i r ha =>
    apply sound_of_update (Leased.acquire h ha).1
    · simp only [outstanding, Multiset.count_cons_self]
      omega
    · intro j hj
      simp only [outstanding, Multiset.count_cons_of_ne hj]
  · next e r ha =>
    obtain rfl := acquire_error ha
    exact h

theorem Sound.release (h : p.Sound) (hi : i ∈ p.held) :
    Sound { p with registry := (p.registry.release i shutdown).2, held := p.held.erase i } := by
  have hpos := Multiset.count_pos.mpr hi
  have hout : 0 < p.outstanding i := by
    unfold outstanding
    omega
  apply sound_of_update (Leased.release h hout rfl).1
  · simp only [outstanding, Multiset.count_erase_self]
    omega
  · intro j hj
    simp only [outstanding, Multiset.count_erase_of_ne hj]

theorem Sound.openApi {transport : Bool} (h : p.Sound) : (p.openApi settings transport outcome).Sound := by
  unfold Sharing.openApi
  split
  · next i r ha =>
    have hholds : MatchTraderAPI.holds { settings, connection := i } = [i] := rfl
    apply sound_of_update (Leased.acquire h ha).1
    · simp only [outstanding, List.flatMap_append, List.flatMap_singleton, List.count_append, hholds, List.count_singleton_self]
      omega
    · intro j hj
      simp only [outstanding, List.flatMap_append, List.flatMap_singleton, List.count_append, hholds,
        List.count_eq_zero.mpr (List.mem_singleton.not.mpr hj), Nat.add_zero]
  · next e r ha =>
    obtain rfl := acquire_error ha
    exact h

theorem Sound.webSocket (h : p.Sound) : (p.webSocket k outcome).2.Sound := by
  unfold Sharing.webSocket
  cases hk : p.owners[k]? with
  | none => exact h
  | some api =>
    dsimp only
    split
    · exact h
    · next hopen =>
      cases hs : api.stream with
      | some i => exact h
      | none =>
        dsimp only
        split
        · next i r ha =>
          have hold : api.holds = [api.connection] := by simp [MatchTraderAPI.holds, hopen, hs]
          have hnew : MatchTraderAPI.holds { api with stream := some i } = [api.connection, i] := by
            simp [MatchTraderAPI.holds, hopen]
          have hcount := fun j => count_set (i := j) { api with stream := some i } hk
          simp only [hold, hnew] at hcount
          apply sound_of_update (Leased.acquire h ha).1
          · have hh := hcount i
            simp only [List.count_cons, List.count_nil, beq_self_eq_true, if_true] at hh
            simp only [outstanding]
            omega
          · intro j hj
            have hh := hcount j
            simp only [List.count_cons, List.count_nil, beq_iff_eq, Ne.symm hj, if_false] at hh
            simp only [outstanding]
            omega
        · next e r ha =>
          obtain rfl := acquire_error ha
          exact h

theorem Sound.closeStream (h : p.Sound) : (p.closeStream k shutdown).Sound := by
  unfold Sharing.closeStream
  cases hk : p.owners[k]? with
  | none => exact h
  | some api =>
    dsimp only
    split
    · exact h
    · next hopen =>
      have hnew : MatchTraderAPI.holds { api with closed := true, closing := true } = [api.connection] := by
        simp [MatchTraderAPI.holds]
      have hcount := fun j => count_set (i := j) { api with closed := true, closing := true } hk
      cases hs : api.stream with
      | none =>
        have hold : api.holds = [api.connection] := by simp [MatchTraderAPI.holds, hopen, hs]
        simp only [hs] at hcount hnew
        simp only [hold, hnew, Nat.add_right_cancel_iff] at hcount
        have he : outstanding { p with owners := p.owners.set k { api with stream := none, closed := true, closing := true } }
            = p.outstanding := by
          funext j
          simp only [outstanding, hcount]
        rw [Sound, he]
        exact h
      | some i =>
        have hold : api.holds = [api.connection, i] := by simp [MatchTraderAPI.holds, hopen, hs]
        simp only [hs] at hcount hnew
        simp only [hold, hnew] at hcount
        have hpos : 0 < p.outstanding i := outstanding_pos hk (by simp [hold])
        apply sound_of_update (Leased.release h hpos rfl).1
        · have hh := hcount i
          simp only [List.count_cons, List.count_nil, beq_self_eq_true, if_true] at hh
          simp only [outstanding]
          omega
        · intro j hj
          have hh := hcount j
          simp only [List.count_cons, List.count_nil, beq_iff_eq, Ne.symm hj, if_false] at hh
          simp only [outstanding]
          omega

theorem Sound.closeConnection (h : p.Sound) : (p.closeConnection k shutdown).Sound := by
  unfold Sharing.closeConnection
  cases hk : p.owners[k]? with
  | none => exact h
  | some api =>
    dsimp only
    split
    · next hc =>
      have hold : api.holds = [api.connection] := by simp [MatchTraderAPI.holds, hc.1, hc.2]
      have hnew : MatchTraderAPI.holds { api with closing := false } = [] := by simp [MatchTraderAPI.holds, hc.1]
      have hcount := fun j => count_set (i := j) { api with closing := false } hk
      simp only [hold, hnew] at hcount
      have hpos : 0 < p.outstanding api.connection := outstanding_pos hk (by simp [hold])
      apply sound_of_update (Leased.release h hpos rfl).1
      · have hh := hcount api.connection
        simp only [List.count_cons, List.count_nil, beq_self_eq_true, if_true] at hh
        simp only [outstanding]
        omega
      · intro j hj
        have hh := hcount j
        simp only [List.count_cons, List.count_nil, beq_iff_eq, Ne.symm hj, if_false] at hh
        simp only [outstanding]
        omega
    · exact h

theorem Sound.step (h : p.Sound) (hs : Step p v) : v.Sound := by
  cases hs with
  | acquire => exact h.acquire
  | release hi => exact h.release hi
  | openApi => exact h.openApi
  | webSocket => exact h.webSocket
  | closeStream => exact h.closeStream
  | closeConnection => exact h.closeConnection

theorem Reachable.sound (h : Reachable p) : p.Sound := by
  induction h with
  | refl => exact leased_empty
  | tail _ hs ih => exact ih.step hs

/-- A connection is open as long as there is a lease on it, the registry has the open connections, one
for each identity, and none other, an acquisition returns an open connection with the settings that
were asked for or changes nothing, and the last release runs the shutdown, once and whatever it raises. -/
theorem connections_follow_leases (h : Reachable p) :
    (∀ i c, p.registry.connections[i]? = some c →
      (c.closed = false ↔ 0 < p.outstanding i) ∧ c.shutdowns = if c.closed then 1 else 0)
    ∧ (∀ key i, (key, i) ∈ p.registry.registry ↔
      ∃ c, p.registry.connections[i]? = some c ∧ c.closed = false ∧ c.cls.identity c.settings = key)
    ∧ (∀ (i j : Nat) (c d : BaseConnection), p.registry.connections[i]? = some c → p.registry.connections[j]? = some d → c.closed = false →
      d.closed = false → c.cls.identity c.settings = d.cls.identity d.settings → i = j)
    ∧ (∀ cls settings kwargs outcome reply r, p.registry.acquire cls settings kwargs outcome = (reply, r) →
      (∃ i c, reply = .ok i ∧ r.connections[i]? = some c ∧ c.closed = false ∧ c.cls = cls ∧ c.settings = settings)
        ∨ ((∃ e, reply = .error e) ∧ r = p.registry))
    ∧ ∀ i shutdown result r, 0 < p.outstanding i → p.registry.release i shutdown = (result, r) →
      result = (if p.outstanding i = 1 then shutdown else .ok ())
        ∧ ∃ d, r.connections[i]? = some d ∧ (d.closed = true ↔ p.outstanding i = 1)
          ∧ d.shutdowns = if p.outstanding i = 1 then 1 else 0 := by
  have hl : p.registry.Leased p.outstanding := h.sound
  have hreg : ∀ key i, (key, i) ∈ p.registry.registry ↔
      ∃ c, p.registry.connections[i]? = some c ∧ c.closed = false ∧ c.cls.identity c.settings = key := by
    intro key i
    rw [hl.registered]
    refine exists_congr fun c => and_congr_right fun hc => ?_
    rw [(hl.counted i c hc).key]
  refine ⟨?_, hreg, ?_, ?_, ?_⟩
  · intro i c hc
    have hcount := hl.counted i c hc
    refine ⟨?_, hcount.shutdowns⟩
    rw [← Bool.not_eq_true, hcount.closed, Nat.pos_iff_ne_zero]
  · intro i j c d hc hd hcopen hdopen he
    have hci := (hreg _ i).mpr ⟨c, hc, hcopen, rfl⟩
    have hdj := (hreg _ j).mpr ⟨d, hd, hdopen, rfl⟩
    exact congrArg Prod.snd (List.inj_on_of_nodup_map hl.keys hci hdj he)
  · intro cls settings kwargs outcome reply r ha
    cases reply with
    | ok i =>
      obtain ⟨_, c, hc, hopen, hcls, hs⟩ := Leased.acquire hl ha
      exact Or.inl ⟨i, c, rfl, hc, hopen, hcls, hs⟩
    | error e => exact Or.inr ⟨⟨e, rfl⟩, acquire_error ha⟩
  · intro i shutdown result r hi hr
    obtain ⟨hafter, hresult⟩ := Leased.release hl hi hr
    obtain ⟨c, hc, _⟩ := hl.open_ hi
    have hmade : i < r.connections.length := by
      have hlt := (List.getElem?_eq_some_iff.mp hc).1
      have hlength : (p.registry.release i shutdown).2.connections.length = p.registry.connections.length := length_release i
      rwa [← hlength, hr] at hlt
    obtain ⟨d, hd⟩ : ∃ d, r.connections[i]? = some d := ⟨_, List.getElem?_eq_getElem hmade⟩
    have hcount := hafter.counted i d hd
    rw [Function.update_self] at hcount
    have hone : d.closed = true ↔ p.outstanding i = 1 := hcount.closed.trans (by omega)
    refine ⟨hresult, d, hd, hone, ?_⟩
    rw [hcount.shutdowns]
    simp only [hone]

def sampleConnectionSettings : ConnectionSettings := { platformUrl := "https://broker", accountId := "A" }

theorem connections_follow_leases_sample :
    let p := ((({} : Sharing).acquire .rest sampleConnectionSettings false (.ok ())).openApi sampleConnectionSettings false (.ok ())).closeStream 0 (.ok ())
    p.outstanding 0 = 2 ∧ ∀ i c, p.registry.connections[i]? = some c →
      (c.closed = false ↔ 0 < p.outstanding i) ∧ c.shutdowns = if c.closed then 1 else 0 := by
  intro p
  have hp : Reachable p :=
    ((Relation.ReflTransGen.single (Step.acquire .rest sampleConnectionSettings false (.ok ()))).tail
      (Step.openApi sampleConnectionSettings false (.ok ()))).tail (Step.closeStream 0 (.ok ()))
  exact ⟨by decide, (connections_follow_leases hp).1⟩

end Sharing

end MatchTrader
