import MatchTrader.LaneCalm

/-! A batch of signals, element by element: what becomes of each, and which payloads a batch takes
up without one element's contents deciding over the others. -/

namespace MatchTrader

open Durable

variable [Host]

namespace SignalCopy

/-- The keys that a batch adds to those on record, in order. -/
def addedKeys (known : List String) : List String → List String
  | [] => []
  | key :: rest => if key ∈ known then addedKeys known rest else key :: addedKeys (known ++ [key]) rest

def rowIds (l : LaneId) (w : World) : List String := (w.lanes l).signals.map SignalRow.id

def appeared (l : LaneId) (w : World) : List (String × Json) :=
  (w.lanes l).appearances.map fun a => (a.signalId, a.payload)

def invalidResult (raw : Json) : SignalResult := {
  clientEventId := raw.get? "clientEventId", status := .invalid
  reason := "Invalid signal identity, timestamp, or numeric fields; no copy attempted" }

/-- An element that is no signal is reported invalid, and a signal by what is on record of it. -/
def Reported (signal : Option Signal) (raw : Json) (r : SignalResult) : Prop :=
  match signal with
  | none => r = invalidResult raw
  | some s => ∃ row, row.id = signalKey s
      ∧ (r = result row false ∨ r = result row true ∨ r = conflicting (result row true))

/-- What becomes of one element, taken for a signal or for none. -/
structure Treated (c : LaneCall) (signal : Option Signal) (raw : Json) (w : World) (r : SignalResult) (v : World) :
    Prop where
  reported : Reported signal raw r
  appears : appeared c.lane v = appeared c.lane w ++ (signal.map fun s => (signalKey s, raw)).toList
  rows : rowIds c.lane v = rowIds c.lane w ++ addedKeys (rowIds c.lane w) (signal.map signalKey).toList
  trace : w.trace <+: v.trace
  evaluated : ∀ s, signal = some s → s.kind = "intent" → signalKey s ∉ rowIds c.lane w →
    .decided c.lane s.machineId s.clientEventId ∈ v.trace

/-- What becomes of a batch whose elements are taken for signals as `take` says: one result for each
element in order, an appearance for each signal and a row for each new one, and no other. -/
structure Isolated (c : LaneCall) (take : Json → Option Signal) (payload : List Json) (w : World)
    (results : List SignalResult) (v : World) : Prop where
  reported : List.Forall₂ (fun raw r => Reported (take raw) raw r) payload results
  appears : appeared c.lane v
    = appeared c.lane w ++ payload.filterMap fun raw => (take raw).map fun s => (signalKey s, raw)
  rows : rowIds c.lane v
    = rowIds c.lane w ++ addedKeys (rowIds c.lane w) (payload.filterMap fun raw => (take raw).map signalKey)
  /-- The engine is asked about every intent of a new key. -/
  evaluated : ∀ before raw later s, payload = before ++ raw :: later → take raw = some s → s.kind = "intent" →
    signalKey s ∉ rowIds c.lane w → signalKey s ∉ before.filterMap (fun raw => (take raw).map signalKey) →
    .decided c.lane s.machineId s.clientEventId ∈ v.trace

/-- The signal that an element validates as. -/
def validated (raw : Json) : Option Signal := (Signal.parseSignal raw).toOption

/-- The signal that an element is taken for: it must be written as JSON again. -/
def taken (raw : Json) : Option Signal := if raw.finite then validated raw else none

/-- A batch isolates its elements, in every lane and whatever is on record, if the surroundings oblige. -/
def Isolates (payload : List Json) : Prop :=
  ∀ c symbols api destination verified w, Reachable unrestricted ⟨true, w⟩ →
    ∀ env : Answers, (∀ i q, Obliging q (env i q)) →
      ∃ results, ((receive c symbols payload api destination verified).eval env w).2 = .ok results
        ∧ Isolated c validated payload w results ((receive c symbols payload api destination verified).eval env w).1

/-- The element can be asked for the lifecycle it ends. -/
def Keyed (raw : Json) : Prop :=
  ((raw.get? "kind").getD .null).hashable = true
    ∧ (((raw.get? "kind").getD .null).text?.any isEndKind = true → ((raw.get? "label").getD .null).truthy = true →
      ∀ k ∈ scopeFields, ((raw.get? k).getD (.str "")).hashable = true)

/-- Its timestamp, if it is one, exists in the common time zone. -/
def Timed (raw : Json) : Prop := (raw.get? "timestampUtc").map Host.readTime ≠ some .unrepresentable

/-- The payloads whose batches isolate their elements. -/
structure Separable (payload : List Json) : Prop where
  keyed : ∀ raw ∈ payload, Keyed raw
  timed : ∀ raw ∈ payload, Timed raw
  finite : ∀ raw ∈ payload, (validated raw).isSome = true → raw.finite = true

section Elements

variable {raw : Json}

omit [Host] in
theorem endedScope_keyed : (∃ scope, endedScope raw = .ok scope) ↔ Keyed raw := by
  unfold endedScope Keyed
  dsimp only
  by_cases hk : ((raw.get? "kind").getD .null).hashable = true
  · rw [hk]
    simp only [Bool.not_true, Bool.false_eq_true, if_false, true_and]
    by_cases hl : ((raw.get? "kind").getD .null).text?.any isEndKind = true ∧ ((raw.get? "label").getD .null).truthy = true
    · rw [if_pos hl]
      by_cases hs : (scopeFields.all fun k => ((raw.get? k).getD (.str "")).hashable) = true
      · rw [if_pos hs]
        exact ⟨fun _ _ _ => List.all_eq_true.mp hs, fun _ => ⟨_, rfl⟩⟩
      · rw [if_neg hs]
        exact ⟨nofun, fun h => absurd (List.all_eq_true.mpr (h hl.1 hl.2)) hs⟩
    · rw [if_neg hl]
      exact ⟨fun _ h₁ h₂ => absurd ⟨h₁, h₂⟩ hl, fun _ => ⟨_, rfl⟩⟩
  · have hk' : ((raw.get? "kind").getD .null).hashable = false := eq_false_of_ne_true hk
    rw [hk']
    simp

omit [Host] in
theorem endedScopes_keyed {payload : List Json} : (∃ closed, endedScopes payload = .ok closed) ↔ ∀ raw ∈ payload, Keyed raw := by
  have hmap : (∃ scopes, payload.mapM endedScope = .ok scopes) ↔ ∀ raw ∈ payload, Keyed raw := by
    induction payload with
    | nil => exact ⟨fun _ => nofun, fun _ => ⟨[], rfl⟩⟩
    | cons raw rest ih =>
      rw [List.mapM_cons, List.forall_mem_cons, ← ih, ← endedScope_keyed]
      constructor
      · rintro ⟨scopes, h⟩
        obtain ⟨scope, hscope, h⟩ := bind_eq_ok.mp h
        obtain ⟨more, hmore, -⟩ := bind_eq_ok.mp h
        exact ⟨⟨scope, hscope⟩, more, hmore⟩
      · rintro ⟨⟨scope, hscope⟩, more, hmore⟩
        exact ⟨scope :: more, by rw [hscope]; simp only [bind, Except.bind, hmore]; rfl⟩
  unfold endedScopes
  rw [← hmap]
  cases payload.mapM endedScope with
  | error e => exact ⟨nofun, nofun⟩
  | ok scopes => exact ⟨fun _ => ⟨scopes, rfl⟩, fun _ => ⟨_, rfl⟩⟩

end Elements

section Errors

variable {α β : Type} {raw : Json} {e : Exc}

/-- A reading fails with a value error if at all. -/
def Valued (x : Except Exc α) : Prop := ∀ e, x = .error e → e.isValueError = true

omit [Host] in
theorem Valued.bind {x : Except Exc α} {f : α → Except Exc β} (hx : Valued x) (hf : ∀ a, Valued (f a)) :
    Valued (x >>= f) := by
  intro e he
  cases x with
  | error d =>
    obtain rfl : d = e := Except.error.inj he
    exact hx d rfl
  | ok a => exact hf a e he

omit [Host] in
theorem valued_ok (a : α) : Valued (.ok a : Except Exc α) := nofun

omit [Host] in
theorem valued_invalid : Valued (.error Signal.invalid : Except Exc α) := by
  rintro e ⟨⟩
  rfl

omit [Host] in
theorem valued_text (name : String) (lo hi : Nat) (default : Option String) :
    Valued (Signal.textField raw name lo hi default) := by
  unfold Signal.textField
  split
  · exact valued_invalid
  · split
    · exact valued_ok _
    · exact valued_invalid

omit [Host] in
theorem valued_extra (name : String) (hi : Nat) (present : Bool) : Valued (Signal.extraField raw name hi present) := by
  unfold Signal.extraField
  split
  · intro e he
    cases h : Signal.textField raw name 0 hi (some "") with
    | error d =>
      rw [h] at he
      obtain rfl : d = e := Except.error.inj he
      exact valued_text name 0 hi (some "") d h
    | ok v =>
      rw [h] at he
      cases he
  · exact valued_ok _

theorem valued_amount (name : String) : Valued (Signal.amountField raw name) := by
  unfold Signal.amountField
  split
  · exact valued_ok _
  · split
    · split
      · exact valued_ok _
      · exact valued_invalid
    · exact valued_invalid

theorem valued_side : Valued (Signal.sideField raw) := by
  unfold Signal.sideField
  split
  · exact valued_ok _
  · exact valued_ok _
  · dsimp only
    split
    · exact valued_ok _
    · exact valued_invalid

theorem valued_orderType : Valued (Signal.orderTypeField raw) := by
  unfold Signal.orderTypeField
  split
  · exact valued_ok _
  · dsimp only
    split
    · exact valued_ok _
    · exact valued_invalid
  · exact valued_invalid

theorem valued_time (h : Timed raw) : Valued (Signal.timeField raw) := by
  unfold Signal.timeField
  split
  · exact valued_ok _
  · next hu => exact absurd hu h
  · exact valued_invalid

/-- An element with a representable timestamp validates, or fails with a value error. -/
theorem valued_parse (h : Timed raw) : Valued (Signal.parseSignal raw) := by
  unfold Signal.parseSignal
  dsimp only
  refine (valued_time h).bind fun _ => (valued_text _ _ _ _).bind fun _ => (valued_text _ _ _ _).bind fun _ => ?_
  refine (valued_text _ _ _ _).bind fun _ => (valued_text _ _ _ _).bind fun _ => (valued_text _ _ _ _).bind fun _ => ?_
  refine (valued_text _ _ _ _).bind fun _ => (valued_text _ _ _ _).bind fun _ => (valued_text _ _ _ _).bind fun _ => ?_
  refine valued_side.bind fun _ => (valued_amount _).bind fun _ => (valued_amount _).bind fun _ => ?_
  refine (valued_amount _).bind fun _ => valued_orderType.bind fun _ => (valued_extra _ _ _).bind fun _ => ?_
  refine (valued_extra _ _ _).bind fun _ => (valued_extra _ _ _).bind fun _ => (valued_extra _ _ _).bind fun _ => ?_
  exact (valued_extra _ _ _).bind fun _ => (valued_extra _ _ _).bind fun _ => valued_ok _

/-- An element whose timestamp overflows fails with no value error. -/
theorem parse_untimed (h : ¬ Timed raw) : ∃ e, Signal.parseSignal raw = .error e ∧ e.isValueError = false := by
  have htime : Signal.timeField raw = .error ⟨.arithmeticError, "OverflowError", "", none⟩ := by
    unfold Signal.timeField
    rw [not_not.mp h]
  exact ⟨_, by unfold Signal.parseSignal; rw [htime]; rfl, rfl⟩

end Errors

section Keys

variable {known keys more : List String}

omit [Host] in
theorem addedKeys_append : addedKeys known (keys ++ more)
    = addedKeys known keys ++ addedKeys (known ++ addedKeys known keys) more := by
  induction keys generalizing known with
  | nil => simp [addedKeys]
  | cons key rest ih =>
    rw [List.cons_append, addedKeys, addedKeys]
    by_cases hk : key ∈ known
    · rw [if_pos hk, if_pos hk, ih]
    · rw [if_neg hk, if_neg hk, ih, List.cons_append, List.append_assoc, List.singleton_append]

omit [Host] in
theorem mem_addedKeys {key : String} (h : key ∈ addedKeys known keys) : key ∈ keys := by
  induction keys generalizing known with
  | nil => cases h
  | cons k rest ih =>
    rw [addedKeys] at h
    split at h
    · exact List.mem_cons_of_mem _ (ih h)
    · rcases List.mem_cons.mp h with rfl | h
      · exact List.mem_cons_self
      · exact List.mem_cons_of_mem _ (ih h)

end Keys

section Treatment

variable {c : LaneCall} {take : Json → Option Signal} {raw : Json} {rest : List Json} {w u v : World} {r : SignalResult}
  {results : List SignalResult}

theorem Isolated.nil (w : World) : Isolated c take [] w [] w where
  reported := .nil
  appears := (List.append_nil _).symm
  rows := (List.append_nil _).symm
  evaluated before raw later s h := by cases before <;> cases h

/-- A batch is isolated when its first element is treated and the rest is isolated. -/
theorem Isolated.cons (h : Treated c (take raw) raw w r u) (hrest : Isolated c take rest u results v)
    (htrace : u.trace <+: v.trace) : Isolated c take (raw :: rest) w (r :: results) v where
  reported := .cons h.reported hrest.reported
  appears := by
    rw [hrest.appears, h.appears, List.filterMap_cons]
    cases take raw <;> simp
  rows := by
    have hkeys : (raw :: rest).filterMap (fun raw => (take raw).map signalKey)
        = ((take raw).map signalKey).toList ++ rest.filterMap fun raw => (take raw).map signalKey := by
      rw [List.filterMap_cons]
      cases take raw <;> simp
    rw [hrest.rows, h.rows, hkeys, addedKeys_append, List.append_assoc]
  evaluated before x later s hsplit hs hkind hnew hbefore := by
    cases before with
    | nil =>
      obtain ⟨rfl, rfl⟩ := List.cons.inj hsplit
      exact htrace.subset (h.evaluated s hs hkind hnew)
    | cons y before =>
      obtain ⟨rfl, rfl⟩ := List.cons.inj hsplit
      have hkeys : signalKey s ∉ ((take raw).map signalKey).toList
          ∧ signalKey s ∉ before.filterMap fun raw => (take raw).map signalKey := by
        rw [List.filterMap_cons] at hbefore
        cases htake : take raw with
        | none =>
          rw [htake] at hbefore
          exact ⟨nofun, hbefore⟩
        | some t =>
          rw [htake] at hbefore
          simpa [not_or] using hbefore
      refine hrest.evaluated before x later s rfl hs hkind (fun hmem => ?_) hkeys.2
      rw [h.rows] at hmem
      rcases List.mem_append.mp hmem with hmem | hmem
      · exact hnew hmem
      · exact hkeys.1 (mem_addedKeys hmem)

end Treatment

section Reception

variable {c : LaneCall} {symbols : SymbolMap} {s : Signal} {raw : Json} {closed : List (List (Option String))}
  {api : Option Api} {destination : String} {verified : Bool} {w v : World}

/-- Every change of the world is allowed. -/
def Unbound (_ _ : World) : Prop := True

omit [Host] in
theorem signal?_isSome {l : LaneId} {key : String} :
    ((w.lanes l).signal? key).isSome = true ↔ key ∈ rowIds l w := by
  rw [Option.isSome_iff_ne_none, LaneDb.signal?, ne_eq, Rows.lookup_eq_none_iff, rowIds, List.mem_map]
  push Not
  rfl

/-- A signal that can be written as JSON is recorded and acted on. -/
theorem calm_receiveSignal (hr : Responded w) (hf : raw.finite = true) :
    (receiveSignal c symbols s raw closed api destination verified).wp Obliging Unbound
      (fun r v => Treated c (some s) raw w r v) (fun _ _ => False) w := by
  unfold receiveSignal
  rw [Prog.wp_bind, wp_now]
  intro at_ _
  rw [Prog.wp_bind, wp_raiseIf]
  refine ⟨fun h => absurd h (by simp [hf]), fun _ => ?_⟩
  rw [Prog.wp_bind, wp_readsWorld, Prog.wp_bind]
  refine calm_transactLane trivial ?_
  cases hq : (w.lanes c.lane).signal? (signalKey s) with
  | some row =>
    have hid : row.id = signalKey s := (Rows.lookup_mem hq).2
    have hold : signalKey s ∈ rowIds c.lane w := signal?_isSome.mp (by rw [hq]; rfl)
    have htreated : ∀ r, (r = result row false ∨ r = result row true ∨ r = conflicting (result row true)) →
        ∀ conflict, Treated c (some s) raw w r (setLane w c.lane { w.lanes c.lane with
          appearances := (w.lanes c.lane).appearances ++ [⟨signalKey s, at_.isoformat, raw, conflict⟩] }) := by
      refine fun r hr conflict => ⟨⟨row, hid, hr⟩, ?_, ?_, List.prefix_rfl, fun t ht _ hnew => ?_⟩
      · simp [appeared]
      · simp [rowIds, addedKeys] at hold ⊢
        exact hold
      · obtain rfl := Option.some.inj ht
        exact absurd hold hnew
    dsimp only
    split
    · exact htreated _ (Or.inr (Or.inr rfl)) _
    · exact htreated _ (Or.inr (Or.inl rfl)) _
  | none =>
    have hnew : signalKey s ∉ rowIds c.lane w := fun h => by
      have hsome := signal?_isSome.mpr h
      rw [hq] at hsome
      cases hsome
    dsimp only
    rw [Prog.wp_bind]
    refine calm_transactLane trivial ?_
    rw [Prog.wp_bind]
    generalize hb : setLane (setLane w c.lane _) c.lane _ = b
    have hborn : Responded b ∧ rowIds c.lane b = rowIds c.lane w ++ [signalKey s]
        ∧ appeared c.lane b = appeared c.lane w ++ [(signalKey s, raw)] ∧ b.trace = w.trace := by
      subst hb
      refine ⟨fun l q hmem hkind hdec => ?_, ?_, ?_, rfl⟩
      · by_cases hl : l = c.lane
        · subst hl
          simp only [lanes_setLane, if_true] at hmem
          rcases List.mem_append.mp hmem with hmem | hmem
          · exact hr _ q hmem hkind hdec
          · obtain rfl := List.mem_singleton.mp hmem
            cases hdec
        · simp only [lanes_setLane, if_neg hl] at hmem
          exact hr l q hmem hkind hdec
      · simp [rowIds, bornRow]
      · simp [appeared]
    obtain ⟨hresponded, hids, happears, htrace⟩ := hborn
    have hact : (act c symbols s raw closed api destination verified at_).wp Obliging (LaneKept c.lane)
        (fun _ v => s.kind = "intent" → .decided c.lane s.machineId s.clientEventId ∈ v.trace) (fun _ _ => False) b :=
      calm_act hresponded
    have hkept := Prog.wp_invariant (I := LaneKept c.lane b) (fun _ _ h hh => h.trans hh) (.refl b) hact
    refine Prog.wp_mono hkept (fun _ _ h => h) (fun _ _ _ => trivial) (fun _ v hv => ?_) fun _ _ h => h.2
    obtain ⟨hlane, hdecided⟩ := hv
    have hrow : ((v.lanes c.lane).signal? (signalKey s)).isSome = true := by
      have hmem : signalKey s ∈ rowIds c.lane b := by
        rw [hids]
        exact List.mem_append_right _ (List.mem_singleton_self _)
      rw [signal?_isSome, rowIds, hlane.ids]
      exact hmem
    obtain ⟨row, hrow⟩ := Option.isSome_iff_exists.mp hrow
    rw [Prog.wp_bind, wp_readsWorld, hrow]
    refine ⟨⟨row, (Rows.lookup_mem hrow).2, Or.inl rfl⟩, ?_, ?_, ?_, fun t ht hkind _ => ?_⟩
    · rw [appeared, hlane.appearances]
      exact happears
    · rw [rowIds, hlane.ids]
      simp only [Option.map_some, Option.toList_some, addedKeys, if_neg hnew]
      exact hids
    · exact htrace ▸ hlane.trace
    · obtain rfl := Option.some.inj ht
      exact hdecided hkind

/-- An element of a batch is treated as the signal it is taken for. -/
theorem calm_receiveElement (hr : Responded w) (ht : Timed raw) :
    (receiveElement c symbols closed api destination verified raw).wp Obliging Unbound
      (fun r v => Treated c (taken raw) raw w r v) (fun _ _ => False) w := by
  have hinvalid : taken raw = none → Treated c (taken raw) raw w (invalidResult raw) w := fun hnone => by
    rw [hnone]
    exact ⟨rfl, (List.append_nil _).symm, (List.append_nil _).symm, List.prefix_rfl, fun _ h => absurd h (by simp)⟩
  unfold receiveElement
  rw [Prog.wp_tryCatch, Prog.wp_bind, Prog.wp_ofExcept]
  refine ⟨fun s hp => ?_, fun e hp => ?_⟩
  · by_cases hf : raw.finite = true
    · have htaken : taken raw = some s := by simp [taken, validated, hp, hf, Except.toOption]
      rw [htaken]
      exact Prog.wp_consequence (calm_receiveSignal hr hf) (fun _ _ h => h) fun _ _ h => h.elim
    · have hnone : taken raw = none := by simp [taken, hf]
      unfold receiveSignal
      rw [Prog.wp_bind, wp_now]
      intro at_ _
      rw [Prog.wp_bind, wp_raiseIf]
      refine ⟨fun _ => ?_, fun h => absurd h (by simp [hf])⟩
      exact hinvalid hnone
  · have hnone : taken raw = none := by simp [taken, validated, hp, Except.toOption]
    rw [if_pos (valued_parse ht e hp)]
    exact hinvalid hnone

/-- A batch isolates its elements, each taken for the signal that can be recorded. -/
theorem calm_elements {payload : List Json} (hI : Inv w) (hi : Idle w) (hr : Responded w) (ht : ∀ raw ∈ payload, Timed raw) :
    (payload.mapM (receiveElement c symbols closed api destination verified)).wp Obliging Unbound
      (fun results v => Isolated c taken payload w results v ∧ w.trace <+: v.trace) (fun _ _ => False) w := by
  induction payload generalizing w with
  | nil => exact ⟨.nil w, List.prefix_rfl⟩
  | cons raw rest ih =>
    rw [List.mapM_cons, Prog.wp_bind]
    let first := receiveElement c symbols closed api destination verified raw
    have hcalm : first.wp Obliging Unbound (fun r v => Treated c (taken raw) raw w r v) (fun _ _ => False) w :=
      calm_receiveElement hr (ht raw List.mem_cons_self)
    have hidle : first.wp Obliging (Within unrestricted c.lane) (fun _ v => Idle v) (fun _ v => Idle v) w :=
      receiveElement_idle hI hi nofun nofun nofun
    have hsound := Prog.wp_invariant (I := fun v => Inv v ∧ Responded v) (fun _ _ hs hG => ?_) ⟨hI, hr⟩ hidle
    · refine Prog.wp_mono (Prog.wp_and hcalm hsound) (fun _ _ h => ⟨h, h⟩) (fun _ _ _ => trivial) (fun r u hu => ?_)
        fun _ _ h => h.1
      obtain ⟨htreated, ⟨hIu, hru⟩, hiu⟩ := hu
      rw [Prog.wp_bind]
      refine Prog.wp_consequence (ih hIu hiu hru fun x hx => ht x (List.mem_cons_of_mem _ hx)) (fun results v hv => ?_)
        fun _ _ h => h
      exact ⟨.cons htreated hv.1 hv.2, htreated.trace.trans hv.2⟩
    · have hsteps : Steps unrestricted _ _ := hG.steps
      exact Durable.invariant_of_reflTransGen (I := fun v => Inv v ∧ Responded v) hsteps
        (fun _ _ hv hstep => ⟨hv.1.step hstep, hv.2.step hv.1 hstep⟩) hs

end Reception

/-- A batch as a lane takes it: one to a hundred objects. -/
structure SignalBatch where
  elements : List Json
  size : 1 ≤ elements.length ∧ elements.length ≤ 100
  objects : ∀ raw ∈ elements, raw.isObj = true

section Batches

variable {c : LaneCall} {symbols : SymbolMap} {api : Option Api} {destination : String} {verified : Bool} {w : World}
  {b : SignalBatch} {payload : List Json}

omit [Host] in
theorem SignalBatch.expected (b : SignalBatch) : ¬ (¬ (1 ≤ b.elements.length ∧ b.elements.length ≤ 100)
    ∨ (b.elements.any fun p => !p.isObj) = true) := by
  rintro (h | h)
  · exact h b.size
  · obtain ⟨raw, hmem, hobj⟩ := List.any_eq_true.mp h
    rw [b.objects raw hmem] at hobj
    cases hobj

/-- A batch of elements that can be asked for what they end, and whose timestamps exist. -/
theorem calm_receive (hw : Reachable unrestricted ⟨true, w⟩) (hk : ∀ raw ∈ b.elements, Keyed raw)
    (ht : ∀ raw ∈ b.elements, Timed raw) :
    (receive c symbols b.elements api destination verified).wp Obliging Unbound
      (fun results v => Isolated c taken b.elements w results v) (fun _ _ => False) w := by
  have hR : unrestricted.Plain := ⟨rfl, rfl⟩
  have hs := hw.sound hR
  obtain ⟨closed, hclosed⟩ := endedScopes_keyed.mpr hk
  unfold receive
  rw [Prog.wp_bind, wp_raiseIf]
  refine ⟨fun h => absurd h b.expected, fun _ => ?_⟩
  rw [hclosed]
  exact Prog.wp_consequence (calm_elements hs.inv (hs.idle rfl) (hw.responded hR) ht) (fun _ _ h => h.1) fun _ _ h => h

theorem Isolated.congr {take take' : Json → Option Signal} {results : List SignalResult} {v : World}
    (h : Isolated c take payload w results v) (htake : ∀ raw ∈ payload, take raw = take' raw) :
    Isolated c take' payload w results v := by
  have hcopy : ∀ {β : Type} (f : Json → Signal → β) (l : List Json), (∀ raw ∈ l, take raw = take' raw) →
      l.filterMap (fun raw => (take raw).map (f raw)) = l.filterMap fun raw => (take' raw).map (f raw) :=
    fun f l hl => List.filterMap_congr fun raw hmem => by rw [hl raw hmem]
  constructor
  · have hreported := h.reported
    clear h hcopy
    induction hreported with
    | nil => exact .nil
    | cons hr _ ih =>
      exact .cons (htake _ List.mem_cons_self ▸ hr) (ih fun raw hmem => htake raw (List.mem_cons_of_mem _ hmem))
  · rw [h.appears, hcopy (fun raw s => (signalKey s, raw)) payload htake]
  · rw [h.rows, hcopy (fun _ s => signalKey s) payload htake]
  · rintro before raw later s rfl hs hkind hnew hbefore
    rw [← htake raw (List.mem_append_right _ List.mem_cons_self)] at hs
    rw [← hcopy (fun _ s => signalKey s) before fun x hx => htake x (List.mem_append_left _ hx)] at hbefore
    exact h.evaluated before raw later s rfl hs hkind hnew hbefore

theorem isolates_of_separable (h : Separable b.elements) : Isolates b.elements := by
  intro c symbols api destination verified w hw env henv
  have hcalm : (receive c symbols b.elements api destination verified).wp Obliging Unbound
      (fun results v => Isolated c taken b.elements w results v) (fun _ _ => False) w := calm_receive hw h.keyed h.timed
  obtain ⟨-, hok, herror⟩ := Prog.wp_eval hcalm env henv
  cases hres : ((receive c symbols b.elements api destination verified).eval env w).2 with
  | error e => exact (herror e hres).elim
  | ok results =>
    refine ⟨results, rfl, (hok results hres).congr fun raw hmem => ?_⟩
    by_cases hv : (validated raw).isSome = true
    · rw [taken, if_pos (h.finite raw hmem hv)]
    · rw [Option.not_isSome_iff_eq_none] at hv
      rw [taken, hv, ite_self]

omit [Host] in
/-- A map that leaves nothing out is the map it is taken from. -/
theorem filterMap_eq {α β : Type} {f g : α → Option β} {l : List α} (h : ∀ a, f a = none ∨ f a = g a) :
    (l.filterMap f).length ≤ (l.filterMap g).length
      ∧ ((l.filterMap f).length = (l.filterMap g).length → ∀ a ∈ l, f a = g a) := by
  induction l with
  | nil => exact ⟨le_rfl, fun _ => nofun⟩
  | cons a l ih =>
    rw [List.filterMap_cons, List.filterMap_cons, List.forall_mem_cons]
    rcases h a with hnone | hsame
    · rw [hnone]
      cases hg : g a with
      | none => exact ⟨ih.1, fun hl => ⟨rfl, ih.2 hl⟩⟩
      | some b =>
        simp only [List.length_cons]
        exact ⟨by omega, fun hl => by have := ih.1; omega⟩
    · rw [hsame]
      cases hg : g a with
      | none => exact ⟨ih.1, fun hl => ⟨rfl, ih.2 hl⟩⟩
      | some b =>
        simp only [List.length_cons, Nat.add_le_add_iff_right, Nat.add_right_cancel_iff]
        exact ⟨ih.1, fun hl => ⟨trivial, ih.2 hl⟩⟩

omit [Host] in
theorem sampleReply_obliging (q : Query) : Obliging q (sampleReply q) := by
  cases q with
  | commitFails => rfl
  | activeOrders api => exact nofun
  | _ => trivial

theorem exists_started : ∃ w, Reachable unrestricted ⟨true, w⟩ :=
  ⟨_, "fx", sampleMemory, .single (.start (w := .fresh "fx" sampleMemory) "fx" sampleMemory (fun _ => sampleReply) rfl)⟩

theorem raises_untimed {closed : List (List (Option String))} {raw : Json} (h : ¬ Timed raw) :
    (receiveElement c symbols closed api destination verified raw).wp Obliging Unbound (fun _ _ => False) (fun _ _ => True) w := by
  obtain ⟨e, hp, he⟩ := parse_untimed h
  unfold receiveElement
  rw [hp, Prog.wp_tryCatch]
  refine (Prog.wp_bind _ _).mpr ((Prog.wp_ofExcept _).mpr ⟨fun _ h => absurd h (by simp), fun d hd => ?_⟩)
  obtain rfl := Except.error.inj hd
  rw [he]
  trivial

omit [Host] in
theorem wp_unbound {α : Type} (p : Act α) : p.wp Obliging Unbound (fun _ _ => True) (fun _ _ => True) w := by
  induction p generalizing w with
  | ret a => trivial
  | raise e => trivial
  | look k ih => exact ih w
  | txn u k ih => exact ⟨trivial, ih w⟩
  | ask q k ih => exact fun r _ => ih r

omit [Host] in
/-- A loop with a round that cannot end well does not end well. -/
theorem raises_mapM {α β : Type} {f : α → Act β} {l : List α} {a : α} (ha : a ∈ l)
    (h : ∀ w, (f a).wp Obliging Unbound (fun _ _ => False) (fun _ _ => True) w) :
    (l.mapM f).wp Obliging Unbound (fun _ _ => False) (fun _ _ => True) w := by
  induction l generalizing w with
  | nil => cases ha
  | cons b l ih =>
    rw [List.mapM_cons, Prog.wp_bind]
    rcases List.mem_cons.mp ha with rfl | ha
    · exact Prog.wp_consequence (h w) (fun _ _ h => h.elim) fun _ _ h => h
    · refine Prog.wp_consequence (wp_unbound (f b)) (fun _ v _ => ?_) fun _ _ h => h
      rw [Prog.wp_bind]
      exact Prog.wp_consequence (ih ha) (fun _ _ h => h.elim) fun _ _ h => h

/-- A batch that ends well in some world keeps its elements apart from the others' shape and time. -/
theorem isolates_ends (h : Isolates b.elements) (hraise : ∀ w, (receive ⟨.main, none, none, false, none⟩ [] b.elements none ""
      false).wp Obliging Unbound (fun _ _ => False) (fun _ _ => True) w) : False := by
  obtain ⟨w, hw⟩ := exists_started
  obtain ⟨results, hok, -⟩ := h ⟨.main, none, none, false, none⟩ [] none "" false w hw (fun _ => sampleReply)
    fun _ => sampleReply_obliging
  obtain ⟨-, hnot, -⟩ := Prog.wp_eval (hraise w) (fun _ => sampleReply) fun _ => sampleReply_obliging
  exact hnot results hok

theorem keyed_of_isolates (h : Isolates b.elements) : ∀ raw ∈ b.elements, Keyed raw := by
  by_contra hno
  refine isolates_ends h fun w => ?_
  unfold receive
  rw [Prog.wp_bind, wp_raiseIf]
  refine ⟨fun h => absurd h b.expected, fun _ => ?_⟩
  rw [Prog.wp_bind, Prog.wp_ofExcept]
  exact ⟨fun closed hclosed => absurd (endedScopes_keyed.mp ⟨closed, hclosed⟩) hno, fun _ _ => trivial⟩

theorem timed_of_isolates (h : Isolates b.elements) : ∀ raw ∈ b.elements, Timed raw := by
  intro raw hmem
  by_contra hno
  refine isolates_ends h fun w => ?_
  unfold receive
  rw [Prog.wp_bind, wp_raiseIf]
  refine ⟨fun h => absurd h b.expected, fun _ => ?_⟩
  rw [Prog.wp_bind, Prog.wp_ofExcept]
  exact ⟨fun closed _ => raises_mapM hmem fun w => raises_untimed hno, fun _ _ => trivial⟩

theorem finite_of_isolates (h : Isolates b.elements) :
    ∀ raw ∈ b.elements, (validated raw).isSome = true → raw.finite = true := by
  obtain ⟨w, hw⟩ := exists_started
  obtain ⟨results, hok, hvalidated⟩ := h ⟨.main, none, none, false, none⟩ [] none "" false w hw (fun _ => sampleReply)
    fun _ => sampleReply_obliging
  have hcalm : (receive ⟨.main, none, none, false, none⟩ [] b.elements none "" false).wp Obliging Unbound
      (fun results v => Isolated ⟨.main, none, none, false, none⟩ taken b.elements w results v) (fun _ _ => False) w :=
    calm_receive hw (keyed_of_isolates h) (timed_of_isolates h)
  obtain ⟨-, htaken, -⟩ := Prog.wp_eval hcalm (fun _ => sampleReply) fun _ => sampleReply_obliging
  have hlists := List.append_cancel_left ((htaken results hok).appears.symm.trans hvalidated.appears)
  have hsame := (filterMap_eq (l := b.elements) (f := fun raw => (taken raw).map fun s => (signalKey s, raw))
    (g := fun raw => (validated raw).map fun s => (signalKey s, raw)) fun raw => ?_).2 (congrArg List.length hlists)
  · intro raw hmem hv
    by_contra hno
    obtain ⟨s, hs⟩ := Option.isSome_iff_exists.mp hv
    have hpair := hsame raw hmem
    simp [taken, hno, hs] at hpair
  · by_cases hf : raw.finite = true
    · exact Or.inr (by rw [taken, if_pos hf])
    · exact Or.inl (by rw [taken, if_neg hf]; rfl)

/-- A batch isolates its elements exactly when they can be asked for what they end, their timestamps exist,
and those that validate can be written as JSON again. -/
theorem isolates_iff (b : SignalBatch) : Isolates b.elements ↔ Separable b.elements :=
  ⟨fun h => ⟨keyed_of_isolates h, timed_of_isolates h, finite_of_isolates h⟩, isolates_of_separable⟩

end Batches

end SignalCopy

end MatchTrader

namespace MatchTrader

namespace SignalCopy

attribute [local instance] sampleHost

/-- An element whose kind is a list, before a valid intent. -/
def unkeyedBatch : SignalBatch where
  elements := [.obj [("kind", .arr [])], sampleSignal "intent" "s1" 20]
  size := by decide
  objects := by decide

theorem unkeyed_not_isolated : ¬ Isolates unkeyedBatch.elements := by
  intro h
  have hkeyed := keyed_of_isolates h (.obj [("kind", .arr [])]) List.mem_cons_self
  exact absurd hkeyed.1 (by decide)

end SignalCopy

end MatchTrader
