import MatchTrader.PaperTtls

/-! The record of a paper session: every event that a call returns is written before the next call,
with the plan as it then is. -/

namespace MatchTrader

def PlanState.text : PlanState → String
  | armed => "armed"
  | working => "working"
  | filled => "filled"
  | closed => "closed"
  | cancelled => "cancelled"
  | expired => "expired"
  | held => "held"

def PlanEvent.text : PlanEvent → String
  | armed => "armed"
  | held => "held"
  | heldDuplicate => "held-duplicate"
  | modified => "modified"
  | touched => "r01-touched"
  | working => "working"
  | filled => "filled"
  | finished state => state.text

/-- What an event carries, and what its text spells. -/
inductive EventPayload where
  | plan (p : PaperPlan)
  | note (label reason : String)

def EventPayload.label : EventPayload → String
  | plan p => p.label
  | note label _ => label

structure PlanRow where
  id : String
  label : String
  state : PlanState
  updated : String
  plan : PaperPlan

structure PaperEventRow where
  at_ : String
  type : String
  label : String
  detail : EventPayload

structure PaperStore where
  plans : List PlanRow := []
  events : List PaperEventRow := []

namespace PaperStore

/-- `INSERT OR REPLACE` into the plans, then `INSERT` into the events. -/
def event (s : PaperStore) (at_ kind : String) (payload : EventPayload) : PaperStore :=
  let plans :=
    match payload with
    | .plan p => s.plans.filter (fun r => r.id ≠ p.id) ++ [⟨p.id, p.label, p.state, at_, p⟩]
    | .note .. => s.plans
  { plans, events := s.events ++ [⟨at_, kind, payload.label, payload⟩] }

/-- An event of a call that left the book `b`. -/
def write (b : PaperBook) (at_ : String) (s : PaperStore) : PaperEvent → PaperStore
  | .ignored label reason => s.event at_ "ignored" (.note label reason)
  | .plan kind ref =>
    match b.all.find? fun p => p.ref = ref with
    | some p => s.event at_ kind.text (.plan p)
    | none => s

/-- The events that a call returned; one that raises returns none. -/
def keep (b : PaperBook) (at_ : String) (s : PaperStore) : Except Exc (List PaperEvent) → PaperStore
  | .ok events => events.foldl (write b at_) s
  | .error _ => s

/-- The table has a row for the plan, with its state, its fill and its exit. -/
def Has (s : PaperStore) (p : PaperPlan) : Prop := ∃ r ∈ s.plans, r.id = p.id ∧ r.state = p.state ∧ r.plan.record = p.record

instance (s : PaperStore) (p : PaperPlan) : Decidable (s.Has p) := by unfold Has; infer_instance

/-- The table shows every plan of the book as it is. -/
def Matches (s : PaperStore) (b : PaperBook) : Prop := ∀ p ∈ b.all, s.Has p

instance (s : PaperStore) (b : PaperBook) : Decidable (s.Matches b) := by unfold Matches; infer_instance

end PaperStore

def PaperCall.now : PaperCall → String
  | row _ _ now => now
  | quote q => q.now

namespace PaperBook

/-- The identifiers tell the plans apart. -/
def Keyed (b : PaperBook) : Prop := ∀ x ∈ b.all, ∀ y ∈ b.all, x.id = y.id → x.ref = y.ref

theorem WellKept.eq_of_ref {b : PaperBook} {x y : PaperPlan} (h : WellKept b) (hx : x ∈ b.all) (hy : y ∈ b.all) (hr : x.ref = y.ref) :
    x = y := List.inj_on_of_nodup_map h.refs hx hy hr

end PaperBook

namespace PaperStore

variable {b : PaperBook} {s : PaperStore} {x p : PaperPlan} {at_ kind : String}

theorem has_event_self : (s.event at_ kind (.plan p)).Has p :=
  ⟨⟨p.id, p.label, p.state, at_, p⟩, List.mem_append_right _ (List.mem_singleton.mpr rfl), rfl, rfl, rfl⟩

theorem Has.event (h : s.Has x) (hne : p.id ≠ x.id) : (s.event at_ kind (.plan p)).Has x := by
  obtain ⟨r, hr, hid, hrest⟩ := h
  exact ⟨r, List.mem_append_left _ (List.mem_filter.mpr ⟨hr, decide_eq_true (hid ▸ hne.symm)⟩), hid, hrest⟩

/-- Writing what a call returned keeps the rows that are right. -/
theorem Has.write (h : s.Has x) (hb : b.WellKept) (hk : b.Keyed) (hx : x ∈ b.all) (e : PaperEvent) : (write b at_ s e).Has x := by
  cases e with
  | ignored label reason => exact h
  | plan kind ref =>
    unfold PaperStore.write
    dsimp only
    split
    · next p hp =>
      have hm := List.mem_of_find?_eq_some hp
      by_cases hid : p.id = x.id
      · obtain rfl := hb.eq_of_ref hm hx (hk p hm x hx hid)
        exact has_event_self
      · exact h.event hid
    · exact h

theorem has_write (hb : b.WellKept) (hx : x ∈ b.all) (kind : PlanEvent) : (write b at_ s (.plan kind x.ref)).Has x := by
  unfold write
  dsimp only
  split
  · next p hp =>
    have hr : p.ref = x.ref := by simpa using List.find?_some hp
    obtain rfl := hb.eq_of_ref (List.mem_of_find?_eq_some hp) hx hr
    exact has_event_self
  · next hnone =>
    have hne := List.find?_eq_none.mp hnone x hx
    simp at hne

theorem Has.foldl {events : List PaperEvent} (h : s.Has x) (hb : b.WellKept) (hk : b.Keyed) (hx : x ∈ b.all) :
    (events.foldl (PaperStore.write b at_) s).Has x := by
  induction events generalizing s with
  | nil => exact h
  | cons e events ih => exact ih (h.write hb hk hx e)

theorem has_foldl {events : List PaperEvent} {kind : PlanEvent} (hb : b.WellKept) (hk : b.Keyed) (hx : x ∈ b.all)
    (hm : .plan kind x.ref ∈ events) : (events.foldl (write b at_) s).Has x := by
  induction events generalizing s with
  | nil => simp at hm
  | cons e events ih =>
    rcases List.mem_cons.mp hm with rfl | hm
    · exact (has_write hb hx kind).foldl hb hk hx
    · exact ih hm

end PaperStore

namespace PaperBook

/-- The call returned an event about the plan. -/
def NamedIn (r : PaperBook × Except Exc (List PaperEvent)) (ref : Nat) : Prop := ∃ events, r.2 = .ok events ∧ ∃ k, .plan k ref ∈ events

/-- The plan was there before the call, which named it if its record changed. -/
def Retold (b : PaperBook) (r : PaperBook × Except Exc (List PaperEvent)) (x : PaperPlan) : Prop :=
  ∃ y ∈ b.all, y.ref = x.ref ∧ y.id = x.id ∧ (y.record = x.record ∨ NamedIn r x.ref)

/-- Every plan after a call was there before, or is a new one under an identifier of its own, and named. -/
def Reports (b : PaperBook) (r : PaperBook × Except Exc (List PaperEvent)) : Prop :=
  ∀ x ∈ r.1.all, Retold b r x ∨ (x.ref = b.made ∧ (∀ y ∈ b.all, y.id ≠ x.id) ∧ NamedIn r x.ref)

variable {b : PaperBook} {r : PaperBook × Except Exc (List PaperEvent)} {s : PaperStore} {at_ : String}

theorem Reports.keyed (h : Reports b r) (hk : b.Keyed) : r.1.Keyed := by
  intro x hx y hy hid
  rcases h x hx with ⟨u, hu, hur, hui, -⟩ | ⟨hxr, hxi, -⟩
  · rcases h y hy with ⟨v, hv, hvr, hvi, -⟩ | ⟨-, hyi, -⟩
    · exact hur.symm.trans ((hk u hu v hv (hui.trans (hid.trans hvi.symm))).trans hvr)
    · exact absurd (hui.trans hid) (hyi u hu)
  · rcases h y hy with ⟨v, hv, -, hvi, -⟩ | ⟨hyr, -, -⟩
    · exact absurd (hvi.trans hid.symm) (hxi v hv)
    · exact hxr.trans hyr.symm

theorem Reports.matches (h : Reports b r) (hk : b.Keyed) (hb : WellKept r.1) (hs : s.Matches b) : (s.keep r.1 at_ r.2).Matches r.1 := by
  have hkeyed := h.keyed hk
  have hnamed : ∀ x ∈ r.1.all, NamedIn r x.ref → (s.keep r.1 at_ r.2).Has x := fun x hx ⟨events, he, k, hm⟩ => by
    rw [he]
    exact PaperStore.has_foldl hb hkeyed hx hm
  intro x hx
  rcases h x hx with ⟨y, hy, -, hid, hrec | hn⟩ | ⟨-, -, hn⟩
  · obtain ⟨row, hrow, hrid, hstate, hrecord⟩ := hs y hy
    have hhas : s.Has x := ⟨row, hrow, hrid.trans hid, hstate.trans (congrArg PaperPlan.Record.state hrec), hrecord.trans hrec⟩
    cases r.2 with
    | error e => exact hhas
    | ok events => exact hhas.foldl hb hkeyed hx
  · exact hnamed x hx hn
  · exact hnamed x hx hn

variable [PaperHost] {t : PaperSettings} {u : PaperBook} {p : PaperPlan} {row : LedgerFields} {line : Nat} {now label : String}

omit [PaperHost] in
theorem reports_same {r : Except Exc (List PaperEvent)} (h : u.all = b.all) : Reports b (u, r) :=
  fun x hx => Or.inl ⟨x, h ▸ hx, rfl, rfl, Or.inl rfl⟩

omit [PaperHost] in
/-- A new plan is named, be it held or armed. -/
theorem Placed.reports (h : Placed t { b with made := b.made + 1 } p r) (hr : p.ref = b.made) (hid : ∀ y ∈ b.all, y.id ≠ p.id)
    (hfree : ∀ e ∈ b.plans, e.1 ≠ p.label) : Reports b r := by
  cases h with
  | dropped e => exact reports_same rfl
  | held lots limit reason =>
    intro x hx
    have hold : x ∈ b.all ∨ x = { p with lots, limit, state := .held, reason } := by
      simp only [hold, all, lives, List.mem_append, List.mem_singleton] at hx ⊢
      tauto
    rcases hold with hx | rfl
    · exact Or.inl ⟨x, hx, rfl, rfl, Or.inl rfl⟩
    · exact Or.inr ⟨hr, hid, _, rfl, _, List.mem_singleton.mpr rfl⟩
  | armed lots limit _ =>
    intro x hx
    rcases mem_all_arm (p := { p with lots, limit }) hfree hx with hx | rfl
    · exact Or.inl ⟨x, hx, rfl, rfl, Or.inl rfl⟩
    · exact Or.inr ⟨hr, hid, _, rfl, _, List.mem_singleton.mpr rfl⟩

omit [PaperHost] in
/-- A turn is named unless it leaves the record as it was. -/
theorem retold_turn {p' : PaperPlan} {r : Except Exc (List PaperEvent)} (hb : WellKept b) (hp : p ∈ b.lives)
    (hs : PaperPlan.Same p p') (htold : PaperPlan.Told p (p', r)) (hraise : ∀ e, r = .error e → p'.record = p.record) :
    ∀ x ∈ (b.put p').all, Retold b (b.put p', r) x := by
  intro x hx
  rcases hb.mem_all_put hp hs.ref hs.label hx with rfl | ⟨hx, -⟩
  · refine ⟨p, List.mem_append_left _ hp, hs.ref.symm, hs.id.symm, ?_⟩
    by_cases hrec : x.record = p.record
    · exact Or.inl hrec.symm
    · cases r with
      | error e => exact absurd (hraise e rfl) hrec
      | ok events =>
        obtain ⟨e, he⟩ := List.exists_mem_of_ne_nil events (htold.told events rfl hrec)
        have href := htold.about events rfl e he
        cases e with
        | ignored label reason => cases href
        | plan k ref =>
          obtain rfl := Option.some.inj href
          exact Or.inr ⟨events, rfl, k, hs.ref ▸ he⟩
  · exact ⟨x, hx, rfl, rfl, Or.inl rfl⟩

/-- When the evaluation of a live plan raises, no plan that was evaluated on that quote has changed
its state, its fill or its exit. -/
def Lossless (t : PaperSettings) (q : PaperQuote) (rest : List PaperPlan) : Prop :=
  (∃ p ∈ rest, (p.onQuote t q).2.isOk = false) → ∀ e ∈ evaluations t q rest, (e.1.onQuote t q).1.record = e.1.record

/-- An intent replaces no plan that still waits, and makes no plan under an identifier that was used. -/
def Orderly (t : PaperSettings) (b : PaperBook) : PaperCall → Prop
  | .row row line _ => row.get "symbol" = some t.symbol → row.get "kind" = some "intent" → ∀ label kind v, row.get "label" = some label →
      orderType? (row.getD "detail" (some "")) = some kind → row.prices = .ok v →
      (∀ p, b.live? label = some p → p.state = .filled ∨ p.same v row.side ≠ .ok false)
      ∧ (b.live? label = none → t.accepts (row.getD "grade" (some "")) = true → ∀ x ∈ b.all, x.id ≠ label ++ "@" ++ Nat.repr line)
  | .quote q => Lossless t q b.lives

theorem RowEffect.reports (hr : RowEffect t b row line now r) (hb : WellKept b) (ho : Orderly t b (.row row line now)) : Reports b r := by
  cases hr with
  | quiet _ => exact reports_same rfl
  | turn hp hs _ _ htold hraise => exact fun x hx => Or.inl (retold_turn hb hp hs htold hraise x hx)
  | made hsymbol hk hlabel hkind hv hl =>
    have hfresh := (ho hsymbol hk _ _ _ hlabel hkind hv).2 hl
    unfold create
    dsimp only
    split
    · next hg => exact (placed_place rfl).reports rfl (hfresh hg) (hb.free (hb.live?_eq_none hl))
    · exact reports_same rfl
  | replaced hsymbol hk hlabel hkind hv hl hopen hsame =>
    rcases (ho hsymbol hk _ _ _ hlabel hkind hv).1 _ hl with hf | hd
    · rw [hf] at hopen
      simp at hopen
    · exact absurd hsame hd

theorem visit_raises {q : PaperQuote} {rest : List PaperPlan} {e : Exc} (h : (b.visit t q rest).2 = .error e) :
    ∃ p ∈ rest, (p.onQuote t q).2.isOk = false := by
  induction rest generalizing b with
  | nil => cases h
  | cons p rest ih =>
    rcases hq : p.onQuote t q with ⟨p', r⟩
    cases r with
    | error e' => exact ⟨p, by simp, by rw [hq]; rfl⟩
    | ok events =>
      simp only [visit, hq] at h
      rcases hv : visit t q (b.put p') rest with ⟨u, r⟩
      rw [hv] at h
      cases r with
      | ok more => cases h
      | error e' =>
        obtain ⟨x, hx, hraise⟩ := ih (b := b.put p') (by rw [hv]; exact h)
        exact ⟨x, List.mem_cons_of_mem _ hx, hraise⟩

theorem retold_visit {q : PaperQuote} {rest pre : List PaperPlan} (hb : WellKept b) (hrest : b.lives = pre ++ rest)
    (hl : Lossless t q rest) : ∀ x ∈ (b.visit t q rest).1.all, Retold b (b.visit t q rest) x := by
  induction rest generalizing b pre with
  | nil => exact fun x hx => ⟨x, hx, rfl, rfl, Or.inl rfl⟩
  | cons p rest ih =>
    have hp : p ∈ b.lives := by rw [hrest]; simp
    obtain ⟨hs, -⟩ := p.onQuote_turn (t := t) (q := q)
    have htold := p.onQuote_told (t := t) (q := q)
    have hput := hb.put hp hs.ref hs.label
    have hlives := hb.lives_put hrest hs.ref hs.label
    rcases hq : p.onQuote t q with ⟨p', r⟩
    rw [hq] at hs htold hput hlives
    cases r with
    | error e =>
      have hrec : p'.record = p.record := by
        have h := hl ⟨p, by simp, by rw [hq]; rfl⟩ (p, q) (by simp [evaluations])
        rwa [hq] at h
      simp only [visit, hq]
      exact retold_turn hb hp hs htold fun _ _ => hrec
    | ok events =>
      have hlog : evaluations t q (p :: rest) = (p, q) :: evaluations t q rest := by
        simp [evaluations, hq, Except.isOk, Except.toBool]
      have hmore : Lossless t q rest := by
        rintro ⟨x, hx, hraise⟩ e he
        exact hl ⟨x, List.mem_cons_of_mem _ hx, hraise⟩ e (hlog ▸ List.mem_cons_of_mem _ he)
      have hfirst := retold_turn hb hp hs htold fun e he => by cases he
      have hvisit := ih hput hlives hmore
      have hraised : ∀ e, (visit t q (b.put p') rest).2 = .error e → p'.record = p.record := fun e he => by
        obtain ⟨x, hx, hraise⟩ := visit_raises he
        have h := hl ⟨x, List.mem_cons_of_mem _ hx, hraise⟩ (p, q) (hlog ▸ List.mem_cons_self)
        rwa [hq] at h
      simp only [visit, hq]
      rcases hv : visit t q (b.put p') rest with ⟨u, r⟩
      rw [hv] at hvisit hraised
      cases r with
      | error e =>
        intro x hx
        obtain ⟨y, hy, hyr, hyi, hrec | ⟨_, he, _⟩⟩ := hvisit x hx
        · obtain ⟨z, hz, hzr, hzi, hrec' | hn⟩ := retold_turn (r := .error e) hb hp hs PaperPlan.told_error (fun _ _ => hraised e rfl) y hy
          · exact ⟨z, hz, hzr.trans hyr, hzi.trans hyi, Or.inl (hrec'.trans hrec)⟩
          · obtain ⟨_, he, _⟩ := hn
            cases he
        · cases he
      | ok more =>
        intro x hx
        obtain ⟨y, hy, hyr, hyi, hrec⟩ := hvisit x hx
        obtain ⟨z, hz, hzr, hzi, hrec'⟩ := hfirst y hy
        refine ⟨z, hz, hzr.trans hyr, hzi.trans hyi, ?_⟩
        rcases hrec with hrec | ⟨_, he, k, hm⟩
        · rcases hrec' with hrec' | ⟨_, he, k, hm⟩
          · exact Or.inl (hrec'.trans hrec)
          · obtain rfl := Except.ok.inj he
            exact Or.inr ⟨_, rfl, k, List.mem_append_left _ (hyr ▸ hm)⟩
        · obtain rfl := Except.ok.inj he
          exact Or.inr ⟨_, rfl, k, List.mem_append_right _ hm⟩

theorem reports_call {c : PaperCall} (hb : WellKept b) (ho : Orderly t b c) : Reports b (b.call t c) := by
  cases c with
  | row row line now => exact (rowEffect_applyRow hb).reports hb ho
  | quote q => exact fun x hx => Or.inl (retold_visit hb (show b.lives = [] ++ b.lives from rfl) ho x hx)

/-- A session: after each call the events that it returned are written. -/
inductive Session (t : PaperSettings) : PaperStore → PaperBook → Prop
  | nil : Session t {} {}
  | call {s : PaperStore} {b : PaperBook} (h : Session t s b) (c : PaperCall) :
      Session t (s.keep (b.call t c).1 c.now (b.call t c).2) (b.call t c).1

/-- A session all of whose calls are orderly. -/
inductive OrderlySession (t : PaperSettings) : PaperStore → PaperBook → Prop
  | nil : OrderlySession t {} {}
  | call {s : PaperStore} {b : PaperBook} (h : OrderlySession t s b) (c : PaperCall) (ho : Orderly t b c) :
      OrderlySession t (s.keep (b.call t c).1 c.now (b.call t c).2) (b.call t c).1

/-- As long as no intent replaces a waiting plan or takes a used identifier, and no quote raises after
it changed a plan, the table shows every plan of the book as it is after every call. -/
theorem session_matches (h : OrderlySession t s b) : s.Matches b := by
  have hall : WellKept b ∧ b.Keyed ∧ s.Matches b := by
    induction h with
    | nil => exact ⟨wellKept_empty, fun x hx => by simp [all, lives] at hx, fun x hx => by simp [all, lives] at hx⟩
    | call h c ho ih =>
      obtain ⟨hb, hk, hs⟩ := ih
      have hreports := reports_call hb ho
      have hb' := hb.steps (steps_call (t := t) (c := c) hb)
      exact ⟨hb', hreports.keyed hk, hreports.matches hk hb' hs⟩
  exact hall.2.2

/-- The calls made one after the other, with the table that they leave. -/
def session (t : PaperSettings) (cs : List PaperCall) : PaperStore × PaperBook :=
  cs.foldl (fun a c => (a.1.keep (a.2.call t c).1 c.now (a.2.call t c).2, (a.2.call t c).1)) ({}, {})

theorem session_session (cs : List PaperCall) : Session t (session t cs).1 (session t cs).2 := by
  induction cs using List.reverseRecOn with
  | nil => exact .nil
  | append_singleton cs c ih =>
    rw [session, List.foldl_append]
    exact .call ih c

end PaperBook

section Example

attribute [local instance] samplePaperHost

theorem session_matches_intent : ∃ s b, PaperBook.OrderlySession samplePaper s b ∧ b.all ≠ [] ∧ s.Matches b := by
  have ho : PaperBook.Orderly samplePaper {} (.row (sampleRow "intent" "100" "90" "120") 0 "now") :=
    fun _ _ label kind v _ _ _ => ⟨fun p hp => (by cases hp), fun _ _ x hx => by simp [PaperBook.all, PaperBook.lives] at hx⟩
  have h := PaperBook.OrderlySession.call .nil _ ho
  exact ⟨_, _, h, by decide +kernel, PaperBook.session_matches h⟩

/-- A second intent at another price takes the place of a plan that is armed. -/
def sampleReplaced : List PaperCall :=
  [.row (sampleRow "intent" "100" "90" "120") 0 "now", .row (sampleRow "intent" "101" "90" "120") 1 "now"]

theorem replaced_plan_stale : ∃ s b, PaperBook.Session samplePaper s b ∧ ¬ s.Matches b :=
  ⟨_, _, PaperBook.session_session sampleReplaced, by decide +kernel⟩

end Example

end MatchTrader
