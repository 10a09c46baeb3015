import MatchTrader.PaperSteps

/-! The lifecycle of a paper plan: it is kept in one place, what is over stays as it is, and a
filled plan leaves through its stop or its target. -/

namespace MatchTrader

namespace PaperPlan

/-- What a plan may be later on. -/
structure Follows (p p' : PaperPlan) : Prop where
  same : Same p p'
  ended : p.state.terminal = true → p' = p
  filled : p.state = .filled → p'.state = .filled ∨ p'.state = .closed
  frozen : p.state = .filled → p'.terms = p.terms ∧ p'.fillPrice = p.fillPrice

variable {p p' p'' : PaperPlan}

theorem Follows.refl (p : PaperPlan) : Follows p p := ⟨.refl p, fun _ => rfl, Or.inl, fun _ => ⟨rfl, rfl⟩⟩

theorem Follows.trans (h : Follows p p') (h' : Follows p' p'') : Follows p p'' := by
  refine ⟨h.same.trans h'.same, fun ht => ?_, fun hf => ?_, fun hf => ?_⟩
  · have hp := h.ended ht
    rw [h'.ended (hp ▸ ht), hp]
  · rcases h.filled hf with hp | hp
    · exact h'.filled hp
    · exact Or.inr (by rw [h'.ended (by rw [hp]; rfl), hp])
  · obtain ⟨hterms, hfill⟩ := h.frozen hf
    rcases h.filled hf with hp | hp
    · obtain ⟨hterms', hfill'⟩ := h'.frozen hp
      exact ⟨hterms'.trans hterms, hfill'.trans hfill⟩
    · rw [h'.ended (by rw [hp]; rfl)]
      exact ⟨hterms, hfill⟩

theorem Turn.follows [PaperHost] {t : PaperSettings} {q : Option PaperQuote} (hlive : p.state.terminal = false)
    (hs : Same p p') (h : Turn t q p p') : Follows p p' := by
  have hover : p.state.terminal = true → p' = p := fun ht => absurd ht (by rw [hlive]; exact Bool.false_ne_true)
  have hready : p.state = .filled → ¬ (p.state = .armed ∨ p.state = .working) := fun hf => by rw [hf]; simp
  cases h with
  | kept hr ht =>
    exact ⟨hs, hover, fun hf => Or.inl ((congrArg Record.state hr).trans hf), fun _ => ⟨ht, congrArg Record.fillPrice hr⟩⟩
  | repriced ha _ _ => exact ⟨hs, hover, fun hf => absurd (Or.inl ha) (hready hf), fun hf => absurd (Or.inl ha) (hready hf)⟩
  | ended ha _ _ _ => exact ⟨hs, hover, fun hf => absurd ha (hready hf), fun hf => absurd ha (hready hf)⟩
  | triggered _ ha _ _ _ _ _ _ _ =>
    exact ⟨hs, hover, fun hf => absurd (Or.inl ha) (hready hf), fun hf => absurd (Or.inl ha) (hready hf)⟩
  | filled _ hfill hs' _ _ _ _ =>
    refine ⟨hs, hover, fun _ => Or.inl hs', fun hf => absurd ?_ (hready hf)⟩
    cases hfill with
    | limit ha _ _ => exact Or.inl ha
    | market ha _ _ _ _ _ => exact Or.inl ha
    | resting hw _ => exact Or.inr hw
  | leaving _ hs' hf _ _ ht => exact ⟨hs, hover, fun _ => Or.inl hs', fun _ => ⟨ht, hf⟩⟩
  | closed _ hs' hf _ _ ht _ => exact ⟨hs, hover, fun _ => Or.inr hs', fun _ => ⟨ht, hf⟩⟩

theorem Turn.settled [PaperHost] {t : PaperSettings} {q : Option PaperQuote} (hlive : p.state.terminal = false)
    (h : Turn t q p p') (hc : p'.state = .closed) : Settled t p' := by
  cases h with
  | kept hr _ =>
    have hstate := (congrArg Record.state hr).symm.trans hc
    rw [show p.state = .closed from hstate] at hlive
    cases hlive
  | repriced ha hr _ =>
    have hstate := (congrArg Record.state hr).symm.trans hc
    rw [show p.state = .closed from hstate] at ha
    cases ha
  | ended _ hs' _ _ => rw [hc] at hs'; simp at hs'
  | triggered _ _ _ _ _ _ hs' _ _ => rw [hc] at hs'; cases hs'
  | filled _ _ hs' _ _ _ _ => rw [hc] at hs'; cases hs'
  | leaving _ hs' _ _ _ _ => rw [hc] at hs'; cases hs'
  | closed _ _ _ _ _ _ hset => exact hset

end PaperPlan

namespace PaperBook

variable [PaperHost] {t : PaperSettings} {q : Option PaperQuote} {b b' : PaperBook} {p : PaperPlan}
  {calls : List (PaperCall × Except Exc (List PaperEvent))}

/-- The closed plans are settled. -/
def Settled (t : PaperSettings) (b : PaperBook) : Prop := ∀ p ∈ b.all, p.state = .closed → p.Settled t

theorem Settled.step (h : Settled t b) (hb : WellKept b) (hs : Step t q b b') : Settled t b' := by
  refine step_all hb hs h (fun p p' hp _ ht _ _ => ht.settled (hb.live p hp)) (fun p hheld _ hc => ?_) fun p _ harmed _ _ _ hc => ?_
  · rw [hheld] at hc
    cases hc
  · rw [harmed] at hc
    cases hc

theorem done_step (hb : WellKept b) (hs : Step t q b b') : b.done <+: b'.done := by
  cases hs with
  | turn hp hsame _ _ => exact ⟨_, (hb.done_put hp hsame.ref hsame.label).symm⟩
  | grow => exact List.prefix_rfl
  | hold => exact List.prefix_append _ _
  | arm => exact List.prefix_rfl

theorem follows_step (hb : WellKept b) (hs : Step t q b b') (hp : p ∈ b.all) : ∃ p' ∈ b'.all, PaperPlan.Follows p p' := by
  have hlater : ∀ {x : PaperPlan}, x ∈ b'.all → x = p → ∃ p' ∈ b'.all, PaperPlan.Follows p p' :=
    fun {x} hx he => ⟨x, hx, he ▸ .refl x⟩
  rcases List.mem_append.mp hp with hlive | hdone
  · cases hs with
    | @turn r r' hr hsame ht _ =>
      obtain ⟨pre, post, hsplit⟩ := List.append_of_mem hr
      have hput := hb.lives_put hsplit hsame.ref hsame.label
      have hdone := hb.done_put hr hsame.ref hsame.label
      rw [hsplit] at hlive
      have hmem : ∀ x, x ∈ pre ∨ x ∈ post → x ∈ (b.put r').all := by
        intro x hx
        simp only [all, hput, List.mem_append]
        tauto
      simp only [List.mem_append, List.mem_cons] at hlive
      rcases hlive with hx | rfl | hx
      · exact hlater (hmem p (Or.inl hx)) rfl
      · refine ⟨r', ?_, ht.follows (hb.live p hr) hsame⟩
        simp only [all, hput, hdone, List.mem_append]
        cases r'.state.terminal <;> simp
      · exact hlater (hmem p (Or.inr hx)) rfl
    | grow => exact hlater hp rfl
    | hold => exact hlater (List.mem_append_left _ hlive) rfl
    | @arm r hr hnew hfree =>
      refine hlater (List.mem_append_left _ ?_) rfl
      rw [lives_arm (hb.free hfree)]
      exact List.mem_append_left _ hlive
  · exact hlater (List.mem_append_right _ ((done_step hb hs).subset hdone)) rfl

/-- No call names a plan that the book does not keep. -/
def Names (b : PaperBook) (events : List PaperEvent) : Prop := ∀ e ∈ events, ∀ ref, e.ref? = some ref → ref ∈ b.all.map PaperPlan.ref

end PaperBook

namespace PaperBook

variable [PaperHost] {t : PaperSettings} {q : Option PaperQuote} {b b' : PaperBook} {p p' : PaperPlan} {row : LedgerFields}
  {label now : String} {line : Nat} {events : List PaperEvent} {calls : List (PaperCall × Except Exc (List PaperEvent))}

theorem follows_steps (hb : WellKept b) (hs : Steps t q b b') (hp : p ∈ b.all) : ∃ p' ∈ b'.all, PaperPlan.Follows p p' := by
  induction hs with
  | refl => exact ⟨p, hp, .refl p⟩
  | tail hs hstep ih =>
    obtain ⟨p', hp', hf⟩ := ih
    obtain ⟨p'', hp'', hf'⟩ := follows_step (hb.steps hs) hstep hp'
    exact ⟨p'', hp'', hf.trans hf'⟩

theorem Names.steps (hb : WellKept b) (hs : Steps t q b b') (h : Names b events) : Names b' events := by
  intro e he ref hr
  obtain ⟨p, hp, rfl⟩ := List.mem_map.mp (h e he ref hr)
  obtain ⟨p', hp', hf⟩ := follows_steps hb hs hp
  exact List.mem_map.mpr ⟨p', hp', hf.same.ref⟩

omit [PaperHost] in
/-- The events about a plan name it wherever it has gone. -/
theorem names_put {r : Except Exc (List PaperEvent)} (hb : WellKept b) (hp : p ∈ b.lives) (hs : PaperPlan.Same p p')
    (h : PaperPlan.Told p (p', r)) (hr : r = .ok events) : Names (b.put p') events := by
  intro e he ref href
  obtain rfl := Option.some.inj (href.symm.trans (h.about events hr e he))
  obtain ⟨pre, post, hsplit⟩ := List.append_of_mem hp
  refine List.mem_map.mpr ⟨p', ?_, hs.ref⟩
  rw [all, hb.lives_put hsplit hs.ref hs.label, hb.done_put hp hs.ref hs.label]
  cases p'.state.terminal <;> simp

omit [PaperHost] in
theorem names_hold {reason : String} (h : (b.hold p reason).2 = .ok events) : Names (b.hold p reason).1 events := by
  intro e he ref hr
  obtain rfl := Except.ok.inj h
  obtain rfl := List.mem_singleton.mp he
  refine List.mem_map.mpr ⟨{ p with state := .held, reason }, ?_, Option.some.inj hr⟩
  exact List.mem_append_right _ (List.mem_append_right _ (List.mem_singleton.mpr rfl))

omit [PaperHost] in
theorem names_arm (hfree : ∀ e ∈ b.plans, e.1 ≠ p.label) (h : (b.arm p).2 = .ok events) : Names (b.arm p).1 events := by
  intro e he ref hr
  obtain rfl := Except.ok.inj h
  obtain rfl := List.mem_singleton.mp he
  refine List.mem_map.mpr ⟨p, List.mem_append_left _ ?_, Option.some.inj hr⟩
  rw [lives_arm hfree]
  simp

omit [PaperHost] in
theorem Placed.names {r : PaperBook × Except Exc (List PaperEvent)} (h : Placed t b p r) (hfree : ∀ e ∈ b.plans, e.1 ≠ p.label)
    (hr : r.2 = .ok events) : Names r.1 events := by
  cases h with
  | dropped e => cases hr
  | held lots limit reason => exact names_hold hr
  | armed lots limit _ => exact names_arm (p := { p with lots, limit }) hfree hr

omit [PaperHost] in
theorem names_none (h : (.ok [] : Except Exc (List PaperEvent)) = .ok events) : Names b events := by
  obtain rfl := Except.ok.inj h
  intro e he
  simp at he

omit [PaperHost] in
theorem names_ignored {reason : String} (h : (.ok [.ignored label reason] : Except Exc (List PaperEvent)) = .ok events) :
    Names b events := by
  obtain rfl := Except.ok.inj h
  intro e he ref hr
  obtain rfl := List.mem_singleton.mp he
  cases hr

omit [PaperHost] in
theorem names_create {v : LedgerFields.Prices} {kind : PlanKind} (hfree : ∀ e ∈ b.plans, e.1 ≠ label)
    (h : (create t b row label line now kind v).2 = .ok events) : Names (create t b row label line now kind v).1 events := by
  unfold create at h ⊢
  dsimp only at h ⊢
  split at h
  · next hg =>
    rw [if_pos hg]
    exact Placed.names (placed_place rfl) hfree h
  · next hg =>
    rw [if_neg hg]
    exact names_ignored h

/-- What a call names after it returned. -/
def Named (r : PaperBook × Except Exc (List PaperEvent)) : Prop := ∀ events, r.2 = .ok events → Names r.1 events

theorem RowEffect.named {r : PaperBook × Except Exc (List PaperEvent)} (hr : RowEffect t b row line now r) (hb : WellKept b) : Named r := by
  cases hr with
  | quiet h => exact fun events he e hm ref href => by rw [h events he e hm] at href; cases href
  | turn hp hs _ _ htold _ => exact fun events he => names_put hb hp hs htold he
  | made _ _ _ _ _ hl => exact fun _ => names_create (hb.free (hb.live?_eq_none hl))
  | @replaced p kind v _ _ _ _ _ hl _ _ =>
    obtain ⟨hp, -⟩ := hb.live?_eq_some hl
    have hput : WellKept (b.put (p.finish .cancelled "replaced by a re-priced intent for the same label" now)) := hb.put hp rfl rfl
    exact fun _ => names_create (hput.free (hb.free_put hp rfl rfl rfl))

theorem named_visit {q : PaperQuote} {rest pre : List PaperPlan} (hb : WellKept b) (hrest : b.lives = pre ++ rest) :
    Named (b.visit t q rest) := by
  induction rest generalizing b pre with
  | nil => exact fun _ => names_none
  | cons p rest ih =>
    have hp : p ∈ b.lives := by rw [hrest]; simp
    obtain ⟨hs, ht⟩ := p.onQuote_turn (t := t) (q := q)
    have hput := hb.put hp hs.ref hs.label
    have hsplit := hb.lives_put hrest hs.ref hs.label
    have hmore := ih hput hsplit
    have hsteps := steps_visit (t := t) (q := q) hput hsplit
    have hnames : ∀ events, (p.onQuote t q).2 = .ok events → Names (b.put (p.onQuote t q).1) events :=
      fun events h => names_put hb hp hs p.onQuote_told h
    unfold visit
    split
    · exact fun _ h => by cases h
    · next p' events he =>
      rw [he] at hput hmore hsteps hnames
      split
      · exact fun _ h => by cases h
      · next b' more hv =>
        rw [hv] at hmore hsteps
        have hfirst := (hnames _ rfl).steps hput hsteps
        intro all h e hm ref hr
        obtain rfl := Except.ok.inj h
        rcases List.mem_append.mp hm with hm | hm
        · exact hfirst e hm ref hr
        · exact hmore _ rfl e hm ref hr

theorem named_call {c : PaperCall} (hb : WellKept b) : Named (b.call t c) := by
  cases c with
  | row row line now => exact (rowEffect_applyRow hb).named hb
  | quote q => exact named_visit hb (show b.lives = [] ++ b.lives from rfl)

theorem Run.names (hr : Run t {} calls b) : ∀ c ∈ calls, ∀ events, c.2 = .ok events → Names b events := by
  induction hr with
  | nil => intro c hc; simp at hc
  | @call v calls hr c ih =>
    have hv := wellKept_empty.run hr
    intro x hx events he
    rcases List.mem_append.mp hx with hx | hx
    · exact (ih x hx events he).steps hv (steps_call hv)
    · obtain rfl := List.mem_singleton.mp hx
      exact named_call hv events he

theorem Run.settled (hr : Run t {} calls b) : Settled t b :=
  (hr.invariant wellKept_empty (I := Settled t) (fun x hx => by simp [all, lives] at hx) fun _ _ _ hv h hs => h.step hv hs).2

/-- What is over stays as it is, and the others follow on. -/
theorem Run.later (hb : WellKept b) (hr : Run t b calls b') :
    b.done <+: b'.done ∧ ∀ p ∈ b.all, ∃ p' ∈ b'.all, PaperPlan.Follows p p' := by
  refine (hr.invariant hb (I := fun v => b.done <+: v.done ∧ ∀ p ∈ b.all, ∃ p' ∈ v.all, PaperPlan.Follows p p')
    ⟨List.prefix_rfl, fun p hp => ⟨p, hp, .refl p⟩⟩ fun v u q hv h hs => ⟨h.1.trans (done_step hv hs), fun p hp => ?_⟩).2
  obtain ⟨p', hp', hf⟩ := h.2 p hp
  obtain ⟨p'', hp'', hf'⟩ := follows_step hv hs hp'
  exact ⟨p'', hp'', hf.trans hf'⟩

/-- How often an object is kept. -/
def copies (b : PaperBook) (ref : Nat) : Nat := (b.lives.map PaperPlan.ref).count ref + (b.done.map PaperPlan.ref).count ref

omit [PaperHost] in
theorem WellKept.copies_eq_one (hb : WellKept b) (hp : p ∈ b.all) : b.copies p.ref = 1 := by
  have hcount := List.count_eq_one_of_mem hb.refs (List.mem_map_of_mem (f := PaperPlan.ref) hp)
  rwa [all, List.map_append, List.count_append] at hcount

/-- Whatever rows and quotes come, and whatever calls raise: an armed plan is live or finished and
never both, live plans are armed, working or filled, one for each label, what is over stays as it
is, a filled plan can only close, and a closed one has left at its stop or its target with the
profit of its prices. -/
theorem plan_lifecycle (hr : Run t {} calls b) :
    (∀ c ∈ calls, ∀ events ref, c.2 = .ok events → .plan .armed ref ∈ events → b.copies ref = 1)
    ∧ (b.plans.map Prod.fst).Nodup
    ∧ (∀ e ∈ b.plans, e.1 = e.2.label ∧ (e.2.state = .armed ∨ e.2.state = .working ∨ e.2.state = .filled))
    ∧ (∀ p ∈ b.done, p.state = .cancelled ∨ p.state = .expired ∨ p.state = .held ∨ p.state = .closed ∧ p.Settled t)
    ∧ ∀ more b', Run t b more b' → b.done <+: b'.done ∧ ∀ p ∈ b.lives, p.state = .filled →
        ∃ p' ∈ b'.all, p'.ref = p.ref ∧ (p'.state = .filled ∨ p'.state = .closed) := by
  have hb := wellKept_empty.run hr
  refine ⟨fun c hc events ref he hm => ?_, ?_, fun e he => ⟨hb.keyed e he, ?_⟩, fun p hp => ?_, fun more b' hmore => ?_⟩
  · obtain ⟨p, hp, rfl⟩ := List.mem_map.mp (hr.names c hc events he _ hm ref rfl)
    exact hb.copies_eq_one hp
  · have hkeys : b.plans.map Prod.fst = b.lives.map PaperPlan.label := by
      rw [lives, List.map_map]
      exact List.map_congr_left hb.keyed
    rw [hkeys]
    exact hb.labels
  · have hlive := hb.live e.2 (List.mem_map_of_mem he)
    cases hs : e.2.state <;> simp_all [PlanState.terminal]
  · have hover := hb.ended p hp
    have hset := hr.settled p (List.mem_append_right _ hp)
    cases hs : p.state <;> simp_all [PlanState.terminal]
  · obtain ⟨hdone, hfollows⟩ := Run.later hb hmore
    refine ⟨hdone, fun p hp hs => ?_⟩
    obtain ⟨p', hp', hf⟩ := hfollows p (List.mem_append_left _ hp)
    exact ⟨p', hp', hf.same.ref, hf.filled hs⟩

end PaperBook

section Example

attribute [local instance] samplePaperHost

/-- Risk of five, with lots of a hundredth and one grade accepted. -/
def samplePaper : PaperSettings where
  symbol := "BTCUSD"
  risk := .ofNat 5
  tolerance := .ofNat 5
  grades := ["PRIME"]

def sampleRow (kind entry sl tp : String) : LedgerFields :=
  [("kind", some kind), ("symbol", some "BTCUSD"), ("label", some "L1"), ("detail", some "resting limit at range edge"),
    ("side", some "long"), ("grade", some "PRIME"), ("entry", some entry), ("sl", some sl), ("tp", some tp)]

def sampleQuote (bid ask : Nat) (monotonic : ℚ) : PaperQuote := ⟨⟨.ofNat bid, .ofNat ask⟩, "now", monotonic⟩

/-- A plan is armed, filled at its entry and closed at its target. -/
def sampleRound : List PaperCall :=
  [.row (sampleRow "intent" "100" "90" "120") 0 "now", .quote (sampleQuote 98 99 1), .quote (sampleQuote 121 122 2)]

theorem plan_lifecycle_round : let b := (PaperBook.calls samplePaper sampleRound {}).2
    b.copies 0 = 1 ∧ b.done.map (fun p => (p.state, p.pnl)) = [(.closed, some (.finite ⟨false, 1000, -2⟩))]
      ∧ ∀ p ∈ b.done, p.state = .cancelled ∨ p.state = .expired ∨ p.state = .held ∨ p.state = .closed ∧ p.Settled samplePaper := by
  have hlaw := PaperBook.plan_lifecycle (PaperBook.run_calls (t := samplePaper) (b := {}) sampleRound)
  have harmed : ∃ c ∈ (PaperBook.calls samplePaper sampleRound {}).1, ∃ events, c.2 = .ok events ∧ .plan .armed 0 ∈ events := by
    have hany : (PaperBook.calls samplePaper sampleRound {}).1.any (fun c => c.2.toOption.any (.plan .armed 0 ∈ ·)) = true := by
      decide +kernel
    obtain ⟨c, hc, hany⟩ := List.any_eq_true.mp hany
    obtain ⟨events, he, hm⟩ := exists_ok hany
    exact ⟨c, hc, events, he, of_decide_eq_true hm⟩
  obtain ⟨c, hc, events, he, hm⟩ := harmed
  exact ⟨hlaw.1 c hc events 0 he hm, by decide +kernel, hlaw.2.2.2.1⟩

end Example

end MatchTrader
