import MatchTrader.PaperFills

/-! How long a paper plan may wait: an armed one from the first quote it was evaluated on, a working
one from the quote that triggered it. -/

namespace MatchTrader

/-- The time of the quote that a note says triggered the plan. -/
def PlanNote.trigger? : PlanNote → Option ℚ
  | triggered at_ _ => some at_
  | _ => none

theorem PlanNote.trigger?_of_plain {n : PlanNote} (h : n.plain = true) : n.trigger? = none := by
  cases n <;> first | rfl | cases h

namespace PaperPlan

/-- A plan as it was when a quote was applied to it. -/
abbrev Evaluation := PaperPlan × PaperQuote

/-- The first quote a plan was evaluated on. -/
def firstQuote (evs : List Evaluation) (ref : Nat) : Option PaperQuote := (evs.find? fun e => e.1.ref = ref).map Prod.snd

section Notes

variable {p : PaperPlan} {m : ℚ} {history notes : List PlanNote} {evs : List Evaluation} {e : Evaluation} {ref : Nat} {f : PaperQuote}

theorem seen_trigger : (seen m history).findSome? PlanNote.trigger? = history.findSome? PlanNote.trigger? := by
  unfold seen
  split <;> rfl

theorem seen_append (h : ∀ m, seen m history = .armedMono m :: history) (hn : ∀ n ∈ notes, n.plain = true) :
    seen m (history ++ notes) = .armedMono m :: (history ++ notes) := by
  cases history with
  | cons n history =>
    have hn := h m
    cases n <;> simp_all [seen]
  | nil =>
    cases notes with
    | nil => rfl
    | cons n notes =>
      have hp := hn n (by simp)
      cases n <;> first | rfl | cases hp

theorem firstQuote_append (h : firstQuote evs ref = some f) : firstQuote (evs ++ [e]) ref = some f := by
  obtain ⟨x, hx, rfl⟩ := Option.map_eq_some_iff.mp h
  simp [firstQuote, List.find?_append, hx]

theorem firstQuote_append_self (h : firstQuote evs e.1.ref = none) : firstQuote (evs ++ [e]) e.1.ref = some e.2 := by
  rw [firstQuote, Option.map_eq_none_iff] at h
  simp [firstQuote, List.find?_append, h]

theorem firstQuote_append_ne (h : e.1.ref ≠ ref) : firstQuote (evs ++ [e]) ref = firstQuote evs ref := by
  simp [firstQuote, List.find?_append, h]

end Notes

variable [PaperHost] {t : PaperSettings} {p p' : PaperPlan} {q : PaperQuote} {evs : List Evaluation} {e : Evaluation}

/-- The evaluation on which a plan left the armed ones for the working ones. -/
def Triggers (t : PaperSettings) (ref : Nat) (e : Evaluation) : Prop :=
  e.1.ref = ref ∧ e.1.state = .armed ∧ (e.1.onQuote t e.2).1.state = .working

/-- The evaluation that filled a plan. -/
def Fills (t : PaperSettings) (ref : Nat) (price : Number) (e : Evaluation) : Prop :=
  e.1.ref = ref ∧ (e.1.state = .armed ∨ e.1.state = .working) ∧ (e.1.onQuote t e.2).1.state = .filled
    ∧ (e.1.onQuote t e.2).1.fillPrice = some price

/-- What the evaluations so far left in the history of a plan. -/
structure Timed (t : PaperSettings) (evs : List Evaluation) (p : PaperPlan) : Prop where
  unseen : p.state = .armed → firstQuote evs p.ref = none → ∀ m, seen m p.history = .armedMono m :: p.history
  first : p.state = .armed → ∀ f, firstQuote evs p.ref = some f → ∃ rest, p.history = .armedMono f.monotonic :: rest
  untriggered : p.state = .armed → p.history.findSome? PlanNote.trigger? = none ∧ ∀ e ∈ evs, ¬ Triggers t p.ref e
  resting : p.state = .working → (∃ limit, p.limit = .finite limit) ∧ (∃ e ∈ evs, Triggers t p.ref e)
    ∧ ∀ e ∈ evs, Triggers t p.ref e → p.history.findSome? PlanNote.trigger? = some e.2.monotonic
  filled : ∀ price, p.fillPrice = some price → ∃ e ∈ evs, Fills t p.ref price e

/-- An armed plan after a quote: it waits on, rests at its limit, or waits no more. -/
theorem onArmed_notes (hs : p.state = .armed) :
    ((p.onArmed t q).1.state = .armed ∧ (p.onArmed t q).1.history = seen q.monotonic p.history)
    ∨ ((p.onArmed t q).1.state = .working ∧ (∃ limit, (p.onArmed t q).1.limit = .finite limit)
      ∧ ∃ reason, (p.onArmed t q).1.history = seen q.monotonic p.history ++ [.triggered q.monotonic reason])
    ∨ ((p.onArmed t q).1.state ≠ .armed ∧ (p.onArmed t q).1.state ≠ .working) := by
  unfold onArmed
  dsimp only
  split
  · exact Or.inr (Or.inr ⟨nofun, nofun⟩)
  · split
    · split
      · exact Or.inl ⟨hs, rfl⟩
      · exact Or.inl ⟨hs, rfl⟩
      · exact Or.inr (Or.inr ⟨nofun, nofun⟩)
    · split
      · exact Or.inl ⟨hs, rfl⟩
      · next plan hplan =>
        split
        · exact Or.inl ⟨hs, rfl⟩
        · next d hd =>
          unfold take
          split
          · exact Or.inl ⟨hs, rfl⟩
          · next hm =>
            have hprice := (StopLimit.decide_market hd hm).2.2
            split
            · exact Or.inr (Or.inr ⟨nofun, nofun⟩)
            · next hnone =>
              rw [hnone] at hprice
              cases hprice
          · exact Or.inr (Or.inr ⟨nofun, nofun⟩)
          · exact Or.inr (Or.inl ⟨rfl, ⟨plan.limitPrice, (PaperSettings.stopPlan_spec hplan).2.2⟩, d.reason, rfl⟩)

/-- A working plan after a quote is as it was, or waits no more. -/
theorem onWorking_kept : (p.onWorking t q).1 = p
    ∨ ((p.onWorking t q).1.state ≠ .armed ∧ (p.onWorking t q).1.state ≠ .working) := by
  unfold onWorking
  split
  · exact Or.inl rfl
  · exact Or.inr ⟨nofun, nofun⟩
  · split
    · exact Or.inr ⟨nofun, nofun⟩
    · exact Or.inl rfl

/-- Only an armed or a working plan waits after a quote. -/
theorem onQuote_waits (ha : p.state ≠ .armed) (hw : p.state ≠ .working) :
    (p.onQuote t q).1.state ≠ .armed ∧ (p.onQuote t q).1.state ≠ .working := by
  have hover : ∀ {x : PaperPlan}, x.state = p.state → x.state ≠ .armed ∧ x.state ≠ .working := fun he => by rw [he]; exact ⟨ha, hw⟩
  cases (p.onQuote_turn (t := t) (q := q)).2 with
  | kept hr _ => exact hover (congrArg Record.state hr)
  | repriced _ hr _ => exact hover (congrArg Record.state hr)
  | ended hs _ _ _ => exact (hs.elim ha hw).elim
  | triggered _ hs _ _ _ _ _ _ _ => exact absurd hs ha
  | filled _ _ hs' _ _ _ _ => rw [hs']; decide
  | leaving _ hs' _ _ _ _ => rw [hs']; decide
  | closed _ hs' _ _ _ _ _ => rw [hs']; decide

/-- What a plan was filled on, after one more evaluation. -/
theorem filled_evaluate {price : Number} (h : ∀ price, p.fillPrice = some price → ∃ e ∈ evs, Fills t p.ref price e)
    (hf : (p.onQuote t q).1.fillPrice = some price) : ∃ e ∈ evs ++ [(p, q)], Fills t (p.onQuote t q).1.ref price e := by
  obtain ⟨hsame, ht⟩ := p.onQuote_turn (t := t) (q := q)
  rw [hsame.ref]
  have hbefore : (p.onQuote t q).1.fillPrice = p.fillPrice → ∃ e ∈ evs ++ [(p, q)], Fills t p.ref price e := fun he => by
    obtain ⟨e, hm, hfills⟩ := h price (he.symm.trans hf)
    exact ⟨e, List.mem_append_left _ hm, hfills⟩
  cases ht with
  | kept hr _ => exact hbefore (congrArg Record.fillPrice hr)
  | repriced _ hr _ => exact hbefore (congrArg Record.fillPrice hr)
  | ended _ _ he _ => exact hbefore he
  | triggered _ _ _ _ _ _ _ he _ => exact hbefore he
  | filled _ hfill hs' _ _ _ _ =>
    refine ⟨(p, q), by simp, rfl, ?_, hs', hf⟩
    cases hfill with
    | limit ha _ _ => exact Or.inl ha
    | market ha _ _ _ _ _ => exact Or.inl ha
    | resting hw _ => exact Or.inr hw
  | leaving _ _ he _ _ _ => exact hbefore he
  | closed _ _ he _ _ _ _ => exact hbefore he

/-- A plan that does not wait has nothing to tell but its fill. -/
theorem timed_of_over (ha : p.state ≠ .armed) (hw : p.state ≠ .working)
    (hf : ∀ price, p.fillPrice = some price → ∃ e ∈ evs, Fills t p.ref price e) : Timed t evs p :=
  ⟨fun h => absurd h ha, fun h => absurd h ha, fun h => absurd h ha, fun h => absurd h hw, hf⟩

/-- The note of the first quote is there after every evaluation of an armed plan. -/
theorem Timed.seen (h : Timed t evs p) (ha : p.state = .armed) : ∃ f, firstQuote (evs ++ [(p, q)]) p.ref = some f
    ∧ ∃ rest, PaperPlan.seen q.monotonic p.history = .armedMono f.monotonic :: rest := by
  cases hfirst : firstQuote evs p.ref with
  | none => exact ⟨q, firstQuote_append_self hfirst, p.history, h.unseen ha hfirst _⟩
  | some f =>
    obtain ⟨rest, hrest⟩ := h.first ha f hfirst
    exact ⟨f, firstQuote_append hfirst, rest, by rw [hrest]; rfl⟩

theorem Timed.evaluate_armed (h : Timed t evs p) (ha : p.state = .armed) : Timed t (evs ++ [(p, q)]) (p.onQuote t q).1 := by
  have hfilled : ∀ price, (p.onQuote t q).1.fillPrice = some price →
      ∃ e ∈ evs ++ [(p, q)], Fills t (p.onQuote t q).1.ref price e := fun price => filled_evaluate h.filled
  have href : (p.onQuote t q).1.ref = p.ref := p.onQuote_turn.1.ref
  have honQuote : p.onQuote t q = p.onArmed t q := by rw [onQuote, ha]
  obtain ⟨f, hf, rest, hrest⟩ := h.seen (q := q) ha
  obtain ⟨hnotes, hnone⟩ := h.untriggered ha
  have hafter := onArmed_notes (t := t) (q := q) ha
  rw [← honQuote] at hafter
  rcases hafter with ⟨hs, hh⟩ | ⟨hs, hlimit, reason, hh⟩ | ⟨hs, hs'⟩
  · refine ⟨fun _ hfirst => ?_, fun _ f' hf' => ⟨rest, ?_⟩, fun _ => ⟨?_, fun e he htr => ?_⟩, fun hw => ?_, hfilled⟩
    · rw [href, hf] at hfirst
      cases hfirst
    · rw [href, hf] at hf'
      rw [hh, ← Option.some.inj hf']
      exact hrest
    · rw [hh, seen_trigger]
      exact hnotes
    · rw [href] at htr
      rcases List.mem_append.mp he with he | he
      · exact hnone e he htr
      · obtain rfl := List.mem_singleton.mp he
        have hw := htr.2.2
        rw [hs] at hw
        cases hw
    · rw [hs] at hw
      cases hw
  · have htrigger : Triggers t p.ref (p, q) := ⟨rfl, ha, hs⟩
    have hnot : (p.onQuote t q).1.state ≠ .armed := by rw [hs]; decide
    refine ⟨fun hw => absurd hw hnot, fun hw => absurd hw hnot, fun hw => absurd hw hnot,
      fun _ => ⟨hlimit, ⟨(p, q), by simp, href ▸ htrigger⟩, fun e he htr => ?_⟩, hfilled⟩
    rw [href] at htr
    rcases List.mem_append.mp he with he | he
    · exact absurd htr (hnone e he)
    · obtain rfl := List.mem_singleton.mp he
      rw [hh, List.findSome?_append, seen_trigger, hnotes]
      rfl
  · exact timed_of_over hs hs' hfilled

theorem Timed.evaluate_working (h : Timed t evs p) (hw : p.state = .working) : Timed t (evs ++ [(p, q)]) (p.onQuote t q).1 := by
  have hfilled : ∀ price, (p.onQuote t q).1.fillPrice = some price →
      ∃ e ∈ evs ++ [(p, q)], Fills t (p.onQuote t q).1.ref price e := fun price => filled_evaluate h.filled
  have ha : p.state ≠ .armed := by rw [hw]; decide
  have hafter := p.onWorking_kept (t := t) (q := q)
  rw [show p.onWorking t q = p.onQuote t q by rw [onQuote, hw]] at hafter
  rcases hafter with hkept | ⟨hs, hs'⟩
  · obtain ⟨hlimit, ⟨e, he, htr⟩, htimes⟩ := h.resting hw
    rw [hkept] at hfilled ⊢
    refine ⟨fun hs => absurd hs ha, fun hs => absurd hs ha, fun hs => absurd hs ha,
      fun _ => ⟨hlimit, ⟨e, List.mem_append_left _ he, htr⟩, fun e he htr => ?_⟩, hfilled⟩
    rcases List.mem_append.mp he with he | he
    · exact htimes e he htr
    · obtain rfl := List.mem_singleton.mp he
      exact absurd htr.2.1 ha
  · exact timed_of_over hs hs' hfilled

theorem Timed.evaluate (h : Timed t evs p) : Timed t (evs ++ [(p, q)]) (p.onQuote t q).1 := by
  by_cases ha : p.state = .armed
  · exact h.evaluate_armed ha
  · by_cases hw : p.state = .working
    · exact h.evaluate_working hw
    · obtain ⟨ha', hw'⟩ := onQuote_waits (t := t) (q := q) ha hw
      exact timed_of_over ha' hw' fun price => filled_evaluate h.filled

theorem Timed.other (h : Timed t evs p) (hne : e.1.ref ≠ p.ref) : Timed t (evs ++ [e]) p := by
  have hold : ∀ x ∈ evs ++ [e], x.1.ref = p.ref → x ∈ evs := fun x hx hr => by
    rcases List.mem_append.mp hx with hx | hx
    · exact hx
    · exact absurd (List.mem_singleton.mp hx ▸ hr) hne
  refine ⟨fun ha hfirst => ?_, fun ha f hf => ?_, fun ha => ?_, fun hw => ?_, fun price hp => ?_⟩
  · rw [firstQuote_append_ne hne] at hfirst
    exact h.unseen ha hfirst
  · rw [firstQuote_append_ne hne] at hf
    exact h.first ha f hf
  · obtain ⟨hnotes, hnone⟩ := h.untriggered ha
    exact ⟨hnotes, fun x hx htr => hnone x (hold x hx htr.1) htr⟩
  · obtain ⟨hlimit, ⟨x, hx, htr⟩, htimes⟩ := h.resting hw
    exact ⟨hlimit, ⟨x, List.mem_append_left _ hx, htr⟩, fun y hy htr => htimes y (hold y hy htr.1) htr⟩
  · obtain ⟨x, hx, hfills⟩ := h.filled price hp
    exact ⟨x, List.mem_append_left _ hx, hfills⟩

theorem Timed.row (h : Timed t evs p) (hs : Same p p') (ht : Turn t none p p') (hn : Noted p p') : Timed t evs p' := by
  obtain ⟨notes, hh, hplain⟩ := hn
  have hquiet : notes.findSome? PlanNote.trigger? = none :=
    List.findSome?_eq_none_iff.mpr fun n hm => PlanNote.trigger?_of_plain (hplain n hm)
  have hfilled : p'.fillPrice = p.fillPrice → ∀ price, p'.fillPrice = some price → ∃ e ∈ evs, Fills t p'.ref price e :=
    fun he price hp => hs.ref ▸ h.filled price (he.symm.trans hp)
  have harmed : p.state = .armed → p'.state = .armed → p'.fillPrice = p.fillPrice → Timed t evs p' := fun ha ha' hf => by
    obtain ⟨hnotes, hnone⟩ := h.untriggered ha
    refine ⟨fun _ hfirst m => ?_, fun _ f hf => ?_, fun _ => ⟨?_, hs.ref ▸ hnone⟩, fun hw => ?_, hfilled hf⟩
    · rw [hh]
      exact seen_append (h.unseen ha (hs.ref ▸ hfirst)) hplain
    · obtain ⟨rest, hrest⟩ := h.first ha f (hs.ref ▸ hf)
      exact ⟨rest ++ notes, by rw [hh, hrest]; rfl⟩
    · rw [hh, List.findSome?_append, hnotes, hquiet]
      rfl
    · rw [ha'] at hw
      cases hw
  cases ht with
  | kept hr hterms =>
    have hstate : p'.state = p.state := congrArg Record.state hr
    by_cases ha : p.state = .armed
    · exact harmed ha (hstate.trans ha) (congrArg Record.fillPrice hr)
    · by_cases hw : p.state = .working
      · obtain ⟨⟨limit, hlimit⟩, hex, htimes⟩ := h.resting hw
        have hlimit' : p'.limit = .finite limit := (congrArg Terms.limit hterms).trans hlimit
        refine ⟨fun hs => absurd (hstate ▸ hs) ha, fun hs => absurd (hstate ▸ hs) ha, fun hs => absurd (hstate ▸ hs) ha,
          fun _ => ⟨⟨limit, hlimit'⟩, hs.ref ▸ hex, fun e he htr => ?_⟩, hfilled (congrArg Record.fillPrice hr)⟩
        rw [hh, List.findSome?_append, htimes e he (hs.ref ▸ htr)]
        rfl
      · exact timed_of_over (hstate ▸ ha) (hstate ▸ hw) (hfilled (congrArg Record.fillPrice hr))
  | repriced ha hr _ => exact harmed ha ((congrArg Record.state hr).trans ha) (congrArg Record.fillPrice hr)
  | ended _ hs' hf _ =>
    refine timed_of_over ?_ ?_ (hfilled hf) <;> rcases hs' with hs' | hs' | hs' <;> rw [hs'] <;> decide
  | triggered hq _ _ _ _ _ _ _ _ => cases hq
  | filled hq _ _ _ _ _ _ => cases hq
  | leaving _ hs' hf _ _ _ => exact timed_of_over (by rw [hs']; decide) (by rw [hs']; decide) (hfilled hf)
  | closed _ hs' hf _ _ _ _ => exact timed_of_over (by rw [hs']; decide) (by rw [hs']; decide) (hfilled hf)

theorem timed_new (hnew : ∀ e ∈ evs, e.1.ref ≠ p.ref) (hs : p.state = .armed) (hf : p.fillPrice = none) (hh : p.history = []) :
    Timed t evs p := by
  have hfirst : firstQuote evs p.ref = none := by
    rw [firstQuote, Option.map_eq_none_iff, List.find?_eq_none]
    exact fun e he => by simpa using hnew e he
  refine ⟨fun _ _ m => ?_, fun _ f hf => ?_, fun _ => ⟨?_, fun e he htr => hnew e he htr.1⟩, fun hw => ?_, fun price hp => ?_⟩
  · rw [hh]
    rfl
  · rw [hfirst] at hf
    cases hf
  · rw [hh]
    rfl
  · rw [hs] at hw
    cases hw
  · rw [hf] at hp
    cases hp

end PaperPlan

namespace PaperBook

open PaperPlan (Evaluation Timed Triggers Fills firstQuote)

variable [PaperHost] {t : PaperSettings} {b : PaperBook} {p : PaperPlan} {q : PaperQuote} {evs : List Evaluation}

/-- The plans that a quote is applied to, up to the first that raises. -/
def evaluations (t : PaperSettings) (q : PaperQuote) : List PaperPlan → List Evaluation
  | [] => []
  | p :: rest => (p, q) :: (if (p.onQuote t q).2.isOk then evaluations t q rest else [])

def evaluated (t : PaperSettings) (b : PaperBook) : PaperCall → List Evaluation
  | .row .. => []
  | .quote q => evaluations t q b.lives

/-- A book after any calls, with every evaluation of a plan on a quote, in order. -/
inductive Watched (t : PaperSettings) : List Evaluation → PaperBook → Prop
  | nil : Watched t [] {}
  | call {evs : List Evaluation} {b : PaperBook} (h : Watched t evs b) (c : PaperCall) :
      Watched t (evs ++ evaluated t b c) (b.call t c).1

/-- The evaluations account for every plan of the book, and did so for each evaluated one. -/
structure Accounted (t : PaperSettings) (evs : List Evaluation) (b : PaperBook) : Prop where
  plans : ∀ p ∈ b.all, Timed t evs p
  kept : ∀ e ∈ evs, e.1.ref ∈ b.all.map PaperPlan.ref
  log : ∀ before e after, evs = before ++ e :: after → Timed t before e.1

theorem accounted_empty : Accounted t [] {} := by
  constructor <;> simp [all, lives]

theorem kept_step {u : PaperBook} {q : Option PaperQuote} (h : Accounted t evs b) (hb : WellKept b) (hs : Step t q b u) :
    ∀ e ∈ evs, e.1.ref ∈ u.all.map PaperPlan.ref := by
  intro e he
  obtain ⟨p, hp, hr⟩ := List.mem_map.mp (h.kept e he)
  obtain ⟨p', hp', hf⟩ := follows_step hb hs hp
  exact List.mem_map.mpr ⟨p', hp', hf.same.ref.trans hr⟩

theorem Accounted.row {u : PaperBook} (h : Accounted t evs b) (hb : WellKept b) (hs : Step t none b u) : Accounted t evs u := by
  refine ⟨step_all hb hs h.plans (fun p p' _ hsame ht hn hp => hp.row hsame ht (hn rfl)) (fun p hheld hf => ?_)
    fun p hnew harmed hf _ hh => ?_, kept_step h hb hs, h.log⟩
  · exact PaperPlan.timed_of_over (by rw [hheld]; decide) (by rw [hheld]; decide) fun price hp => by rw [hf] at hp; cases hp
  · refine PaperPlan.timed_new (fun e he hr => ?_) harmed hf hh
    obtain ⟨x, hx, hxr⟩ := List.mem_map.mp (h.kept e he)
    exact hnew x hx (hxr.trans hr)

theorem Accounted.evaluate (h : Accounted t evs b) (hb : WellKept b) (hp : p ∈ b.lives) :
    Accounted t (evs ++ [(p, q)]) (b.put (p.onQuote t q).1) := by
  obtain ⟨hsame, ht⟩ := p.onQuote_turn (t := t) (q := q)
  have hstep : Step t (some q) b (b.put (p.onQuote t q).1) := .turn hp hsame ht nofun
  have hput := hb.step hstep
  refine ⟨fun x hx => ?_, fun e he => ?_, fun before e after hsplit => ?_⟩
  · rcases hb.mem_all_put hp hsame.ref hsame.label hx with rfl | ⟨hx, hne⟩
    · exact (h.plans p (List.mem_append_left _ hp)).evaluate
    · exact (h.plans x hx).other fun hr => hne hr.symm
  · rcases List.mem_append.mp he with he | he
    · exact kept_step h hb hstep e he
    · obtain rfl := List.mem_singleton.mp he
      obtain ⟨p', hp', hf⟩ := follows_step hb hstep (List.mem_append_left _ hp)
      exact List.mem_map.mpr ⟨p', hp', hf.same.ref⟩
  · rcases List.eq_nil_or_concat after with rfl | ⟨rest, last, rfl⟩
    · obtain ⟨rfl, he⟩ := List.append_inj' hsplit rfl
      obtain rfl := List.singleton_inj.mp he
      exact h.plans p (List.mem_append_left _ hp)
    · rw [List.concat_eq_append, ← List.cons_append, ← List.append_assoc] at hsplit
      exact h.log before e rest (List.append_inj' hsplit rfl).1

theorem Accounted.visit {rest pre : List PaperPlan} (h : Accounted t evs b) (hb : WellKept b) (hrest : b.lives = pre ++ rest) :
    Accounted t (evs ++ evaluations t q rest) (b.visit t q rest).1 := by
  induction rest generalizing b pre evs with
  | nil => simpa [evaluations, PaperBook.visit] using h
  | cons p rest ih =>
    have hp : p ∈ b.lives := by rw [hrest]; simp
    obtain ⟨hs, ht⟩ := p.onQuote_turn (t := t) (q := q)
    have hone := h.evaluate hb hp (q := q)
    have hmore := ih hone (hb.put hp hs.ref hs.label) (hb.lives_put hrest hs.ref hs.label)
    rcases hq : p.onQuote t q with ⟨p', r⟩
    rw [hq] at hone hmore
    cases r with
    | error e => simpa [PaperBook.visit, evaluations, hq, Except.isOk, Except.toBool] using hone
    | ok events =>
      have hlog : evs ++ evaluations t q (p :: rest) = evs ++ [(p, q)] ++ evaluations t q rest := by
        simp [evaluations, hq, Except.isOk, Except.toBool]
      rw [hlog]
      simp only [PaperBook.visit, hq]
      split
      · next hv => rw [hv] at hmore; exact hmore
      · next hv => rw [hv] at hmore; exact hmore

theorem Watched.accounted (h : Watched t evs b) : WellKept b ∧ Accounted t evs b := by
  induction h with
  | nil => exact ⟨wellKept_empty, accounted_empty⟩
  | @call evs v h c ih =>
    obtain ⟨hv, hacc⟩ := ih
    refine ⟨hv.steps (steps_call hv), ?_⟩
    cases c with
    | row row line now =>
      have happly : Steps t none v (v.applyRow t row line now).1 := steps_applyRow hv
      have hrow := steps_invariant happly hv hacc fun u w hu hI hs => hI.row hu hs
      rw [evaluated, List.append_nil]
      exact hrow.2
    | quote q => exact hacc.visit hv (show v.lives = [] ++ v.lives from rfl)

end PaperBook

namespace PaperPlan

variable [PaperHost] {t : PaperSettings} {p : PaperPlan} {q : PaperQuote} {evs : List Evaluation}

end PaperPlan

namespace PaperBook

open PaperPlan (Evaluation Triggers Fills firstQuote)

variable [PaperHost] {t : PaperSettings} {b : PaperBook} {evs : List Evaluation}

/-- The calls made one after the other, with their evaluations. -/
def watch (t : PaperSettings) (cs : List PaperCall) : List Evaluation × PaperBook :=
  cs.foldl (fun a c => (a.1 ++ evaluated t a.2 c, (a.2.call t c).1)) ([], {})

end PaperBook

section Example

attribute [local instance] samplePaperHost

end Example

end MatchTrader
