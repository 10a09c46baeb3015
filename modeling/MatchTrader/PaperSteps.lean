import Mathlib.Data.List.Perm.Basic
import Mathlib.Data.List.Nodup
import Mathlib.Data.List.Induction
import Mathlib.Logic.Relation
import MatchTrader.PaperTurns

/-! What rows and quotes can do to a paper book: one plan takes a turn, a new one is held or armed.
Every call is a series of such steps, whether it returns or raises. -/

namespace MatchTrader

namespace PaperBook

def lives (b : PaperBook) : List PaperPlan := b.plans.map Prod.snd

/-- Every plan that was made and kept. -/
def all (b : PaperBook) : List PaperPlan := b.lives ++ b.done

/-- Every object is kept in one place, the live ones under their labels. -/
structure WellKept (b : PaperBook) : Prop where
  keyed : ∀ e ∈ b.plans, e.1 = e.2.label
  labels : (b.lives.map PaperPlan.label).Nodup
  refs : (b.all.map PaperPlan.ref).Nodup
  made : ∀ p ∈ b.all, p.ref < b.made
  live : ∀ p ∈ b.lives, p.state.terminal = false
  ended : ∀ p ∈ b.done, p.state.terminal = true

variable {b : PaperBook} {p p' : PaperPlan} {pre post : List PaperPlan} {label : String}

theorem wellKept_empty : WellKept {} := by
  constructor <;> simp [lives, all]

theorem WellKept.plans_eq (h : WellKept b) : b.plans = b.lives.map fun p => (p.label, p) := by
  rw [lives, List.map_map]
  conv_lhs => rw [← List.map_id b.plans]
  refine List.map_congr_left fun e he => ?_
  simp [← h.keyed e he]

theorem WellKept.live?_eq_some (h : WellKept b) (hp : b.live? label = some p) : p ∈ b.lives ∧ p.label = label := by
  unfold live? at hp
  obtain ⟨e, he, rfl⟩ := Option.map_eq_some_iff.mp hp
  obtain ⟨hm, hk⟩ := Rows.lookup_mem he
  exact ⟨List.mem_map_of_mem hm, (h.keyed e hm).symm.trans hk⟩

theorem WellKept.live?_eq_none (h : WellKept b) (hp : b.live? label = none) : ∀ p ∈ b.lives, p.label ≠ label := by
  unfold live? at hp
  rw [Option.map_eq_none_iff, Rows.lookup_eq_none_iff] at hp
  intro p hm
  obtain ⟨e, he, rfl⟩ := List.mem_map.mp hm
  exact fun hl => hp e he ((h.keyed e he).trans hl)

/-- Only the turn's own plan moves. -/
theorem WellKept.put_eq (h : WellKept b) (hsplit : b.lives = pre ++ p :: post) (hr : p'.ref = p.ref) (hl : p'.label = p.label) :
    (b.put p').done = b.done ++ (if p'.state.terminal then [p'] else [])
      ∧ (b.put p').plans = (pre ++ (if p'.state.terminal then [] else [p']) ++ post).map fun p => (p.label, p) := by
  have hplans := h.plans_eq
  rw [hsplit] at hplans
  have hlabels := h.labels
  have hrefs := h.refs
  simp only [all, hsplit, List.map_append, List.map_cons, List.append_assoc, List.cons_append] at hlabels hrefs
  rw [List.nodup_middle, List.nodup_cons, List.mem_append, not_or] at hlabels hrefs
  constructor
  · unfold put
    split <;> simp
  · unfold put
    by_cases ht : p'.state.terminal = true
    · simp only [ht, if_true, hplans, hl, List.map_append, List.map_cons, List.append_nil, List.filter_append,
        List.filter_cons, ne_eq, not_true_eq_false, decide_false, Bool.false_eq_true, if_false]
      congr 1
      · refine List.filter_eq_self.mpr fun e he => ?_
        obtain ⟨x, hx, rfl⟩ := List.mem_map.mp he
        exact decide_eq_true fun hc => hlabels.1.1 (hc ▸ List.mem_map_of_mem hx)
      · refine List.filter_eq_self.mpr fun e he => ?_
        obtain ⟨x, hx, rfl⟩ := List.mem_map.mp he
        exact decide_eq_true fun hc => hlabels.1.2 (hc ▸ List.mem_map_of_mem hx)
    · have hpre : ∀ x ∈ pre, x.ref ≠ p.ref := fun x hx hc => hrefs.1.1 (hc ▸ List.mem_map_of_mem hx)
      have hpost : ∀ x ∈ post, x.ref ≠ p.ref := fun x hx hc =>
        hrefs.1.2 (List.mem_append_left _ (hc ▸ List.mem_map_of_mem hx))
      simp only [ht, Bool.false_eq_true, if_false, hplans, hr, List.map_append, List.map_cons, List.map_map,
        if_true, hl, List.append_assoc, List.cons_append, List.nil_append]
      congr 1
      · exact List.map_congr_left fun x hx => by simp [hpre x hx]
      · congr 1
        exact List.map_congr_left fun x hx => by simp [hpost x hx]

theorem WellKept.lives_put (h : WellKept b) (hsplit : b.lives = pre ++ p :: post) (hr : p'.ref = p.ref)
    (hl : p'.label = p.label) : (b.put p').lives = pre ++ (if p'.state.terminal then [] else [p']) ++ post := by
  rw [lives, (h.put_eq hsplit hr hl).2, List.map_map]
  exact List.map_id _

theorem WellKept.done_put (h : WellKept b) (hp : p ∈ b.lives) (hr : p'.ref = p.ref) (hl : p'.label = p.label) :
    (b.put p').done = b.done ++ (if p'.state.terminal then [p'] else []) := by
  obtain ⟨pre, post, hsplit⟩ := List.append_of_mem hp
  exact (h.put_eq hsplit hr hl).1

@[simp] theorem made_put : (b.put p').made = b.made := by
  unfold put
  split <;> rfl

theorem WellKept.put (h : WellKept b) (hp : p ∈ b.lives) (hr : p'.ref = p.ref) (hl : p'.label = p.label) : WellKept (b.put p') := by
  obtain ⟨pre, post, hsplit⟩ := List.append_of_mem hp
  obtain ⟨hdone, hplans⟩ := h.put_eq hsplit hr hl
  have hlives := h.lives_put hsplit hr hl
  have hperm : ((b.put p').all.map PaperPlan.ref).Perm (b.all.map PaperPlan.ref) := by
    rw [all, all, hlives, hdone, hsplit]
    by_cases ht : p'.state.terminal = true
    · simp only [ht, if_true, List.append_nil, List.map_append, List.map_cons, List.map_nil, hr, List.append_assoc, List.cons_append]
      refine List.Perm.append_left _ ?_
      rw [← List.append_assoc]
      exact List.perm_append_comm
    · simp only [ht, Bool.false_eq_true, if_false, List.append_nil, List.map_append, List.map_cons, hr,
        List.append_assoc, List.cons_append, List.nil_append]
      exact List.Perm.refl _
  have hlive := h.live
  have hlabels := h.labels
  rw [hsplit] at hlive hlabels
  refine ⟨?_, ?_, hperm.nodup_iff.mpr h.refs, fun x hx => ?_, fun x hx => ?_, fun x hx => ?_⟩
  · rw [hplans]
    rintro e he
    obtain ⟨x, _, rfl⟩ := List.mem_map.mp he
    rfl
  · rw [hlives]
    split
    · refine hlabels.sublist ?_
      simp only [List.append_nil, List.map_append, List.map_cons]
      exact List.Sublist.append_left (List.sublist_cons_self _ _) _
    · simpa [hl] using hlabels
  · have hm : x.ref ∈ b.all.map PaperPlan.ref := hperm.mem_iff.mp (List.mem_map_of_mem hx)
    obtain ⟨y, hy, he⟩ := List.mem_map.mp hm
    rw [made_put, ← he]
    exact h.made y hy
  · rw [hlives] at hx
    simp only [List.mem_append] at hx
    rcases hx with (hx | hx) | hx
    · exact hlive x (by simp [hx])
    · split at hx
      · simp at hx
      · next ht =>
        obtain rfl := List.mem_singleton.mp hx
        exact Bool.eq_false_iff.mpr ht
    · exact hlive x (by simp [hx])
  · rw [hdone] at hx
    rcases List.mem_append.mp hx with hx | hx
    · exact h.ended x hx
    · split at hx
      · next ht =>
        obtain rfl := List.mem_singleton.mp hx
        exact ht
      · simp at hx

theorem WellKept.mem_all_put (h : WellKept b) (hp : p ∈ b.lives) (hr : p'.ref = p.ref) (hl : p'.label = p.label) {x : PaperPlan}
    (hx : x ∈ (b.put p').all) : x = p' ∨ x ∈ b.all ∧ x.ref ≠ p.ref := by
  obtain ⟨pre, post, hsplit⟩ := List.append_of_mem hp
  have hrefs := h.refs
  rw [all, hsplit, List.append_assoc, List.cons_append, List.map_append, List.map_cons, List.nodup_middle, List.nodup_cons,
    List.mem_append, not_or] at hrefs
  rw [all, h.lives_put hsplit hr hl, h.done_put hp hr hl] at hx
  have hold : x = p' ∨ x ∈ pre ∨ x ∈ post ++ b.done := by grind
  rcases hold with hx | hx | hx
  · exact Or.inl hx
  · exact Or.inr ⟨by rw [all, hsplit]; simp [hx], fun hc => hrefs.1.1 (hc ▸ List.mem_map_of_mem hx)⟩
  · refine Or.inr ⟨?_, fun hc => hrefs.1.2 (hc ▸ List.mem_map_of_mem hx)⟩
    rw [all, hsplit]
    rcases List.mem_append.mp hx with hx | hx <;> simp [hx]

/-- The label of a plan that is over is free again. -/
theorem WellKept.free_put (h : WellKept b) (hp : p ∈ b.lives) (hr : p'.ref = p.ref) (hl : p'.label = p.label)
    (ht : p'.state.terminal = true) : ∀ x ∈ (b.put p').lives, x.label ≠ p.label := by
  obtain ⟨pre, post, hsplit⟩ := List.append_of_mem hp
  have hlabels := h.labels
  rw [hsplit, List.map_append, List.map_cons, List.nodup_middle, List.nodup_cons, List.mem_append, not_or] at hlabels
  rw [h.lives_put hsplit hr hl]
  intro x hx
  simp only [ht, if_true, List.append_nil, List.mem_append] at hx
  rcases hx with hx | hx
  · exact fun hc => hlabels.1.1 (hc ▸ List.mem_map_of_mem hx)
  · exact fun hc => hlabels.1.2 (hc ▸ List.mem_map_of_mem hx)

theorem WellKept.free (h : WellKept b) (hfree : ∀ x ∈ b.lives, x.label ≠ label) : ∀ e ∈ b.plans, e.1 ≠ label :=
  fun e he => (h.keyed e he) ▸ hfree e.2 (List.mem_map_of_mem he)

theorem WellKept.grow (h : WellKept b) : WellKept { b with made := b.made + 1 } :=
  ⟨h.keyed, h.labels, h.refs, fun x hx => Nat.lt_succ_of_lt (h.made x hx), h.live, h.ended⟩

theorem WellKept.hold (h : WellKept b) (hr : p.ref < b.made) (hnew : ∀ x ∈ b.all, x.ref ≠ p.ref) (ht : p.state.terminal = true) :
    WellKept { b with done := b.done ++ [p] } := by
  refine ⟨h.keyed, h.labels, ?_, fun x hx => ?_, h.live, fun x hx => ?_⟩
  · have hrefs := Rows.nodup_append h.refs hnew
    rwa [all, List.append_assoc] at hrefs
  · simp only [all, List.mem_append, List.mem_singleton] at hx
    rcases hx with hx | hx | rfl
    · exact h.made x (List.mem_append_left _ hx)
    · exact h.made x (List.mem_append_right _ hx)
    · exact hr
  · rcases List.mem_append.mp hx with hx | hx
    · exact h.ended x hx
    · exact List.mem_singleton.mp hx ▸ ht

theorem plans_arm (hfree : ∀ e ∈ b.plans, e.1 ≠ p.label) : (b.arm p).1.plans = b.plans ++ [(p.label, p)] := by
  simp only [arm, Rows.upsert, Rows.has_eq_false_iff.mpr hfree, Bool.false_eq_true, if_false]

theorem lives_arm (hfree : ∀ e ∈ b.plans, e.1 ≠ p.label) : (b.arm p).1.lives = b.lives ++ [p] := by
  rw [lives, plans_arm hfree, List.map_append]
  rfl

theorem mem_all_arm (hfree : ∀ e ∈ b.plans, e.1 ≠ p.label) {x : PaperPlan} (hx : x ∈ (b.arm p).1.all) : x ∈ b.all ∨ x = p := by
  rcases List.mem_append.mp hx with hx | hx
  · rw [lives_arm hfree] at hx
    rcases List.mem_append.mp hx with hx | hx
    · exact Or.inl (List.mem_append_left _ hx)
    · exact Or.inr (List.mem_singleton.mp hx)
  · exact Or.inl (List.mem_append_right _ hx)

theorem WellKept.arm (h : WellKept b) (hr : p.ref < b.made) (hnew : ∀ x ∈ b.all, x.ref ≠ p.ref) (ht : p.state.terminal = false)
    (hfree : ∀ x ∈ b.lives, x.label ≠ p.label) : WellKept (b.arm p).1 := by
  have hplans := plans_arm (h.free hfree)
  have hlives := lives_arm (h.free hfree)
  have hdone : (b.arm p).1.done = b.done := rfl
  refine ⟨fun e he => ?_, ?_, ?_, fun x hx => ?_, fun x hx => ?_, h.ended⟩
  · rw [hplans] at he
    rcases List.mem_append.mp he with he | he
    · exact h.keyed e he
    · obtain rfl := List.mem_singleton.mp he
      rfl
  · rw [hlives]
    exact Rows.nodup_append h.labels hfree
  · have hrefs := Rows.nodup_append h.refs hnew
    refine (List.Perm.nodup_iff (List.Perm.map _ ?_)).mpr hrefs
    rw [all, all, hlives, hdone, List.append_assoc, List.append_assoc]
    exact List.Perm.append_left _ List.perm_append_comm
  · rcases mem_all_arm (h.free hfree) hx with hx | rfl
    · exact h.made x hx
    · exact hr
  · rw [hlives] at hx
    rcases List.mem_append.mp hx with hx | hx
    · exact h.live x hx
    · exact List.mem_singleton.mp hx ▸ ht

end PaperBook


/-- A call on the book. -/
inductive PaperCall where
  | row (row : LedgerFields) (line : Nat) (now : String)
  | quote (q : PaperQuote)

def PaperCall.quote? : PaperCall → Option PaperQuote
  | row .. => none
  | quote q => some q

namespace PaperBook

variable [PaperHost]

def call (t : PaperSettings) (b : PaperBook) : PaperCall → PaperBook × Except Exc (List PaperEvent)
  | .row row line now => b.applyRow t row line now
  | .quote q => b.onQuote t q

/-- One step of a call that read the quote, if any. -/
inductive Step (t : PaperSettings) (q : Option PaperQuote) (b : PaperBook) : PaperBook → Prop
  | turn {p p' : PaperPlan} (hp : p ∈ b.lives) (hs : PaperPlan.Same p p') (ht : PaperPlan.Turn t q p p')
      (hn : q = none → PaperPlan.Noted p p') : Step t q b (b.put p')
  | grow : Step t q b { b with made := b.made + 1 }
  | hold {p : PaperPlan} (hr : p.ref < b.made) (hnew : ∀ x ∈ b.all, x.ref ≠ p.ref) (hs : p.state = .held)
      (hf : p.fillPrice = none) : Step t q b { b with done := b.done ++ [p] }
  | arm {p : PaperPlan} (hr : p.ref < b.made) (hnew : ∀ x ∈ b.all, x.ref ≠ p.ref) (hfree : ∀ x ∈ b.lives, x.label ≠ p.label)
      (hs : p.state = .armed) (hf : p.fillPrice = none) (hl : p.kind = .limit → p.limit = p.entry) (hh : p.history = []) :
      Step t q b (b.arm p).1

abbrev Steps (t : PaperSettings) (q : Option PaperQuote) : PaperBook → PaperBook → Prop := Relation.ReflTransGen (Step t q)

variable {t : PaperSettings} {q : Option PaperQuote} {b b' : PaperBook} {p p' : PaperPlan} {row : LedgerFields} {label now : String}
  {line : Nat}

theorem WellKept.step (h : WellKept b) (hs : Step t q b b') : WellKept b' := by
  cases hs with
  | turn hp hs _ _ => exact h.put hp hs.ref hs.label
  | grow => exact h.grow
  | hold hr hnew hs _ => exact h.hold hr hnew (by rw [hs]; rfl)
  | arm hr hnew hfree hs _ _ _ => exact h.arm hr hnew (by rw [hs]; rfl) hfree

theorem WellKept.steps (h : WellKept b) (hs : Steps t q b b') : WellKept b' := by
  induction hs with
  | refl => exact h
  | tail _ hs ih => exact ih.step hs

/-- What every turn keeps of a plan, and every new plan has, holds of all the plans. -/
theorem step_all {P : PaperPlan → Prop} (hb : WellKept b) (hs : Step t q b b') (hP : ∀ p ∈ b.all, P p)
    (hturn : ∀ p p', p ∈ b.lives → PaperPlan.Same p p' → PaperPlan.Turn t q p p' → (q = none → PaperPlan.Noted p p') → P p → P p')
    (hheld : ∀ p, p.state = .held → p.fillPrice = none → P p)
    (harmed : ∀ p, (∀ x ∈ b.all, x.ref ≠ p.ref) → p.state = .armed → p.fillPrice = none → (p.kind = .limit → p.limit = p.entry) →
      p.history = [] → P p) : ∀ p ∈ b'.all, P p := by
  cases hs with
  | @turn p p' hp hsame ht hn =>
    have hnew : P p' := hturn p p' hp hsame ht hn (hP p (List.mem_append_left _ hp))
    intro x hx
    rcases hb.mem_all_put hp hsame.ref hsame.label hx with rfl | ⟨hx, _⟩
    · exact hnew
    · exact hP x hx
  | grow => exact hP
  | hold hr hnew hs hf =>
    intro x hx
    rcases List.mem_append.mp hx with hx | hx
    · exact hP x (List.mem_append_left _ hx)
    · rcases List.mem_append.mp hx with hx | hx
      · exact hP x (List.mem_append_right _ hx)
      · obtain rfl := List.mem_singleton.mp hx
        exact hheld x hs hf
  | @arm p hr hnew hfree hs hf hl hh =>
    intro x hx
    rcases mem_all_arm (hb.free hfree) hx with hx | rfl
    · exact hP x hx
    · exact harmed x hnew hs hf hl hh

/-- What an armed plan was checked for. -/
structure Sound (t : PaperSettings) (p : PaperPlan) : Prop where
  straddles : PaperPlan.straddles p.side ⟨p.entry, p.sl, p.tp⟩ = .ok true
  limit : t.limitFor p.kind p.side p.entry = .ok p.limit
  lots : t.sizeLots p.entry p.sl = .ok p.lots
  valid : p.kind = .stopLimit → ∃ plan, t.stopPlan p = .ok plan

/-- A new plan is dropped with an error, held, or armed when it passes the checks. -/
inductive Placed (t : PaperSettings) (b : PaperBook) (p : PaperPlan) : PaperBook × Except Exc (List PaperEvent) → Prop
  | dropped (e : Exc) : Placed t b p (b, .error e)
  | held (lots limit : Number) (reason : String) : Placed t b p (b.hold { p with lots, limit } reason)
  | armed (lots limit : Number) (h : Sound t { p with lots, limit }) : Placed t b p (b.arm { p with lots, limit })

omit [PaperHost] in
theorem placed_place (hl : p.limit = p.entry) : Placed t b p (place t b p ⟨p.entry, p.sl, p.tp⟩) := by
  unfold place
  cases hm : PaperPlan.straddles p.side ⟨p.entry, p.sl, p.tp⟩ with
  | error s => exact .dropped _
  | ok matches_ =>
    cases matches_ with
    | false => exact .held p.lots p.limit _
    | true =>
      dsimp only
      cases hlots : t.sizeLots p.entry p.sl with
      | error e =>
        dsimp only
        split
        · exact .held p.lots p.limit _
        · exact .dropped _
      | ok lots =>
        dsimp only
        split
        · next hk =>
          refine .armed lots p.limit ⟨hm, ?_, hlots, fun hk' => ?_⟩
          · have hlimit : t.limitFor p.kind p.side p.entry = .ok p.entry := by rw [hk]; rfl
            exact hlimit.trans (congrArg _ hl.symm)
          · have hk'' : p.kind = .stopLimit := hk'
            rw [hk] at hk''
            cases hk''
        · next hk =>
          split
          · exact .dropped _
          · next limit hlimit =>
            split
            · split
              · exact .held lots limit _
              · exact .dropped _
            · next plan hplan =>
              refine .armed lots limit ⟨hm, ?_, hlots, fun _ => ⟨plan, hplan⟩⟩
              have hlimit' : t.limitFor p.kind p.side p.entry = .ok limit := by rw [hk]; exact hlimit
              exact hlimit'

omit [PaperHost] in
theorem Sound.limit_eq (h : Sound t p) (hk : p.kind = .limit) : p.limit = p.entry := by
  have hl := h.limit
  rw [hk] at hl
  exact (Except.ok.inj hl).symm

theorem Placed.steps {r : PaperBook × Except Exc (List PaperEvent)} (h : Placed t b p r) (hr : p.ref < b.made)
    (hnew : ∀ x ∈ b.all, x.ref ≠ p.ref) (hfree : ∀ x ∈ b.lives, x.label ≠ p.label) (hs : p.state = .armed)
    (hf : p.fillPrice = none) (hh : p.history = []) : Steps t q b r.1 := by
  cases h with
  | dropped e => exact .refl
  | held lots limit reason => exact .single (.hold hr hnew rfl hf)
  | armed lots limit hsound => exact .single (.arm (p := { p with lots, limit }) hr hnew hfree hs hf hsound.limit_eq hh)

theorem steps_create {v : LedgerFields.Prices} {kind : PlanKind} (h : WellKept b) (hfree : ∀ x ∈ b.lives, x.label ≠ label) :
    Steps t q b (create t b row label line now kind v).1 := by
  unfold create
  dsimp only
  split
  · refine .head .grow ?_
    exact Placed.steps (placed_place rfl) (Nat.lt_succ_self _) (fun x hx => (h.made x hx).ne) hfree rfl rfl rfl
  · exact .refl

/-- What a row does to a book: nothing, a turn of one plan, or a new plan, which may take the place of
one that still waits under its label. -/
inductive RowEffect (t : PaperSettings) (b : PaperBook) (row : LedgerFields) (line : Nat) (now : String) :
    PaperBook × Except Exc (List PaperEvent) → Prop
  | quiet {r : Except Exc (List PaperEvent)} (h : ∀ events, r = .ok events → ∀ e ∈ events, e.ref? = none) :
      RowEffect t b row line now (b, r)
  | turn {p p' : PaperPlan} {r : Except Exc (List PaperEvent)} (hp : p ∈ b.lives) (hs : PaperPlan.Same p p')
      (ht : PaperPlan.Turn t none p p') (hn : PaperPlan.Noted p p') (htold : PaperPlan.Told p (p', r))
      (hraise : ∀ e, r = .error e → p'.record = p.record) : RowEffect t b row line now (b.put p', r)
  | made {label : String} {kind : PlanKind} {v : LedgerFields.Prices} (hsymbol : row.get "symbol" = some t.symbol)
      (hk : row.get "kind" = some "intent") (hlabel : row.get "label" = some label) (hkind : orderType? (row.getD "detail" (some "")) = some kind) (hv : row.prices = .ok v)
      (hl : b.live? label = none) : RowEffect t b row line now (create t b row label line now kind v)
  | replaced {p : PaperPlan} {kind : PlanKind} {v : LedgerFields.Prices} (hsymbol : row.get "symbol" = some t.symbol)
      (hk : row.get "kind" = some "intent") (hlabel : row.get "label" = some p.label) (hkind : orderType? (row.getD "detail" (some "")) = some kind) (hv : row.prices = .ok v)
      (hp : b.live? p.label = some p) (hopen : p.state = .armed ∨ p.state = .working) (hsame : p.same v row.side = .ok false) :
      RowEffect t b row line now
        (create t (b.put (p.finish .cancelled "replaced by a re-priced intent for the same label" now)) row p.label line now kind v)

theorem rowEffect_intent (h : WellKept b) (hsymbol : row.get "symbol" = some t.symbol) (hk : row.get "kind" = some "intent")
    (hlabel : row.get "label" = some label) : RowEffect t b row line now (intent t b row label line now (b.live? label)) := by
  unfold intent
  split
  · refine .quiet fun events he e hm => ?_
    obtain rfl := Except.ok.inj he
    obtain rfl := List.mem_singleton.mp hm
    rfl
  · exact .quiet nofun
  · next kind v hkind hv =>
    split
    · next hl => exact .made hsymbol hk hlabel hkind hv hl
    · next p hl =>
      obtain ⟨hp, rfl⟩ := h.live?_eq_some hl
      have hlive := h.live p hp
      split
      · exact .quiet nofun
      · next same hsame =>
        split
        · exact .turn hp ⟨rfl, rfl, rfl, rfl, rfl⟩ (.kept rfl rfl) (PaperPlan.noted_one rfl rfl) PaperPlan.told_one nofun
        · next hfilled =>
          split
          · exact .turn hp ⟨rfl, rfl, rfl, rfl, rfl⟩ (.kept rfl rfl) (PaperPlan.noted_none rfl) (PaperPlan.told_none rfl) nofun
          · next hdiffers =>
            have hopen : p.state = .armed ∨ p.state = .working := by
              cases hs : p.state <;> simp_all [PlanState.terminal]
            exact .replaced hsymbol hk hlabel hkind hv hl hopen (eq_false_of_ne_true hdiffers ▸ hsame)

theorem rowEffect_applyRow (h : WellKept b) : RowEffect t b row line now (b.applyRow t row line now) := by
  have hquiet : RowEffect t b row line now (b, .ok []) := by
    refine .quiet fun events he e hm => ?_
    obtain rfl := Except.ok.inj he
    simp at hm
  unfold applyRow
  dsimp only
  split
  · exact hquiet
  · next label hlabel =>
    split
    · exact hquiet
    · next hours =>
      have hsymbol : row.get "symbol" = some t.symbol := not_not.mp fun hc => hours (Or.inl hc)
      split
      · next hk => exact rowEffect_intent h hsymbol hk hlabel
      · split
        · exact hquiet
        · next p hl =>
          obtain ⟨hp, _⟩ := h.live?_eq_some hl
          split
          · obtain ⟨hs, ht⟩ := @PaperPlan.update_turn _ t p row now
            exact .turn hp hs ht p.update_noted p.update_told fun e he => p.update_raises he
          · split
            · obtain ⟨hs, ht⟩ := @PaperPlan.cancel_turn _ t p row now
              exact .turn hp hs ht p.cancel_noted p.cancel_told nofun
            · split
              · exact .turn hp ⟨rfl, rfl, rfl, rfl, rfl⟩ (.kept rfl rfl) (PaperPlan.noted_none rfl) PaperPlan.told_one nofun
              · exact hquiet

theorem step_replaced (hp : p ∈ b.lives) (hopen : p.state = .armed ∨ p.state = .working) {reason : String} :
    Step t none b (b.put (p.finish .cancelled reason now)) :=
  .turn hp ⟨rfl, rfl, rfl, rfl, rfl⟩ (.ended hopen (Or.inl rfl) rfl fun _ he => he) fun _ => PaperPlan.noted_none rfl

theorem RowEffect.steps {r : PaperBook × Except Exc (List PaperEvent)} (hr : RowEffect t b row line now r) (h : WellKept b) :
    Steps t none b r.1 := by
  cases hr with
  | quiet _ => exact .refl
  | turn hp hs ht hn _ _ => exact .single (.turn hp hs ht fun _ => hn)
  | made _ _ _ _ _ hl => exact steps_create h (h.live?_eq_none hl)
  | replaced _ _ _ _ _ hl hopen _ =>
    obtain ⟨hp, -⟩ := h.live?_eq_some hl
    have hstep := @step_replaced _ t b _ now hp hopen "replaced by a re-priced intent for the same label"
    exact .head hstep (steps_create (h.step hstep) (h.free_put hp rfl rfl rfl))

theorem steps_applyRow (h : WellKept b) : Steps t none b (b.applyRow t row line now).1 := (rowEffect_applyRow h).steps h

/-- The plans that have not had their turn stay as they were. -/
theorem steps_visit {q : PaperQuote} {rest pre : List PaperPlan} (h : WellKept b) (hrest : b.lives = pre ++ rest) :
    Steps t (some q) b (b.visit t q rest).1 := by
  induction rest generalizing b pre with
  | nil => exact .refl
  | cons p rest ih =>
    have hp : p ∈ b.lives := by rw [hrest]; simp
    obtain ⟨hs, ht⟩ := p.onQuote_turn (t := t) (q := q)
    have hstep : Step t (some q) b (b.put (p.onQuote t q).1) := .turn hp hs ht nofun
    have hmore := ih (h.step hstep) (h.lives_put hrest hs.ref hs.label)
    unfold visit
    split
    · next p' e he =>
      rw [he] at hstep
      exact .single hstep
    · next p' events he =>
      rw [he] at hstep hmore
      refine .head hstep ?_
      split
      · next hv => rw [hv] at hmore; exact hmore
      · next hv => rw [hv] at hmore; exact hmore

/-- Every call is a series of steps, whether it returns or raises. -/
theorem steps_call {c : PaperCall} (h : WellKept b) : Steps t c.quote? b (b.call t c).1 := by
  cases c with
  | row row line now => exact steps_applyRow h
  | quote q => exact steps_visit h (show b.lives = [] ++ b.lives from rfl)

/-- Calls that were made one after the other, with what each left and returned. -/
inductive Run (t : PaperSettings) : PaperBook → List (PaperCall × Except Exc (List PaperEvent)) → PaperBook → Prop
  | nil (b : PaperBook) : Run t b [] b
  | call {b v : PaperBook} {calls : List (PaperCall × Except Exc (List PaperEvent))} (h : Run t b calls v) (c : PaperCall) :
      Run t b (calls ++ [(c, (v.call t c).2)]) (v.call t c).1

/-- The calls made one after the other, with what each returned, and the book that they leave. -/
def calls (t : PaperSettings) (cs : List PaperCall) (b : PaperBook) : List (PaperCall × Except Exc (List PaperEvent)) × PaperBook :=
  cs.foldl (fun a c => (a.1 ++ [(c, (a.2.call t c).2)], (a.2.call t c).1)) ([], b)

theorem run_calls (cs : List PaperCall) : Run t b (calls t cs b).1 (calls t cs b).2 := by
  induction cs using List.reverseRecOn with
  | nil => exact .nil b
  | append_singleton cs c ih =>
    rw [calls, List.foldl_append]
    exact .call ih c

theorem steps_invariant {I : PaperBook → Prop} (hs : Steps t q b b') (h : WellKept b) (hI : I b)
    (hstep : ∀ v u, WellKept v → I v → Step t q v u → I u) : WellKept b' ∧ I b' := by
  induction hs with
  | refl => exact ⟨h, hI⟩
  | tail _ hs ih => exact ⟨ih.1.step hs, hstep _ _ ih.1 ih.2 hs⟩

/-- What every step keeps of a well-kept book holds after any calls. -/
theorem Run.invariant {calls : List (PaperCall × Except Exc (List PaperEvent))} {I : PaperBook → Prop} (hr : Run t b calls b')
    (h : WellKept b) (hI : I b) (hstep : ∀ v u q, WellKept v → I v → Step t q v u → I u) : WellKept b' ∧ I b' := by
  induction hr with
  | nil => exact ⟨h, hI⟩
  | call _ c ih => exact steps_invariant (steps_call ih.1) ih.1 ih.2 fun v u => hstep v u _

theorem WellKept.run {calls : List (PaperCall × Except Exc (List PaperEvent))} (h : WellKept b) (hr : Run t b calls b') :
    WellKept b' := (hr.invariant h (I := fun _ => True) trivial fun _ _ _ _ _ _ => trivial).1

end PaperBook

end MatchTrader
