import MatchTrader.Absorbing
import MatchTrader.Decimals
import MatchTrader.PaperSteps

/-! When a second intent of a label is a duplicate. The copier compares the texts of the prices with
those of the row that opened the label's episode; the paper book compares numbers, and the side. -/

namespace MatchTrader

open Durable

namespace Controller

/-- What the copier compares: the prices as the row spells them. -/
def LedgerRow.spellings (r : LedgerRow) : List (Option String) := [r.entry, r.sl, r.tp]

/-- The row as the paper runner reads it. -/
def LedgerRow.fields (r : LedgerRow) : LedgerFields :=
  [("utc", r.utc), ("kind", r.kind), ("label", r.label), ("symbol", r.symbol), ("side", r.side), ("entry", r.entry)
    , ("sl", r.sl), ("tp", r.tp), ("grade", r.grade), ("detail", r.detail), ("stamp", r.stamp), ("rfx", r.rfx)]

/-- The episode that a label has now. -/
def current (label : String) (episodes : List (String × Episode)) : Option Episode :=
  (episodes.find? fun p => p.1 = label).map Prod.snd

def duplicateAnswer : LedgerDecision := ⟨"duplicate", "Same level already armed for this label (another R01 instance)"⟩

section Plans

variable {label other symbol kind : String} {e : Episode} {episodes : List (String × Episode)}

theorem current_set : current label (setEpisode other e episodes) = if other = label then some e else current label episodes := by
  by_cases h : other = label
  · subst h
    have hnone : (episodes.filter fun p => p.1 ≠ other).find? (fun p => p.1 = other) = none := by
      rw [List.find?_eq_none]
      intro p hp
      simpa using (List.mem_filter.mp hp).2
    rw [current, setEpisode, List.find?_append, hnone]
    simp
  · have hkeep : (episodes.filter fun p => p.1 ≠ other).find? (fun p => p.1 = label) = episodes.find? (fun p => p.1 = label) := by
      rw [List.find?_filter]
      congr 1
      funext p
      by_cases hp : p.1 = label <;> simp [hp, Ne.symm h]
    rw [current, setEpisode, List.find?_append, hkeep, if_neg h, current]
    simp [h]

theorem current_erase :
    current label (episodes.filter fun p => p.1 ≠ other) = if other = label then none else current label episodes := by
  by_cases h : other = label
  · subst h
    rw [if_pos rfl, current, List.find?_filter, Option.map_eq_none_iff, List.find?_eq_none]
    simp
  · rw [if_neg h, current, List.find?_filter, current]
    congr 2
    funext p
    by_cases hp : p.1 = label <;> simp [hp, Ne.symm h]

variable [Host] {lane : Lane} {r : LedgerRow}

/-- What a row comes to: a duplicate, a new episode, the end of one, a grade, or nothing. -/
theorem r01Plan_cases {planned : List (String × Episode) × Except (Option LedgerDecision) (List (String × Json))}
    (h : r01Plan lane r kind label symbol episodes = planned) :
    (∃ e, kind = "intent" ∧ current label episodes = some e ∧ e.prices = r.spellings
        ∧ planned = (setEpisode label { e with duplicates := e.duplicates + 1 } episodes, .error (some duplicateAnswer)))
    ∨ (∃ e signals, e.prices = r.spellings ∧ signals.any (fun s => s.1 = "intent") = true ∧ planned = (setEpisode label e episodes, .ok signals)
        ∧ ∀ e', kind = "intent" → current label episodes = some e' → e'.prices ≠ r.spellings)
    ∨ (∃ signals, signals.any (fun s => s.1 = "intent") = false ∧ kind ≠ "intent"
        ∧ planned = (episodes.filter fun p => p.1 ≠ label, .ok signals))
    ∨ (∃ e grade answer, kind ≠ "intent" ∧ current label episodes = some e
        ∧ planned = (setEpisode label { e with grade } episodes, .error answer))
    ∨ (kind ≠ "intent" ∧ planned = (episodes, .error none)) := by
  subst h
  unfold r01Plan
  dsimp only
  split
  · next e he =>
    split
    · next hp => exact Or.inl ⟨e, rfl, he, hp, rfl⟩
    · next hp =>
      refine Or.inr (Or.inl ⟨_, _, rfl, rfl, rfl, fun e' _ he' => ?_⟩)
      obtain rfl := Option.some.inj (he'.symm.trans he)
      exact hp
  · next hn =>
    refine Or.inr (Or.inl ⟨_, _, rfl, rfl, rfl, fun e' _ he' => ?_⟩)
    cases hn.symm.trans he'
  · exact Or.inr (Or.inr (Or.inl ⟨_, rfl, by decide, rfl⟩))
  · exact Or.inr (Or.inl ⟨_, _, rfl, rfl, rfl, fun e' hk => absurd hk (by decide)⟩)
  · next e he =>
    split
    · exact Or.inr (Or.inr (Or.inl ⟨_, rfl, by decide, rfl⟩))
    · exact Or.inr (Or.inr (Or.inr (Or.inl ⟨e, _, _, by decide, he, rfl⟩)))
  · next hsome hnone _ _ _ =>
    refine Or.inr (Or.inr (Or.inr (Or.inr ⟨?_, rfl⟩)))
    rintro rfl
    cases hc : current label episodes with
    | some e => exact hsome e rfl hc
    | none => exact hnone rfl hc

end Plans

section Episodes

variable [Host] {R : Rules} {label : String} {w v : World} {row : LedgerRow} {env : Answers} {m : Memory}

/-- What the R01 lane does with a row: nothing without a lane for it, a label and a symbol. -/
def planOf (m : Memory) (row : LedgerRow) : Option (Lane × List (String × Episode) × Except (Option LedgerDecision) (List (String × Json))) :=
  (m.r01Config.filter fun c => c.source = "R01").bind fun lane =>
    if row.label.getD "" = "" ∨ row.symbol.getD "" = "" then none
    else some (lane, r01Plan lane row (row.kind.getD "") (row.label.getD "") (row.symbol.getD "") m.r01Episodes)

def withEpisodes (w : World) (episodes : List (String × Episode)) : World := { w with mem := { w.mem with r01Episodes := episodes } }

theorem copyR01Row_eval : (copyR01Row row).eval env w = match planOf w.mem row with
    | none => (w, .ok none)
    | some (_, episodes, .error answer) => (withEpisodes w episodes, .ok answer)
    | some (lane, episodes, .ok signals) => (decideR01 w.mem lane signals).eval env (withEpisodes w episodes) := by
  unfold copyR01Row planOf
  have hreads {β : Type} (g : Memory → Act β) : (reads World.mem >>= g).eval env w = (g w.mem).eval env w := rfl
  rw [hreads]
  cases w.mem.r01Config.filter fun c => c.source = "R01" with
  | none => rfl
  | some lane =>
    by_cases hl : row.label.getD "" = "" ∨ row.symbol.getD "" = ""
    · simp only [Option.bind_some, if_pos hl]
      rfl
    · simp only [Option.bind_some, if_neg hl]
      generalize r01Plan lane row (row.kind.getD "") (row.label.getD "") (row.symbol.getD "") w.mem.r01Episodes = planned
      obtain ⟨episodes, answer | signals⟩ := planned <;> rfl

theorem Served.run (h : Relation.ReflTransGen (Served R) w v) : Served R w v := by
  induction h with
  | refl => exact Guarantee.refl w
  | tail _ hs ih => exact Guarantee.trans ih hs

theorem decideR01_memory {lane : Lane} {signals : List (String × Json)} (hR : R.Plain) (hI : Inv w) (hi : Idle w) :
    ((decideR01 v.mem lane signals).eval env w).1.mem.r01Episodes = w.mem.r01Episodes := by
  have hwp : (decideR01 v.mem lane signals).wp (fun _ _ => True) (Served R) (fun _ u => Idle u) (fun _ u => Idle u) w := by
    unfold decideR01
    refine contain_idle ?_
    rw [Prog.wp_map]
    exact wp_within (SignalCopy.receive_idle hI hi hR.closed hR.known fun _ => rfl)
  exact (Served.run (Prog.wp_eval hwp env fun _ _ => trivial).1).episodes

/-- The episodes after a row are those of its plan. -/
theorem copyR01Row_episodes (hR : R.Plain) (hI : Inv w) (hi : Idle w) :
    ((copyR01Row row).eval env w).1.mem.r01Episodes = ((planOf w.mem row).map fun p => p.2.1).getD w.mem.r01Episodes := by
  rw [copyR01Row_eval]
  cases hp : planOf w.mem row with
  | none => rfl
  | some p =>
    obtain ⟨lane, episodes, answer | signals⟩ := p
    · rfl
    · have hstep : Steps R w (withEpisodes w episodes) := .single (.memory _)
      exact decideR01_memory hR (hI.steps hstep) hi

/-- The row that has opened the episode of a label: one that is sent as an intent opens a new one. -/
def opened (label : String) (m : Memory) (opener : Option LedgerRow) (row : LedgerRow) : Option LedgerRow :=
  match planOf m row with
  | none => opener
  | some (_, episodes, result) =>
    if row.label.getD "" = label ∧ result.toOption.any (fun signals => signals.any fun s => s.1 = "intent") then some row
    else if (current label episodes).isSome then opener
    else none

/-- What a process has served since it started, and the row that has opened the episode of a label. -/
inductive Serving (label : String) : World → Option LedgerRow → Prop
  | start {w : World} (h : Reachable unrestricted ⟨true, w⟩) (he : w.mem.r01Episodes = []) : Serving label w none
  | row {w : World} {opener : Option LedgerRow} (h : Serving label w opener) (row : LedgerRow) (env : Answers) :
    Serving label ((copyR01Row row).eval env w).1 (opened label w.mem opener row)
  | other {w : World} {opener : Option LedgerRow} (h : Serving label w opener) (op : Op) (ha : op.Allowed unrestricted)
    (hs : op.Aside w.mem.r01Episodes) (env : Answers) : Serving label (op.run.eval env w).1 opener

theorem Serving.reachable {opener : Option LedgerRow} (h : Serving label w opener) : Reachable unrestricted ⟨true, w⟩ := by
  induction h with
  | start h _ => exact h
  | @row w opener h row env ih =>
    obtain ⟨broker, m, hm⟩ := ih
    have hrun := Prog.eval_map (fun _ => PUnit.unit) (copyR01Row row) env w
    exact ⟨broker, m, hrun ▸ hm.tail (.serve (.ledgerRow row) trivial env)⟩
  | other h op ha hs env ih =>
    obtain ⟨broker, m, hm⟩ := ih
    exact ⟨broker, m, hm.tail (.serve op ha env)⟩

theorem planOf_some {lane : Lane} {planned : List (String × Episode) × Except (Option LedgerDecision) (List (String × Json))}
    (h : planOf m row = some (lane, planned)) :
    r01Plan lane row (row.kind.getD "") (row.label.getD "") (row.symbol.getD "") m.r01Episodes = planned := by
  obtain ⟨lane', _, hplan⟩ := Option.bind_eq_some_iff.mp h
  split at hplan
  · cases hplan
  · obtain rfl := congrArg Prod.fst (Option.some.inj hplan)
    exact congrArg Prod.snd (Option.some.inj hplan)

/-- One row: the episode that the label has keeps the spellings of its opener. -/
theorem spellings_row {opener : Option LedgerRow}
    (h : (current label m.r01Episodes).map Episode.prices = opener.map LedgerRow.spellings) :
    (current label (((planOf m row).map fun p => p.2.1).getD m.r01Episodes)).map Episode.prices
      = (opened label m opener row).map LedgerRow.spellings := by
  unfold opened
  cases hp : planOf m row with
  | none => exact h
  | some p =>
    obtain ⟨lane, episodes, result⟩ := p
    have hsome : (current label m.r01Episodes).isSome = opener.isSome := by
      simpa using congrArg Option.isSome h
    by_cases hl : row.label.getD "" = label
    · simp only [Option.map_some, Option.getD_some, hl, true_and]
      rcases r01Plan_cases (hl ▸ planOf_some hp) with ⟨e, _, hc, _, he⟩ | ⟨e, signals, hs, hi, he, _⟩ | ⟨signals, hi, _, he⟩ |
        ⟨e, grade, answer, _, hc, he⟩ | ⟨_, he⟩ <;> obtain ⟨rfl, rfl⟩ := Prod.mk.inj he
      · simp [current_set, Except.toOption, ← h, hc]
      · simp [current_set, Except.toOption, hi, hs]
      · rw [current_erase, if_pos rfl]
        simp [Except.toOption, hi]
      · simp [current_set, Except.toOption, ← h, hc]
      · cases hc : current label m.r01Episodes with
        | none => simp [Except.toOption]
        | some e => simp [Except.toOption, ← h, hc]
    · have hkeep : current label episodes = current label m.r01Episodes := by
        rcases r01Plan_cases (planOf_some hp) with ⟨e, _, _, _, he⟩ | ⟨e, _, _, _, he, _⟩ | ⟨_, _, _, he⟩ | ⟨e, _, _, _, _, he⟩ | ⟨_, he⟩
        · rw [(Prod.mk.inj he).1, current_set, if_neg hl]
        · rw [(Prod.mk.inj he).1, current_set, if_neg hl]
        · rw [(Prod.mk.inj he).1, current_erase, if_neg hl]
        · rw [(Prod.mk.inj he).1, current_set, if_neg hl]
        · rw [(Prod.mk.inj he).1]
      simp only [Option.map_some, Option.getD_some, hkeep, hl, false_and, if_false, h]
      cases opener with
      | none => split <;> rfl
      | some o => rw [hsome, Option.isSome_some, if_pos rfl]

theorem Serving.spellings {opener : Option LedgerRow} (h : Serving label w opener) :
    (current label w.mem.r01Episodes).map Episode.prices = opener.map LedgerRow.spellings := by
  induction h with
  | start h he => rw [he]; rfl
  | row h row env ih =>
    have hsound := h.reachable.sound ⟨rfl, rfl⟩
    rw [copyR01Row_episodes (R := unrestricted) ⟨rfl, rfl⟩ hsound.inv (hsound.idle rfl)]
    exact spellings_row ih
  | @other w opener h op ha hs env ih =>
    have hsound := h.reachable.sound ⟨rfl, rfl⟩
    have hwp := Op.run_served (A := fun _ _ => True) ⟨rfl, rfl⟩ ha hs hsound.inv (hsound.idle rfl)
    rw [(Served.run (Prog.wp_eval hwp env fun _ _ => trivial).1).episodes]
    exact ih

/-- The row is answered as a duplicate, and no signal comes of it. -/
def Repeats (m : Memory) (row : LedgerRow) : Prop :=
  ∃ lane episodes, planOf m row = some (lane, episodes, .error (some duplicateAnswer))

theorem copyR01Row_repeats (h : Repeats w.mem row) :
    ∃ episodes, ∀ env, (copyR01Row row).eval env w = (withEpisodes w episodes, .ok (some duplicateAnswer)) := by
  obtain ⟨lane, episodes, hp⟩ := h
  refine ⟨episodes, fun env => ?_⟩
  rw [copyR01Row_eval, hp]

/-- An intent of the label that the lane takes. -/
structure Intends (m : Memory) (label : String) (row : LedgerRow) : Prop where
  kind : row.kind = some "intent"
  label : row.label = some label
  taken : planOf m row ≠ none

/-- A row that the lane takes and that is no duplicate is sent as an intent. -/
theorem intends_cases (h : Intends m label row) : Repeats m row
    ∨ ∃ lane episodes signals, planOf m row = some (lane, episodes, .ok signals) ∧ signals.any (fun s => s.1 = "intent") = true := by
  obtain ⟨⟨lane, planned⟩, hp⟩ := Option.ne_none_iff_exists'.mp h.taken
  have hkind : row.kind.getD "" = "intent" := by rw [h.kind, Option.getD_some]
  rcases r01Plan_cases (planOf_some hp) with ⟨e, _, _, _, rfl⟩ | ⟨e, signals, _, hi, rfl, _⟩ | ⟨_, _, hno, _⟩ | ⟨_, _, _, hno, _⟩ | ⟨hno, _⟩
  · exact Or.inl ⟨lane, _, hp⟩
  · exact Or.inr ⟨lane, _, signals, hp, hi⟩
  · exact absurd hkind hno
  · exact absurd hkind hno
  · exact absurd hkind hno

theorem repeats_iff {e : Episode} (h : Intends m label row) (hc : current label m.r01Episodes = some e) :
    Repeats m row ↔ e.prices = row.spellings := by
  obtain ⟨⟨lane, planned⟩, hp⟩ := Option.ne_none_iff_exists'.mp h.taken
  have hkind : row.kind.getD "" = "intent" := by rw [h.kind, Option.getD_some]
  have hlabel : row.label.getD "" = label := by rw [h.label, Option.getD_some]
  rcases r01Plan_cases (hlabel ▸ planOf_some hp) with ⟨e', _, hc', hs, rfl⟩ | ⟨_, signals, _, _, rfl, hne⟩ | ⟨_, _, hno, _⟩ | ⟨_, _, _, hno, _⟩ | ⟨hno, _⟩
  · obtain rfl := Option.some.inj (hc.symm.trans hc')
    exact ⟨fun _ => hs, fun _ => ⟨lane, _, hp⟩⟩
  · constructor
    · rintro ⟨lane', episodes', hp'⟩
      cases hp.symm.trans hp'
    · exact fun hs => absurd hs (hne e hkind hc)
  · exact absurd hkind hno
  · exact absurd hkind hno
  · exact absurd hkind hno

end Episodes

section Levels

variable [PaperHost] {o r : LedgerRow} {p : PaperPlan} {t : PaperSettings} {b : PaperBook}

/-- The prices as numbers, with the side; none where a text is no decimal. -/
def levelOf (v : LedgerFields.Prices) (side : Side) : Option (ℚ × ℚ × ℚ × Side) :=
  match v with
  | ⟨.finite entry, .finite sl, .finite tp⟩ => some (entry.toRat, sl.toRat, tp.toRat, side)
  | _ => none

def LedgerRow.level? (r : LedgerRow) : Option (ℚ × ℚ × ℚ × Side) := r.fields.prices.toOption.bind fun v => levelOf v r.fields.side

omit [PaperHost] in
def planLevel (p : PaperPlan) : Option (ℚ × ℚ × ℚ × Side) := levelOf ⟨p.entry, p.sl, p.tp⟩ p.side

theorem level_of_spellings (h : o.spellings = r.spellings) (hs : o.fields.side = r.fields.side) : o.level? = r.level? := by
  have hprices : o.fields.prices = r.fields.prices := by
    obtain ⟨he, hsl, htp⟩ : o.entry = r.entry ∧ o.sl = r.sl ∧ o.tp = r.tp := by simpa [LedgerRow.spellings] using h
    simp [LedgerFields.prices, LedgerFields.price, LedgerFields.field?, LedgerRow.fields, he, hsl, htp]
  rw [LedgerRow.level?, LedgerRow.level?, hprices, hs]

/-- No row repeats the texts with another side, or the numbers and the side in other texts. -/
def Clear (o r : LedgerRow) : Prop :=
  (o.spellings = r.spellings → o.fields.side = r.fields.side) ∧ (o.level? = r.level? → o.spellings = r.spellings)

omit [PaperHost] in
theorem levelOf_some {v : LedgerFields.Prices} {side : Side} {l : ℚ × ℚ × ℚ × Side} (h : levelOf v side = some l) :
    ∃ entry sl tp, v = ⟨.finite entry, .finite sl, .finite tp⟩ ∧ l = (entry.toRat, sl.toRat, tp.toRat, side) := by
  unfold levelOf at h
  split at h
  · exact ⟨_, _, _, rfl, (Option.some.inj h).symm⟩
  · cases h

theorem level?_some {l : ℚ × ℚ × ℚ × Side} (h : r.level? = some l) :
    ∃ v, r.fields.prices = .ok v ∧ levelOf v r.fields.side = some l := by
  obtain ⟨v, hv, hl⟩ := Option.bind_eq_some_iff.mp h
  cases hp : r.fields.prices with
  | error e => rw [hp] at hv; cases hv
  | ok v' =>
    rw [hp] at hv
    obtain rfl := Option.some.inj hv
    exact ⟨v', rfl, hl⟩

theorem level_side {l : ℚ × ℚ × ℚ × Side} (h : r.level? = some l) : l.2.2.2 = r.fields.side := by
  obtain ⟨v, _, hl⟩ := level?_some h
  obtain ⟨_, _, _, _, rfl⟩ := levelOf_some hl
  rfl

theorem spellings_iff_level (ho : o.level?.isSome) : (o.spellings = r.spellings ↔ o.level? = r.level?) ↔ Clear o r := by
  constructor
  · intro h
    refine ⟨fun hs => ?_, h.mpr⟩
    obtain ⟨l, hl⟩ := Option.isSome_iff_exists.mp ho
    exact (level_side hl).symm.trans (level_side ((h.mp hs).symm.trans hl))
  · exact fun h => ⟨fun hs => level_of_spellings hs (h.1 hs), h.2⟩

omit [PaperHost] in
/-- The comparison of the paper book is that of the numbers and the sides. -/
theorem same_iff {v : LedgerFields.Prices} {side : Side} {l : ℚ × ℚ × ℚ × Side} (hp : (planLevel p).isSome) (hv : levelOf v side = some l) :
    ∃ same, p.same v side = .ok same ∧ (same = true ↔ planLevel p = some l) := by
  obtain ⟨k, hk⟩ := Option.isSome_iff_exists.mp hp
  obtain ⟨entry, sl, tp, hprices, hkl⟩ := levelOf_some hk
  obtain ⟨entry', sl', tp', rfl, hl⟩ := levelOf_some hv
  obtain ⟨he, hs, ht⟩ := LedgerFields.Prices.mk.inj hprices
  refine ⟨entry.same entry' && sl.same sl' && tp.same tp' && decide (p.side = side), ?_, ?_⟩
  · rw [PaperPlan.same, he, hs, ht]
    simp only [Number.eq, bind, Except.bind]
    cases entry.same entry' <;> cases sl.same sl' <;> cases tp.same tp' <;> rfl
  · rw [hk, hkl, hl]
    simp [Decimal.same_iff, and_assoc]

/-- The book counts the row as a duplicate of its live plan, and nothing comes of it. -/
def RepeatsPaper (t : PaperSettings) (b : PaperBook) (row : LedgerRow) (line : Nat) (now : String) : Prop :=
  ∃ p, b.live? (row.label.getD "") = some p
    ∧ b.applyRow t row.fields line now = (b.put { p with duplicates := p.duplicates + 1 }, .ok [])

omit [PaperHost] in
theorem create_told {row : LedgerFields} {label now : String} {line : Nat} {kind : PlanKind} {v : LedgerFields.Prices} :
    (PaperBook.create t b row label line now kind v).2 ≠ .ok [] := by
  unfold PaperBook.create
  dsimp only
  split
  · generalize hplaced : PaperBook.place t _ _ v = result
    have h := hplaced ▸ PaperBook.placed_place rfl
    cases h with
    | dropped e => exact nofun
    | held lots limit reason => exact nofun
    | armed lots limit hsound => exact nofun
  · exact nofun

theorem repeatsPaper_iff {row : LedgerRow} {label now : String} {line : Nat} (hk : row.kind = some "intent")
    (hlabel : row.label = some label) (hne : label ≠ "") (hsymbol : row.symbol = some t.symbol) (hdetail : orderType? row.detail ≠ none)
    (hp : b.live? label = some p) (harmed : p.state = .armed) (hl : (planLevel p).isSome) (hr : row.level?.isSome) :
    RepeatsPaper t b row line now ↔ planLevel p = row.level? := by
  obtain ⟨l, hrl⟩ := Option.isSome_iff_exists.mp hr
  obtain ⟨v, hv, hvl⟩ := level?_some hrl
  obtain ⟨kind, hkind⟩ := Option.ne_none_iff_exists'.mp hdetail
  obtain ⟨same, hsame, hiff⟩ := same_iff hl hvl
  have hintent : b.applyRow t row.fields line now = PaperBook.intent t b row.fields label line now (some p) := by
    have hfk : row.fields.get "kind" = some "intent" := hk
    have hfl : row.fields.get "label" = some label := hlabel
    have hfs : row.fields.get "symbol" = some t.symbol := hsymbol
    simp only [PaperBook.applyRow, hfk, hfl, hfs, hne, hp, ne_eq, not_true_eq_false, or_self, if_false, if_true]
  have hfd : orderType? (row.fields.getD "detail" (some "")) = some kind := hkind
  rw [hrl, ← hiff, RepeatsPaper, hlabel, Option.getD_some, hintent]
  have hwaits : p.state ≠ .filled := by rw [harmed]; decide
  simp only [PaperBook.intent, hfd, hv, hsame, if_neg hwaits]
  cases same with
  | true => exact ⟨fun _ => rfl, fun _ => ⟨p, hp, rfl⟩⟩
  | false =>
    constructor
    · rintro ⟨p', _, h⟩
      exact absurd (congrArg Prod.snd h) create_told
    · exact nofun

end Levels

section Main

variable [Host] [PaperHost] {label : String} {w : World} {o row : LedgerRow}

/-- An intent is a duplicate by the value of what opened its episode, and the paper book takes it the
same, exactly when it neither has the texts of the opener with another side nor its numbers and side in other texts. -/
theorem duplicates_by_value_iff (h : Serving label w (some o)) (hi : Intends w.mem label row)
    (ho : o.level?.isSome) (hr : row.level?.isSome) :
    ((Repeats w.mem row ↔ o.level? = row.level?) ↔ Clear o row)
    ∧ ∀ (t : PaperSettings) (b : PaperBook) (p : PaperPlan) (line : Nat) (now : String), b.live? label = some p → p.state = .armed →
      planLevel p = o.level? → row.symbol = some t.symbol → orderType? row.detail ≠ none →
      ((Repeats w.mem row ↔ RepeatsPaper t b row line now) ↔ Clear o row) := by
  obtain ⟨e, he, hprices⟩ := Option.map_eq_some_iff.mp h.spellings
  have hrepeats : Repeats w.mem row ↔ o.spellings = row.spellings := hprices ▸ repeats_iff hi he
  have hne : label ≠ "" := by
    rintro rfl
    apply hi.taken
    cases hc : w.mem.r01Config.filter fun c => c.source = "R01" <;> simp [planOf, hi.label, hc]
  refine ⟨by rw [hrepeats, spellings_iff_level ho], ?_⟩
  intro t b p line now hp harmed hl hsymbol hdetail
  have hpaper : RepeatsPaper t b row line now ↔ planLevel p = row.level? :=
    repeatsPaper_iff hi.kind hi.label hne hsymbol hdetail hp harmed (hl ▸ ho) hr
  rw [hrepeats, hpaper, hl, spellings_iff_level ho]

end Main

section Sample

@[reducible] def rowNumbers : PaperHost where
  number text :=
    if text = "100" then some (.finite (.ofNat 100)) else if text = "100.0" then some (.finite ⟨false, 1000, -1⟩)
    else if text = "99" then some (.finite (.ofNat 99)) else if text = "101" then some (.finite (.ofNat 101)) else none
  repr s := s.getD "None"
  seconds _ := "900"

attribute [local instance] sampleHost rowNumbers

def rowMemory : Memory :=
  { sampleMemory with r01Config := some { machineId := "PC", source := "R01", destinationAccount := "A" } }

def intentRow (side entry : String) : LedgerRow where
  kind := some "intent"
  label := some "L"
  symbol := some "EURUSD"
  side := some side
  entry := some entry
  sl := some "99"
  tp := some "101"
  grade := some "PRIME"
  utc := some "2026-01-02T12:00:20.1234567Z"
  detail := some "resting limit at range edge"
  stamp := none
  rfx := none

def intentWorld : World := ((copyR01Row (intentRow "long" "100")).eval sampleAnswers (started rowMemory)).1

theorem serving_intentWorld : Serving "L" intentWorld (some (intentRow "long" "100")) :=
  .row (.start (reachable_started unrestricted rowMemory) rfl) (intentRow "long" "100") sampleAnswers

theorem intends_next (side entry : String) : Intends intentWorld.mem "L" (intentRow side entry) where
  kind := rfl
  label := rfl
  taken := nofun

theorem duplicates_by_value_sample : ((Repeats intentWorld.mem (intentRow "long" "100")
      ↔ (intentRow "long" "100").level? = (intentRow "long" "100").level?) ↔ Clear (intentRow "long" "100") (intentRow "long" "100"))
    ∧ ∀ (t : PaperSettings) (b : PaperBook) (p : PaperPlan) (line : Nat) (now : String), b.live? "L" = some p → p.state = .armed →
      planLevel p = (intentRow "long" "100").level? → (intentRow "long" "100").symbol = some t.symbol →
      orderType? (intentRow "long" "100").detail ≠ none →
      ((Repeats intentWorld.mem (intentRow "long" "100") ↔ RepeatsPaper t b (intentRow "long" "100") line now)
        ↔ Clear (intentRow "long" "100") (intentRow "long" "100")) :=
  duplicates_by_value_iff serving_intentWorld (intends_next "long" "100") (by decide) (by decide)

/-- The same level spelled otherwise cancels the order and opens it again; the other side is called a duplicate. -/
theorem duplicates_by_text : Serving "L" intentWorld (some (intentRow "long" "100"))
    ∧ (¬ Repeats intentWorld.mem (intentRow "long" "100.0") ∧ (intentRow "long" "100").level? = (intentRow "long" "100.0").level?)
    ∧ (Repeats intentWorld.mem (intentRow "short" "100") ∧ (intentRow "long" "100").level? ≠ (intentRow "short" "100").level?) := by
  obtain ⟨e, hc, hprices⟩ := Option.map_eq_some_iff.mp serving_intentWorld.spellings
  refine ⟨serving_intentWorld, ⟨?_, ?_⟩, ?_, fun h => ?_⟩
  · rw [repeats_iff (intends_next "long" "100.0") hc, hprices]
    decide
  · have hentry : (Decimal.ofNat 100).toRat = (⟨false, 1000, -1⟩ : Decimal).toRat := Decimal.same_iff.mp (by decide)
    exact congrArg (fun entry => some (entry, (Decimal.ofNat 99).toRat, (Decimal.ofNat 101).toRat, Side.buy)) hentry
  · rw [repeats_iff (intends_next "short" "100") hc, hprices]
    decide
  · obtain ⟨l, hl⟩ := Option.isSome_iff_exists.mp (rfl : (intentRow "long" "100").level?.isSome = true)
    have hside : (intentRow "long" "100").fields.side = (intentRow "short" "100").fields.side :=
      (level_side hl).symm.trans (level_side (h.symm.trans hl))
    exact absurd hside (by decide)

end Sample

end Controller

end MatchTrader
