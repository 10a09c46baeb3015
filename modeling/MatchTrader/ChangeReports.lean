import Mathlib.Data.List.Destutter
import Mathlib.Data.List.Dedup
import Mathlib.Data.List.Perm.Subperm
import MatchTrader.Rows

/-! Reports of things that change, each under a key. What was last passed on under a key is remembered, and a report is passed on when
it tells something else; a memory that is full is emptied first. -/

namespace Reports

section Destutter

variable {α : Type} {R : α → α → Prop} [DecidableRel R]

/-- One more element at the end is kept when it is related to the last one that was kept. -/
theorem destutter'_concat (l : List α) (a x : α) : (l ++ [x]).destutter' R a
    = if R ((l.destutter' R a).getLast (List.destutter'_ne_nil l R)) x then l.destutter' R a ++ [x] else l.destutter' R a := by
  induction l generalizing a with
  | nil =>
    rw [List.nil_append, List.destutter'_singleton]
    rfl
  | cons b l ih =>
    by_cases h : R a b
    · rw [List.cons_append]
      simp only [List.destutter'_cons_pos _ h, ih, List.getLast_cons (List.destutter'_ne_nil l R)]
      split
      · rw [List.cons_append]
      · rfl
    · rw [List.cons_append]
      simp only [List.destutter'_cons_neg _ h, ih]

theorem destutter_concat [DecidableEq α] (hR : ∀ a b, R a b ↔ a ≠ b) (l : List α) (x : α) :
    (l ++ [x]).destutter R = if (l.destutter R).getLast? = some x then l.destutter R else l.destutter R ++ [x] := by
  cases l with
  | nil => rfl
  | cons a l =>
    rw [List.cons_append, List.destutter_cons', List.destutter_cons', destutter'_concat,
      List.getLast?_eq_some_getLast (List.destutter'_ne_nil l R)]
    by_cases h : (l.destutter' R a).getLast (List.destutter'_ne_nil l R) = x
    · have hsame : ¬ R ((l.destutter' R a).getLast (List.destutter'_ne_nil l R)) x := fun hr => (hR _ _).mp hr h
      rw [if_neg hsame, if_pos (congrArg some h)]
    · have hother : some ((l.destutter' R a).getLast (List.destutter'_ne_nil l R)) ≠ some x := fun he => h (Option.some.inj he)
      rw [if_pos ((hR _ _).mpr h), if_neg hother]

end Destutter

variable {κ σ : Type} [DecidableEq κ] [DecidableEq σ]

structure Register (κ σ : Type) where
  last : List (κ × σ) := []
  /-- Every report that came in. -/
  seen : List (κ × σ) := []
  passed : List (κ × σ) := []

/-- What the reports under a key tell. -/
def about (k : κ) (reports : List (κ × σ)) : List σ := (reports.filter fun r => r.1 = k).map Prod.snd

def remembered (last : List (κ × σ)) (k : κ) : Option σ := (Rows.lookup Prod.fst k last).map Prod.snd

namespace Register

variable {m : Register κ σ} {limit : Nat} {k : κ} {r : κ × σ}

def report (limit : Nat) (m : Register κ σ) (r : κ × σ) : Register κ σ :=
  if remembered m.last r.1 = some r.2 then { m with seen := m.seen ++ [r] }
  else
    { last := Rows.setItem r (if limit ≤ m.last.length then [] else m.last)
      seen := m.seen ++ [r]
      passed := m.passed ++ [r] }

def forget (m : Register κ σ) : Register κ σ := { m with last := [] }

omit [DecidableEq σ] in
theorem length_dedup_le {l l' : List κ} (h : l ⊆ l') : l.dedup.length ≤ l'.dedup.length := by
  have hsub : l.dedup ⊆ l'.dedup := fun k hk => List.mem_dedup.mpr (h (List.mem_dedup.mp hk))
  exact (List.subperm_of_subset (List.nodup_dedup l) hsub).length_le

omit [DecidableEq σ] in
theorem about_concat (reports : List (κ × σ)) (r : κ × σ) (k : κ) :
    about k (reports ++ [r]) = if r.1 = k then about k reports ++ [r.2] else about k reports := by
  unfold about
  rw [List.filter_append, List.map_append]
  by_cases h : r.1 = k
  · simp [h]
  · simp [h]

omit [DecidableEq σ] in
theorem remembered_setItem (last : List (κ × σ)) (r : κ × σ) (k : κ) :
    remembered (Rows.setItem r last) k = if r.1 = k then some r.2 else remembered last k := by
  unfold remembered Rows.setItem
  rw [Rows.lookup_put]
  by_cases h : r.1 = k
  · rw [if_pos h.symm, if_pos h]
    rfl
  · rw [if_neg (Ne.symm h), if_neg h]

omit [DecidableEq σ] in
theorem mem_setItem {last : List (κ × σ)} {q : κ × σ} (h : q ∈ Rows.setItem r last) : q = r ∨ q ∈ last := by
  unfold Rows.setItem Rows.put Rows.upsert at h
  split at h
  · obtain ⟨p, hp, rfl⟩ := Rows.mem_updateWhere.mp h
    split
    · exact Or.inl rfl
    · exact Or.inr hp
  · rcases List.mem_append.mp h with h | h
    · exact Or.inr h
    · exact Or.inl (List.mem_singleton.mp h)

/-- What was passed on last is what came in last. -/
structure Faithful (m : Register κ σ) : Prop where
  remembered : ∀ k v, remembered m.last k = some v → (about k m.passed).getLast? = some v
  latest : ∀ k, (about k m.passed).getLast? = (about k m.seen).getLast?

omit [DecidableEq σ] in
theorem Faithful.forget (h : m.Faithful) : m.forget.Faithful where
  remembered k v hk := by cases hk
  latest := h.latest

theorem Faithful.report (h : m.Faithful) : (m.report limit r).Faithful := by
  unfold Register.report
  by_cases hsame : Reports.remembered m.last r.1 = some r.2
  · rw [if_pos hsame]
    refine ⟨h.remembered, fun k => ?_⟩
    simp only [about_concat]
    by_cases hk : r.1 = k
    · subst hk
      rw [if_pos rfl, List.getLast?_concat, h.remembered _ _ hsame]
    · rw [if_neg hk, h.latest]
  · rw [if_neg hsame]
    constructor
    · intro k v hv
      simp only [about_concat]
      rw [remembered_setItem] at hv
      by_cases hk : r.1 = k
      · rw [if_pos hk] at hv ⊢
        rw [List.getLast?_concat, hv]
      · rw [if_neg hk] at hv ⊢
        by_cases hfull : limit ≤ m.last.length
        · rw [if_pos hfull] at hv
          cases hv
        · rw [if_neg hfull] at hv
          exact h.remembered k v hv
    · intro k
      simp only [about_concat]
      by_cases hk : r.1 = k
      · rw [if_pos hk, if_pos hk, List.getLast?_concat, List.getLast?_concat]
      · rw [if_neg hk, if_neg hk, h.latest]

/-- As long as there are fewer keys than the limit, nothing is forgotten, and every change is passed on once. -/
structure Exact (limit : Nat) (m : Register κ σ) : Prop where
  nodup : (m.last.map Prod.fst).Nodup
  known : m.last.map Prod.fst ⊆ m.seen.map Prod.fst
  exact : (m.seen.map Prod.fst).dedup.length < limit → ∀ k, remembered m.last k = (about k m.passed).getLast?
    ∧ about k m.passed = (about k m.seen).destutter (· ≠ ·)

theorem Exact.report (h : m.Exact limit) : (m.report limit r).Exact limit := by
  have hfewer : (((m.seen ++ [r]).map Prod.fst).dedup).length < limit → (m.seen.map Prod.fst).dedup.length < limit := by
    refine lt_of_le_of_lt ?_
    rw [List.map_append]
    exact length_dedup_le (List.subset_append_left ..)
  unfold Register.report
  by_cases hsame : remembered m.last r.1 = some r.2
  · rw [if_pos hsame]
    refine ⟨h.nodup, fun k hk => ?_, fun hlt k => ?_⟩
    · rw [List.map_append]
      exact List.mem_append_left _ (h.known hk)
    · obtain ⟨hremembered, hpassed⟩ := h.exact (hfewer hlt) k
      refine ⟨hremembered, ?_⟩
      simp only [about_concat]
      by_cases hk : r.1 = k
      · subst hk
        rw [if_pos rfl, destutter_concat fun _ _ => Iff.rfl, ← hpassed, ← hremembered, if_pos hsame]
      · rw [if_neg hk]
        exact hpassed
  · rw [if_neg hsame]
    have hkeys : (Rows.setItem r (if limit ≤ m.last.length then [] else m.last)).map Prod.fst ⊆ (m.seen ++ [r]).map Prod.fst := by
      intro k hk
      have hcases : k = r.1 ∨ k ∈ m.last.map Prod.fst := by
        obtain ⟨q, hq, rfl⟩ := List.mem_map.mp hk
        rcases mem_setItem hq with rfl | hq
        · exact Or.inl rfl
        · split at hq
          · cases hq
          · exact Or.inr (List.mem_map_of_mem hq)
      rw [List.map_append]
      rcases hcases with rfl | hk
      · exact List.mem_append_right _ List.mem_cons_self
      · exact List.mem_append_left _ (h.known hk)
    refine ⟨?_, hkeys, fun hlt k => ?_⟩
    · refine Rows.nodup_put ?_
      split
      · exact List.nodup_nil
      · exact h.nodup
    · have hroom : ¬ limit ≤ m.last.length := by
        have hlast : m.last.length ≤ (m.seen.map Prod.fst).dedup.length := by
          rw [← List.length_map (f := Prod.fst), ← h.nodup.dedup]
          exact length_dedup_le h.known
        have hseen := hfewer hlt
        omega
      obtain ⟨hremembered, hpassed⟩ := h.exact (hfewer hlt) k
      rw [remembered_setItem, if_neg hroom]
      simp only [about_concat]
      by_cases hk : r.1 = k
      · subst hk
        rw [if_pos rfl, if_pos rfl, if_pos rfl, List.getLast?_concat, destutter_concat fun _ _ => Iff.rfl, ← hpassed, ← hremembered,
          if_neg hsame]
        exact ⟨rfl, rfl⟩
      · rw [if_neg hk, if_neg hk, if_neg hk]
        exact ⟨hremembered, hpassed⟩

end Register

end Reports
