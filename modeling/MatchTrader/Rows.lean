import Mathlib.Data.List.Nodup

/-! Tables as lists of rows in insertion order, with the statements a relational
store runs on them. -/

namespace Rows

variable {α κ : Type} [DecidableEq κ] {key : α → κ} {p : α → Bool} {f : α → α} {r q : α} {rows : List α}

/-- `UPDATE … WHERE`. -/
def updateWhere (p : α → Bool) (f : α → α) (rows : List α) : List α :=
  rows.map fun r => if p r then f r else r

def has (key : α → κ) (k : κ) (rows : List α) : Bool := rows.any fun r => key r = k

def lookup (key : α → κ) (k : κ) (rows : List α) : Option α := rows.find? fun r => key r = k

/-- `INSERT OR IGNORE`. -/
def insertNew (key : α → κ) (r : α) (rows : List α) : List α :=
  if has key (key r) rows then rows else rows ++ [r]

/-- `INSERT … ON CONFLICT DO UPDATE`. -/
def upsert (key : α → κ) (r : α) (merge : α → α) (rows : List α) : List α :=
  if has key (key r) rows then updateWhere (fun q => key q = key r) merge rows else rows ++ [r]

/-- A row takes the place of the one with its key, or comes last. -/
def put (key : α → κ) (r : α) (rows : List α) : List α := upsert key r (fun _ => r) rows

/-- A dictionary gets an item. -/
def setItem {β : Type} (i : κ × β) (d : List (κ × β)) : List (κ × β) := put Prod.fst i d

theorem mem_updateWhere : r ∈ updateWhere p f rows ↔ ∃ q ∈ rows, r = if p q then f q else q := by
  simp only [updateWhere, List.mem_map]
  exact exists_congr fun _ => and_congr_right fun _ => eq_comm

theorem mem_updateWhere_of_mem (hr : r ∈ rows) : (if p r then f r else r) ∈ updateWhere p f rows :=
  mem_updateWhere.mpr ⟨r, hr, rfl⟩

theorem has_iff {k : κ} : has key k rows = true ↔ ∃ r ∈ rows, key r = k := by simp [has]

theorem has_eq_false_iff {k : κ} : has key k rows = false ↔ ∀ r ∈ rows, key r ≠ k := by simp [has]

theorem mem_insertNew : q ∈ insertNew key r rows ↔ q ∈ rows ∨ (q = r ∧ ∀ s ∈ rows, key s ≠ key r) := by
  unfold insertNew
  split
  · next h => simp only [has_iff] at h; grind
  · next h => simp only [Bool.not_eq_true, has_eq_false_iff] at h; grind

theorem mem_of_mem_insertNew (h : q ∈ insertNew key r rows) : q ∈ rows ∨ q = r := by
  rw [mem_insertNew] at h
  exact h.imp_right And.left

theorem mem_insertNew_of_mem (h : q ∈ rows) : q ∈ insertNew key r rows := mem_insertNew.mpr (Or.inl h)

theorem exists_mem_insertNew : ∃ q ∈ insertNew key r rows, key q = key r := by
  by_cases h : ∃ s ∈ rows, key s = key r
  · obtain ⟨s, hs, hk⟩ := h
    exact ⟨s, mem_insertNew_of_mem hs, hk⟩
  · exact ⟨r, mem_insertNew.mpr (Or.inr ⟨rfl, fun s hs hk => h ⟨s, hs, hk⟩⟩), rfl⟩

theorem mem_upsert {merge : α → α} (h : q ∈ upsert key r merge rows) :
    (∃ s ∈ rows, q = if key s = key r then merge s else s) ∨ (q = r ∧ ∀ s ∈ rows, key s ≠ key r) := by
  unfold upsert at h
  split at h
  · rw [mem_updateWhere] at h
    simpa using Or.inl h
  · next hh =>
    simp only [Bool.not_eq_true, has_eq_false_iff] at hh
    rcases List.mem_append.mp h with h | h
    · exact Or.inl ⟨q, h, by rw [if_neg (hh q h)]⟩
    · exact Or.inr ⟨by simpa using h, hh⟩

theorem lookup_mem {k : κ} (h : lookup key k rows = some r) : r ∈ rows ∧ key r = k :=
  ⟨List.mem_of_find?_eq_some h, by simpa using List.find?_some h⟩

theorem lookup_of_mem (hn : (rows.map key).Nodup) (h : r ∈ rows) : lookup key (key r) rows = some r := by
  induction rows with
  | nil => simp at h
  | cons q rows ih =>
    simp only [List.map_cons, List.nodup_cons] at hn
    rcases List.mem_cons.mp h with rfl | h
    · simp [lookup]
    · have hne : key q ≠ key r := fun he => hn.1 (he ▸ List.mem_map_of_mem h)
      have hh := ih hn.2 h
      simp only [lookup, List.find?_cons, hne, decide_false] at hh ⊢
      exact hh

theorem lookup_eq_some_iff (hn : (rows.map key).Nodup) {k : κ} :
    lookup key k rows = some r ↔ r ∈ rows ∧ key r = k :=
  ⟨lookup_mem, fun ⟨h, hk⟩ => hk ▸ lookup_of_mem hn h⟩

theorem lookup_eq_none_iff {k : κ} : lookup key k rows = none ↔ ∀ r ∈ rows, key r ≠ k := by
  simp [lookup]

theorem lookup_map {k : κ} (hf : ∀ r, key (f r) = key r) : lookup key k (rows.map f) = (lookup key k rows).map f := by
  simp only [lookup, List.find?_map]
  congr 2
  funext r
  simp only [Function.comp, hf]

theorem lookup_updateWhere {k : κ} (hf : ∀ r, key (f r) = key r) :
    lookup key k (updateWhere p f rows) = (lookup key k rows).map fun r => if p r then f r else r := by
  simp only [lookup, updateWhere, List.find?_map]
  congr 2
  funext r
  simp only [Function.comp]
  split <;> simp [hf]

theorem lookup_updateKey {k i : κ} (hf : ∀ r, key (f r) = key r) :
    lookup key k (updateWhere (fun r => key r = i) f rows) =
      if k = i then (lookup key i rows).map f else lookup key k rows := by
  rw [lookup_updateWhere hf]
  cases h : lookup key k rows with
  | none => split <;> simp_all
  | some r =>
    have hk := (lookup_mem h).2
    split
    · next he => subst he; simp [h, hk]
    · next he => simp [hk, he]

theorem lookup_append {k : κ} :
    lookup key k (rows ++ [r]) = (lookup key k rows).or (if key r = k then some r else none) := by
  simp [lookup, List.find?_append, List.find?_cons, List.find?_nil]
  split <;> simp_all

theorem lookup_append_of_ne {k : κ} (h : key r ≠ k) : lookup key k (rows ++ [r]) = lookup key k rows := by
  simp [lookup_append, h]

omit [DecidableEq κ] in
theorem keys_updateWhere (hf : ∀ r, key (f r) = key r) : (updateWhere p f rows).map key = rows.map key := by
  simp only [updateWhere, List.map_map]
  refine List.map_congr_left fun r _ => ?_
  simp only [Function.comp]
  split <;> simp [hf]

omit [DecidableEq κ] in
theorem nodup_append (hn : (rows.map key).Nodup) (h : ∀ s ∈ rows, key s ≠ key r) :
    ((rows ++ [r]).map key).Nodup := by
  rw [List.map_append, List.nodup_append]
  refine ⟨hn, by simp, ?_⟩
  simp only [List.map_cons, List.map_nil, List.mem_singleton, List.mem_map, forall_eq]
  rintro _ ⟨s, hs, rfl⟩
  exact h s hs

/-- An insertion, or else an update in place, concerns its own key only. -/
theorem lookup_upsert {merge : α → α} {k : κ} (hm : ∀ q, key (merge q) = key q) :
    lookup key k (upsert key r merge rows) =
      if k = key r then some ((lookup key k rows).elim r merge) else lookup key k rows := by
  unfold upsert
  split
  · next h =>
    rw [lookup_updateKey hm]
    split
    · next hk =>
      subst hk
      cases hl : lookup key (key r) rows with
      | none =>
        obtain ⟨q, hq, he⟩ := has_iff.mp h
        exact absurd he (lookup_eq_none_iff.mp hl q hq)
      | some q => rfl
    · rfl
  · next h =>
    simp only [Bool.not_eq_true, has_eq_false_iff] at h
    rw [lookup_append]
    by_cases hk : k = key r
    · subst hk
      rw [lookup_eq_none_iff.mpr h]
      simp
    · simp [hk, Ne.symm hk]

theorem updateWhere_eq_self (h : ∀ r ∈ rows, p r = false) : updateWhere p f rows = rows :=
  (List.map_congr_left fun r hr => by rw [h r hr]; rfl).trans (List.map_id rows)

omit [DecidableEq κ] in
theorem filter_updateWhere {g : κ → Bool} (hf : ∀ r, key (f r) = key r) :
    (updateWhere p f rows).filter (fun r => g (key r)) = updateWhere p f (rows.filter fun r => g (key r)) := by
  simp only [updateWhere, List.filter_map]
  congr 1
  refine List.filter_congr fun r _ => ?_
  simp only [Function.comp]
  split <;> simp [hf]

theorem has_filter {g : κ → Bool} {k : κ} :
    has key k (rows.filter fun r => g (key r)) = (g k && has key k rows) := by
  rw [Bool.eq_iff_iff]
  simp only [has_iff, Bool.and_eq_true, List.mem_filter]
  constructor
  · rintro ⟨r, ⟨hr, hg⟩, rfl⟩
    exact ⟨hg, r, hr, rfl⟩
  · rintro ⟨hg, r, hr, rfl⟩
    exact ⟨r, ⟨hr, hg⟩, rfl⟩

/-- Keeping the rows of some keys goes past an upsert of one of these, and does away with any other. -/
theorem filter_upsert {g : κ → Bool} {merge : α → α} (hm : ∀ q, key (merge q) = key q) :
    (upsert key r merge rows).filter (fun q => g (key q)) =
      if g (key r) then upsert key r merge (rows.filter fun q => g (key q)) else rows.filter fun q => g (key q) := by
  unfold upsert
  rw [has_filter]
  cases hg : g (key r) with
  | true =>
    simp only [Bool.true_and, if_true]
    split
    · exact filter_updateWhere hm
    · simp [hg]
  | false =>
    simp only [Bool.false_eq_true, if_false]
    split
    · rw [filter_updateWhere hm]
      refine updateWhere_eq_self fun q hq => decide_eq_false fun he => ?_
      rw [List.mem_filter, he, hg] at hq
      simp at hq
    · simp [hg]

theorem mem_put : r ∈ put key r rows := by
  unfold put upsert
  split
  · next h =>
    obtain ⟨q, hq, he⟩ := has_iff.mp h
    exact mem_updateWhere.mpr ⟨q, hq, by simp [he]⟩
  · exact List.mem_append_right rows (List.mem_singleton_self r)

/-- A row that is put is found under its key, and what is found under another key stays. -/
theorem lookup_put {k : κ} :
    lookup key k (put key r rows) = if k = key r then some r else lookup key k rows := by
  have hupsert : put key r rows = upsert key r (fun q => if key q = key r then r else q) rows := by
    unfold put upsert updateWhere
    split
    · exact List.map_congr_left fun q _ => by by_cases hq : key q = key r <;> simp [hq]
    · rfl
  have hmerge (q : α) : key (if key q = key r then r else q) = key q := by
    by_cases hq : key q = key r <;> simp [hq]
  rw [hupsert, lookup_upsert hmerge]
  by_cases hk : k = key r
  · rw [if_pos hk, if_pos hk]
    cases hl : lookup key k rows with
    | none => rfl
    | some q => rw [Option.elim_some, if_pos ((lookup_mem hl).2.trans hk)]
  · rw [if_neg hk, if_neg hk]

/-- Rows of one key that are left out are no longer found, and the others are as before. -/
theorem lookup_filter_ne {k i : κ} (h : k ≠ i) : lookup key k (rows.filter fun r => key r ≠ i) = lookup key k rows := by
  unfold lookup
  rw [List.find?_filter]
  congr 1
  funext r
  by_cases hr : key r = k
  · simp [hr, h]
  · simp [hr]

theorem lookup_filter_self {k : κ} : lookup key k (rows.filter fun r => key r ≠ k) = none :=
  lookup_eq_none_iff.mpr fun r hr => by simpa using (List.mem_filter.mp hr).2

theorem nodup_put (hn : (rows.map key).Nodup) : ((put key r rows).map key).Nodup := by
  unfold put upsert
  split
  · have hkeys : (updateWhere (fun q => key q = key r) (fun _ => r) rows).map key = rows.map key := by
      rw [updateWhere, List.map_map]
      refine List.map_congr_left fun q _ => ?_
      by_cases hq : key q = key r
      · simp [hq]
      · simp [hq]
    rw [hkeys]
    exact hn
  · next h =>
    rw [Bool.not_eq_true, has_eq_false_iff] at h
    exact nodup_append hn h

omit [DecidableEq κ] in
theorem map_updateWhere {β : Type} {g : α → β} {q : β → Bool} {f' : β → β} (hq : ∀ r, q (g r) = p r)
    (hf : ∀ r, g (f r) = f' (g r)) : (updateWhere p f rows).map g = updateWhere q f' (rows.map g) := by
  simp only [updateWhere, List.map_map]
  refine List.map_congr_left fun r _ => ?_
  simp only [Function.comp, hq]
  split <;> simp [hf]

/-- A row goes among the images of the rows where it goes among the rows. -/
theorem map_put {β : Type} {g : α → β} {key' : β → κ} (h : ∀ r, key' (g r) = key r) :
    (put key r rows).map g = put key' (g r) (rows.map g) := by
  have hhas : has key' (key' (g r)) (rows.map g) = has key (key r) rows := by
    simp only [has, List.any_map, Function.comp_def, h]
  unfold put upsert
  rw [hhas]
  split
  · exact map_updateWhere (fun q => by rw [h, h]) fun _ => rfl
  · rw [List.map_append]
    rfl

/-- A row that is put is already there, or else the rows are other ones. -/
theorem put_eq_self_iff (hn : (rows.map key).Nodup) : put key r rows = rows ↔ lookup key (key r) rows = some r := by
  constructor
  · intro h
    have hfound : lookup key (key r) (put key r rows) = some r := lookup_of_mem (nodup_put hn) mem_put
    rwa [h] at hfound
  · intro h
    obtain ⟨hr, -⟩ := lookup_mem h
    have hhas : has key (key r) rows = true := has_iff.mpr ⟨r, hr, rfl⟩
    rw [put, upsert, if_pos hhas, updateWhere]
    refine (List.map_congr_left fun q hq => ?_).trans (List.map_id rows)
    by_cases he : key q = key r
    · have hsame : some q = some r := (lookup_of_mem hn hq).symm.trans (he ▸ h)
      simp [Option.some.inj hsame]
    · simp [he]

/-- Rows of different keys that are put one after the other stay as they are. -/
theorem foldl_put {acc : List α} (hn : ((acc ++ rows).map key).Nodup) :
    rows.foldl (fun d q => put key q d) acc = acc ++ rows := by
  induction rows generalizing acc with
  | nil => exact (List.append_nil acc).symm
  | cons q rows ih =>
    rw [List.append_cons] at hn
    have hacc : ((acc ++ [q]).map key).Nodup := by
      rw [List.map_append] at hn
      exact hn.sublist (List.sublist_append_left _ _)
    have hnew : put key q acc = acc ++ [q] := by
      refine if_neg ?_
      rw [Bool.not_eq_true, has_eq_false_iff]
      intro p hp he
      rw [List.map_append, List.nodup_append] at hacc
      exact hacc.2.2 (key p) (List.mem_map_of_mem hp) (key q) (List.mem_singleton_self _) he
    rw [List.foldl_cons, hnew, ih hn, List.append_assoc]
    rfl

theorem nodup_foldl_put {acc : List α} (hn : (acc.map key).Nodup) :
    ((rows.foldl (fun d q => put key q d) acc).map key).Nodup := by
  induction rows generalizing acc with
  | nil => exact hn
  | cons q rows ih => exact ih (nodup_put hn)

end Rows
