import Mathlib.Data.List.Forall2
import MatchTrader.Regex

/-! The language of a regular expression: what the matcher takes belongs to it, and it finds whatever belongs to it; and what a
replaced text has in common with the text before. -/

namespace Regex

variable {α : Type}

namespace Re

/-- The expression looks at nothing but what it takes. -/
def Simple : Re α → Prop
  | .empty | .char _ => True
  | .seq r s | .alt r s => r.Simple ∧ s.Simple
  | .star r | .group _ r => r.Simple
  | _ => False

/-- The texts of an expression, of what it takes alone. -/
def Matches : Re α → List α → Prop
  | .char p, t => ∃ x, t = [x] ∧ p x = true
  | .seq r s, t => ∃ u v, t = u ++ v ∧ r.Matches u ∧ s.Matches v
  | .alt r s, t => r.Matches t ∨ s.Matches t
  | .star r, t => ∃ us : List (List α), t = us.flatten ∧ ∀ u ∈ us, r.Matches u
  | .group _ r, t => r.Matches t
  | _, t => t = []

end Re

section Language

variable [DecidableEq α] {c d m : Cursor α} {r s : Re α} {t rest : List α} {p : α → Bool}

theorem run_matches (hs : r.Simple) (h : d ∈ run r c) : ∃ t, c.Takes d t ∧ r.Matches t := by
  induction r generalizing c d with
  | empty =>
    obtain rfl := List.mem_singleton.mp h
    exact ⟨[], d.takes_nil, rfl⟩
  | char p =>
    rw [run] at h
    split at h
    · cases h
    · next x rest hafter =>
      split at h
      · next hp =>
        obtain rfl := List.mem_singleton.mp h
        exact ⟨[x], Cursor.takes_advance (hafter ▸ ⟨rest, rfl⟩), x, rfl, hp⟩
      · cases h
  | seq r s ihr ihs =>
    obtain ⟨m, hm, hd⟩ := List.mem_flatMap.mp h
    obtain ⟨t, ht, hmt⟩ := ihr hs.1 hm
    obtain ⟨u, hu, hmu⟩ := ihs hs.2 hd
    exact ⟨t ++ u, ht.append hu, t, u, rfl, hmt, hmu⟩
  | alt r s ihr ihs =>
    rcases List.mem_append.mp h with h | h
    · obtain ⟨t, ht, hm⟩ := ihr hs.1 h
      exact ⟨t, ht, Or.inl hm⟩
    · obtain ⟨t, ht, hm⟩ := ihs hs.2 h
      exact ⟨t, ht, Or.inr hm⟩
  | star r ih =>
    have hkeeps := iterate_keeps (R := fun c d => ∃ us : List (List α), c.Takes d us.flatten ∧ ∀ u ∈ us, r.Matches u)
      (fun c => ⟨[], c.takes_nil, List.forall_mem_nil _⟩) ?_ ?_ _ h
    · obtain ⟨us, ht, hus⟩ := hkeeps
      exact ⟨us.flatten, ht, us, rfl, hus⟩
    · rintro c d e ⟨us, ht, hus⟩ ⟨vs, hu, hvs⟩
      refine ⟨us ++ vs, ?_, List.forall_mem_append.mpr ⟨hus, hvs⟩⟩
      rw [List.flatten_append]
      exact ht.append hu
    · intro c d hd
      obtain ⟨t, ht, hm⟩ := ih hs hd
      refine ⟨[t], ?_, List.forall_mem_singleton.mpr hm⟩
      rwa [List.flatten_singleton]
  | group n r ih =>
    obtain ⟨m, hm, rfl⟩ := List.mem_map.mp h
    have htaken := ih hs hm
    exact htaken
  | boundary | atEnd | backref | notAhead => exact hs.elim

omit [DecidableEq α] in
theorem mem_iterate_self (f : Cursor α → List (Cursor α)) (n : Nat) (c : Cursor α) : c ∈ iterate f n c := by
  cases n with
  | zero => exact List.mem_singleton_self c
  | succ n => exact List.mem_append_right _ (List.mem_singleton_self c)

theorem matches_run (hs : r.Simple) (hm : r.Matches t) (hc : c.after = t ++ rest) : ∃ d ∈ run r c, c.Takes d t := by
  induction r generalizing c t rest with
  | empty =>
    obtain rfl := hm
    exact ⟨c, List.mem_singleton_self c, c.takes_nil⟩
  | char p =>
    obtain ⟨x, rfl, hp⟩ := hm
    refine ⟨c.advance [x], ?_, Cursor.takes_advance ⟨rest, hc.symm⟩⟩
    rw [run_char_hit hc hp]
    exact List.mem_singleton_self _
  | seq r s ihr ihs =>
    obtain ⟨u, v, rfl, hu, hv⟩ := hm
    obtain ⟨d, hd, htd⟩ := ihr hs.1 hu (hc.trans (List.append_assoc ..))
    have hafter : d.after = v ++ rest := by
      have heq := htd.1.symm.trans (hc.trans (List.append_assoc ..))
      exact List.append_cancel_left heq
    obtain ⟨e, he, hte⟩ := ihs hs.2 hv hafter
    exact ⟨e, List.mem_flatMap.mpr ⟨d, hd, he⟩, htd.append hte⟩
  | alt r s ihr ihs =>
    rcases hm with hm | hm
    · obtain ⟨d, hd, ht⟩ := ihr hs.1 hm hc
      exact ⟨d, List.mem_append_left _ hd, ht⟩
    · obtain ⟨d, hd, ht⟩ := ihs hs.2 hm hc
      exact ⟨d, List.mem_append_right _ hd, ht⟩
  | star r ih =>
    obtain ⟨us, rfl, hus⟩ := hm
    have hgo : ∀ n c, c.after.length ≤ n → c.after = us.flatten ++ rest → ∃ d ∈ iterate (run r) n c, c.Takes d us.flatten := by
      clear hc
      induction us with
      | nil => exact fun n c _ _ => ⟨c, mem_iterate_self _ n c, c.takes_nil⟩
      | cons u us ihu =>
        obtain ⟨hu, htail⟩ := List.forall_mem_cons.mp hus
        intro n c hn hc
        rw [List.flatten_cons, List.append_assoc] at hc
        by_cases hnil : u = []
        · subst hnil
          exact ihu htail n c hn hc
        · obtain ⟨d, hd, htd⟩ := ih hs hu hc
          have hafter : d.after = us.flatten ++ rest := List.append_cancel_left (htd.1.symm.trans hc)
          have hlen : c.after.length = u.length + d.after.length := by rw [htd.1, List.length_append]
          have hpos := List.length_pos_iff.mpr hnil
          obtain ⟨n, rfl⟩ := Nat.exists_eq_succ_of_ne_zero (by omega : n ≠ 0)
          obtain ⟨e, he, hte⟩ := ihu htail n d (by omega) hafter
          refine ⟨e, List.mem_append_left _ (List.mem_flatMap.mpr ⟨d, List.mem_filter.mpr ⟨hd, decide_eq_true (by omega)⟩, he⟩), ?_⟩
          rw [List.flatten_cons]
          exact htd.append hte
    exact hgo c.after.length c (le_refl _) hc
  | group n r ih =>
    obtain ⟨d, hd, ht⟩ := ih hs hm hc
    exact ⟨c.capture d n, List.mem_map.mpr ⟨d, hd, rfl⟩, ht⟩
  | boundary | atEnd | backref | notAhead => exact hs.elim

/-- What belongs to the expression somewhere begins a match there. -/
theorem exists_matchAt {Q : α → Prop} (hb : r.Begins Q) (hs : r.Simple) (hm : r.Matches t) (before rest : List α) :
    ∃ d, matchAt r before (t ++ rest) = some d := by
  obtain ⟨d, hd, -⟩ := matches_run (c := ⟨before, t ++ rest, []⟩) hs hm rfl
  cases hrun : run r ⟨before, t ++ rest, []⟩ with
  | nil => rw [hrun] at hd; cases hd
  | cons e es =>
    obtain ⟨x, u, ht, -⟩ := run_begins (c := ⟨before, t ++ rest, []⟩) hb (hrun ▸ List.mem_cons_self)
    have hless : e.after.length < (t ++ rest).length := by
      rw [show t ++ rest = x :: u ++ e.after from ht.1, List.length_append, List.length_cons]
      omega
    refine ⟨e, ?_⟩
    unfold matchAt
    rw [hrun]
    exact Option.filter_eq_some_iff.mpr ⟨rfl, decide_eq_true hless⟩

omit [DecidableEq α] in
theorem Cursor.after_advance_takeWhile (c : Cursor α) (p : α → Bool) : (c.advance (c.after.takeWhile p)).after = c.after.dropWhile p := by
  change c.after.drop (c.after.takeWhile p).length = _
  generalize c.after = l
  induction l with
  | nil => rfl
  | cons x xs ih =>
    by_cases hp : p x = true
    · rw [List.takeWhile_cons_of_pos hp, List.dropWhile_cons_of_pos hp, List.length_cons, List.drop_succ_cons, ih]
    · rw [List.takeWhile_cons_of_neg hp, List.dropWhile_cons_of_neg hp, List.length_nil, List.drop_zero]

omit [DecidableEq α] in
theorem Cursor.advance_advance (c : Cursor α) (t u : List α) : (c.advance t).advance u = c.advance (t ++ u) := by
  simp [Cursor.advance, List.drop_drop]

/-- As many elements of a class as there are, before fewer are tried. -/
theorem head?_star_char (p : α → Bool) (c : Cursor α) : (run (.star (.char p)) c).head? = some (c.advance (c.after.takeWhile p)) := by
  have hgo : ∀ n c, c.after.length ≤ n → (iterate (run (.char p)) n c).head? = some (c.advance (c.after.takeWhile p)) := by
    intro n
    induction n with
    | zero =>
      intro c hn
      have hnil := List.length_eq_zero_iff.mp (Nat.le_zero.mp hn)
      simp [iterate, Cursor.advance, hnil]
      rw [← hnil]
    | succ n ih =>
      intro c hn
      cases hc : c.after with
      | nil =>
        simp [iterate, run, hc, Cursor.advance]
        rw [← hc]
      | cons x xs =>
        have hlen : xs.length + 1 ≤ n + 1 := by rw [hc] at hn; exact hn
        by_cases hp : p x = true
        · have hnext : (c.advance [x]).after = xs := by simp [Cursor.advance, hc]
          have hhead := ih (c.advance [x]) (by rw [hnext]; omega)
          rw [hnext, Cursor.advance_advance] at hhead
          simp only [iterate, run_char_hit hc hp, List.filter_singleton, hnext, hc, List.length_cons, Nat.lt_succ_self, decide_true,
            cond_true, List.flatMap_singleton, List.head?_append, hhead, List.takeWhile_cons, hp, if_true]
          rfl
        · have hmiss := run_char_miss hc (Bool.not_eq_true _ ▸ hp)
          simp [iterate, hmiss, hp, Cursor.advance, hc]
          rw [← hc]
  exact hgo c.after.length c (le_refl _)

theorem head?_seq (h : (run (.seq r s) c).head? = some d) : ∃ m ∈ run r c, (run s m).head? = some d := by
  change ((run r c).flatMap (run s)).head? = some d at h
  generalize run r c = ways at h ⊢
  induction ways with
  | nil => cases h
  | cons m ms ih =>
    rw [List.flatMap_cons, List.head?_append] at h
    cases hm : (run s m).head? with
    | none =>
      rw [hm] at h
      obtain ⟨e, he, hd⟩ := ih h
      exact ⟨e, List.mem_cons_of_mem m he, hd⟩
    | some e =>
      rw [hm] at h
      exact ⟨m, List.mem_cons_self, hm.trans h⟩

theorem captured_group {n : Nat} (h : d ∈ run (.group n r) c) : ∃ t, c.Takes d t ∧ d.captured n = some t := by
  obtain ⟨e, he, rfl⟩ := List.mem_map.mp h
  obtain ⟨t, ht⟩ := run_takes he
  refine ⟨t, ht, ?_⟩
  have hcut : c.after.take (c.after.length - e.after.length) = t := by
    rw [ht.1, List.length_append, Nat.add_sub_cancel, List.take_left]
  simp [Cursor.captured, Cursor.capture, hcut]

end Language

section Parts

variable {alike : α → α → Bool} {ls t : List α} {r s : Re α} {rest : List (Re α)} {p : α → Bool} {Q : α → Prop}

theorem simple_literal : (Re.literal alike ls).Simple := by
  induction ls with
  | nil => trivial
  | cons l ls ih => exact ⟨trivial, ih⟩

theorem simple_first (hs : s.Simple) (h : ∀ t ∈ rest, t.Simple) : (Re.first s rest).Simple := by
  induction rest generalizing s with
  | nil => exact hs
  | cons t rest ih => exact ⟨hs, ih (h t List.mem_cons_self) fun u hu => h u (List.mem_cons_of_mem t hu)⟩

theorem matches_literal : (Re.literal alike ls).Matches t ↔ List.Forall₂ (fun x l => alike x l = true) t ls := by
  induction ls generalizing t with
  | nil => exact List.forall₂_nil_right_iff.symm
  | cons l ls ih =>
    rw [List.forall₂_cons_right_iff]
    constructor
    · rintro ⟨u, v, rfl, ⟨x, rfl, hx⟩, hv⟩
      exact ⟨x, v, hx, ih.mp hv, rfl⟩
    · rintro ⟨x, v, hx, hv, rfl⟩
      exact ⟨[x], v, rfl, ⟨x, rfl, hx⟩, ih.mpr hv⟩

theorem matches_star_char : (Re.star (.char p)).Matches t ↔ ∀ x ∈ t, p x = true := by
  constructor
  · rintro ⟨us, rfl, hus⟩ x hx
    obtain ⟨u, hu, hxu⟩ := List.mem_flatten.mp hx
    obtain ⟨y, rfl, hy⟩ := hus u hu
    exact List.mem_singleton.mp hxu ▸ hy
  · intro h
    refine ⟨t.map fun x => [x], (List.flatMap_singleton' t).symm, fun u hu => ?_⟩
    obtain ⟨x, hx, rfl⟩ := List.mem_map.mp hu
    exact ⟨x, rfl, h x hx⟩

theorem Re.Over.mono {P : α → Prop} (hr : r.Over Q) (h : ∀ x, Q x → P x) : r.Over P := by
  induction r with
  | char p => exact fun x hx => h x (hr x hx)
  | seq r s ihr ihs => exact ⟨ihr hr.1, ihs hr.2⟩
  | alt r s ihr ihs => exact ⟨ihr hr.1, ihs hr.2⟩
  | star r ih => exact ih hr
  | group n r ih => exact ih hr
  | backref n => exact fun x => h x (hr x)
  | empty | boundary | atEnd | notAhead => trivial

/-- What an expression takes at all, its texts are made of. -/
theorem matches_over (hs : r.Simple) (hr : r.Over Q) (h : r.Matches t) : ∀ x ∈ t, Q x := by
  induction r generalizing t with
  | empty =>
    obtain rfl := h
    exact List.forall_mem_nil _
  | char p =>
    obtain ⟨x, rfl, hx⟩ := h
    exact List.forall_mem_singleton.mpr (hr x hx)
  | seq r s ihr ihs =>
    obtain ⟨u, v, rfl, hu, hv⟩ := h
    exact List.forall_mem_append.mpr ⟨ihr hs.1 hr.1 hu, ihs hs.2 hr.2 hv⟩
  | alt r s ihr ihs => exact h.elim (ihr hs.1 hr.1) (ihs hs.2 hr.2)
  | star r ih =>
    obtain ⟨us, rfl, hus⟩ := h
    intro x hx
    obtain ⟨u, hu, hxu⟩ := List.mem_flatten.mp hx
    exact ih hs hr (hus u hu) x hxu
  | group n r ih => exact ih hs hr h
  | boundary | atEnd | backref | notAhead => exact hs.elim

end Parts

section Replacing

variable [DecidableEq α] {r : Re α} {f : Cursor α → List α} {before after out rest : List α}

/-- A place in the replaced text is one between two steps of the replacing, or it is inside a replacement. -/
theorem Replaced.place {a : List α} (h : Replaced r f before after (a ++ rest)) :
    (∃ before' after', after' <:+ after ∧ Replaced r f before' after' rest)
      ∨ ∃ before' after' d u v out', matchAt r before' after' = some d ∧ f d = u ++ v ∧ u ≠ [] ∧ v ≠ [] ∧ rest = v ++ out' := by
  generalize ho : a ++ rest = out at h
  induction h generalizing a with
  | nil =>
    obtain ⟨-, rfl⟩ := List.append_eq_nil_iff.mp ho
    exact Or.inl ⟨[], [], List.suffix_refl _, .nil⟩
  | @hit before after out d hd hrest ih =>
    obtain ⟨t, ht⟩ := matchAt_takes hd
    by_cases ha : a = []
    · subst ha
      obtain rfl : rest = f d ++ out := ho
      exact Or.inl ⟨before, after, List.suffix_refl _, .hit hd hrest⟩
    · rcases List.append_eq_append_iff.mp ho with ⟨v, hfd, hout⟩ | ⟨v, rfl, hout⟩
      · by_cases hv : v = []
        · subst hv
          obtain rfl : rest = out := hout
          exact Or.inl ⟨d.before, d.after, ⟨t, ht.symm⟩, hrest⟩
        · exact Or.inr ⟨before, after, d, a, v, out, hd, hfd, ha, hv, hout⟩
      · obtain ⟨before', after', hsuf, hrep⟩ | hinside := ih hout.symm
        · exact Or.inl ⟨before', after', hsuf.trans ⟨t, ht.symm⟩, hrep⟩
        · exact Or.inr hinside
  | @copy before xs out x hx hrest ih =>
    cases a with
    | nil =>
      obtain rfl : rest = x :: out := ho
      exact Or.inl ⟨before, x :: xs, List.suffix_refl _, .copy hx hrest⟩
    | cons y ys =>
      obtain ⟨before', after', hsuf, hrep⟩ | hinside := ih (List.cons.inj ho).2
      · exact Or.inl ⟨before', after', hsuf.trans (List.suffix_cons x xs), hrep⟩
      · exact Or.inr hinside

/-- Where each replacement is a part of what it replaces and then a mark, what is read up to a mark was there before. -/
theorem Replaced.prefix_of {mark : α} (h : Replaced r f before after out)
    (hf : ∀ before after d, matchAt r before after = some d → ∃ u v, f d = u ++ mark :: v ∧ u <+: after) {k : List α}
    (hk : k <+: out) (hm : mark ∉ k) : k <+: after := by
  induction h generalizing k with
  | nil => exact hk
  | @hit before after out d hd hrest ih =>
    obtain ⟨u, v, hfd, hu⟩ := hf before after d hd
    rw [hfd, List.append_assoc, List.cons_append] at hk
    rcases List.prefix_or_prefix_of_prefix hk (List.prefix_append u _) with hku | huk
    · exact hku.trans hu
    · obtain ⟨w, rfl⟩ := huk
      cases w with
      | nil => simpa using hu
      | cons x w =>
        have hx := (List.cons_prefix_cons.mp ((List.prefix_append_right_inj u).mp hk)).1
        exact absurd (hx ▸ List.mem_append_right u List.mem_cons_self) hm
  | copy hx hrest ih =>
    cases k with
    | nil => exact List.nil_prefix
    | cons y k =>
      obtain ⟨rfl, htail⟩ := List.cons_prefix_cons.mp hk
      exact List.cons_prefix_cons.mpr ⟨rfl, ih htail fun hmem => hm (List.mem_cons_of_mem _ hmem)⟩

/-- What a text begins with, if a replacement does not change that, its replaced text begins with. -/
theorem Replaced.head {stop : α → Prop} (h : Replaced r f before after out) (hs : ∀ x ∈ after.head?, stop x)
    (hf : ∀ before d, matchAt r before after = some d → f d ≠ [] ∧ ∀ x ∈ (f d).head?, stop x) : ∀ x ∈ out.head?, stop x := by
  cases h with
  | nil => exact hs
  | hit hd _ =>
    obtain ⟨hne, hhead⟩ := hf _ _ hd
    rwa [List.head?_append_of_ne_nil _ hne]
  | copy => exact hs

end Replacing

end Regex
