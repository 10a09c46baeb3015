import MatchTrader.RawLog

/-! No row of the diagnostics shows a secret: behind every name of one, and behind every bearer scheme, its value is redacted. -/

namespace MatchTrader

open Regex

variable {a k rest text before after : List Char} {d : Cursor Char} {c : Char}

section Expressions

theorem foldCase_b (h : foldCase c = 'b') : c = 'b' ∨ c = 'B' := by
  unfold foldCase at h
  split_ifs at h with h1 h2 h3
  · cases h
  · cases h
  · cases h
  · unfold Char.toLower at h
    split at h
    · next hupper =>
      right
      have hv : (c.val + 32).toNat = 98 := congrArg (fun x : Char => x.val.toNat) h
      have hle := UInt32.le_iff_toNat_le.mp hupper.2
      have hlt : c.val.toNat + 32 < 2 ^ 32 := lt_of_le_of_lt (Nat.add_le_add_right hle 32) (by decide)
      have hsum : c.val.toNat + 32 = 98 := (Nat.mod_eq_of_lt hlt).symm.trans ((UInt32.toNat_add ..).symm.trans hv)
      have hn : c.val.toNat = 66 := by omega
      exact Char.ext (UInt32.toNat_inj.mp hn)
    · exact Or.inl h

/-- The letters of the names, without case. -/
def nameLetters : List Char := "acdehikmnoprstuwxyz_-".toList

theorem foldCase_bracket : foldCase '[' = '[' := by decide

theorem anyCase_simple (t : String) : (anyCase t).Simple := simple_literal

theorem secretNames_simple : secretNames.Simple := by
  refine simple_first (anyCase_simple _) fun t ht => ?_
  simp only [List.mem_cons, List.not_mem_nil, or_false] at ht
  obtain rfl | rfl | rfl | rfl | rfl | rfl | rfl | rfl := ht <;> exact anyCase_simple _

theorem secretKey_simple : secretKey.Simple := ⟨trivial, secretNames_simple, trivial, trivial, trivial, trivial, trivial⟩

theorem bearer_simple : bearer.Simple := ⟨anyCase_simple _, ⟨trivial, trivial⟩, trivial, trivial⟩

theorem anyCase_over {t : String} (h : t.toList.all (fun l => foldCase l ∈ nameLetters) = true) :
    (anyCase t).Over fun x => foldCase x ∈ nameLetters := by
  refine over_literal fun l hl x hx => ?_
  have hsame : foldCase x = foldCase l := of_decide_eq_true hx
  rw [hsame]
  exact of_decide_eq_true (List.all_eq_true.mp h l hl)

theorem secretNames_over : secretNames.Over fun x => foldCase x ∈ nameLetters := by
  refine over_first (anyCase_over (by decide)) fun t ht => ?_
  simp only [List.mem_cons, List.not_mem_nil, or_false] at ht
  obtain rfl | rfl | rfl | rfl | rfl | rfl | rfl | rfl := ht <;> exact anyCase_over (by decide)

/-- Nothing in the name of a secret is a quote, a bracket, or begins a bearer scheme. -/
theorem nameLetter_spec (h : foldCase c ∈ nameLetters) : c ≠ '"' ∧ c ≠ '[' ∧ foldCase c ≠ 'b' := by
  refine ⟨?_, ?_, ?_⟩
  · rintro rfl
    exact absurd h (by decide)
  · rintro rfl
    exact absurd h (by decide)
  · intro hb
    exact absurd (hb ▸ h) (by decide)

theorem space_spec (h : isSpace c = true) : c ≠ '"' ∧ c ≠ '[' ∧ foldCase c ≠ 'b' := by
  refine ⟨?_, ?_, fun hb => ?_⟩
  · rintro rfl
    cases h
  · rintro rfl
    cases h
  · obtain rfl | rfl := foldCase_b hb <;> cases h

theorem secretKey_over : secretKey.Over fun x => x ≠ '[' ∧ foldCase x ≠ 'b' := by
  have hquote : ∀ x, quoted x = true → x ≠ '[' ∧ foldCase x ≠ 'b' := by
    intro x hx
    obtain rfl : x = '"' := of_decide_eq_true hx
    decide
  have hcolon : ∀ x, decide (x = ':') = true → x ≠ '[' ∧ foldCase x ≠ 'b' := by
    intro x hx
    obtain rfl : x = ':' := of_decide_eq_true hx
    decide
  have hspace : ∀ x, isSpace x = true → x ≠ '[' ∧ foldCase x ≠ 'b' := fun x hx => (space_spec hx).2
  have hnames : secretNames.Over fun x => x ≠ '[' ∧ foldCase x ≠ 'b' := secretNames_over.mono fun x hx => (nameLetter_spec hx).2
  exact ⟨hquote, hnames, hquote, hspace, hcolon, hspace, hquote⟩

/-- A key has three quotes, one of them first and one last. -/
theorem secretKey_quotes (h : secretKey.Matches k) : k.head? = some '"' ∧ k.getLast? = some '"' ∧ k.countP quoted = 3 := by
  obtain ⟨q₁, k₁, rfl, ⟨x₁, rfl, h₁⟩, name, k₂, rfl, hname, q₂, k₃, rfl, ⟨x₂, rfl, h₂⟩, ws, k₄, rfl, hws, c, k₅, rfl, ⟨y, rfl, hy⟩,
    ws', q₃, rfl, hws', x₃, rfl, h₃⟩ := h
  obtain rfl : x₁ = '"' := of_decide_eq_true h₁
  obtain rfl : x₃ = '"' := of_decide_eq_true h₃
  obtain rfl : y = ':' := of_decide_eq_true hy
  have hn : name.countP quoted = 0 := List.countP_eq_zero.mpr fun x hx hq =>
    (nameLetter_spec (matches_over secretNames_simple secretNames_over hname x hx)).1 (of_decide_eq_true hq)
  have hspaces {ws : List Char} (hws : (Re.star logSpace).Matches ws) : ws.countP quoted = 0 := List.countP_eq_zero.mpr fun x hx hq =>
    (space_spec (matches_star_char.mp hws x hx)).1 (of_decide_eq_true hq)
  refine ⟨rfl, ?_, ?_⟩
  · have hsplit : ['"'] ++ (name ++ ([x₂] ++ (ws ++ ([':'] ++ (ws' ++ ['"']))))) = (['"'] ++ name ++ [x₂] ++ ws ++ [':'] ++ ws') ++ ['"'] := by simp
    rw [hsplit, List.getLast?_concat]
  · simp only [List.countP_append, List.countP_cons, List.countP_nil, hn, hspaces hws, hspaces hws', h₂]
    rfl

/-- No key is a part of another. -/
theorem secretKey_unique {k' rest' : List Char} (h : secretKey.Matches k) (h' : secretKey.Matches k') (he : k ++ rest = k' ++ rest') :
    k = k' ∧ rest = rest' := by
  have hless {k k' w : List Char} (h : secretKey.Matches k) (h' : secretKey.Matches k') (he : k' = k ++ w) : w = [] := by
    obtain ⟨-, -, hc⟩ := secretKey_quotes h
    obtain ⟨-, hlast, hc'⟩ := secretKey_quotes h'
    rw [he, List.countP_append] at hc'
    have hnone : w.countP quoted = 0 := by omega
    by_contra hw
    rw [he, List.getLast?_append_of_ne_nil _ hw] at hlast
    exact List.countP_eq_zero.mp hnone '"' (List.mem_of_getLast? hlast) rfl
  rcases List.append_eq_append_iff.mp he with ⟨w, hk', hrest⟩ | ⟨w, hk, hrest⟩
  · obtain rfl := hless h h' hk'
    exact ⟨by simpa using hk'.symm, by simpa using hrest⟩
  · obtain rfl := hless h' h hk
    exact ⟨by simpa using hk, by simpa using hrest.symm⟩

end Expressions

section Members

theorem secretMember_begins : secretMember.Begins fun x => x = '"' := Or.inl (Or.inl fun _ hx => of_decide_eq_true hx)

/-- A match is a key and what is behind it up to a quote. -/
theorem matchAt_member (h : matchAt secretMember before after = some d) : ∃ v, secretKey.Matches ((d.captured 1).getD [])
    ∧ after = (d.captured 1).getD [] ++ (v ++ d.after) ∧ ∀ x ∈ d.after.head?, x = '"' := by
  obtain ⟨hhead, -⟩ := Option.filter_eq_some_iff.mp h
  obtain ⟨m, hm, hd⟩ := head?_seq hhead
  obtain ⟨t, ht, hcap⟩ := captured_group hm
  obtain ⟨u, hu, hkey⟩ := run_matches (r := .group 1 secretKey) secretKey_simple hm
  obtain rfl : t = u := List.append_cancel_right (ht.1.symm.trans hu.1)
  rw [head?_star_char] at hd
  obtain rfl := Option.some.inj hd
  have hkeep : (m.advance (m.after.takeWhile (!quoted ·))).captured 1 = some t := hcap
  rw [hkeep, Cursor.after_advance_takeWhile]
  refine ⟨m.after.takeWhile (!quoted ·), hkey, ?_, fun x hx => ?_⟩
  · rw [List.takeWhile_append_dropWhile]
    exact ht.1
  · have hstop := List.head?_dropWhile_not (!quoted ·) m.after
    rw [Option.mem_def.mp hx] at hstop
    exact of_decide_eq_true (Bool.not_eq_eq_eq_not.mp hstop)

/-- What is redacted, and then nothing or something that ends a value. -/
def Covered (stop : Char → Bool) (rest : List Char) : Prop := ∃ t, rest = redacted ++ t ∧ ∀ x ∈ t.head?, stop x = true

theorem member_replacement (h : matchAt secretMember before after = some d) :
    ∃ u v, (d.captured 1).getD [] ++ redacted = u ++ '[' :: v ∧ u <+: after := by
  obtain ⟨v, -, hafter, -⟩ := matchAt_member h
  exact ⟨_, "redacted]".toList, rfl, hafter ▸ List.prefix_append ..⟩

theorem secretKey_no_bracket (h : secretKey.Matches k) : '[' ∉ k := fun hm => (matches_over secretKey_simple secretKey_over h _ hm).1 rfl

/-- No key begins within a replacement. -/
theorem secretKey_outside {k' u v out : List Char} (hk : secretKey.Matches k) (hk' : secretKey.Matches k') (hu : u ≠ []) (hv : v ≠ [])
    (hf : k' ++ redacted = u ++ v) (he : k ++ rest = v ++ out) : False := by
  obtain ⟨hfirst, -, hcount⟩ := secretKey_quotes hk
  obtain ⟨hfirst', -, hcount'⟩ := secretKey_quotes hk'
  have hne : k ≠ [] := by
    rintro rfl
    cases hfirst
  rcases List.append_eq_append_iff.mp hf with ⟨w, rfl, hw⟩ | ⟨w, rfl, rfl⟩
  · -- the key would begin in what is redacted
    have hhead : v.head? = some '"' := by
      rw [← List.head?_append_of_ne_nil v hv, ← he, List.head?_append_of_ne_nil k hne]
      exact hfirst
    have hmem : '"' ∈ redacted := hw ▸ List.mem_append_right w (List.mem_of_head? hhead)
    exact absurd hmem (by decide)
  · -- the key would be a part of the one that is replaced
    have hfront : k <+: w := by
      have hboth : k <+: w ++ (redacted ++ out) := ⟨rest, he.trans (List.append_assoc ..)⟩
      rcases List.prefix_or_prefix_of_prefix hboth (List.prefix_append w _) with hkw | ⟨t, rfl⟩
      · exact hkw
      · cases t with
        | nil => simp
        | cons x t =>
          have hx := (List.cons_prefix_cons.mp ((List.prefix_append_right_inj w).mp hboth)).1
          exact absurd (List.mem_append_right w (hx ▸ List.mem_cons_self)) (secretKey_no_bracket hk)
    have hquote : 1 ≤ u.countP quoted := by
      rw [List.head?_append_of_ne_nil u hu] at hfirst'
      exact List.countP_pos_iff.mpr ⟨'"', List.mem_of_head? hfirst', rfl⟩
    have hless := hfront.sublist.countP_le (p := quoted)
    rw [List.countP_append] at hcount'
    omega

/-- Behind every key that is left in the text, its value is redacted. -/
theorem maskMembers_covered (h : maskMembers text = a ++ (k ++ rest)) (hk : secretKey.Matches k) : Covered quoted rest := by
  have hrep := sub_replaced secretMember (fun m => (m.captured 1).getD [] ++ redacted) text
  have hsub : sub secretMember (fun m => (m.captured 1).getD [] ++ redacted) text = a ++ (k ++ rest) := h
  rw [hsub] at hrep
  rcases hrep.place with ⟨before', after', -, hrep'⟩ | ⟨before', after', d, u, v, out', hd, hfd, hu, hv, hrest⟩
  · have hfront : k <+: after' :=
      hrep'.prefix_of (fun _ _ _ hd => member_replacement hd) (List.prefix_append ..) (secretKey_no_bracket hk)
    generalize hw : k ++ rest = whole at hrep'
    cases hrep' with
    | nil =>
      obtain ⟨rfl, -⟩ := List.append_eq_nil_iff.mp hw
      cases (secretKey_quotes hk).1
    | @hit _ _ _ d hd hrest =>
      obtain ⟨v, hkey, -, hstop⟩ := matchAt_member hd
      rw [List.append_assoc] at hw
      obtain ⟨-, rfl⟩ := secretKey_unique hk hkey hw
      have hbegin : ∀ x ∈ d.after.head?, quoted x = true := fun x hx => decide_eq_true (hstop x hx)
      refine ⟨_, rfl, hrest.head hbegin fun before e he => ?_⟩
      obtain ⟨v, hkey, -, -⟩ := matchAt_member he
      have hhead : ((e.captured 1).getD [] ++ redacted).head? = some '"' := by
        rw [List.head?_append, (secretKey_quotes hkey).1]
        rfl
      refine ⟨List.append_ne_nil_of_right_ne_nil _ (by decide), fun x hx => ?_⟩
      have hquote : some '"' = some x := hhead.symm.trans hx
      obtain rfl := Option.some.inj hquote
      rfl
    | copy hx _ =>
      obtain ⟨t, ht⟩ := hfront
      have hmatch : secretMember.Matches k := ⟨k, [], (List.append_nil k).symm, hk, [], rfl, List.forall_mem_nil _⟩
      obtain ⟨d, hd⟩ := exists_matchAt secretMember_begins ⟨secretKey_simple, trivial⟩ hmatch before' t
      rw [ht, hx] at hd
      cases hd
  · obtain ⟨_, hkey, -, -⟩ := matchAt_member hd
    exact (secretKey_outside hk hkey hu hv hfd hrest).elim

end Members

section Bearers

theorem bearer_begins : bearer.Begins fun x => foldCase x = 'b' := Or.inl (begins_literal fun _ hx => of_decide_eq_true hx)

theorem matchAt_begins (h : matchAt bearer before after = some d) : ∀ x ∈ after.head?, foldCase x = 'b' := by
  obtain ⟨x, t, ht, hx⟩ := run_begins bearer_begins (matchAt_mem h).1
  have hafter : after = x :: (t ++ d.after) := ht.1
  rw [hafter]
  intro y hy
  obtain rfl := Option.some.inj hy
  exact hx

/-- A match ends where something ends a credential. -/
theorem matchAt_stops (h : matchAt bearer before after = some d) : ∀ x ∈ d.after.head?, credentialStop x = true := by
  obtain ⟨hhead, -⟩ := Option.filter_eq_some_iff.mp h
  obtain ⟨m₁, -, hd⟩ := head?_seq hhead
  obtain ⟨m₂, -, hd⟩ := head?_seq hd
  obtain ⟨m₃, -, hd⟩ := head?_seq hd
  rw [head?_star_char] at hd
  obtain rfl := Option.some.inj hd
  rw [Cursor.after_advance_takeWhile]
  intro x hx
  have hstop := List.head?_dropWhile_not (!credentialStop ·) m₃.after
  rw [Option.mem_def.mp hx] at hstop
  exact Bool.not_eq_eq_eq_not.mp hstop

def bearerTail : List Char := ['e', 'a', 'r', 'e', 'r'] ++ ' ' :: redacted

/-- What takes the place of a match. -/
def bearerMask : List Char := 'B' :: bearerTail

theorem maskBearers_eq (text : List Char) : maskBearers text = sub bearer (fun _ => bearerMask) text := by
  have hmask : "Bearer ".toList ++ redacted = bearerMask := by decide
  rw [maskBearers, hmask]

theorem bearerTail_fold : ∀ c ∈ bearerTail, foldCase c ≠ 'b' := by
  have hall : bearerTail.all (fun c => foldCase c ≠ 'b') = true := by decide
  exact fun c hc => of_decide_eq_true (List.all_eq_true.mp hall c hc)

/-- No match begins where a credential may end. -/
theorem Covered.head {stop : Char → Bool} {out t : List Char} (hr : Replaced bearer (fun _ => bearerMask) before t out)
    (ht : ∀ x ∈ t.head?, stop x = true) (hs : ∀ x, stop x = true → foldCase x ≠ 'b') : ∀ x ∈ out.head?, stop x = true := by
  refine hr.head ht fun before e he => ?_
  cases t with
  | nil => exact absurd (matchAt_mem he).2 (Nat.not_lt_zero _)
  | cons x t => exact absurd (matchAt_begins he x rfl) (hs x (ht x rfl))

/-- Masking the bearers leaves every covered key covered. -/
theorem maskBearers_members (hc : ∀ a k rest, text = a ++ (k ++ rest) → secretKey.Matches k → Covered quoted rest)
    (h : maskBearers text = a ++ (k ++ rest)) (hk : secretKey.Matches k) : Covered quoted rest := by
  have hrep := sub_replaced bearer (fun _ => bearerMask) text
  rw [← maskBearers_eq, h] at hrep
  have hover := matches_over secretKey_simple secretKey_over hk
  rcases hrep.place with ⟨before', after', ⟨pre, rfl⟩, hrep'⟩ | ⟨before', after', d, u, v, out', hd, hfd, hu, hv, hrest⟩
  · have hb : 'B' ∉ k := fun hm => (hover _ hm).2 (by decide)
    obtain ⟨rest', rfl⟩ := hrep'.prefix_of (fun _ _ _ _ => ⟨[], bearerTail, rfl, List.nil_prefix⟩)
      (List.prefix_append k rest) hb
    obtain ⟨t, rfl, ht⟩ := hc pre k rest' rfl hk
    have hstable : Stable bearer (fun _ => bearerMask) (k ++ redacted) t := by
      intro before s d hs hne hd
      obtain ⟨x, s, rfl⟩ := List.exists_cons_of_ne_nil hne
      have hx : x ∈ k ++ redacted := hs.subset List.mem_cons_self
      have hfold := matchAt_begins hd x rfl
      rcases List.mem_append.mp hx with hx | hx
      · exact absurd hfold (hover x hx).2
      · exact absurd hfold (bearerTail_fold x (List.mem_append_right _ (List.mem_cons_of_mem _ hx)))
    rw [← List.append_assoc] at hrep'
    obtain ⟨before'', out', hout, hrest⟩ := hrep'.zone hstable
    rw [List.append_assoc] at hout
    refine ⟨out', List.append_cancel_left hout, Covered.head hrest ht fun x hx => ?_⟩
    obtain rfl : x = '"' := of_decide_eq_true hx
    decide
  · have hmem : '"' ∈ bearerMask := by
      have hhead : v.head? = some '"' := by
        have hne : k ≠ [] := by
          rintro rfl
          cases (secretKey_quotes hk).1
        rw [← List.head?_append_of_ne_nil v hv, ← hrest, List.head?_append_of_ne_nil k hne]
        exact (secretKey_quotes hk).1
      exact hfd ▸ List.mem_append_right u (List.mem_of_head? hhead)
    exact absurd hmem (by decide)

/-- A scheme is the name, in any case, and spaces. -/
theorem bearerScheme_parts (h : bearerScheme.Matches k) : ∃ x name s ws, k = x :: (name ++ s :: ws) ∧ foldCase x = 'b' ∧ name.length = 5
    ∧ (∀ y ∈ name, foldCase y ≠ 'b') ∧ isSpace s = true ∧ (∀ y ∈ ws, isSpace y = true) ∧ (anyCase "Bearer").Matches (x :: name) := by
  obtain ⟨w, v, rfl, hw, s', ws, rfl, ⟨s, rfl, hs⟩, hws⟩ := h
  have hfold := matches_literal.mp hw
  have hlen := hfold.length_eq
  obtain ⟨x, name, hx, hname, rfl⟩ := List.forall₂_cons_right_iff.mp hfold
  have hrest : ∀ y ∈ name, foldCase y ≠ 'b' := by
    have hover : (anyCase "earer").Over fun y => foldCase y ∈ nameLetters := anyCase_over (by decide)
    exact fun y hy => (nameLetter_spec (matches_over (anyCase_simple "earer") hover (matches_literal.mpr hname) y hy)).2.2
  refine ⟨x, name, s, ws, rfl, of_decide_eq_true hx, ?_, hrest, hs, matches_star_char.mp hws, hw⟩
  exact Nat.succ.inj hlen

/-- Up to where a replacement begins the text is as it was, and what begins a replacement is no stop. -/
theorem Replaced.credential {out : List Char} {x : Char} (h : Replaced bearer (fun _ => bearerMask) before after out)
    (ho : out = k ++ x :: rest) (hk : ∀ y ∈ k, foldCase y ≠ 'b') (hx : credentialStop x = false) :
    ∃ y t, after = k ++ y :: t ∧ credentialStop y = false := by
  induction h generalizing k with
  | nil => cases k <;> cases ho
  | @hit before after out d hd hrest ih =>
    obtain ⟨y, t, rfl⟩ : ∃ y t, after = y :: t := List.exists_cons_of_ne_nil fun hnil => by
      subst hnil
      exact absurd (matchAt_mem hd).2 (Nat.not_lt_zero _)
    have hy : foldCase y = 'b' := matchAt_begins hd y rfl
    cases k with
    | nil => obtain rfl | rfl := foldCase_b hy <;> exact ⟨_, t, rfl, rfl⟩
    | cons z k =>
      obtain rfl : 'B' = z := (List.cons.inj ho).1
      exact absurd (by decide) (hk 'B' List.mem_cons_self)
  | @copy before xs out z hz hrest ih =>
    cases k with
    | nil =>
      obtain ⟨rfl, -⟩ := List.cons.inj ho
      exact ⟨z, xs, rfl, hx⟩
    | cons w k =>
      obtain ⟨rfl, htail⟩ := List.cons.inj ho
      obtain ⟨y, t, rfl, hy⟩ := ih htail fun y hm => hk y (List.mem_cons_of_mem _ hm)
      exact ⟨y, t, rfl, hy⟩

/-- Behind every bearer scheme that is left in the text, the credential is redacted. -/
theorem maskBearers_covered {x : Char} (h : maskBearers text = a ++ (k ++ x :: rest)) (hk : bearerScheme.Matches k)
    (hx : credentialStop x = false) : Covered credentialStop (x :: rest) := by
  have hrep := sub_replaced bearer (fun _ => bearerMask) text
  rw [← maskBearers_eq, h] at hrep
  obtain ⟨b, name, s, ws, rfl, hb, hlen, hname, hs, hws, hscheme⟩ := bearerScheme_parts hk
  have htail : ∀ y ∈ name ++ s :: ws, foldCase y ≠ 'b' := by
    intro y hy
    rcases List.mem_append.mp hy with hy | hy
    · exact hname y hy
    · rcases List.mem_cons.mp hy with rfl | hy
      · exact (space_spec hs).2.2
      · exact (space_spec (hws y hy)).2.2
  rcases hrep.place with ⟨before', after', -, hrep'⟩ | ⟨before', after', d, u, v, out', hd, hfd, hu, hv, hrest⟩
  · generalize hw : b :: (name ++ s :: ws) ++ x :: rest = whole at hrep'
    cases hrep' with
    | nil => cases hw
    | @hit _ _ out d hd hrest =>
      have hcut : b :: name ++ (s :: (ws ++ x :: rest)) = ['B', 'e', 'a', 'r', 'e', 'r'] ++ ' ' :: (redacted ++ out) := by
        have hsplit : b :: name ++ (s :: (ws ++ x :: rest)) = b :: (name ++ s :: ws) ++ x :: rest := by simp
        rw [hsplit, hw]
        rfl
      obtain ⟨-, hspaces⟩ := List.append_inj hcut (by simp [hlen])
      obtain ⟨-, hrest'⟩ := List.cons.inj hspaces
      have hnil : ws = [] := by
        cases ws with
        | nil => rfl
        | cons y ws =>
          obtain rfl : y = '[' := (List.cons.inj hrest').1
          cases hws '[' List.mem_cons_self
      subst hnil
      refine ⟨out, hrest', Covered.head hrest (matchAt_stops hd) fun y hy hfold => ?_⟩
      obtain rfl | rfl := foldCase_b hfold <;> cases hy
    | @copy _ xs out z hz hrest =>
      obtain ⟨rfl, ho⟩ := List.cons.inj hw
      obtain ⟨y, t, rfl, hy⟩ := Replaced.credential hrest ho.symm htail hx
      have hmatch : bearer.Matches (b :: name ++ (s :: ws ++ [y])) :=
        ⟨b :: name, s :: ws ++ [y], rfl, hscheme, s :: ws, [y], rfl, ⟨[s], ws, rfl, ⟨s, rfl, hs⟩, matches_star_char.mpr hws⟩,
          [y], [], rfl, ⟨y, rfl, Bool.not_eq_eq_eq_not.mpr hy⟩, [], rfl, List.forall_mem_nil _⟩
      obtain ⟨d, hd⟩ := exists_matchAt bearer_begins bearer_simple hmatch before' t
      have hsame : b :: name ++ (s :: ws ++ [y]) ++ t = b :: (name ++ s :: ws ++ y :: t) := by simp
      rw [hsame, hz] at hd
      cases hd
  · -- the scheme would begin within a replacement
    obtain ⟨z, u, rfl⟩ := List.exists_cons_of_ne_nil hu
    obtain ⟨y, v, rfl⟩ := List.exists_cons_of_ne_nil hv
    obtain ⟨rfl, -⟩ := List.cons.inj hrest
    have hsplit : bearerTail = u ++ b :: v := (List.cons.inj hfd).2
    have hmem : b ∈ bearerTail := by
      rw [hsplit]
      exact List.mem_append_right u List.mem_cons_self
    exact absurd hb (bearerTail_fold b hmem)

end Bearers

section Rows

/-- Redacted, or cut off within what is redacted. -/
def Hidden (stop : Char → Bool) (rest : List Char) : Prop := rest <+: redacted ∨ Covered stop rest

/-- Behind every name of a secret with the quote of its value, and behind every bearer scheme, the value is redacted. -/
structure Masked (text : List Char) : Prop where
  keys : ∀ a k rest, text = a ++ (k ++ rest) → secretKey.Matches k → Hidden quoted rest
  bearers : ∀ a k x rest, text = a ++ (k ++ x :: rest) → bearerScheme.Matches k → credentialStop x = false → Hidden credentialStop (x :: rest)

theorem hidden_of_covered {stop : Char → Bool} {tail : List Char} (h : Covered stop (rest ++ tail)) : Hidden stop rest := by
  obtain ⟨t, ht, hs⟩ := h
  rcases List.append_eq_append_iff.mp ht with ⟨w, hw, -⟩ | ⟨w, rfl, hw⟩
  · exact Or.inl ⟨w, hw.symm⟩
  · refine Or.inr ⟨w, rfl, fun x hx => hs x ?_⟩
    rw [hw, Option.mem_def, List.head?_append, Option.mem_def.mp hx]
    rfl

/-- Both masks, and then a cut. -/
theorem masked_of_prefix (text : List Char) {cut : List Char} (h : cut <+: maskBearers (maskMembers text)) : Masked cut := by
  obtain ⟨tail, htail⟩ := h
  constructor
  · rintro a k rest rfl hk
    rw [List.append_assoc, List.append_assoc] at htail
    exact hidden_of_covered (maskBearers_members (fun _ _ _ => maskMembers_covered) htail.symm hk)
  · rintro a k x rest rfl hk hx
    rw [List.append_assoc, List.append_assoc] at htail
    have hcovered : Covered credentialStop (x :: rest ++ tail) := maskBearers_covered htail.symm hk hx
    exact hidden_of_covered hcovered

theorem prefix_fitBytes (n : Nat) (text : List Char) : fitBytes n text <+: text := by
  induction text generalizing n with
  | nil => exact List.nil_prefix
  | cons c text ih =>
    unfold fitBytes
    split
    · exact List.cons_prefix_cons.mpr ⟨rfl, ih _⟩
    · exact List.nil_prefix

theorem fitBytes_length (n : Nat) (text : List Char) : utf8Length (fitBytes n text) ≤ n := by
  induction text generalizing n with
  | nil => exact Nat.zero_le n
  | cons c text ih =>
    unfold fitBytes
    split
    · next hle =>
      have hrest := ih (n - c.utf8Size)
      rw [utf8Length, List.map_cons, List.sum_cons]
      rw [utf8Length] at hrest
      omega
    · exact Nat.zero_le n

/-- No letter of a scheme's name follows the first. -/
def Unlettered (x y : Char) : Prop := ¬ (foldCase x = 'b' ∧ foldCase y = 'e')

instance (x y : Char) : Decidable (Unlettered x y) := inferInstanceAs (Decidable (¬ _))

theorem binary_unlettered (length : Nat) : (RawMessage.binary length).spelled.IsChain Unlettered ∧ '"' ∉ (RawMessage.binary length).spelled := by
  have hdigit : ∀ c ∈ Nat.toDigits 10 length, c.isDigit = true := fun c hc => Nat.isDigit_of_mem_toDigits (by decide) le_rfl hc
  have hplain : ∀ c, c.isDigit = true → foldCase c ≠ 'b' ∧ c ≠ '"' := by
    intro c hc
    refine ⟨fun hb => ?_, ?_⟩
    · obtain rfl | rfl := foldCase_b hb <;> cases hc
    · rintro rfl
      cases hc
  have hdigits : (Nat.toDigits 10 length).IsChain Unlettered := by
    refine List.Pairwise.isChain (List.pairwise_of_forall_mem_list fun x hx y hy h => ?_)
    exact (hplain x (hdigit x hx)).1 h.1
  have hfront : "[Binary message: ".toList.IsChain Unlettered := by decide
  have hback : " bytes; content omitted]".toList.IsChain Unlettered := by decide
  constructor
  · unfold RawMessage.spelled
    refine List.isChain_append.mpr ⟨List.isChain_append.mpr ⟨hfront, hdigits, ?_⟩, hback, ?_⟩
    · intro x hx y _ h
      have hlast : "[Binary message: ".toList.getLast? = some ' ' := by decide
      obtain rfl := Option.some.inj (hlast.symm.trans hx)
      cases h.1
    · intro x hx y _ h
      have hne : Nat.toDigits 10 length ≠ [] := Nat.toDigits_ne_nil
      rw [List.getLast?_append_of_ne_nil _ hne] at hx
      exact (hplain x (hdigit x (List.mem_of_getLast? hx))).1 h.1
  · unfold RawMessage.spelled
    intro hm
    rcases List.mem_append.mp hm with hm | hm
    · rcases List.mem_append.mp hm with hm | hm
      · exact absurd hm (by decide)
      · exact (hplain '"' (hdigit '"' hm)).2 rfl
    · exact absurd hm (by decide)

theorem binary_masked (length : Nat) {cut : List Char} (h : cut <+: (RawMessage.binary length).spelled) : Masked cut := by
  obtain ⟨hchain, hquote⟩ := binary_unlettered length
  constructor
  · rintro a k rest rfl hk
    have hmem : '"' ∈ k := List.mem_of_head? (secretKey_quotes hk).1
    exact absurd (h.subset (List.mem_append_right a (List.mem_append_left rest hmem))) hquote
  · rintro a k x rest rfl hk hx
    obtain ⟨b, name, s, ws, rfl, hb, hlen, -, -, -, hscheme⟩ := bearerScheme_parts hk
    obtain ⟨y, name, rfl⟩ := List.exists_cons_of_ne_nil (List.ne_nil_of_length_pos (by omega : 0 < name.length))
    have he : foldCase y = 'e' := by
      have hfold := matches_literal.mp hscheme
      cases hfold with
      | cons _ hrest =>
        cases hrest with
        | cons hy _ => exact of_decide_eq_true hy
    have hcut := hchain.prefix h
    have hunlettered : Unlettered b y := by
      have hsplit : a ++ (b :: (y :: name ++ s :: ws) ++ x :: rest) = a ++ b :: y :: (name ++ s :: ws ++ x :: rest) := by simp
      rw [hsplit] at hcut
      exact (List.isChain_append_cons_cons.mp hcut).2.1
    exact absurd ⟨hb, he⟩ hunlettered

theorem shown_masked (secret : String) (raw : RawMessage) (n : Nat) : Masked (fitBytes n (raw.shown secret)) := by
  cases raw with
  | binary length => exact binary_masked length (prefix_fitBytes n _)
  | text s => exact masked_of_prefix _ (prefix_fitBytes n _)
  | value v => exact masked_of_prefix _ (prefix_fitBytes n _)

namespace RawHistory

variable {h : RawHistory} {maxEntries maxBytes : Nat}

theorem Reachable.masked (hr : Reachable maxEntries maxBytes h) : ∀ r ∈ h.rows, Masked r.raw ∧ utf8Length r.raw ≤ maxShown := by
  induction hr with
  | refl => exact List.forall_mem_nil _
  | tail _ hstep ih =>
    cases hstep with
    | append direction transport raw secret now _ =>
      exact List.forall_mem_append.mpr ⟨ih, List.forall_mem_singleton.mpr ⟨shown_masked secret raw maxShown, fitBytes_length maxShown _⟩⟩
    | close => exact ih

/-- Whatever messages are appended and whenever the log is read, no row that is shown has the value of a secret or of a bearer's
credential: behind each name and each scheme it says that the value is redacted, or ends within saying so. -/
theorem shown_rows_masked (hr : Reachable maxEntries maxBytes h) {after : Int} {snapshot : RawSnapshot} {view : RawView}
    (hs : h.log.streamSnapshot after = some snapshot) (hv : snapshot.view = some view) :
    ∀ r ∈ view.events, Masked r.raw ∧ utf8Length r.raw ≤ maxShown := by
  unfold RawLog.streamSnapshot at hs
  split at hs
  · cases hs
  · obtain rfl := Option.some.inj hs
    simp only at hv
    split at hv
    · obtain rfl := Option.some.inj hv
      intro r hmem
      exact hr.masked r (hr.sound.kept.suffix.subset (List.mem_reverse.mp hmem))
    · cases hv

theorem shown_rows_masked_sample : Masked (sampleRawRow 1).raw ∧ utf8Length (sampleRawRow 1).raw ≤ maxShown := by
  have hfirst : Step ⟨{ maxEntries := 1 }, []⟩ ⟨sampleLog 1, [sampleRawRow 1]⟩ :=
    sampleLog_row { maxEntries := 1 } 0 rfl ▸ .append "in" "websocket" sampleSecret "" "noon" sampleLog_append.1
  have hs : (sampleLog 1).streamSnapshot (-1) = some ⟨1, some ⟨[sampleRawRow 1], (sampleRawRow 1).size, 2097152, 1, 0⟩⟩ := rfl
  exact shown_rows_masked (Relation.ReflTransGen.single hfirst) hs rfl _ List.mem_cons_self

end RawHistory

end Rows

end MatchTrader
