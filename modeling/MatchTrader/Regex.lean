import Mathlib.Data.List.Basic
import Mathlib.Data.List.Infix

/-! Backtracking regular expressions with captures: what a match takes, what its groups hold, and what
becomes of a text when every match in it is replaced. -/

namespace Regex

variable {α : Type}

inductive Re (α : Type) where
  | empty
  | char (p : α → Bool)
  /-- One side of the place belongs to a word and the other does not. -/
  | boundary (word : α → Bool)
  /-- Nothing follows but one element that may end a text. -/
  | atEnd (final : α → Bool)
  | seq (r s : Re α)
  | alt (r s : Re α)
  | star (r : Re α)
  | group (n : Nat) (r : Re α)
  | backref (n : Nat)
  | notAhead (r : Re α)

namespace Re

def opt (r : Re α) : Re α := alt r empty

def plus (r : Re α) : Re α := seq r (star r)

def times : Nat → Re α → Re α
  | 0, _ => empty
  | n + 1, r => seq r (times n r)

/-- At most so many times, and as often as it can be. -/
def atMost : Nat → Re α → Re α
  | 0, _ => empty
  | n + 1, r => opt (seq r (atMost n r))

def literal (alike : α → α → Bool) : List α → Re α
  | [] => empty
  | l :: ls => seq (char (alike · l)) (literal alike ls)

/-- The first of these that matches. -/
def first (r : Re α) : List (Re α) → Re α
  | [] => r
  | s :: rest => alt r (first s rest)

end Re

/-- A place in a text, and what the groups have captured on the way to it. -/
structure Cursor (α : Type) where
  /-- What precedes the place, last element first. -/
  before : List α
  after : List α
  groups : List (Nat × List α)

namespace Cursor

def captured (c : Cursor α) (n : Nat) : Option (List α) := (c.groups.find? fun g => g.1 = n).map Prod.snd

/-- The groups in the order of their numbers count from the last capture of each. -/
def capture (c d : Cursor α) (n : Nat) : Cursor α :=
  { d with groups := (n, c.after.take (c.after.length - d.after.length)) :: d.groups }

def advance (c : Cursor α) (t : List α) : Cursor α :=
  { c with before := t.reverse ++ c.before, after := c.after.drop t.length }

/-- From the one place to the other the elements `t` were taken. -/
def Takes (c d : Cursor α) (t : List α) : Prop := c.after = t ++ d.after ∧ d.before = t.reverse ++ c.before

end Cursor

/-- As often as it moves on, the longest way first. -/
def iterate (f : Cursor α → List (Cursor α)) : Nat → Cursor α → List (Cursor α)
  | 0, c => [c]
  | n + 1, c => ((f c).filter fun d => d.after.length < c.after.length).flatMap (iterate f n) ++ [c]

/-- The ways to match from a place, in the order in which they are tried. -/
def run [DecidableEq α] : Re α → Cursor α → List (Cursor α)
  | .empty, c => [c]
  | .char p, c =>
    match c.after with
    | [] => []
    | x :: _ => if p x then [c.advance [x]] else []
  | .boundary word, c => if c.before.head?.any word = c.after.head?.any word then [] else [c]
  | .atEnd final, c => if c.after.drop 1 = [] ∧ c.after.all final then [c] else []
  | .seq r s, c => (run r c).flatMap (run s)
  | .alt r s, c => run r c ++ run s c
  | .star r, c => iterate (run r) c.after.length c
  | .group n r, c => (run r c).map fun d => c.capture d n
  | .backref n, c =>
    match c.captured n with
    | none => []
    | some t => if t <+: c.after then [c.advance t] else []
  | .notAhead r, c => if (run r c).isEmpty then [c] else []

/-- Where the match at a place ends; one that takes nothing is none. -/
def matchAt [DecidableEq α] (r : Re α) (before after : List α) : Option (Cursor α) :=
  (run r ⟨before, after, []⟩).head?.filter fun d => d.after.length < after.length

/-- The text has a match somewhere. -/
def search [DecidableEq α] (r : Re α) : List α → List α → Bool
  | before, [] => (matchAt r before []).isSome
  | before, x :: xs => (matchAt r before (x :: xs)).isSome || search r (x :: before) xs

/-- Every match, from the left, replaced; the next is looked for where the last one ends. -/
def subFrom [DecidableEq α] (r : Re α) (f : Cursor α → List α) : Nat → List α → List α → List α
  | 0, _, after => after
  | n + 1, before, after =>
    match matchAt r before after with
    | some d => f d ++ subFrom r f n d.before d.after
    | none =>
      match after with
      | [] => []
      | x :: xs => x :: subFrom r f n (x :: before) xs

def sub [DecidableEq α] (r : Re α) (f : Cursor α → List α) (text : List α) : List α := subFrom r f text.length [] text

section Matches

variable {c d e : Cursor α}

theorem Cursor.takes_nil (c : Cursor α) : c.Takes c [] := ⟨rfl, rfl⟩

theorem Cursor.Takes.append {t u : List α} (h : c.Takes d t) (h' : d.Takes e u) : c.Takes e (t ++ u) := by
  obtain ⟨hafter, hbefore⟩ := h
  obtain ⟨hafter', hbefore'⟩ := h'
  constructor
  · rw [hafter, hafter', List.append_assoc]
  · rw [hbefore', hbefore, List.reverse_append, List.append_assoc]

theorem Cursor.takes_advance {t : List α} (h : t <+: c.after) : c.Takes (c.advance t) t := by
  constructor
  · have hcut := List.prefix_iff_eq_append.mp h
    exact hcut.symm
  · rfl

/-- Whatever each turn keeps, the iteration keeps. -/
theorem iterate_keeps {f : Cursor α → List (Cursor α)} {R : Cursor α → Cursor α → Prop} (hrefl : ∀ c, R c c)
    (htrans : ∀ c d e, R c d → R d e → R c e) (hf : ∀ c, ∀ d ∈ f c, R c d) (n : Nat) (h : d ∈ iterate f n c) : R c d := by
  induction n generalizing c with
  | zero =>
    obtain rfl := List.mem_singleton.mp h
    exact hrefl d
  | succ n ih =>
    rcases List.mem_append.mp h with h | h
    · obtain ⟨m, hm, hd⟩ := List.mem_flatMap.mp h
      exact htrans c m d (hf c m (List.mem_filter.mp hm).1) (ih hd)
    · obtain rfl := List.mem_singleton.mp h
      exact hrefl d

/-- Every element that the expression takes is one of these. -/
def Re.Over (Q : α → Prop) : Re α → Prop
  | .char p => ∀ x, p x = true → Q x
  | .seq r s => r.Over Q ∧ s.Over Q
  | .alt r s => r.Over Q ∧ s.Over Q
  | .star r => r.Over Q
  | .group _ r => r.Over Q
  | .backref _ => ∀ x, Q x
  | _ => True

/-- The expression takes something, and the first element that it takes is one of these. -/
def Re.Begins (Q : α → Prop) : Re α → Prop
  | .char p => ∀ x, p x = true → Q x
  | .seq r s => r.Begins Q ∨ r.Over (fun _ => False) ∧ s.Begins Q
  | .alt r s => r.Begins Q ∧ s.Begins Q
  | .group _ r => r.Begins Q
  | _ => False

/-- The group captures only these elements. -/
def Re.Captures (n : Nat) (Q : α → Prop) : Re α → Prop
  | .seq r s => r.Captures n Q ∧ s.Captures n Q
  | .alt r s => r.Captures n Q ∧ s.Captures n Q
  | .star r => r.Captures n Q
  | .group m r => r.Captures n Q ∧ (m = n → r.Over Q)
  | _ => True

variable [DecidableEq α] {Q : α → Prop} {r : Re α}

theorem run_char_hit {p : α → Bool} {x : α} {xs : List α} (hc : c.after = x :: xs) (hx : p x = true) :
    run (.char p) c = [c.advance [x]] := by
  simp only [run, hc, hx, if_true]

theorem run_char_miss {p : α → Bool} {x : α} {xs : List α} (hc : c.after = x :: xs) (hx : p x = false) :
    run (.char p) c = [] := by
  simp only [run, hc, hx, Bool.false_eq_true, if_false]

theorem run_over (hr : r.Over Q) (h : d ∈ run r c) : ∃ t, c.Takes d t ∧ ∀ x ∈ t, Q x := by
  induction r generalizing c d with
  | empty =>
    obtain rfl := List.mem_singleton.mp h
    exact ⟨[], d.takes_nil, nofun⟩
  | char p =>
    rw [run] at h
    split at h
    · cases h
    · next x rest hafter =>
      split at h
      · next hp =>
        obtain rfl := List.mem_singleton.mp h
        refine ⟨[x], Cursor.takes_advance (hafter ▸ ⟨rest, rfl⟩), fun y hy => ?_⟩
        obtain rfl := List.mem_singleton.mp hy
        exact hr y hp
      · cases h
  | boundary | atEnd | notAhead =>
    rw [run] at h
    split at h <;> simp only [List.mem_singleton, List.not_mem_nil] at h
    exact ⟨[], h ▸ c.takes_nil, nofun⟩
  | seq r s ihr ihs =>
    obtain ⟨m, hm, hd⟩ := List.mem_flatMap.mp h
    obtain ⟨t, ht, htq⟩ := ihr hr.1 hm
    obtain ⟨u, hu, huq⟩ := ihs hr.2 hd
    exact ⟨t ++ u, ht.append hu, fun x hx => (List.mem_append.mp hx).elim (htq x) (huq x)⟩
  | alt r s ihr ihs =>
    rcases List.mem_append.mp h with h | h
    · exact ihr hr.1 h
    · exact ihs hr.2 h
  | star r ih =>
    refine iterate_keeps (R := fun c d => ∃ t, c.Takes d t ∧ ∀ x ∈ t, Q x) (fun c => ⟨[], c.takes_nil, nofun⟩) ?_
      (fun c d hd => ih hr hd) _ h
    rintro c d e ⟨t, ht, htq⟩ ⟨u, hu, huq⟩
    exact ⟨t ++ u, ht.append hu, fun x hx => (List.mem_append.mp hx).elim (htq x) (huq x)⟩
  | group n r ih =>
    obtain ⟨m, hm, rfl⟩ := List.mem_map.mp h
    have htaken := ih hr hm
    exact htaken
  | backref n =>
    rw [run] at h
    split at h
    · cases h
    · next t _ =>
      split at h
      · next hpre =>
        obtain rfl := List.mem_singleton.mp h
        exact ⟨t, Cursor.takes_advance hpre, fun x _ => hr x⟩
      · cases h

omit [DecidableEq α] in
theorem over_true (r : Re α) : r.Over fun _ => True := by
  induction r <;> simp_all [Re.Over]

theorem run_takes (h : d ∈ run r c) : ∃ t, c.Takes d t :=
  let ⟨t, ht, _⟩ := run_over (over_true r) h
  ⟨t, ht⟩

theorem run_begins (hr : r.Begins Q) (h : d ∈ run r c) : ∃ x t, c.Takes d (x :: t) ∧ Q x := by
  induction r generalizing c d with
  | char p =>
    rw [run] at h
    split at h
    · cases h
    · next x rest hafter =>
      split at h
      · next hp =>
        obtain rfl := List.mem_singleton.mp h
        exact ⟨x, [], Cursor.takes_advance (hafter ▸ ⟨rest, rfl⟩), hr x hp⟩
      · cases h
  | seq r s ihr ihs =>
    obtain ⟨m, hm, hd⟩ := List.mem_flatMap.mp h
    rcases hr with hr | ⟨hr, hs⟩
    · obtain ⟨x, t, ht, hx⟩ := ihr hr hm
      obtain ⟨u, hu⟩ := run_takes hd
      exact ⟨x, t ++ u, ht.append hu, hx⟩
    · obtain ⟨t, ht, hnone⟩ := run_over hr hm
      obtain rfl : t = [] := List.eq_nil_iff_forall_not_mem.mpr hnone
      obtain ⟨x, u, hu, hx⟩ := ihs hs hd
      exact ⟨x, u, ht.append hu, hx⟩
  | alt r s ihr ihs =>
    rcases List.mem_append.mp h with h | h
    · exact ihr hr.1 h
    · exact ihs hr.2 h
  | group n r ih =>
    obtain ⟨m, hm, rfl⟩ := List.mem_map.mp h
    have htaken := ih hr hm
    exact htaken
  | empty | boundary | atEnd | star | backref | notAhead => exact hr.elim

/-- What a group holds is held by these elements only, if it holds anything. -/
def Cursor.Holds (c : Cursor α) (n : Nat) (Q : α → Prop) : Prop := ∀ t, c.captured n = some t → ∀ x ∈ t, Q x

theorem run_captures {n : Nat} (hr : r.Captures n Q) (h : d ∈ run r c) (hc : c.Holds n Q) : d.Holds n Q := by
  induction r generalizing c d with
  | empty =>
    obtain rfl := List.mem_singleton.mp h
    exact hc
  | char p =>
    rw [run] at h
    split at h
    · cases h
    · split at h
      · obtain rfl := List.mem_singleton.mp h
        exact hc
      · cases h
  | boundary | atEnd | notAhead =>
    rw [run] at h
    split at h <;> simp only [List.mem_singleton, List.not_mem_nil] at h
    exact h ▸ hc
  | seq r s ihr ihs =>
    obtain ⟨m, hm, hd⟩ := List.mem_flatMap.mp h
    exact ihs hr.2 hd (ihr hr.1 hm hc)
  | alt r s ihr ihs =>
    rcases List.mem_append.mp h with h | h
    · exact ihr hr.1 h hc
    · exact ihs hr.2 h hc
  | star r ih =>
    exact iterate_keeps (R := fun c d => c.Holds n Q → d.Holds n Q) (fun c hc => hc) (fun c d e hd he hc => he (hd hc))
      (fun c d hd hc => ih hr hd hc) _ h hc
  | group m r ih =>
    obtain ⟨e, he, rfl⟩ := List.mem_map.mp h
    intro t ht
    by_cases hm : m = n
    · obtain ⟨u, hu, hq⟩ := run_over (hr.2 hm) he
      have hcut : c.after.take (c.after.length - e.after.length) = u := by
        rw [hu.1, List.length_append, Nat.add_sub_cancel, List.take_left]
      simp only [Cursor.captured, Cursor.capture, hm, List.find?_cons, decide_true, Option.map_some,
        Option.some.injEq] at ht
      rw [← ht, hcut]
      exact hq
    · simp only [Cursor.captured, Cursor.capture, List.find?_cons, hm, decide_false] at ht
      exact ih hr.1 he hc t ht
  | backref m =>
    rw [run] at h
    split at h
    · cases h
    · split at h
      · obtain rfl := List.mem_singleton.mp h
        exact hc
      · cases h

section Composite

omit [DecidableEq α]

variable {n : Nat} {s : Re α} {rest : List (Re α)}

theorem over_first (hs : s.Over Q) (h : ∀ t ∈ rest, t.Over Q) : (Re.first s rest).Over Q := by
  induction rest generalizing s with
  | nil => exact hs
  | cons t rest ih => exact ⟨hs, ih (h t List.mem_cons_self) fun u hu => h u (List.mem_cons_of_mem t hu)⟩

theorem begins_first (hs : s.Begins Q) (h : ∀ t ∈ rest, t.Begins Q) : (Re.first s rest).Begins Q := by
  induction rest generalizing s with
  | nil => exact hs
  | cons t rest ih => exact ⟨hs, ih (h t List.mem_cons_self) fun u hu => h u (List.mem_cons_of_mem t hu)⟩

theorem captures_first (hs : s.Captures n Q) (h : ∀ t ∈ rest, t.Captures n Q) : (Re.first s rest).Captures n Q := by
  induction rest generalizing s with
  | nil => exact hs
  | cons t rest ih => exact ⟨hs, ih (h t List.mem_cons_self) fun u hu => h u (List.mem_cons_of_mem t hu)⟩

variable {alike : α → α → Bool} {ls : List α}

theorem over_literal (h : ∀ l ∈ ls, ∀ x, alike x l = true → Q x) : (Re.literal alike ls).Over Q := by
  induction ls with
  | nil => exact trivial
  | cons l ls ih => exact ⟨h l List.mem_cons_self, ih fun m hm => h m (List.mem_cons_of_mem l hm)⟩

theorem begins_literal {l : α} (h : ∀ x, alike x l = true → Q x) : (Re.literal alike (l :: ls)).Begins Q := Or.inl h

theorem captures_literal : (Re.literal alike ls).Captures n Q := by
  induction ls with
  | nil => exact trivial
  | cons l ls ih => exact ⟨trivial, ih⟩

end Composite

theorem matchAt_mem {before after : List α} (h : matchAt r before after = some d) :
    d ∈ run r ⟨before, after, []⟩ ∧ d.after.length < after.length := by
  obtain ⟨hhead, hless⟩ := Option.filter_eq_some_iff.mp h
  exact ⟨List.mem_of_head? hhead, of_decide_eq_true hless⟩

theorem matchAt_takes {before after : List α} (h : matchAt r before after = some d) : ∃ t, after = t ++ d.after :=
  let ⟨t, ht, _⟩ := run_takes (matchAt_mem h).1
  ⟨t, ht⟩

end Matches

section Replacing

variable [DecidableEq α] {Q : α → Prop} {r : Re α} {f : Cursor α → List α} {before after out : List α}

/-- The text behind a place becomes `out` when the matches in it are replaced. -/
inductive Replaced (r : Re α) (f : Cursor α → List α) : List α → List α → List α → Prop
  | nil {before : List α} : Replaced r f before [] []
  | hit {before after out : List α} {d : Cursor α} (hd : matchAt r before after = some d)
      (hrest : Replaced r f d.before d.after out) : Replaced r f before after (f d ++ out)
  | copy {before xs out : List α} {x : α} (hx : matchAt r before (x :: xs) = none)
      (hrest : Replaced r f (x :: before) xs out) : Replaced r f before (x :: xs) (x :: out)

theorem subFrom_replaced {n : Nat} (h : after.length ≤ n) : Replaced r f before after (subFrom r f n before after) := by
  induction n generalizing before after with
  | zero =>
    obtain rfl := List.length_eq_zero_iff.mp (Nat.le_zero.mp h)
    exact .nil
  | succ n ih =>
    unfold subFrom
    split
    · next d hd =>
      have hless := (matchAt_mem hd).2
      exact .hit hd (ih (by omega))
    · next hnone =>
      cases after with
      | nil => exact .nil
      | cons x xs => exact .copy hnone (ih (Nat.le_of_succ_le_succ h))

theorem sub_replaced (r : Re α) (f : Cursor α → List α) (text : List α) : Replaced r f [] text (sub r f text) :=
  subFrom_replaced (Nat.le_refl _)

/-- What neither the text nor any replacement holds, the result does not hold. -/
theorem Replaced.all (h : Replaced r f before after out) (hf : ∀ before after d, matchAt r before after = some d → ∀ x ∈ f d, Q x)
    (ha : ∀ x ∈ after, Q x) : ∀ x ∈ out, Q x := by
  induction h with
  | nil => exact ha
  | hit hd _ ih =>
    obtain ⟨t, ht⟩ := matchAt_takes hd
    intro x hx
    rcases List.mem_append.mp hx with hx | hx
    · exact hf _ _ _ hd x hx
    · exact ih (fun y hy => ha y (ht ▸ List.mem_append_right t hy)) x hx
  | copy _ _ ih =>
    intro y hy
    rcases List.mem_cons.mp hy with rfl | hy
    · exact ha y List.mem_cons_self
    · exact ih (fun z hz => ha z (List.mem_cons_of_mem _ hz)) y hy

/-- Elements that no match takes and no replacement has are as many as before. -/
theorem Replaced.countP {p : α → Bool} (h : Replaced r f before after out) (hr : r.Over fun x => p x = false)
    (hf : ∀ m, (f m).countP p = 0) : out.countP p = after.countP p := by
  induction h with
  | nil => rfl
  | hit hd _ ih =>
    obtain ⟨t, ht, hnone⟩ := run_over hr (matchAt_mem hd).1
    have htaken : t.countP p = 0 := List.countP_eq_zero.mpr fun x hx => by simp [hnone x hx]
    have hafter := congrArg (List.countP p) ht.1
    rw [List.countP_append, htaken] at hafter
    rw [List.countP_append, hf, ih]
    exact hafter.symm
  | copy _ _ ih => rw [List.countP_cons, List.countP_cons, ih]

/-- A match that starts in the zone ends in it, and is replaced by what it takes. -/
def Stable (r : Re α) (f : Cursor α → List α) (zone rest : List α) : Prop :=
  ∀ before s d, s <:+ zone → s ≠ [] → matchAt r before (s ++ rest) = some d →
    ∃ t s', s = t ++ s' ∧ d.after = s' ++ rest ∧ f d = t

theorem Stable.suffix {zone zone' rest : List α} (h : Stable r f zone rest) (hz : zone' <:+ zone) : Stable r f zone' rest :=
  fun before s d hs => h before s d (hs.trans hz)

theorem Replaced.zone {zone rest : List α} (h : Replaced r f before (zone ++ rest) out) (hz : Stable r f zone rest) :
    ∃ before' out', out = zone ++ out' ∧ Replaced r f before' rest out' := by
  generalize ha : zone ++ rest = after at h
  induction h generalizing zone with
  | nil =>
    obtain ⟨rfl, rfl⟩ := List.append_eq_nil_iff.mp ha
    exact ⟨[], [], rfl, .nil⟩
  | hit hd hrest ih =>
    subst ha
    by_cases hnil : zone = []
    · subst hnil
      exact ⟨_, _, rfl, .hit hd hrest⟩
    · obtain ⟨t, s', rfl, hafter, hfd⟩ := hz _ zone _ (List.suffix_refl zone) hnil hd
      obtain ⟨before', out', rfl, hout⟩ := ih (hz.suffix ⟨t, rfl⟩) hafter.symm
      exact ⟨before', out', by rw [hfd, List.append_assoc], hout⟩
  | copy hx hrest ih =>
    cases zone with
    | nil =>
      obtain rfl : rest = _ := ha
      exact ⟨_, _, rfl, .copy hx hrest⟩
    | cons z zs =>
      obtain ⟨rfl, hzs⟩ := List.cons.inj ha
      obtain ⟨before', out', rfl, hout⟩ := ih (hz.suffix ⟨[z], rfl⟩) hzs
      exact ⟨before', out', rfl, hout⟩

theorem Replaced.of_nil (h : Replaced r f before [] out) : out = [] := by
  cases h with
  | nil => rfl
  | hit hd _ => exact absurd (matchAt_mem hd).2 (Nat.not_lt_zero _)

/-- A text without a match stays as it is. -/
theorem sub_eq_self {text : List α} (h : ∀ before s, s <:+ text → matchAt r before s = none) : sub r f text = text := by
  have hstable : Stable r f text [] := by
    intro before s d hs _ hd
    rw [List.append_nil, h before s hs] at hd
    cases hd
  have hall : Replaced r f [] (text ++ []) (sub r f text) := by
    rw [List.append_nil]
    exact sub_replaced r f text
  obtain ⟨_, out', hout, hrest⟩ := hall.zone hstable
  rw [hout, hrest.of_nil, List.append_nil]

/-- A zone between two stretches of one kind stays as a whole, less what a match from before it takes
of its front. -/
theorem Replaced.around {left zone right : List α} (h : Replaced r f before (left ++ (zone ++ right)) out)
    (hf : ∀ before after d, matchAt r before after = some d → ∀ x ∈ f d, Q x) (hz : Stable r f zone right)
    (hl : ∀ x ∈ left, Q x) (hr : ∀ x ∈ right, Q x) :
    ∃ left' zone' right', out = left' ++ (zone' ++ right') ∧ zone' <:+ zone ∧ (∀ x ∈ left', Q x) ∧ ∀ x ∈ right', Q x := by
  generalize ha : left ++ (zone ++ right) = after at h
  induction h generalizing left zone with
  | nil =>
    exact ⟨[], [], [], rfl, List.nil_suffix, nofun, nofun⟩
  | @hit before after out d hd hrest ih =>
    subst ha
    obtain ⟨t, ht⟩ := matchAt_takes hd
    have hfd := hf _ _ _ hd
    rcases List.append_eq_append_iff.mp ht with ⟨a, rfl, hza⟩ | ⟨c, rfl, hc⟩
    · -- the match reaches past the left stretch
      rcases List.append_eq_append_iff.mp hza with ⟨b, rfl, hb⟩ | ⟨b, rfl, hb⟩
      · have hright : ∀ x ∈ d.after, Q x := fun x hx => hr x (hb ▸ List.mem_append_right b hx)
        have hout := hrest.all hf hright
        exact ⟨f d, [], out, rfl, List.nil_suffix, hfd, hout⟩
      · obtain ⟨left', zone', right', rfl, hsuf, hl', hr'⟩ := ih (hz.suffix ⟨a, rfl⟩) (nofun : ∀ x ∈ ([] : List α), Q x) hb.symm
        refine ⟨f d ++ left', zone', right', by rw [List.append_assoc], hsuf.trans ⟨a, rfl⟩, ?_, hr'⟩
        exact fun x hx => (List.mem_append.mp hx).elim (hfd x) (hl' x)
    · have hl2 : ∀ x ∈ c, Q x := fun x hx => hl x (List.mem_append_right t hx)
      obtain ⟨left', zone', right', rfl, hsuf, hl', hr'⟩ := ih hz hl2 hc.symm
      refine ⟨f d ++ left', zone', right', by rw [List.append_assoc], hsuf, ?_, hr'⟩
      exact fun x hx => (List.mem_append.mp hx).elim (hfd x) (hl' x)
  | @copy before xs out x hx hrest ih =>
    cases left with
    | nil =>
      have hwhole : Replaced r f before (zone ++ right) (x :: out) := ha ▸ .copy hx hrest
      obtain ⟨before', out', hout, hright⟩ := hwhole.zone hz
      exact ⟨[], zone, out', hout, List.suffix_refl zone, nofun, hright.all hf hr⟩
    | cons l ls =>
      obtain ⟨rfl, hls⟩ := List.cons.inj ha
      obtain ⟨left', zone', right', rfl, hsuf, hl', hr'⟩ := ih hz (fun y hy => hl y (List.mem_cons_of_mem l hy)) hls
      refine ⟨l :: left', zone', right', rfl, hsuf, fun y hy => ?_, hr'⟩
      rcases List.mem_cons.mp hy with rfl | hy
      · exact hl y List.mem_cons_self
      · exact hl' y hy

end Replacing

end Regex
