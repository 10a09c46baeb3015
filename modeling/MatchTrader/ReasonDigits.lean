import MatchTrader.Reasons

/-! What becomes of a long run of digits in a text that enters a reason. -/

namespace MatchTrader.Reasons

open Regex

section Host

variable [TextHost]

/-- No digit is in the text. -/
def Clear (text : List Char) : Prop := ∀ c ∈ text, Host.isDecimal c = false

def digits (text : List Char) : Nat := text.countP Host.isDecimal

def isSeparator (c : Char) : Bool := [' ', '-'].contains c

/-- Digits in one piece, or in groups with single spaces or hyphens between them. -/
inductive DigitRun : List Char → Prop
  | one {d : Char} (hd : Host.isDecimal d = true) : DigitRun [d]
  | next {d : Char} {t : List Char} (hd : Host.isDecimal d = true) (ht : DigitRun t) : DigitRun (d :: t)
  | grouped {d s : Char} {t : List Char} (hd : Host.isDecimal d = true) (hs : isSeparator s = true) (ht : DigitRun t) :
    DigitRun (d :: s :: t)

section Characters

variable {c l : Char}

theorem decimal_of_ascii (h : c.toNat < 128) (hc : c.isDigit = false) : Host.isDecimal c = false :=
  (TextHost.decimal_ascii c h).trans hc

omit [TextHost] in
theorem separator_cases (h : isSeparator c = true) : c = ' ' ∨ c = '-' := by
  simpa [isSeparator] using h

theorem decimal_separator (h : isSeparator c = true) : Host.isDecimal c = false := by
  rcases separator_cases h with rfl | rfl <;> exact decimal_of_ascii (by decide) rfl

theorem alike_separator (hl : l.isAlpha = true) (h : TextHost.alike c l = true) : isSeparator c = false := by
  have hletter := letter_range hl
  by_contra hc
  have hcases := separator_cases (Bool.not_eq_false _ ▸ hc : isSeparator c = true)
  have hsmall : c.toNat = 32 ∨ c.toNat = 45 := hcases.imp (congrArg Char.toNat) (congrArg Char.toNat)
  rw [TextHost.alike_ascii c l (by omega) (by omega), decide_eq_true_eq] at h
  have hn := congrArg Char.toNat h
  rw [toNat_toLower, toNat_toLower] at hn
  split_ifs at hn <;> omega

end Characters

section Runs

variable {zone a b : List Char} {c : Char}

theorem DigitRun.kinds (h : DigitRun zone) : ∀ c ∈ zone, Host.isDecimal c = true ∨ isSeparator c = true := by
  induction h with
  | one hd =>
    intro c hc
    exact Or.inl (List.mem_singleton.mp hc ▸ hd)
  | next hd _ ih =>
    intro c hc
    rcases List.mem_cons.mp hc with rfl | hc
    · exact Or.inl hd
    · exact ih c hc
  | grouped hd hs _ ih =>
    intro c hc
    rcases List.mem_cons.mp hc with rfl | hc
    · exact Or.inl hd
    · rcases List.mem_cons.mp hc with rfl | hc
      · exact Or.inr hs
      · exact ih c hc

theorem DigitRun.head (h : DigitRun zone) : ∃ d t, zone = d :: t ∧ Host.isDecimal d = true := by
  cases h with
  | one hd => exact ⟨_, _, rfl, hd⟩
  | next hd _ => exact ⟨_, _, rfl, hd⟩
  | grouped hd _ _ => exact ⟨_, _, rfl, hd⟩

theorem DigitRun.join (ha : DigitRun a) (hc : isSeparator c = true) (hb : DigitRun b) : DigitRun (a ++ c :: b) := by
  induction ha with
  | one hd => exact .grouped hd hc hb
  | next hd _ ih => exact .next hd ih
  | grouped hd hs _ ih => exact .grouped hd hs ih

/-- The end of a run is empty, a run, or a separator with a run behind it. -/
theorem DigitRun.suffix (h : DigitRun zone) (hz : zone = a ++ b) :
    b = [] ∨ DigitRun b ∨ ∃ s t, isSeparator s = true ∧ DigitRun t ∧ b = s :: t := by
  induction h generalizing a with
  | one hd =>
    cases a with
    | nil => exact Or.inr (Or.inl ((show _ = b from hz) ▸ .one hd))
    | cons x a => exact Or.inl (List.append_eq_nil_iff.mp (List.cons.inj hz).2.symm).2
  | next hd ht ih =>
    cases a with
    | nil => exact Or.inr (Or.inl ((show _ = b from hz) ▸ .next hd ht))
    | cons x a => exact ih (List.cons.inj hz).2
  | grouped hd hs ht ih =>
    cases a with
    | nil => exact Or.inr (Or.inl ((show _ = b from hz) ▸ .grouped hd hs ht))
    | cons x a =>
      cases a with
      | nil => exact Or.inr (Or.inr ⟨_, _, hs, ht, (List.cons.inj hz).2.symm⟩)
      | cons y a => exact ih (List.cons.inj (List.cons.inj hz).2).2

/-- The front of a run is empty, a run, or a run with a separator behind it. -/
theorem DigitRun.front (h : DigitRun zone) (hz : zone = a ++ b) :
    a = [] ∨ DigitRun a ∨ ∃ t s, DigitRun t ∧ isSeparator s = true ∧ a = t ++ [s] := by
  induction h generalizing a with
  | one hd =>
    cases a with
    | nil => exact Or.inl rfl
    | cons x a =>
      obtain ⟨rfl, hrest⟩ := List.cons.inj hz
      obtain ⟨rfl, _⟩ := List.append_eq_nil_iff.mp hrest.symm
      exact Or.inr (Or.inl (.one hd))
  | next hd _ ih =>
    cases a with
    | nil => exact Or.inl rfl
    | cons x a =>
      obtain ⟨rfl, hrest⟩ := List.cons.inj hz
      rcases ih hrest with rfl | ha | ⟨t, s, ht, hs, rfl⟩
      · exact Or.inr (Or.inl (.one hd))
      · exact Or.inr (Or.inl (.next hd ha))
      · exact Or.inr (Or.inr ⟨_, s, .next hd ht, hs, rfl⟩)
  | grouped hd hs _ ih =>
    cases a with
    | nil => exact Or.inl rfl
    | cons x a =>
      obtain ⟨rfl, hfirst⟩ := List.cons.inj hz
      cases a with
      | nil => exact Or.inr (Or.inl (.one hd))
      | cons y a =>
        obtain ⟨rfl, hrest⟩ := List.cons.inj hfirst
        rcases ih hrest with rfl | ha | ⟨t, u, ht, hu, rfl⟩
        · exact Or.inr (Or.inr ⟨[_], _, .one hd, hs, rfl⟩)
        · exact Or.inr (Or.inl (.grouped hd hs ha))
        · exact Or.inr (Or.inr ⟨_, u, .grouped hd hs ht, hu, rfl⟩)

theorem clear_append : Clear (a ++ b) ↔ Clear a ∧ Clear b := List.forall_mem_append

theorem clear_cons : Clear (c :: a) ↔ Host.isDecimal c = false ∧ Clear a := List.forall_mem_cons

theorem Clear.sublist (h : Clear b) (hab : a.Sublist b) : Clear a := fun c hc => h c (hab.subset hc)

theorem clear_of_ascii (h : a.all (fun c => c.toNat < 128 && !c.isDigit) = true) : Clear a := by
  intro c hc
  have hascii := List.all_eq_true.mp h c hc
  simp only [Bool.and_eq_true, decide_eq_true_eq, Bool.not_eq_true'] at hascii
  exact decimal_of_ascii hascii.1 hascii.2

theorem digits_eq_zero : digits a = 0 ↔ Clear a := by
  simp [digits, Clear, List.countP_eq_zero]

theorem digits_append : digits (a ++ b) = digits a + digits b := List.countP_append

end Runs

/-- All digits of the text are in one run. -/
def OneRun (text : List Char) : Prop :=
  ∃ left zone right, text = left ++ (zone ++ right) ∧ Clear left ∧ (zone = [] ∨ DigitRun zone) ∧ Clear right

namespace OneRun

variable {left zone zone' right text t : List Char}

theorem of_suffix (hl : Clear left) (hz : zone = [] ∨ DigitRun zone) (hs : zone' <:+ zone) (hr : Clear right) :
    OneRun (left ++ (zone' ++ right)) := by
  obtain ⟨a, ha⟩ := hs
  have hcases : zone' = [] ∨ DigitRun zone' ∨ ∃ s t, isSeparator s = true ∧ DigitRun t ∧ zone' = s :: t := by
    rcases hz with rfl | hz
    · exact Or.inl (List.append_eq_nil_iff.mp ha).2
    · exact hz.suffix ha.symm
  rcases hcases with rfl | hrun | ⟨s, t, hs, ht, rfl⟩
  · exact ⟨left, [], right, rfl, hl, Or.inl rfl, hr⟩
  · exact ⟨left, zone', right, rfl, hl, Or.inr hrun, hr⟩
  · have hl' : Clear (left ++ [s]) := clear_append.mpr ⟨hl, clear_cons.mpr ⟨decimal_separator hs, nofun⟩⟩
    exact ⟨left ++ [s], t, right, by simp, hl', Or.inr ht, hr⟩

theorem of_front (hl : Clear left) (hz : zone = [] ∨ DigitRun zone) (hs : zone' <+: zone) (hr : Clear right) :
    OneRun (left ++ (zone' ++ right)) := by
  obtain ⟨b, hb⟩ := hs
  have hcases : zone' = [] ∨ DigitRun zone' ∨ ∃ t s, DigitRun t ∧ isSeparator s = true ∧ zone' = t ++ [s] := by
    rcases hz with rfl | hz
    · exact Or.inl (List.append_eq_nil_iff.mp hb).1
    · exact hz.front hb.symm
  rcases hcases with rfl | hrun | ⟨t, s, ht, hs, rfl⟩
  · exact ⟨left, [], right, rfl, hl, Or.inl rfl, hr⟩
  · exact ⟨left, zone', right, rfl, hl, Or.inr hrun, hr⟩
  · have hr' : Clear (s :: right) := clear_cons.mpr ⟨decimal_separator hs, hr⟩
    exact ⟨left, t, s :: right, by simp, hl, Or.inr ht, hr'⟩

/-- What is left of the text behind some place. -/
theorem rest (h : OneRun text) (ht : t <:+ text) : OneRun t := by
  obtain ⟨left, zone, right, rfl, hl, hz, hr⟩ := h
  obtain ⟨a, ha⟩ := ht
  rcases List.append_eq_append_iff.mp ha with ⟨c, rfl, hc⟩ | ⟨c, rfl, hc⟩
  · subst hc
    exact ⟨c, zone, right, rfl, (clear_append.mp hl).2, hz, hr⟩
  · rcases List.append_eq_append_iff.mp hc.symm with ⟨e, rfl, he⟩ | ⟨e, rfl, he⟩
    · subst he
      exact of_suffix (nofun : Clear []) hz ⟨c, rfl⟩ hr
    · subst he
      exact ⟨[], [], t, rfl, nofun, Or.inl rfl, (clear_append.mp hr).2⟩

theorem start (h : OneRun text) (ht : t <+: text) : OneRun t := by
  obtain ⟨left, zone, right, rfl, hl, hz, hr⟩ := h
  obtain ⟨b, hb⟩ := ht
  rcases List.append_eq_append_iff.mp hb with ⟨c, rfl, hc⟩ | ⟨c, rfl, hc⟩
  · exact ⟨t, [], [], by simp, (clear_append.mp hl).1, Or.inl rfl, nofun⟩
  · rcases List.append_eq_append_iff.mp hc with ⟨e, rfl, he⟩ | ⟨e, rfl, he⟩
    · exact ⟨left, zone, e, rfl, hl, hz, (clear_append.mp (he ▸ hr)).1⟩
    · have hone := of_front hl hz ⟨e, rfl⟩ (nofun : Clear [])
      rwa [List.append_nil] at hone

/-- A mask that puts no digit in and leaves runs as they are keeps all digits in one run. -/
theorem sub {r : Re Char} {f : Cursor Char → List Char}
    (hf : ∀ before after d, matchAt r before after = some d → Clear (f d))
    (hz : ∀ zone right, DigitRun zone → Clear right → Stable r f zone right) (h : OneRun text) : OneRun (Regex.sub r f text) := by
  obtain ⟨left, zone, right, rfl, hl, hrun, hr⟩ := h
  have hstable : Stable r f zone right := by
    rcases hrun with rfl | hrun
    · exact fun _ s _ hs hne => absurd (List.suffix_nil.mp hs) hne
    · exact hz zone right hrun hr
  obtain ⟨left', zone', right', hout, hsuf, hl', hr'⟩ := (sub_replaced r f _).around hf hstable hl hr
  exact hout ▸ of_suffix hl' hrun hsuf hr'

end OneRun

section Masks

variable {r : Re Char} {f : Cursor Char → List Char} {zone right text : List Char}

/-- Elements that no run has. -/
def Foreign (c : Char) : Prop := Host.isDecimal c = false ∧ isSeparator c = false

theorem stable_of_foreign (hr : r.Begins Foreign) (hz : DigitRun zone) : Stable r f zone right := by
  intro before s d hs hne hd
  obtain ⟨x, t, ht, hx⟩ := run_begins hr (matchAt_mem hd).1
  obtain ⟨y, ys, rfl⟩ := List.exists_cons_of_ne_nil hne
  obtain ⟨rfl, _⟩ := List.cons.inj ht.1
  obtain ⟨hdigit, hsep⟩ := hx
  rcases hz.kinds y (hs.subset List.mem_cons_self) with h | h
  · exact absurd h (by rw [hdigit]; decide)
  · exact absurd h (by rw [hsep]; decide)

theorem foreign_of_alike {c l : Char} (hl : l.isAlpha = true) (h : TextHost.alike c l = true) : Foreign c :=
  ⟨TextHost.alike_letter c l hl h, alike_separator hl h⟩

/-- The names that a mask keeps: letters come first, and no digit is among what they take. -/
structure IsName (r : Re Char) : Prop where
  letters : r.Over fun c => Host.isDecimal c = false
  begins : r.Begins Foreign
  captures : r.Captures 1 fun c => Host.isDecimal c = false

theorem isName_word {w : String} (hne : w.toList ≠ []) (hw : w.toList.all Char.isAlpha = true) : IsName (word w) where
  letters := over_literal fun l hl _ hx => (foreign_of_alike (List.all_eq_true.mp hw l hl) hx).1
  begins := by
    obtain ⟨l, ls, hls⟩ := List.exists_cons_of_ne_nil hne
    rw [word, hls]
    exact begins_literal fun _ hx => foreign_of_alike (List.all_eq_true.mp hw l (hls ▸ List.mem_cons_self)) hx
  captures := captures_literal

theorem isName_joined {w v : String} (hw : IsName (word w)) (hv : IsName (word v)) : IsName (joined w v) where
  letters := by
    refine ⟨hw.letters, ⟨fun x hx => ?_, trivial⟩, hv.letters⟩
    have hx' : x = '_' ∨ x = '-' := by simpa using hx
    rcases hx' with rfl | rfl <;> exact decimal_of_ascii (by decide) rfl
  begins := Or.inl hw.begins
  captures := ⟨hw.captures, ⟨trivial, trivial⟩, hv.captures⟩

theorem isName_first {s : Re Char} {rest : List (Re Char)} (hs : IsName s) (h : ∀ t ∈ rest, IsName t) :
    IsName (.first s rest) where
  letters := over_first hs.letters fun t ht => (h t ht).letters
  begins := begins_first hs.begins fun t ht => (h t ht).begins
  captures := captures_first hs.captures fun t ht => (h t ht).captures

theorem isName_sensitiveKeys : IsName sensitiveKeys := by
  have hword : ∀ w ∈ ["password", "passwd", "pwd", "token", "access", "refresh", "auth", "authorization", "api", "key",
      "secret", "cookie", "session", "jwt"], IsName (word w) := by
    intro w hw
    have hletters : ∀ w ∈ ["password", "passwd", "pwd", "token", "access", "refresh", "auth", "authorization", "api", "key",
      "secret", "cookie", "session", "jwt"], w.toList ≠ [] ∧ w.toList.all Char.isAlpha = true := by decide
    exact isName_word (hletters w hw).1 (hletters w hw).2
  simp only [List.forall_mem_cons] at hword
  obtain ⟨hpassword, hpasswd, hpwd, htoken, haccess, hrefresh, hauth, hauthorization, hapi, hkey, hsecret, hcookie,
    hsession, hjwt, _⟩ := hword
  refine isName_first hpassword ?_
  simp only [List.forall_mem_cons]
  exact ⟨hpasswd, hpwd, htoken, isName_joined haccess htoken, isName_joined hrefresh htoken, isName_joined hauth htoken,
    hauthorization, isName_joined hapi hkey, hsecret, hcookie, hsession, hjwt, nofun⟩

theorem isName_schemes :
    IsName (.first (word "Bearer") [word "Basic", word "Digest", word "Negotiate", word "NTLM"]) := by
  have hletters : ∀ w ∈ ["Bearer", "Basic", "Digest", "Negotiate", "NTLM"],
      w.toList ≠ [] ∧ w.toList.all Char.isAlpha = true := by decide
  have hword : ∀ w ∈ ["Bearer", "Basic", "Digest", "Negotiate", "NTLM"], IsName (word w) :=
    fun w hw => isName_word (hletters w hw).1 (hletters w hw).2
  simp only [List.forall_mem_cons] at hword
  obtain ⟨hbearer, hbasic, hdigest, hnegotiate, hntlm, _⟩ := hword
  refine isName_first hbearer ?_
  simp only [List.forall_mem_cons]
  exact ⟨hbasic, hdigest, hnegotiate, hntlm, nofun⟩

theorem clear_keyName {before after : List Char} {m : Cursor Char} (hr : r.Captures 1 fun c => Host.isDecimal c = false)
    (h : matchAt r before after = some m) : Clear (keyName m) := by
  have hm : m.Holds 1 fun c => Host.isDecimal c = false := run_captures hr (matchAt_mem h).1 nofun
  unfold keyName
  cases hc : m.captured 1 with
  | none => exact nofun
  | some name => exact hm name hc

theorem captures_sensitiveKv : sensitiveKv.Captures 1 fun c => Host.isDecimal c = false := by
  have hvalue : sensitiveValue.Captures 1 fun c => Host.isDecimal c = false := by
    refine captures_first ⟨⟨captures_literal, captures_literal⟩, ⟨trivial, trivial⟩, trivial, trivial⟩ ?_
    simp only [List.forall_mem_cons]
    exact ⟨⟨⟨trivial, nofun⟩, ⟨trivial, trivial⟩, trivial⟩, ⟨trivial, trivial⟩, nofun⟩
  have hkeys := isName_sensitiveKeys
  exact ⟨trivial, ⟨hkeys.captures, fun _ => hkeys.letters⟩, trivial, ⟨trivial, trivial⟩, trivial, trivial, trivial, hvalue, nofun⟩

theorem OneRun.maskKeys (h : OneRun text) : OneRun (maskKeys text) := by
  refine h.sub (fun before after d hd => ?_) fun zone right hz _ => stable_of_foreign (Or.inr ⟨trivial, Or.inl ?_⟩) hz
  · exact clear_append.mpr ⟨clear_keyName captures_sensitiveKv hd, clear_of_ascii (by decide)⟩
  · exact isName_sensitiveKeys.begins

theorem OneRun.maskSchemes (h : OneRun text) : OneRun (maskSchemes text) := by
  have hname := isName_schemes
  have hcaptures : authScheme.Captures 1 fun c => Host.isDecimal c = false :=
    ⟨trivial, ⟨hname.captures, fun _ => hname.letters⟩, ⟨trivial, trivial⟩, trivial, trivial⟩
  refine h.sub (fun before after d hd => ?_) fun zone right hz _ => stable_of_foreign (Or.inr ⟨trivial, Or.inl ?_⟩) hz
  · exact clear_append.mpr ⟨clear_keyName hcaptures hd, clear_of_ascii (by decide)⟩
  · exact hname.begins

/-- Within a run a stretch of whitespace is one space already. -/
theorem stable_spaces (hz : DigitRun zone) : Stable (.plus space) (fun _ => [' ']) zone right := by
  intro before s d hs hne hd
  have hover : (Re.plus space).Over fun c => isSpace c = true := ⟨fun _ h => h, fun _ h => h⟩
  have hbegins : (Re.plus space).Begins fun c => isSpace c = true := Or.inl fun _ h => h
  obtain ⟨t, ht, hspaces⟩ := run_over hover (matchAt_mem hd).1
  obtain ⟨x, u, hu, hx⟩ := run_begins hbegins (matchAt_mem hd).1
  obtain rfl : t = x :: u := List.append_cancel_right (ht.1.symm.trans hu.1)
  have hnot : ∀ c, Host.isDecimal c = true → isSpace c = true → False := fun c hdigit hspace =>
    absurd (TextHost.decimal_space c hspace) (by rw [hdigit]; decide)
  obtain ⟨a, ha⟩ := hs
  rcases hz.suffix ha.symm with hnil | hrun | ⟨c, v, hc, hv, rfl⟩
  · exact absurd hnil hne
  · obtain ⟨y, ys, rfl, hy⟩ := hrun.head
    obtain ⟨rfl, _⟩ := List.cons.inj ht.1
    exact (hnot y hy hx).elim
  · obtain ⟨y, ys, rfl, hy⟩ := hv.head
    obtain ⟨rfl, hrest⟩ := List.cons.inj ht.1
    cases u with
    | nil =>
      refine ⟨[c], y :: ys, rfl, hrest.symm, ?_⟩
      rcases separator_cases hc with rfl | rfl
      · rfl
      · exact absurd hx (by decide)
    | cons z u =>
      obtain ⟨rfl, _⟩ := List.cons.inj hrest
      exact (hnot y hy (hspaces y (by simp))).elim

theorem control_clear {c : Char} (h : isControl c = true) : Foreign c := by
  have hn : c.toNat < 32 ∨ c.toNat = 127 := by
    simp only [isControl, Bool.or_eq_true, Bool.and_eq_true, decide_eq_true_eq] at h
    omega
  have hdigit : c.isDigit = false := by
    by_contra hd
    obtain ⟨h0, h9⟩ := Char.isDigit_iff_toNat.mp (Bool.not_eq_false _ ▸ hd : c.isDigit = true)
    simp only [Char.reduceToNat] at h0 h9
    omega
  have hsep : isSeparator c = false := by
    by_contra hs
    rcases separator_cases (Bool.not_eq_false _ ▸ hs : isSeparator c = true) with rfl | rfl <;> simp at hn
  exact ⟨decimal_of_ascii (by omega) hdigit, hsep⟩

theorem DigitRun.filter_control (hz : DigitRun zone) : zone.filter (!isControl ·) = zone := by
  rw [List.filter_eq_self]
  intro c hc
  by_contra hcontrol
  have hforeign := control_clear (c := c) (by simpa using hcontrol)
  rcases hz.kinds c hc with h | h
  · exact absurd h (by rw [hforeign.1]; decide)
  · exact absurd h (by rw [hforeign.2]; decide)

theorem OneRun.filter_control (h : OneRun text) : OneRun (text.filter (!isControl ·)) := by
  obtain ⟨left, zone, right, rfl, hl, hz, hr⟩ := h
  have hkept : zone.filter (!isControl ·) = zone := by
    rcases hz with rfl | hz
    · rfl
    · exact hz.filter_control
  rw [List.filter_append, List.filter_append, hkept]
  exact ⟨_, zone, _, rfl, hl.sublist List.filter_sublist, hz, hr.sublist List.filter_sublist⟩

theorem OneRun.cleaned (h : OneRun text) : OneRun (cleaned text) := by
  have hcapped : OneRun ((text.filter (!isControl ·)).take rawCap) := h.filter_control.start (List.take_prefix _ _)
  have hspaced := hcapped.sub (r := .plus space) (f := fun _ => [' '])
    (fun _ _ _ _ => clear_of_ascii (by decide)) fun _ _ hz _ => stable_spaces hz
  exact (hspaced.rest (List.dropWhile_suffix _)).start (List.rdropWhile_prefix _ _)

theorem digits_dropWhile (text : List Char) : digits (text.dropWhile isSpace) = digits text := by
  have hspaces : digits (text.takeWhile isSpace) = 0 :=
    digits_eq_zero.mpr fun c hc => TextHost.decimal_space c (List.mem_takeWhile_imp hc)
  have hall := congrArg digits (List.takeWhile_append_dropWhile (p := isSpace) (l := text))
  rw [digits_append, hspaces, Nat.zero_add] at hall
  exact hall

theorem digits_strip (text : List Char) : digits (strip text) = digits text := by
  have hreverse : ∀ t, digits (List.reverse t) = digits t := fun t => List.countP_reverse
  rw [strip, List.rdropWhile, hreverse, digits_dropWhile, hreverse, digits_dropWhile]

/-- Of a run the cleaning leaves the digits in front of the cap. -/
theorem digits_cleaned {u d v : List Char} (hu : Clear u) (hd : DigitRun d) (hv : Clear v) :
    digits (cleaned (u ++ (d ++ v))) = digits (d.take (rawCap - (u.filter (!isControl ·)).length)) := by
  have hspaces : (Re.plus space).Over fun c => Host.isDecimal c = false :=
    ⟨TextHost.decimal_space, TextHost.decimal_space⟩
  have hblank : digits [' '] = 0 := digits_eq_zero.mpr (clear_of_ascii (by decide))
  have hclear : ∀ {t : List Char} (n : Nat), Clear t → digits ((t.filter (!isControl ·)).take n) = 0 := fun n ht =>
    digits_eq_zero.mpr ((ht.sublist List.filter_sublist).sublist (List.take_sublist n _))
  rw [cleaned, digits_strip]
  refine ((sub_replaced _ _ _).countP hspaces fun _ => hblank).trans ?_
  rw [List.filter_append, List.filter_append, hd.filter_control, List.take_append, List.take_append, ← digits, digits_append,
    digits_append, hclear _ hu, hclear _ hv, Nat.zero_add, Nat.add_zero]

end Masks

section LongRuns

variable {c m : Cursor Char} {zone left right t text : List Char} {d : Char}

theorem nextDigit_takes (h : m ∈ run nextDigit c) : ∃ t, c.Takes m t ∧ 1 ≤ digits t := by
  obtain ⟨e, he, hm⟩ := List.mem_flatMap.mp h
  obtain ⟨u, hu⟩ := run_takes he
  have hdigit : (Re.char Host.isDecimal).Begins fun x => Host.isDecimal x = true := fun _ hx => hx
  obtain ⟨x, v, hv, hx⟩ := run_begins hdigit hm
  refine ⟨u ++ x :: v, hu.append hv, ?_⟩
  have hpos : 0 < digits (x :: v) := List.countP_pos_iff.mpr ⟨x, List.mem_cons_self, hx⟩
  rw [digits_append]
  omega

theorem times_takes {n : Nat} (h : m ∈ run (.times n nextDigit) c) : ∃ t, c.Takes m t ∧ n ≤ digits t := by
  induction n generalizing c with
  | zero =>
    obtain rfl := List.mem_singleton.mp h
    exact ⟨[], m.takes_nil, Nat.zero_le _⟩
  | succ n ih =>
    obtain ⟨e, he, hm⟩ := List.mem_flatMap.mp h
    obtain ⟨t, ht, hone⟩ := nextDigit_takes he
    obtain ⟨u, hu, hn⟩ := ih hm
    refine ⟨t ++ u, ht.append hu, ?_⟩
    rw [digits_append]
    omega

theorem longDigits_takes (h : m ∈ run longDigits c) : ∃ t, c.Takes m t ∧ 12 ≤ digits t := by
  obtain ⟨e, he, hm⟩ := List.mem_flatMap.mp h
  have hdigit : (Re.char Host.isDecimal).Begins fun x => Host.isDecimal x = true := fun _ hx => hx
  obtain ⟨x, t, ht, hx⟩ := run_begins hdigit he
  obtain ⟨g, hg, hm⟩ := List.mem_flatMap.mp hm
  obtain ⟨u, hu, h11⟩ := times_takes hg
  obtain ⟨v, hv⟩ := run_takes hm
  refine ⟨x :: t ++ (u ++ v), ht.append (hu.append hv), ?_⟩
  have hpos : 0 < digits (x :: t) := List.countP_pos_iff.mpr ⟨x, List.mem_cons_self, hx⟩
  rw [digits_append, digits_append]
  omega

theorem maskDigits_of_few (h : digits text < 12) : maskDigits text = text := by
  refine sub_eq_self fun before s hs => ?_
  by_contra hmatch
  obtain ⟨m, hm⟩ := Option.ne_none_iff_exists'.mp hmatch
  obtain ⟨t, ht, h12⟩ := longDigits_takes (matchAt_mem hm).1
  obtain ⟨a, rfl⟩ := hs
  have hsum : digits (a ++ s) = digits a + (digits t + digits m.after) := by
    rw [digits_append, ← digits_append (a := t), ← ht.1]
  omega

theorem run_nextDigit : run nextDigit c = (run (oneOf [' ', '-']) c ++ [c]).flatMap (run (.char Host.isDecimal)) := rfl

/-- In a run the next digit is found in one way only. -/
theorem nextDigit_run (h : DigitRun (d :: t)) (hne : t ≠ []) (hc : c.after = t ++ right) :
    ∃ e x u, run nextDigit c = [e] ∧ DigitRun (x :: u) ∧ e.after = u ++ right ∧ digits t = digits u + 1
      ∧ u.length < t.length := by
  cases h with
  | one _ => exact absurd rfl hne
  | next hd ht =>
    obtain ⟨x, u, rfl, hx⟩ := ht.head
    have hsep : [' ', '-'].contains x = false := by
      by_contra hs
      exact absurd hx (by rw [decimal_separator (Bool.not_eq_false _ ▸ hs : isSeparator x = true)]; decide)
    have hrun : run nextDigit c = [c.advance [x]] := by
      rw [run_nextDigit, oneOf, run_char_miss hc hsep, List.nil_append, List.flatMap_singleton, run_char_hit hc hx]
    refine ⟨_, x, u, hrun, ht, ?_, List.countP_cons_of_pos hx, Nat.lt_succ_self _⟩
    simp [Cursor.advance, hc]
  | @grouped _ s _ hd hs ht =>
    obtain ⟨x, u, rfl, hx⟩ := ht.head
    have hsep : [' ', '-'].contains s = true := hs
    have hskip : (c.advance [s]).after = x :: (u ++ right) := by simp [Cursor.advance, hc]
    have hrun : run nextDigit c = [(c.advance [s]).advance [x]] := by
      rw [run_nextDigit, oneOf, run_char_hit hc hsep, List.singleton_append, List.flatMap_cons, List.flatMap_singleton,
        run_char_hit hskip hx, run_char_miss hc (decimal_separator hs), List.append_nil]
    refine ⟨_, x, u, hrun, ht, ?_, ?_, ?_⟩
    · simp [Cursor.advance, hc]
    · have hnone : Host.isDecimal s ≠ true := by rw [decimal_separator hs]; decide
      rw [digits, List.countP_cons_of_neg hnone, List.countP_cons_of_pos hx, digits]
    · exact Nat.lt_succ_of_lt (Nat.lt_succ_self _)

theorem times_run {n : Nat} (h : DigitRun (d :: t)) (hn : n ≤ digits t) (hc : c.after = t ++ right) :
    ∃ e x u, run (.times n nextDigit) c = [e] ∧ DigitRun (x :: u) ∧ e.after = u ++ right := by
  induction n generalizing c d t with
  | zero => exact ⟨c, d, t, rfl, h, hc⟩
  | succ n ih =>
    have hne : t ≠ [] := by
      rintro rfl
      exact absurd hn (Nat.not_succ_le_zero n)
    obtain ⟨e, x, u, hrun, hu, he, hcount, _⟩ := nextDigit_run h hne hc
    obtain ⟨g, y, v, hrest, hv, hg⟩ := ih hu (by omega) he
    refine ⟨g, y, v, ?_, hv, hg⟩
    have hseq : run (.times (n + 1) nextDigit) c = (run nextDigit c).flatMap (run (.times n nextDigit)) := rfl
    rw [hseq, hrun, List.flatMap_singleton, hrest]

/-- The digits go on to the end of the run, and no further. -/
theorem iterate_run {n : Nat} (hr : Clear right) (h : DigitRun (d :: t)) (hn : t.length ≤ n) (hc : c.after = t ++ right) :
    ∃ e, (iterate (run nextDigit) n c).head? = some e ∧ e.after = right := by
  induction n generalizing c d t with
  | zero =>
    obtain rfl := List.length_eq_zero_iff.mp (Nat.le_zero.mp hn)
    exact ⟨c, rfl, hc⟩
  | succ n ih =>
    by_cases hne : t = []
    · subst hne
      have hnone : run nextDigit c = [] := by
        rw [List.eq_nil_iff_forall_not_mem]
        intro m hm
        obtain ⟨u, hu, hone⟩ := nextDigit_takes hm
        have hclear : Clear (u ++ m.after) := hu.1 ▸ hc ▸ hr
        have hzero := digits_eq_zero.mpr (clear_append.mp hclear).1
        omega
      rw [iterate, hnone]
      exact ⟨c, rfl, hc⟩
    · obtain ⟨e, x, u, hrun, hu, he, _, hless⟩ := nextDigit_run h hne hc
      obtain ⟨g, hg, hend⟩ := ih hu (by omega) he
      have hmoves : e.after.length < c.after.length := by
        rw [he, hc, List.length_append, List.length_append]
        omega
      have hkept : [e].filter (fun m => decide (m.after.length < c.after.length)) = [e] := by simp [hmoves]
      refine ⟨g, ?_, hend⟩
      rw [iterate, hrun, hkept, List.flatMap_singleton, List.head?_append, hg, Option.some_or]

theorem matchAt_longDigits (h : DigitRun zone) (h12 : 12 ≤ digits zone) (hr : Clear right) (before : List Char) :
    ∃ m, matchAt longDigits before (zone ++ right) = some m ∧ m.after = right := by
  obtain ⟨d, t, rfl, hd⟩ := h.head
  have hcount : digits (d :: t) = digits t + 1 := List.countP_cons_of_pos hd
  let c : Cursor Char := ⟨before, d :: t ++ right, []⟩
  have hfirst : run (.char Host.isDecimal) c = [c.advance [d]] := run_char_hit rfl hd
  obtain ⟨e, x, u, hrun, hu, he⟩ := times_run (n := 11) (c := c.advance [d]) h (by omega) rfl
  obtain ⟨m, hm, hend⟩ := iterate_run hr hu (n := e.after.length) (by rw [he, List.length_append]; omega) he
  refine ⟨m, ?_, hend⟩
  have hall : run longDigits c = iterate (run nextDigit) e.after.length e := by
    have hseq : run longDigits c = (run (.char Host.isDecimal) c).flatMap fun c =>
      (run (.times 11 nextDigit) c).flatMap (run (.star nextDigit)) := rfl
    rw [hseq, hfirst, List.flatMap_singleton, hrun, List.flatMap_singleton]
    rfl
  have hless : m.after.length < (d :: t ++ right).length := by
    rw [hend, List.length_append, List.length_cons]
    omega
  rw [matchAt, hall, hm, Option.filter_some, if_pos (decide_eq_true hless)]

theorem maskDigits_of_many (h : DigitRun zone) (h12 : 12 ≤ digits zone) (hl : Clear left) (hr : Clear right) :
    Clear (maskDigits (left ++ (zone ++ right))) := by
  have hstars : Clear "***".toList := clear_of_ascii (by decide)
  have hbegins : longDigits.Begins fun x => Host.isDecimal x = true := Or.inl fun _ hx => hx
  have hstable : Stable longDigits (fun _ => "***".toList) left (zone ++ right) := by
    intro before s m hs hne hm
    obtain ⟨x, u, hu, hx⟩ := run_begins hbegins (matchAt_mem hm).1
    obtain ⟨y, ys, rfl⟩ := List.exists_cons_of_ne_nil hne
    obtain ⟨rfl, _⟩ := List.cons.inj hu.1
    exact absurd hx (by rw [hl y (hs.subset List.mem_cons_self)]; decide)
  obtain ⟨before, out, hout, hrest⟩ := (sub_replaced longDigits (fun _ => "***".toList) _).zone hstable
  obtain ⟨m, hm, hend⟩ := matchAt_longDigits h h12 hr before
  have hclear : Clear out := by
    generalize hzone : zone ++ right = after at hrest hm
    cases hrest with
    | nil => exact nofun
    | hit hd hrest =>
      obtain rfl := Option.some.inj (hd.symm.trans hm)
      have hbehind := hrest.all (fun _ _ _ _ => hstars) (hend ▸ hr)
      exact clear_append.mpr ⟨hstars, hbehind⟩
    | copy hx _ => cases hx.symm.trans hm
  rw [maskDigits, hout]
  exact clear_append.mpr ⟨hl, hclear⟩

/-- The digit mask takes a run whole or not at all. -/
theorem clear_maskDigits_iff (h : OneRun text) : Clear (maskDigits text) ↔ digits text = 0 ∨ 12 ≤ digits text := by
  by_cases h12 : 12 ≤ digits text
  · obtain ⟨left, zone, right, rfl, hl, hz, hr⟩ := h
    have hcount : digits (left ++ (zone ++ right)) = digits zone := by
      rw [digits_append, digits_append, digits_eq_zero.mpr hl, digits_eq_zero.mpr hr]
      omega
    rcases hz with rfl | hz
    · have hzero : digits ([] : List Char) = 0 := rfl
      omega
    · exact iff_of_true (maskDigits_of_many hz (hcount ▸ h12) hl hr) (Or.inr h12)
  · rw [maskDigits_of_few (by omega), ← digits_eq_zero]
    omega

end LongRuns

theorem clear_maskEmails {text : List Char} (h : Clear text) : Clear (maskEmails text) :=
  (sub_replaced email _ text).all (fun _ _ _ _ => clear_of_ascii (by decide)) h

/-- The text as the digit mask gets it. -/
def beforeDigits (text : String) : List Char := maskSchemes (maskKeys (cleaned text.toList))

/-- The cap and the masks before the digit mask take all digits, or leave as many as that mask needs. -/
def WholeOrLong (text : String) : Prop := digits (beforeDigits text) = 0 ∨ 12 ≤ digits (beforeDigits text)

/-- The mail mask and the last cut take all digits that come as far as the digit mask. -/
def OutOfSight (text : String) : Prop := Clear ((maskEmails (beforeDigits text)).take finalCap)

theorem clear_summaryFrom_iff {text : String} (h : OneRun text.toList) :
    Clear (summaryFrom text).toList ↔ WholeOrLong text ∨ OutOfSight text := by
  have hmask := clear_maskDigits_iff h.cleaned.maskKeys.maskSchemes
  have hsummary : (summaryFrom text).toList = (maskEmails (maskDigits (beforeDigits text))).take finalCap := by
    rw [summaryFrom, String.toList_ofList, scrub, beforeDigits]
  rw [hsummary]
  by_cases hlong : WholeOrLong text
  · have hclear := (clear_maskEmails (hmask.mpr hlong)).sublist (List.take_sublist finalCap _)
    exact iff_of_true hclear (Or.inl hlong)
  · have hfew : digits (beforeDigits text) < 12 := by
      unfold WholeOrLong at hlong
      omega
    rw [maskDigits_of_few hfew, or_iff_right hlong]
    rfl

/-- The digits of a text, in order. -/
def digitsOf (text : String) : List Char := text.toList.filter Host.isDecimal

theorem digitsOf_append (a b : String) : digitsOf (a ++ b) = digitsOf a ++ digitsOf b := by
  rw [digitsOf, String.toList_append, List.filter_append]
  rfl

theorem digitsOf_append₄ (a b c d : String) :
    digitsOf (a ++ b ++ c ++ d) = digitsOf a ++ digitsOf b ++ digitsOf c ++ digitsOf d := by
  rw [digitsOf_append, digitsOf_append, digitsOf_append]

theorem digitsOf_eq_nil {a : String} : digitsOf a = [] ↔ Clear a.toList := by
  simp [digitsOf, Clear, List.filter_eq_nil_iff]

theorem digitsOf_detail (text : String) : digitsOf (detail text) = digitsOf (summaryFrom text) := by
  unfold detail
  split
  · next h =>
    subst h
    rfl
  · rfl

/-- Of what the exception says, the summary has the digits of the masked text. -/
theorem digitsOf_outcomeUnconfirmed (error : Exc) {rest : String} (hrest : Clear rest.toList) :
    digitsOf (outcomeUnconfirmed error rest) = digitsOf error.name ++ digitsOf (summaryFrom error.message) := by
  have hfirst : digitsOf "Outcome unconfirmed after " = [] := digitsOf_eq_nil.mpr (clear_of_ascii (by decide +kernel))
  have hcolon : digitsOf ": " = [] := digitsOf_eq_nil.mpr (clear_of_ascii (by decide))
  have hdetail : digitsOf (if detail error.message = "" then "" else ": " ++ detail error.message)
      = digitsOf (summaryFrom error.message) := by
    rw [← digitsOf_detail]
    split
    · next h => rw [h]
    · rw [digitsOf_append, hcolon, List.nil_append]
  calc digitsOf (outcomeUnconfirmed error rest)
      = digitsOf "Outcome unconfirmed after " ++ digitsOf error.name
          ++ digitsOf (if detail error.message = "" then "" else ": " ++ detail error.message) ++ digitsOf rest :=
        digitsOf_append₄ _ _ _ _
    _ = digitsOf error.name ++ digitsOf (summaryFrom error.message) := by
        rw [hdetail, hfirst, digitsOf_eq_nil.mpr hrest, List.nil_append, List.append_nil]

/-- No digit of the text comes into a summary; the exception's own name may have some. -/
structure Hidden (text : String) : Prop where
  summary : Clear (summaryFrom text).toList
  broker : ∀ statusCode fields, (Json.obj fields).get? "errorMessage" = some (.str text) →
    Clear (brokerReason statusCode (some (.obj fields))).summary.toList
  transport : ∀ (error : Exc) statusCode correlation, error.message = text →
    digitsOf (transportReason error statusCode correlation).summary = digitsOf error.name
  unconfirmed : ∀ (error : Exc) correlation, error.message = text →
    digitsOf (unconfirmedReason error correlation).summary = digitsOf error.name
  local_ : ∀ (error : Exc) evidence, error.message = text → Clear (localReason error evidence).summary.toList

theorem hidden_of_clear {text : String} (h : Clear (summaryFrom text).toList) : Hidden text := by
  have hnone := digitsOf_eq_nil.mpr h
  have hdetail : Clear (detail text).toList := digitsOf_eq_nil.mp ((digitsOf_detail text).trans hnone)
  refine ⟨h, fun statusCode fields hfield => ?_, ?_, ?_, ?_⟩
  · have hbroker : (brokerReason statusCode (some (.obj fields))).summary = detail text := by
      simp only [brokerReason, Option.bind_some, hfield]
    exact hbroker ▸ hdetail
  · rintro error statusCode correlation rfl
    rw [transportReason, digitsOf_outcomeUnconfirmed error (clear_of_ascii (by decide +kernel)), hnone, List.append_nil]
  · rintro error correlation rfl
    rw [unconfirmedReason, digitsOf_outcomeUnconfirmed error (clear_of_ascii (by decide +kernel)), hnone, List.append_nil]
  · rintro error evidence rfl
    exact hdetail

/-- Where the masks before the digit mask find nothing, the cap alone decides. -/
theorem hidden_iff_of_unmasked {u d v : String} (hu : Clear u.toList) (hd : DigitRun d.toList) (hv : Clear v.toList)
    (hmasks : beforeDigits (u ++ d ++ v) = cleaned (u ++ d ++ v).toList) :
    let left := digits (d.toList.take (rawCap - (u.toList.filter (!isControl ·)).length))
    Hidden (u ++ d ++ v) ↔ (left = 0 ∨ 12 ≤ left) ∨ OutOfSight (u ++ d ++ v) := by
  have htext : (u ++ d ++ v).toList = u.toList ++ (d.toList ++ v.toList) := by simp
  have hleft : digits (beforeDigits (u ++ d ++ v))
      = digits (d.toList.take (rawCap - (u.toList.filter (!isControl ·)).length)) := by
    rw [hmasks, htext, digits_cleaned hu hd hv]
  have hiff := clear_summaryFrom_iff ⟨_, _, _, htext, hu, Or.inr hd, hv⟩
  rw [WholeOrLong, hleft] at hiff
  exact Iff.trans ⟨fun h => h.summary, hidden_of_clear⟩ hiff

end Host

section Sample

attribute [local instance] sampleTextHost

end Sample

end MatchTrader.Reasons
