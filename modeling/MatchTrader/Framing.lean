import MatchTrader.Forwarder
import MatchTrader.Numerals

/-! How the body of a request is framed: the reads from the stream, the header fields that decide, and the chunked coding over any
notion of a size line. -/

namespace MatchTrader

/-- `readline(limit)`: through the first line feed, and at most `limit` bytes. -/
def readline : Nat → List UInt8 → List UInt8 × List UInt8
  | 0, s => ([], s)
  | _, [] => ([], [])
  | n + 1, b :: s => if b = 10 then ([b], s) else (b :: (readline n s).1, (readline n s).2)

def crlf : List UInt8 := [13, 10]

/-- A header field, as the bytes of its Latin-1 text. -/
abbrev Field := List UInt8 × List UInt8

/-- `lower` of a Latin-1 character. -/
def lowerByte (c : UInt8) : UInt8 := if (65 ≤ c ∧ c ≤ 90) ∨ (192 ≤ c ∧ c ≤ 222 ∧ c ≠ 215) then c + 32 else c

/-- `get_all`, with no fields where there are none. -/
def getAll (name : String) (headers : List Field) : List (List UInt8) :=
  (headers.filter fun f => f.1.map lowerByte = (Utf8.ascii name).map lowerByte).map Prod.snd

def contentLength (headers : List Field) : List (List UInt8) := getAll "Content-Length" headers

def transferEncoding (headers : List Field) : List (List UInt8) := getAll "Transfer-Encoding" headers

def isChunked (coding : List UInt8) : Bool := coding.map lowerByte = Utf8.ascii "chunked"

section Lines

variable {n : Nat} {s line rest : List UInt8}

/-- What `readline(n)` returns before the end of the stream. -/
def Line (n : Nat) (line : List UInt8) : Prop :=
  (∃ t, line = t ++ [10] ∧ 10 ∉ t ∧ line.length ≤ n) ∨ (10 ∉ line ∧ line.length = n)

theorem readline_append (n : Nat) (s : List UInt8) : (readline n s).1 ++ (readline n s).2 = s := by
  induction n generalizing s with
  | zero => rfl
  | succ n ih =>
    cases s with
    | nil => rfl
    | cons b s =>
      by_cases hb : b = 10
      · simp [readline, hb]
      · simpa [readline, hb] using ih s

theorem Line.cons (h : Line n line) {b : UInt8} (hb : b ≠ 10) : Line (n + 1) (b :: line) := by
  obtain ⟨t, rfl, ht, hlen⟩ | ⟨ht, hlen⟩ := h
  · refine Or.inl ⟨b :: t, rfl, ?_, Nat.succ_le_succ hlen⟩
    exact fun hm => (List.mem_cons.mp hm).elim (fun he => hb he.symm) ht
  · refine Or.inr ⟨fun hm => (List.mem_cons.mp hm).elim (fun he => hb he.symm) ht, congrArg (· + 1) hlen⟩

theorem line_of_readline : Line n (readline n s).1 ∨ (readline n s).2 = [] ∧ 10 ∉ (readline n s).1 := by
  induction n generalizing s with
  | zero => exact Or.inl (Or.inr ⟨List.not_mem_nil, rfl⟩)
  | succ n ih =>
    cases s with
    | nil => exact Or.inr ⟨rfl, List.not_mem_nil⟩
    | cons b s =>
      by_cases hb : b = 10
      · have hline : (readline (n + 1) (b :: s)).1 = [] ++ [10] := by simp [readline, hb]
        exact Or.inl (Or.inl ⟨[], hline, List.not_mem_nil, by simp [hline]⟩)
      · simp only [readline, if_neg hb]
        obtain h | ⟨hrest, h⟩ := ih (s := s)
        · exact Or.inl (h.cons hb)
        · exact Or.inr ⟨hrest, fun hm => (List.mem_cons.mp hm).elim (fun he => hb he.symm) h⟩

theorem readline_of_line (h : Line n line) : readline n (line ++ rest) = (line, rest) := by
  induction n generalizing line with
  | zero =>
    obtain ⟨t, rfl, -, hlen⟩ | ⟨-, hlen⟩ := h
    · simp at hlen
    · rw [List.length_eq_zero_iff.mp hlen]
      rfl
  | succ n ih =>
    cases line with
    | nil =>
      obtain ⟨t, ht, -, -⟩ | ⟨-, hlen⟩ := h
      · simp at ht
      · simp at hlen
    | cons b line =>
      by_cases hb : b = 10
      · have hnil : line = [] := by
          obtain ⟨t, ht, hnot, -⟩ | ⟨hnot, -⟩ := h
          · cases t with
            | nil => exact (List.cons.inj ht).2
            | cons c t => exact absurd (hb ▸ (List.cons.inj ht).1 ▸ List.mem_cons_self) hnot
          · exact absurd (hb ▸ List.mem_cons_self) hnot
        simp [readline, hb, hnil]
      · have hline : Line n line := by
          obtain ⟨t, ht, hnot, hlen⟩ | ⟨hnot, hlen⟩ := h
          · cases t with
            | nil => exact absurd (List.cons.inj ht).1 hb
            | cons c t =>
              refine Or.inl ⟨t, (List.cons.inj ht).2, fun hm => hnot (List.mem_cons_of_mem c hm), Nat.le_of_succ_le_succ hlen⟩
          · exact Or.inr ⟨fun hm => hnot (List.mem_cons_of_mem b hm), Nat.succ.inj hlen⟩
        simp [readline, hb, ih hline]

theorem length_readline (n : Nat) (s : List UInt8) : (readline n s).2.length ≤ s.length := by
  have happend := congrArg List.length (readline_append n s)
  rw [List.length_append] at happend
  omega

end Lines

theorem raiseIf_bind {α : Type} {c : Prop} [Decidable c] {e : Exc} {x : Except Exc α} {a : α} :
    (raiseIf c e >>= fun _ => x) = .ok a ↔ ¬ c ∧ x = .ok a := by
  rw [bind_eq_ok]
  exact ⟨fun ⟨_, hc, hx⟩ => ⟨raiseIf_eq_ok.mp hc, hx⟩, fun ⟨hc, hx⟩ => ⟨(), raiseIf_eq_ok.mpr hc, hx⟩⟩

/-- Chunks, each after a line that gives its size and before a line end, and a last one of size zero; with the lines. `L line n`
says that a line gives the size `n`. -/
inductive Chunked (L : List UInt8 → Nat → Prop) : List (List UInt8) → List UInt8 → List UInt8 → Prop
  | last {line : List UInt8} (h : L line 0) : Chunked L [line] (line ++ crlf) []
  | chunk {line chunk frame body : List UInt8} {lines : List (List UInt8)} (h : L line chunk.length) (hne : chunk ≠ [])
    (hr : Chunked L lines frame body) : Chunked L (line :: lines) (line ++ chunk ++ crlf ++ frame) (chunk ++ body)

variable {L M : List UInt8 → Nat → Prop} {lines : List (List UInt8)} {frame body : List UInt8}

/-- No size line of a frame gives more than there is in its body. -/
theorem Chunked.mono (h : Chunked L lines frame body) (hm : ∀ line ∈ lines, ∀ n ≤ body.length, L line n → M line n) :
    Chunked M lines frame body := by
  induction h with
  | last h => exact .last (hm _ List.mem_cons_self _ (Nat.zero_le _) h)
  | @chunk line chunk frame body lines h hne hr ih =>
    have hlen : (chunk ++ body).length = chunk.length + body.length := List.length_append
    refine .chunk (hm _ List.mem_cons_self _ (hlen ▸ Nat.le_add_right ..) h) hne (ih fun l hl n hn => hm l (List.mem_cons_of_mem _ hl) n ?_)
    exact hn.trans (hlen ▸ Nat.le_add_left ..)

/-- The lines of a frame are determined where a line is one read of the stream and gives one size. -/
theorem Chunked.lines_eq {k : Nat} (hline : ∀ line n, L line n → Line k line) (hsize : ∀ line m n, L line m → L line n → m = n)
    {others : List (List UInt8)} {other : List UInt8} (h : Chunked L lines frame body) (h' : Chunked L others frame other) :
    lines = others := by
  have hread : ∀ {line t l u : List UInt8} {m n : Nat}, L line m → L l n → line ++ t = l ++ u → line = l ∧ t = u := by
    intro line t l u m n hm hn he
    have hpair : readline k (line ++ t) = (line, t) := readline_of_line (hline line m hm)
    rw [he, readline_of_line (hline l n hn)] at hpair
    exact ⟨(congrArg Prod.fst hpair).symm, (congrArg Prod.snd hpair).symm⟩
  induction h generalizing others other with
  | @last line h =>
    generalize hs : line ++ crlf = s at h'
    cases h' with
    | last hl => rw [(hread h hl hs).1]
    | @chunk l chunk frame body others hl hne hr =>
      simp only [List.append_assoc] at hs
      have hone := (hread h hl hs).1
      exact absurd (hsize l 0 chunk.length (hone ▸ h) hl).symm fun h0 => hne (List.length_eq_zero_iff.mp h0)
  | @chunk line chunk frame body lines h hne hr ih =>
    generalize hs : line ++ chunk ++ crlf ++ frame = s at h'
    cases h' with
    | @last l hl =>
      simp only [List.append_assoc] at hs
      have hone := (hread h hl hs).1
      exact absurd (hsize l chunk.length 0 (hone ▸ h) hl) fun h0 => hne (List.length_eq_zero_iff.mp h0)
    | @chunk l piece tail body' others hl hne' hr' =>
      simp only [List.append_assoc] at hs
      obtain ⟨rfl, hrest⟩ := hread h hl hs
      obtain ⟨-, htail⟩ := List.append_inj hrest (hsize line _ _ h hl)
      rw [ih (List.append_cancel_left htail ▸ hr')]

end MatchTrader
