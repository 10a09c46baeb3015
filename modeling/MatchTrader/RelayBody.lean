import MatchTrader.ForwardBody

/-! The body of a request as the relay reads it, and where it and the dashboard differ about one request. -/

namespace MatchTrader

open Numeral

namespace Relay

/-- `read(size)`, which takes no size beyond the interpreter's own. -/
def oversize : Exc := ⟨.arithmeticError, "OverflowError", "cannot fit 'int' into an index-sized integer", none⟩

/-- What `str.strip` strips from a Latin-1 text. -/
def textSpace (c : UInt8) : Bool := latinSpace c || (28 ≤ c && c ≤ 31)

/-- The trailers after the last chunk. -/
def readTrailers (s : List UInt8) : Except Exc (List Field × List UInt8) :=
  let line := (readline 8192 s).1
  if line = crlf then .ok ([], (readline 8192 s).2)
  else if line = [] then .error (Exc.value "Incomplete chunk trailers")
  else if 58 ∉ line then .error (Exc.value "not enough values to unpack (expected 2, got 1)")
  else
    let key := line.takeWhile (· ≠ 58)
    let value := (line.dropWhile (· ≠ 58)).drop 1
    match readTrailers (readline 8192 s).2 with
    | .error e => .error e
    | .ok (trailers, rest) => .ok ((Numeral.strip textSpace key, Numeral.strip textSpace value) :: trailers, rest)
termination_by s.length
decreasing_by
  have hne : ¬ (readline 8192 s).1 = [] := by assumption
  have happend := congrArg List.length (readline_append 8192 s)
  rw [List.length_append] at happend
  have hpos := List.length_pos_iff.mpr hne
  omega

/-- `int(line.split(b';', 1)[0].strip(), 16)`. -/
def lineSize (line : List UInt8) : Except Exc Int := int 16 asciiSpace (Numeral.strip asciiSpace (line.takeWhile (· ≠ 59)))

/-- The chunks of `read_body`, after those read so far. -/
def readChunks (body s : List UInt8) : Except Exc (List UInt8 × List Field × List UInt8) :=
  let line := (readline 8192 s).1
  let s₁ := (readline 8192 s).2
  match lineSize line with
  | .error e => .error e
  | .ok size =>
    if size < 0 then .error (Exc.value "Invalid chunk size")
    else if size = 0 then
      match readTrailers s₁ with
      | .error e => .error e
      | .ok (trailers, rest) => .ok (body, trailers, rest)
    else if 2 ^ 63 ≤ size then .error oversize
    else if (s₁.take size.toNat).length ≠ size.toNat ∨ (s₁.drop size.toNat).take 2 ≠ crlf then
      .error (Exc.value "Incomplete request chunk")
    else readChunks (body ++ s₁.take size.toNat) ((s₁.drop size.toNat).drop 2)
termination_by s.length
decreasing_by
  have hline : s₁.length ≤ s.length := length_readline 8192 s
  have hread : ¬ ((s₁.take size.toNat).length ≠ size.toNat ∨ (s₁.drop size.toNat).take 2 ≠ crlf) := by assumption
  have hsize : (s₁.take size.toNat).length = size.toNat := not_not.mp fun hn => hread (Or.inl hn)
  have hne : ¬ size = 0 := by assumption
  have hpos : ¬ size < 0 := by assumption
  change ((s₁.drop size.toNat).drop 2).length < s.length
  rw [List.length_take] at hsize
  rw [List.length_drop, List.length_drop]
  omega

/-- `read_body`: the body, the trailers, and what of the stream comes after them. -/
def readBody (headers : List Field) (s : List UInt8) : Except Exc (List UInt8 × List Field × List UInt8) := do
  let lengths := contentLength headers
  let encoding := (transferEncoding headers).headD []
  raiseIf (encoding ≠ [] ∧ lengths ≠ [] ∨ 1 < lengths.length) (Exc.value "Ambiguous request framing")
  if encoding ≠ [] then
    raiseIf (¬ isChunked encoding) (Exc.value "Unsupported transfer framing")
    readChunks [] s
  else
    let size ← match lengths with
      | [] => .ok 0
      | text :: _ => int 10 latinSpace text
    raiseIf (size < 0) (Exc.value "Invalid content length")
    raiseIf (2 ^ 63 ≤ size) oversize
    raiseIf ((s.take size.toNat).length ≠ size.toNat) (Exc.value "Incomplete request body")
    return (s.take size.toNat, [], s.drop size.toNat)

end Relay

/-- The line before a chunk as the relay reads it: anything up to a line feed, or a piece of 8192 bytes, that begins with a number. -/
def LooseLine (line : List UInt8) (n : Nat) : Prop := Line 8192 line ∧ Relay.lineSize line = .ok n ∧ n < 2 ^ 63

/-- What the relay takes for a body without trailers, the bytes that frame it and their size lines. -/
inductive RelayFrame (headers : List Field) : List (List UInt8) → List UInt8 → List UInt8 → Prop
  | empty (hl : contentLength headers = []) (he : (transferEncoding headers).headD [] = []) : RelayFrame headers [] [] []
  | sized {text body : List UInt8} (hl : contentLength headers = [text]) (he : (transferEncoding headers).headD [] = [])
    (hn : int 10 latinSpace text = .ok body.length) (hm : body.length < 2 ^ 63) : RelayFrame headers [] body body
  | chunked {frame body : List UInt8} {lines : List (List UInt8)} (hl : contentLength headers = [])
    (hc : isChunked ((transferEncoding headers).headD [])) (hf : Chunked LooseLine lines frame body) : RelayFrame headers lines frame body

namespace Relay

variable {line s body rest : List UInt8} {n : Nat}

theorem line_crlf {k : Nat} (h : 2 ≤ k) : Line k crlf := Or.inl ⟨[13], rfl, by decide, h⟩

theorem readTrailers_iff : readTrailers s = .ok ([], rest) ↔ s = crlf ++ rest := by
  constructor
  · intro h
    rw [readTrailers] at h
    split at h
    · next hcrlf =>
      have happend := readline_append 8192 s
      cases h
      exact (hcrlf ▸ happend).symm
    · split at h
      · exact nomatch h
      · split at h
        · exact nomatch h
        · cases hr : readTrailers (readline 8192 s).2 with
          | error e => simp only [hr] at h; exact nomatch h
          | ok r => simp only [hr] at h; exact nomatch h
  · rintro rfl
    rw [readTrailers, readline_of_line (line_crlf (by decide))]
    rfl

theorem readChunks_of_chunked {lines : List (List UInt8)} {frame tail : List UInt8} (h : Chunked LooseLine lines frame tail) :
    readChunks body (frame ++ rest) = .ok (body ++ tail, [], rest) := by
  induction h generalizing body with
  | @last line h =>
    obtain ⟨hline, hn, -⟩ := h
    rw [readChunks, List.append_assoc, readline_of_line hline]
    simp only [hn, readTrailers_iff.mpr rfl]
    simp
  | @chunk line chunk frame tail lines h hne hr ih =>
    obtain ⟨hline, hn, hmax⟩ := h
    have hpos : chunk.length ≠ 0 := fun h0 => hne (List.length_eq_zero_iff.mp h0)
    have hnext : line ++ chunk ++ crlf ++ frame ++ rest = line ++ (chunk ++ (crlf ++ (frame ++ rest))) := by simp only [List.append_assoc]
    rw [readChunks, hnext, readline_of_line hline]
    simp only [hn, Int.toNat_natCast]
    rw [if_neg (by omega), if_neg (by omega), if_neg (by omega), List.take_left, List.drop_left, if_neg (by simp [crlf]),
      show (crlf ++ (frame ++ rest)).drop 2 = frame ++ rest from rfl, ih, List.append_assoc]

theorem chunked_of_readChunks {b : List UInt8} (h : readChunks body s = .ok (b, [], rest)) :
    ∃ lines frame tail, s = frame ++ rest ∧ Chunked LooseLine lines frame tail ∧ b = body ++ tail := by
  fun_induction readChunks body s with
  | case4 body s line s₁ trailers rest' ht hn hneg =>
    cases h
    have hs₁ : line ++ s₁ = s := readline_append 8192 s
    have htail := readTrailers_iff.mp ht
    have hline : Line 8192 line := line_of_readline.resolve_right fun hend => by
      have hnil : s₁ = [] := hend.1
      rw [htail] at hnil
      exact nomatch hnil
    refine ⟨[line], line ++ crlf, [], ?_, .last ⟨hline, hn, by decide⟩, (List.append_nil _).symm⟩
    rw [List.append_assoc, ← htail, hs₁]
  | case7 body s line s₁ size hn hneg hz hmax hread ih =>
    obtain ⟨hchunk, hcrlf⟩ := not_or.mp hread
    have hs₁ : line ++ s₁ = s := readline_append 8192 s
    have hlen := not_not.mp hchunk
    have hline : Line 8192 line := line_of_readline.resolve_right fun hend => by
      have hnil : s₁ = [] := hend.1
      rw [hnil, List.take_nil, List.length_nil] at hlen
      omega
    obtain ⟨lines, frame, tail, hframe, hr, hb⟩ := ih h
    have hsize : LooseLine line (s₁.take size.toNat).length := by
      rw [hlen]
      exact ⟨hline, hn.trans (congrArg _ (Int.toNat_of_nonneg (not_lt.mp hneg)).symm), by omega⟩
    refine ⟨line :: lines, line ++ s₁.take size.toNat ++ crlf ++ frame, s₁.take size.toNat ++ tail, ?_, .chunk hsize ?_ hr, ?_⟩
    · have htail : crlf ++ (frame ++ rest) = s₁.drop size.toNat := by rw [← hframe, ← not_not.mp hcrlf, List.take_append_drop]
      simp only [List.append_assoc]
      rw [htail, List.take_append_drop, hs₁]
    · intro hnil
      rw [hnil, List.length_nil] at hlen
      omega
    · rw [hb, List.append_assoc]
  | _ => exact nomatch h

theorem readChunks_iff {b : List UInt8} : readChunks body s = .ok (b, [], rest) ↔
    ∃ lines frame tail, s = frame ++ rest ∧ Chunked LooseLine lines frame tail ∧ b = body ++ tail := by
  constructor
  · exact chunked_of_readChunks
  · rintro ⟨lines, frame, tail, rfl, hf, rfl⟩
    exact readChunks_of_chunked hf

variable {headers : List Field}

theorem readBody_chunked (hl : contentLength headers = []) (he : (transferEncoding headers).headD [] ≠ []) :
    readBody headers s = .ok (body, [], rest) ↔
      isChunked ((transferEncoding headers).headD []) ∧ ∃ lines frame, s = frame ++ rest ∧ Chunked LooseLine lines frame body := by
  unfold readBody
  simp only [if_pos he, raiseIf_bind, readChunks_iff, hl]
  constructor
  · rintro ⟨-, hc, lines, frame, tail, hs, hf, rfl⟩
    exact ⟨not_not.mp hc, lines, frame, hs, hf⟩
  · rintro ⟨hc, lines, frame, hs, hf⟩
    exact ⟨by simp, not_not.mpr hc, lines, frame, body, hs, hf, rfl⟩

/-- What follows once the size is known. -/
theorem read_sized {size : Int} : (do
      raiseIf (size < 0) (Exc.value "Invalid content length")
      raiseIf (2 ^ 63 ≤ size) oversize
      raiseIf ((s.take size.toNat).length ≠ size.toNat) (Exc.value "Incomplete request body")
      return (s.take size.toNat, ([] : List Field), s.drop size.toNat) : Except Exc _) = .ok (body, [], rest) ↔
    size = body.length ∧ body.length < 2 ^ 63 ∧ s = body ++ rest := by
  simp only [raiseIf_bind]
  constructor
  · rintro ⟨hneg, hmax, hlen, hok⟩
    cases hok
    refine ⟨?_, ?_, (List.take_append_drop ..).symm⟩ <;> omega
  · rintro ⟨rfl, hmax, rfl⟩
    refine ⟨by omega, by omega, by simp, by simp [pure, Except.pure]⟩

theorem readBody_iff : readBody headers s = .ok (body, [], rest) ↔
    ∃ lines frame, s = frame ++ rest ∧ RelayFrame headers lines frame body := by
  by_cases he : (transferEncoding headers).headD [] = []
  · have hraw : ¬ isChunked ((transferEncoding headers).headD []) := by
      rw [he]
      decide +kernel
    unfold readBody
    simp only [if_neg (not_not.mpr he), raiseIf_bind]
    cases hl : contentLength headers with
    | nil =>
      have hsized := @read_sized s body rest 0
      constructor
      · rintro ⟨-, h⟩
        obtain ⟨hn, -, rfl⟩ := hsized.mp h
        obtain rfl := List.length_eq_zero_iff.mp (Int.natCast_eq_zero.mp hn.symm)
        exact ⟨[], [], rfl, .empty hl he⟩
      · rintro ⟨lines, frame, rfl, hf⟩
        cases hf with
        | empty => exact ⟨by simp, hsized.mpr ⟨rfl, by decide, rfl⟩⟩
        | sized hl' => cases hl.symm.trans hl'
        | chunked _ hc => exact absurd hc hraw
    | cons text others =>
      have hone : 1 < (text :: others).length ↔ others ≠ [] := by simp [List.length_pos_iff]
      rw [hone, bind_eq_ok]
      constructor
      · rintro ⟨hno, size, hsize, h⟩
        obtain ⟨rfl, hm, rfl⟩ := read_sized.mp h
        rw [not_or, not_not] at hno
        exact ⟨[], body, rfl, .sized (hno.2 ▸ hl) he hsize hm⟩
      · rintro ⟨lines, frame, rfl, hf⟩
        cases hf with
        | empty hl' => cases hl.symm.trans hl'
        | sized hl' _ hn hm =>
          cases hl.symm.trans hl'
          exact ⟨fun h => h.elim (fun h => h.1 he) fun h => h rfl, body.length, hn, read_sized.mpr ⟨rfl, hm, rfl⟩⟩
        | chunked _ hc => exact absurd hc hraw
  · by_cases hl : contentLength headers = []
    · rw [readBody_chunked hl he]
      constructor
      · rintro ⟨hc, lines, frame, hs, hf⟩
        exact ⟨lines, frame, hs, .chunked hl hc hf⟩
      · rintro ⟨lines, frame, hs, hf⟩
        cases hf with
        | empty _ he' => exact absurd he' he
        | sized _ he' => exact absurd he' he
        | chunked _ hc hf => exact ⟨hc, lines, frame, hs, hf⟩
    · constructor
      · intro h
        exact absurd (Or.inl ⟨he, hl⟩) (raiseIf_bind.mp h).1
      · rintro ⟨lines, frame, -, hf⟩
        cases hf with
        | empty hl' => exact absurd hl' hl
        | sized _ he' => exact absurd he' he
        | chunked hl' => exact absurd hl' hl

/-- The relay reads a plain size as the dashboard does. -/
theorem lineSize_of_sizeLine (h : SizeLine line n) : lineSize line = .ok n := by
  obtain @⟨digits, extension, hd, he, -, -⟩ := h
  have hspace : ∀ c ∈ digits, asciiSpace c = false := fun c hc => asciiSpace_digit (hd.2 c hc)
  have hall : ∀ c ∈ digits, decide (c ≠ 59) = true := by
    intro c hc
    refine decide_eq_true fun he => ?_
    have hsome := hd.2 c hc
    rw [he] at hsome
    exact nomatch hsome
  have hstrip : Numeral.strip asciiSpace ((digits ++ extension ++ crlf).takeWhile (· ≠ 59)) = digits := by
    rw [List.append_assoc, List.takeWhile_append_of_pos hall]
    obtain rfl | he := he
    · exact strip_of_all hspace (List.all_eq_true.mp (by decide))
    · obtain ⟨t, rfl⟩ := List.head?_eq_some_iff.mp he
      rw [List.cons_append, List.takeWhile_cons_of_neg (by decide)]
      exact strip_of_all hspace nofun
  unfold lineSize
  rw [hstrip, int_of_plain hd (le_refl 16) fun c => asciiSpace_digit]
  rfl

theorem looseLine_of_sizeLine (h : SizeLine line n) (hn : n ≤ maxRequest) : LooseLine line n := by
  refine ⟨?_, lineSize_of_sizeLine h, hn.trans_lt (by decide)⟩
  obtain ⟨hline, hs, hlen, -, -⟩ := Dashboard.line_of_sizeLine h
  obtain ⟨t, ht, hnot, -⟩ | ⟨-, hlong⟩ := hline
  · exact Or.inl ⟨t, ht, hnot, hlen⟩
  · omega

/-- A request whose framing is written plainly: one field at most names a transfer coding, and does name one; a length has digits
only; and a size line has digits, an extension perhaps, and a line end. -/
structure Plainly (headers : List Field) (lines : List (List UInt8)) : Prop where
  once : (transferEncoding headers).length ≤ 1
  given : [] ∉ transferEncoding headers
  length : ∀ text ∈ contentLength headers, Plain 10 text
  sizes : ∀ line ∈ lines, ∃ n, SizeLine line n

variable {frame : List UInt8} {lines : List (List UInt8)}

theorem sizes_of_chunked (h : Chunked SizeLine lines frame body) : ∀ line ∈ lines, ∃ n, SizeLine line n := by
  induction h with
  | last h => exact fun l hl => List.mem_singleton.mp hl ▸ ⟨0, h⟩
  | chunk h _ _ ih =>
    intro l hl
    obtain rfl | hl := List.mem_cons.mp hl
    · exact ⟨_, h⟩
    · exact ih l hl

/-- The relay takes what the dashboard takes. -/
theorem relay_of_forward (h : ForwardFrame headers frame body) : ∃ lines, RelayFrame headers lines frame body ∧ Plainly headers lines := by
  cases h with
  | empty hl he =>
    refine ⟨[], .empty hl (by rw [he]; rfl), ?_, ?_, ?_, nofun⟩ <;> simp [hl, he]
  | @sized text body hl he hp hs hn hm =>
    have hint : int 10 latinSpace text = .ok body.length := by
      rw [int_of_plain hp (by decide) fun c => latinSpace_digit, if_neg fun h => not_lt.mpr hs h.2, hn]
    refine ⟨[], .sized hl (by rw [he]; rfl) hint (hm.trans_lt (by decide)), ?_, ?_, ?_, nofun⟩ <;> simp [hl, he, hp]
  | @chunked coding frame body lines hl he hc hf hm =>
    have hcoding : (transferEncoding headers).headD [] = coding := by rw [he]; rfl
    have hne : coding ≠ [] := fun h0 => by
      rw [h0] at hc
      exact absurd hc (by decide +kernel)
    refine ⟨lines, .chunked hl (hcoding ▸ hc) (hf.mono fun line _ n hn h => looseLine_of_sizeLine h (hn.trans hm)), ?_, ?_, ?_,
      sizes_of_chunked hf⟩ <;> simp [hl, he, Ne.symm hne]

theorem forward_of_relay (h : RelayFrame headers lines frame body) (hm : body.length ≤ maxRequest) (hp : Plainly headers lines) :
    ForwardFrame headers frame body := by
  have hnone : (transferEncoding headers).headD [] = [] → transferEncoding headers = [] := by
    intro he
    cases hte : transferEncoding headers with
    | nil => rfl
    | cons coding rest =>
      rw [hte] at he
      exact absurd (hte ▸ he ▸ List.mem_cons_self) hp.given
  cases h with
  | empty hl he => exact .empty hl (hnone he)
  | @sized text body hl he hn _ =>
    have hplain := hp.length text (by rw [hl]; exact List.mem_singleton_self text)
    rw [int_of_plain hplain (by decide) fun c => latinSpace_digit] at hn
    split at hn
    · exact nomatch hn
    · next hs =>
      refine .sized hl (hnone he) hplain (not_lt.mp fun h => hs ⟨rfl, h⟩) ?_ hm
      exact_mod_cast Except.ok.inj hn
  | chunked hl hc hf =>
    have hsize : ∀ line ∈ lines, ∀ n ≤ body.length, LooseLine line n → SizeLine line n := by
      intro line hline n _ hn
      obtain ⟨m, hm⟩ := hp.sizes line hline
      have heq := (lineSize_of_sizeLine hm).symm.trans hn.2.1
      rwa [Int.natCast_inj.mp (Except.ok.inj heq)] at hm
    cases hte : transferEncoding headers with
    | nil =>
      rw [hte] at hc
      exact absurd hc (by decide +kernel)
    | cons coding rest =>
      have hone : transferEncoding headers = [coding] := by
        have honce := hp.once
        rw [hte] at honce ⊢
        simpa using honce
      rw [hte] at hc
      exact .chunked hl hone hc (hf.mono hsize) hm

theorem relayFrame_lines {others : List (List UInt8)} {other : List UInt8} (h : RelayFrame headers lines frame body)
    (h' : RelayFrame headers others frame other) : lines = others := by
  have hraw : ∀ {coding : List UInt8}, coding = [] → ¬ isChunked coding := fun he hc => absurd (he ▸ hc) (by decide +kernel)
  have hsize : ∀ line m n, LooseLine line m → LooseLine line n → m = n := fun line m n hm hn =>
    Int.natCast_inj.mp (Except.ok.inj (hm.2.1.symm.trans hn.2.1))
  cases h with
  | empty hl he =>
    cases h' with
    | chunked _ hc => exact absurd hc (hraw he)
    | _ => rfl
  | sized hl he =>
    cases h' with
    | chunked _ hc => exact absurd hc (hraw he)
    | _ => rfl
  | chunked hl hc hf =>
    cases h' with
    | chunked _ _ hf' => exact hf.lines_eq (fun line n h => h.1) hsize hf'
    | empty _ he => exact absurd hc (hraw he)
    | sized _ he => exact absurd hc (hraw he)

/-- Both refuse a request, or both return one body and leave the same of the stream. -/
def Agree (headers : List Field) (s : List UInt8) : Prop :=
  match readBody headers s, Dashboard.readForwardBody headers s with
  | .error _, .error _ => True
  | .ok (body, trailers, rest), .ok (body', rest') => body = body' ∧ trailers = [] ∧ rest = rest'
  | _, _ => False

/-- What the relay makes of the stream has no trailers and no body over the dashboard's limit. -/
def Comparable (headers : List Field) (s : List UInt8) : Prop :=
  ∀ body trailers rest, readBody headers s = .ok (body, trailers, rest) → trailers = [] ∧ body.length ≤ maxRequest

/-- The relay and the dashboard agree about a request exactly where the frame that the relay finds, if it finds one, is written
plainly. -/
theorem bodies_agree_iff (headers : List Field) (s : List UInt8) (h : Comparable headers s) :
    Agree headers s ↔ ∀ lines frame body rest, s = frame ++ rest → RelayFrame headers lines frame body → Plainly headers lines := by
  constructor
  · rintro hagree lines frame body rest rfl hf
    have hrelay : readBody headers (frame ++ rest) = .ok (body, [], rest) := readBody_iff.mpr ⟨lines, frame, rfl, hf⟩
    unfold Agree at hagree
    rw [hrelay] at hagree
    cases hd : Dashboard.readForwardBody headers (frame ++ rest) with
    | error e =>
      rw [hd] at hagree
      exact hagree.elim
    | ok r =>
      rw [hd] at hagree
      obtain ⟨rfl, -, rfl⟩ := hagree
      obtain ⟨frame', hs, hforward⟩ := Dashboard.readForwardBody_iff.mp hd
      obtain rfl := List.append_cancel_right hs
      obtain ⟨others, hf', hp⟩ := relay_of_forward hforward
      exact relayFrame_lines hf hf' ▸ hp
  · intro hplain
    unfold Agree
    cases hr : readBody headers s with
    | error e =>
      cases hd : Dashboard.readForwardBody headers s with
      | error e => trivial
      | ok r =>
        obtain ⟨frame, hs, hforward⟩ := Dashboard.readForwardBody_iff.mp hd
        obtain ⟨lines, hf, -⟩ := relay_of_forward hforward
        exact nomatch hr.symm.trans (readBody_iff.mpr ⟨lines, frame, hs, hf⟩)
    | ok r =>
      obtain ⟨body, trailers, rest⟩ := r
      obtain ⟨rfl, hm⟩ := h body trailers rest hr
      obtain ⟨lines, frame, hs, hf⟩ := readBody_iff.mp hr
      have hforward := forward_of_relay hf hm (hplain lines frame body rest hs hf)
      rw [Dashboard.readForwardBody_iff.mpr ⟨frame, hs, hforward⟩]
      exact ⟨rfl, rfl, rfl⟩

theorem readBody_three : readBody [(Utf8.ascii "Content-Length", Utf8.ascii "3")] (Utf8.ascii "abcd") = .ok (Utf8.ascii "abc", [], Utf8.ascii "d") :=
  rfl

theorem bodies_agree_iff_length : Agree [(Utf8.ascii "Content-Length", Utf8.ascii "3")] (Utf8.ascii "abcd") := by
  refine (bodies_agree_iff _ _ ?_).mpr ?_
  · intro body trailers rest h
    rw [readBody_three] at h
    cases h
    exact ⟨rfl, by decide +kernel⟩
  · intro lines frame body rest _ hf
    refine ⟨by decide +kernel, by decide +kernel, by decide +kernel, ?_⟩
    cases hf with
    | chunked _ hc => exact absurd hc (by decide +kernel)
    | _ => exact nofun

/-- A size that is written with `0x`. -/
def marked : List UInt8 := Utf8.ascii "0x1\r\na\r\n0\r\n\r\n"

theorem readBody_marked : readBody [(Utf8.ascii "Transfer-Encoding", Utf8.ascii "chunked")] marked = .ok (Utf8.ascii "a", [], []) := by
  have hfirst : LooseLine (Utf8.ascii "0x1\r\n") 1 := ⟨Or.inl ⟨Utf8.ascii "0x1\r", rfl, by decide +kernel, by decide +kernel⟩, rfl, by decide⟩
  have hlast : LooseLine (Utf8.ascii "0\r\n") 0 := ⟨Or.inl ⟨Utf8.ascii "0\r", rfl, by decide +kernel, by decide +kernel⟩, rfl, by decide⟩
  have hframe := @Chunked.chunk LooseLine _ (Utf8.ascii "a") _ _ _ hfirst (by decide +kernel) (.last hlast)
  exact readBody_iff.mpr ⟨_, marked, rfl, .chunked rfl (by decide +kernel) hframe⟩

/-- The relay takes a size that the dashboard refuses. -/
theorem bodies_disagree : ¬ ∀ headers s, Comparable headers s → Agree headers s := by
  intro h
  have hrefused : Dashboard.readForwardBody [(Utf8.ascii "Transfer-Encoding", Utf8.ascii "chunked")] marked
      = .error (Exc.value "Invalid chunk size") := by
    have hchunks : Dashboard.readChunks [] marked = .error (Exc.value "Invalid chunk size") := by
      rw [Dashboard.readChunks]
      rfl
    exact hchunks
  have hagree := h [(Utf8.ascii "Transfer-Encoding", Utf8.ascii "chunked")] marked fun body trailers rest hr => by
    rw [readBody_marked] at hr
    cases hr
    exact ⟨rfl, by decide +kernel⟩
  unfold Agree at hagree
  rwa [readBody_marked, hrefused] at hagree

end Relay

end MatchTrader
