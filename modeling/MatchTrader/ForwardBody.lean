import MatchTrader.Framing

/-! The body of a request that the dashboard passes on to TradingBox: what it accepts as a frame, and what it makes of one. -/

namespace MatchTrader

open Numeral

namespace Dashboard

/-- `line[:-2].split(b';', 1)[0]`. -/
def sizeDigits (line : List UInt8) : List UInt8 := (line.take (line.length - 2)).takeWhile (· ≠ 59)

/-- The chunks of `read_forward_body`, after those read so far. -/
def readChunks (body s : List UInt8) : Except Exc (List UInt8 × List UInt8) :=
  let line := (readline 8193 s).1
  let s₁ := (readline 8193 s).2
  if ¬ crlf <:+ line ∨ 8192 < line.length then .error (Exc.value "Invalid chunk header")
  else
    let digits := sizeDigits line
    if digits = [] ∨ digits.any (fun c => !isHex c) then .error (Exc.value "Invalid chunk size")
    else
      let size := Numeral.read 16 digits
      if maxRequest < body.length + size then .error (Exc.value "Body too large")
      else if size = 0 then
        -- Trailers are not discarded silently.
        if (readline 8193 s₁).1 ≠ crlf then .error (Exc.value "Request trailers unsupported")
        else .ok (body, (readline 8193 s₁).2)
      else if (s₁.take size).length ≠ size ∨ (s₁.drop size).take 2 ≠ crlf then .error (Exc.value "Incomplete chunk")
      else readChunks (body ++ s₁.take size) ((s₁.drop size).drop 2)
termination_by s.length
decreasing_by
  have hline : s₁.length ≤ s.length := length_readline 8193 s
  have hread : ¬ ((s₁.take size).length ≠ size ∨ (s₁.drop size).take 2 ≠ crlf) := by assumption
  have hsize : (s₁.take size).length = size := not_not.mp fun hn => hread (Or.inl hn)
  have hne : size ≠ 0 := by assumption
  change ((s₁.drop size).drop 2).length < s.length
  rw [List.length_take] at hsize
  rw [List.length_drop, List.length_drop]
  omega

/-- `read_forward_body`: the body, and what of the stream comes after it. -/
def readForwardBody (headers : List Field) (s : List UInt8) : Except Exc (List UInt8 × List UInt8) := do
  let lengths := contentLength headers
  let encodings := transferEncoding headers
  raiseIf (1 < lengths.length ∨ 1 < encodings.length ∨ lengths ≠ [] ∧ encodings ≠ []) (Exc.value "Ambiguous framing")
  match encodings with
  | [] =>
    let text := lengths.headD [48]
    raiseIf (¬ text.all (· < 128) ∨ text = [] ∨ ¬ text.all isDecimal) (Exc.value "Invalid body length")
    let size ← int 10 latinSpace text
    raiseIf ((maxRequest : Int) < size) (Exc.value "Invalid body length")
    raiseIf ((s.take size.toNat).length ≠ size) (Exc.value "Incomplete body")
    return (s.take size.toNat, s.drop size.toNat)
  | coding :: _ =>
    raiseIf (¬ isChunked coding) (Exc.value "Unsupported transfer coding")
    readChunks [] s

end Dashboard

/-- The line before a chunk: its size in plain hexadecimal digits, and perhaps an extension. -/
inductive SizeLine : List UInt8 → Nat → Prop
  | intro {digits extension : List UInt8} (hd : Plain 16 digits) (he : extension = [] ∨ extension.head? = some 59)
    (hl : 10 ∉ extension) (hn : (digits ++ extension ++ crlf).length ≤ 8192) :
    SizeLine (digits ++ extension ++ crlf) (Numeral.read 16 digits)

/-- What the dashboard takes for a body, and the bytes that frame it. -/
inductive ForwardFrame (headers : List Field) : List UInt8 → List UInt8 → Prop
  | empty (hl : contentLength headers = []) (he : transferEncoding headers = []) : ForwardFrame headers [] []
  | sized {text body : List UInt8} (hl : contentLength headers = [text]) (he : transferEncoding headers = [])
    (hp : Plain 10 text) (hs : text.length ≤ 4300) (hn : Numeral.read 10 text = body.length) (hm : body.length ≤ maxRequest) :
    ForwardFrame headers body body
  | chunked {coding frame body : List UInt8} {lines : List (List UInt8)} (hl : contentLength headers = []) (he : transferEncoding headers = [coding])
    (hc : isChunked coding) (hf : Chunked SizeLine lines frame body) (hm : body.length ≤ maxRequest) : ForwardFrame headers frame body

namespace Dashboard

variable {line s body rest : List UInt8} {n : Nat}

theorem sizeDigits_of {digits extension : List UInt8} (hd : Plain 16 digits) (he : extension = [] ∨ extension.head? = some 59) :
    sizeDigits (digits ++ extension ++ crlf) = digits := by
  have hlen : (digits ++ extension ++ crlf).length - 2 = (digits ++ extension).length := by
    rw [List.length_append]
    exact Nat.add_sub_cancel _ 2
  have hall : ∀ c ∈ digits, decide (c ≠ 59) = true := by
    intro c hc
    have hsome := hd.2 c hc
    refine decide_eq_true fun he => ?_
    rw [he] at hsome
    exact nomatch hsome
  unfold sizeDigits
  rw [hlen, List.take_left, List.takeWhile_append_of_pos hall]
  obtain rfl | he := he
  · rw [List.takeWhile_nil, List.append_nil]
  · obtain ⟨t, rfl⟩ := List.head?_eq_some_iff.mp he
    rw [List.takeWhile_cons_of_neg (by decide), List.append_nil]

theorem not_plain_iff {digits : List UInt8} : ¬ (digits = [] ∨ digits.any (fun c => !isHex c) = true) ↔ Plain 16 digits := by
  simp only [Plain, not_or, List.any_eq_true, Bool.not_eq_true', not_exists, not_and, Bool.not_eq_false, isHex_iff]

theorem plain_no_lf {base : Nat} {digits : List UInt8} (hd : Plain base digits) : 10 ∉ digits := by
  intro hm
  have hsome := hd.2 10 hm
  rw [show digit base 10 = none from if_neg (lt_irrefl base)] at hsome
  exact nomatch hsome

/-- The line of a size, as `readline` returns it. -/
theorem line_of_sizeLine (h : SizeLine line n) : Line 8193 line ∧ crlf <:+ line ∧ line.length ≤ 8192 ∧ Plain 16 (sizeDigits line)
    ∧ Numeral.read 16 (sizeDigits line) = n := by
  obtain @⟨digits, extension, hd, he, hl, hn⟩ := h
  have hdigits := sizeDigits_of hd he
  refine ⟨Or.inl ⟨digits ++ extension ++ [13], by simp [crlf], ?_, hn.trans (by decide)⟩, List.suffix_append .., hn, by rwa [hdigits], by rw [hdigits]⟩
  have hdl := plain_no_lf hd
  simp [hdl, hl]

/-- A line with a line end and plain digits gives a size. -/
theorem sizeLine_of_line (hr : line = (readline 8193 s).1) (hs : crlf <:+ line) (hn : line.length ≤ 8192) (hd : Plain 16 (sizeDigits line)) :
    SizeLine line (Numeral.read 16 (sizeDigits line)) := by
  obtain ⟨t, ht⟩ := hs
  have hlf : (10 : UInt8) ∈ line := ht ▸ List.mem_append_right t (by decide)
  have hnot : 10 ∉ t := by
    obtain (⟨u, hu, hnot, -⟩ | ⟨hnot, -⟩) | ⟨-, hnot⟩ := line_of_readline (n := 8193) (s := s)
    · rw [← hr, ← ht, show t ++ crlf = (t ++ [13]) ++ [10] from (List.append_assoc t [13] [10]).symm] at hu
      exact fun hm => hnot ((List.append_inj_left' hu rfl) ▸ List.mem_append_left [13] hm)
    · exact absurd (hr ▸ hlf) hnot
    · exact absurd (hr ▸ hlf) hnot
  have hlen : line.length - 2 = t.length := by
    rw [← ht, List.length_append]
    exact Nat.add_sub_cancel _ 2
  have hdigits : sizeDigits line = t.takeWhile (· ≠ 59) := by
    unfold sizeDigits
    rw [hlen, ← ht, List.take_left]
  have hline : sizeDigits line ++ t.dropWhile (· ≠ 59) ++ crlf = line := by rw [hdigits, List.takeWhile_append_dropWhile, ht]
  have hextension : t.dropWhile (· ≠ 59) = [] ∨ (t.dropWhile (· ≠ 59)).head? = some 59 := by
    cases hx : t.dropWhile (· ≠ 59) with
    | nil => exact Or.inl rfl
    | cons c u =>
      have hc := List.head_dropWhile_not (fun c : UInt8 => decide (c ≠ 59)) (hx ▸ List.cons_ne_nil c u)
      simp only [hx, List.head_cons] at hc
      exact Or.inr (by simpa using hc)
  have hlf' : 10 ∉ t.dropWhile (· ≠ 59) := fun hm => hnot ((List.dropWhile_sublist _).subset hm)
  have hsize := SizeLine.intro hd hextension hlf' (by rwa [hline])
  rwa [hline] at hsize

theorem readChunks_of_chunked {lines : List (List UInt8)} {frame tail : List UInt8} (h : Chunked SizeLine lines frame tail) (hm : (body ++ tail).length ≤ maxRequest) :
    readChunks body (frame ++ rest) = .ok (body ++ tail, rest) := by
  induction h generalizing body with
  | @last line h =>
    obtain ⟨hline, hs, hlen, hd, hn⟩ := line_of_sizeLine h
    have hcrlf : Line 8193 crlf := Or.inl ⟨[13], rfl, by decide, by decide⟩
    rw [readChunks, List.append_assoc, readline_of_line hline]
    simp only [readline_of_line hcrlf]
    rw [if_neg (by simp [hs, hlen]), if_neg (not_plain_iff.mpr hd), hn, if_neg (by simpa using hm)]
    simp
  | @chunk line chunk frame tail lines h hne hr ih =>
    obtain ⟨hline, hs, hlen, hd, hn⟩ := line_of_sizeLine h
    have hpos : chunk.length ≠ 0 := fun h0 => hne (List.length_eq_zero_iff.mp h0)
    have hm' : (body ++ chunk ++ tail).length ≤ maxRequest := by rwa [List.append_assoc]
    have hsize : ¬ maxRequest < body.length + chunk.length := by
      rw [List.length_append, List.length_append] at hm'
      omega
    have hnext : line ++ chunk ++ crlf ++ frame ++ rest = line ++ (chunk ++ (crlf ++ (frame ++ rest))) := by simp only [List.append_assoc]
    rw [readChunks, hnext, readline_of_line hline]
    simp only
    rw [if_neg (by simp [hs, hlen]), if_neg (not_plain_iff.mpr hd), hn, if_neg hsize, if_neg hpos, List.take_left, List.drop_left,
      if_neg (by simp [crlf]), show (crlf ++ (frame ++ rest)).drop 2 = frame ++ rest from rfl, ih hm', List.append_assoc]

theorem chunked_of_readChunks {b : List UInt8} (h : readChunks body s = .ok (b, rest)) :
    ∃ lines frame tail, s = frame ++ rest ∧ Chunked SizeLine lines frame tail ∧ b = body ++ tail ∧ b.length ≤ maxRequest := by
  fun_induction readChunks body s with
  | case5 body s line s₁ hline digits hd size hm hz hcrlf =>
    cases h
    obtain ⟨hs, hlen⟩ := not_or.mp hline
    have hsize : SizeLine line size := sizeLine_of_line rfl (not_not.mp hs) (not_lt.mp hlen) (not_plain_iff.mp hd)
    have hs₁ : line ++ s₁ = s := readline_append 8193 s
    have hs₂ := readline_append 8193 s₁
    rw [not_not.mp hcrlf] at hs₂
    refine ⟨[line], line ++ crlf, [], ?_, .last (hz ▸ hsize), (List.append_nil _).symm, ?_⟩
    · rw [List.append_assoc, hs₂, hs₁]
    · omega
  | case7 body s line s₁ hline digits hd size hm hz hread ih =>
    obtain ⟨hs, hlen⟩ := not_or.mp hline
    obtain ⟨hchunk, hcrlf⟩ := not_or.mp hread
    have hsize : SizeLine line size := sizeLine_of_line rfl (not_not.mp hs) (not_lt.mp hlen) (not_plain_iff.mp hd)
    rw [← not_not.mp hchunk] at hsize
    have hs₁ : line ++ s₁ = s := readline_append 8193 s
    obtain ⟨lines, frame, tail, hframe, hr, hb, hmax⟩ := ih h
    refine ⟨line :: lines, line ++ s₁.take size ++ crlf ++ frame, s₁.take size ++ tail, ?_, .chunk hsize ?_ hr, ?_, hmax⟩
    · have htail : crlf ++ (frame ++ rest) = s₁.drop size := by rw [← hframe, ← not_not.mp hcrlf, List.take_append_drop]
      simp only [List.append_assoc]
      rw [htail, List.take_append_drop, hs₁]
    · intro hnil
      rw [hnil] at hchunk
      exact hz (not_not.mp hchunk).symm
    · rw [hb, List.append_assoc]
  | _ => exact nomatch h

theorem readChunks_iff {b : List UInt8} : readChunks body s = .ok (b, rest) ↔
    ∃ lines frame tail, s = frame ++ rest ∧ Chunked SizeLine lines frame tail ∧ b = body ++ tail ∧ b.length ≤ maxRequest := by
  constructor
  · exact chunked_of_readChunks
  · rintro ⟨lines, frame, tail, rfl, hf, rfl, hm⟩
    exact readChunks_of_chunked hf hm

theorem decimal_text {text : List UInt8} : ¬ (¬ text.all (· < 128) ∨ text = [] ∨ ¬ text.all isDecimal) ↔ Plain 10 text := by
  have hascii : text.all isDecimal = true → text.all (· < 128) = true := by
    simp only [List.all_eq_true, isDecimal, Bool.and_eq_true, decide_eq_true_eq, UInt8.le_iff_toNat_le, UInt8.lt_iff_toNat_lt,
      UInt8.reduceToNat]
    exact fun h c hc => (h c hc).2.trans_lt (by decide)
  have hdigits : text.all isDecimal = true ↔ ∀ c ∈ text, (digit 10 c).isSome := by simp only [List.all_eq_true, isDecimal_iff]
  rw [Plain, ← hdigits]
  grind

/-- A request without a transfer coding, of a plain length. -/
theorem readForwardBody_sized {headers : List Field} {text : List UInt8} (he : transferEncoding headers = [])
    (hl : (contentLength headers).length ≤ 1) (ht : (contentLength headers).headD [48] = text) : readForwardBody headers s = .ok (body, rest) ↔
      Plain 10 text ∧ text.length ≤ 4300 ∧ Numeral.read 10 text = body.length ∧ body.length ≤ maxRequest ∧ s = body ++ rest := by
  unfold readForwardBody
  rw [he]
  have hint : Plain 10 text → int 10 latinSpace text = _ := fun hp => int_of_plain hp (by decide) fun c => latinSpace_digit
  simp only [raiseIf_bind]
  simp only [ht, bind_eq_ok (x := int 10 latinSpace text)]
  simp only [raiseIf_bind]
  constructor
  · rintro ⟨-, hp, size, hsize, hm, hlen, hok⟩
    have hplain := decimal_text.mp hp
    by_cases hs : 4300 < text.length
    · rw [hint hplain, if_pos ⟨rfl, hs⟩] at hsize
      exact nomatch hsize
    · rw [hint hplain, if_neg fun h => hs h.2] at hsize
      cases hsize
      cases hok
      simp only [Int.toNat_natCast, ne_eq, not_not, Int.natCast_inj] at *
      refine ⟨hplain, not_lt.mp hs, hlen.symm, ?_, (List.take_append_drop ..).symm⟩
      rw [hlen]
      exact_mod_cast not_lt.mp hm
  · rintro ⟨hp, hs, hn, hm, rfl⟩
    refine ⟨by simp [hl], decimal_text.mpr hp, Numeral.read 10 text, ?_, ?_, ?_, ?_⟩
    · rw [hint hp, if_neg fun h => not_lt.mpr hs h.2]
    · exact_mod_cast not_lt.mpr (hn ▸ hm)
    · simp [hn]
    · simp [hn, pure, Except.pure]

theorem readForwardBody_chunked {headers : List Field} {coding : List UInt8} (he : transferEncoding headers = [coding])
    (hl : contentLength headers = []) : readForwardBody headers s = .ok (body, rest) ↔
      isChunked coding ∧ body.length ≤ maxRequest ∧ ∃ lines frame, s = frame ++ rest ∧ Chunked SizeLine lines frame body := by
  unfold readForwardBody
  rw [he, hl]
  simp only [raiseIf_bind, readChunks_iff]
  constructor
  · rintro ⟨-, hc, lines, frame, tail, hs, hf, rfl, hm⟩
    exact ⟨not_not.mp hc, hm, lines, frame, hs, hf⟩
  · rintro ⟨hc, hm, lines, frame, hs, hf⟩
    exact ⟨by simp, not_not.mpr hc, lines, frame, body, hs, hf, rfl, hm⟩

/-- The frames at the beginning of a stream are what is accepted, each with its own body and its own end. -/
theorem readForwardBody_iff {headers : List Field} : readForwardBody headers s = .ok (body, rest) ↔
    ∃ frame, s = frame ++ rest ∧ ForwardFrame headers frame body := by
  by_cases hambiguous : 1 < (contentLength headers).length ∨ 1 < (transferEncoding headers).length
      ∨ contentLength headers ≠ [] ∧ transferEncoding headers ≠ []
  · constructor
    · intro h
      unfold readForwardBody at h
      exact absurd hambiguous (raiseIf_bind.mp h).1
    · rintro ⟨frame, -, hf⟩
      cases hf <;> simp_all
  · rw [not_or, not_or, not_and, not_not] at hambiguous
    obtain ⟨hl, he, hboth⟩ := hambiguous
    cases hte : transferEncoding headers with
    | nil =>
      rw [readForwardBody_sized hte (not_lt.mp hl) rfl]
      cases hcl : contentLength headers with
      | nil =>
        constructor
        · rintro ⟨-, -, hn, -, rfl⟩
          obtain rfl := List.length_eq_zero_iff.mp hn.symm
          exact ⟨[], rfl, .empty hcl hte⟩
        · rintro ⟨frame, rfl, hf⟩
          cases hf with
          | empty => exact ⟨by decide, by decide, rfl, Nat.zero_le _, rfl⟩
          | sized hl' => exact nomatch hcl.symm.trans hl'
          | chunked _ he' => exact nomatch hte.symm.trans he'
      | cons text rest' =>
        have hone : contentLength headers = [text] := by
          rw [hcl] at hl ⊢
          simpa using hl
        constructor
        · rintro ⟨hp, hs, hn, hm, rfl⟩
          exact ⟨body, rfl, .sized hone hte hp hs hn hm⟩
        · rintro ⟨frame, rfl, hf⟩
          cases hf with
          | empty hl' => exact nomatch hone.symm.trans hl'
          | sized hl' _ hp hs hn hm =>
            cases hone.symm.trans hl'
            exact ⟨hp, hs, hn, hm, rfl⟩
          | chunked _ he' => exact nomatch hte.symm.trans he'
    | cons coding rest' =>
      have hone : transferEncoding headers = [coding] := by
        rw [hte] at he ⊢
        simpa using he
      have hcl : contentLength headers = [] := by
        by_contra hne
        exact nomatch hone.symm.trans (hboth hne)
      rw [readForwardBody_chunked hone hcl]
      constructor
      · rintro ⟨hc, hm, lines, frame, rfl, hf⟩
        exact ⟨frame, rfl, .chunked hcl hone hc hf hm⟩
      · rintro ⟨frame, rfl, hf⟩
        cases hf with
        | empty _ he' => exact nomatch hone.symm.trans he'
        | sized _ he' => exact nomatch hone.symm.trans he'
        | chunked _ he' hc hf hm =>
          cases hone.symm.trans he'
          exact ⟨hc, hm, _, frame, rfl, hf⟩

/-- A body cut into chunks, each after its size in hexadecimal digits. -/
def encode (chunks : List (List UInt8)) : List UInt8 :=
  (chunks.map fun c => hexText c.length ++ crlf ++ c ++ crlf).flatten ++ hexText 0 ++ crlf ++ crlf

theorem sizeLine_hexText (h : n ≤ maxRequest) : SizeLine (hexText n ++ crlf) n := by
  obtain ⟨hp, hn⟩ := hexText_spec n
  have hlen : (hexText n).length ≤ 6 := length_hexText (by decide) (h.trans_lt (by decide))
  have hline := SizeLine.intro hp (Or.inl rfl) List.not_mem_nil (by rw [List.append_nil, List.length_append]; exact (Nat.add_le_add_right hlen 2).trans (by decide))
  rwa [List.append_nil, hn] at hline

theorem chunked_encode {chunks : List (List UInt8)} (hne : ∀ c ∈ chunks, c ≠ []) (hm : chunks.flatten.length ≤ maxRequest) :
    ∃ lines, Chunked SizeLine lines (encode chunks) chunks.flatten := by
  induction chunks with
  | nil =>
    exact ⟨_, .last (sizeLine_hexText (Nat.zero_le _))⟩
  | cons c chunks ih =>
    rw [List.flatten_cons, List.length_append] at hm
    obtain ⟨lines, hrest⟩ := ih (fun d hd => hne d (List.mem_cons_of_mem c hd)) (by omega)
    have hchunk := Chunked.chunk (sizeLine_hexText (n := c.length) (by omega)) (hne c List.mem_cons_self) hrest
    have hencode : encode (c :: chunks) = hexText c.length ++ crlf ++ c ++ crlf ++ encode chunks := by
      simp only [encode, List.map_cons, List.flatten_cons, List.append_assoc]
    exact ⟨_, hencode ▸ hchunk⟩

/-- A body is returned exactly where a frame begins the stream, with the payload of the frame and what follows it; every other
stream raises; and every cut of a body within the limit into chunks decodes to the body. -/
theorem forward_body (headers : List Field) (s : List UInt8) :
    (∀ body rest, readForwardBody headers s = .ok (body, rest) ↔ ∃ frame, s = frame ++ rest ∧ ForwardFrame headers frame body) ∧
    ((∃ e, readForwardBody headers s = .error e) ↔ ¬ ∃ frame body rest, s = frame ++ rest ∧ ForwardFrame headers frame body) ∧
    (∀ coding, contentLength headers = [] → transferEncoding headers = [coding] → isChunked coding →
      ∀ chunks rest, (∀ c ∈ chunks, c ≠ []) → chunks.flatten.length ≤ maxRequest →
        readForwardBody headers (encode chunks ++ rest) = .ok (chunks.flatten, rest)) := by
  refine ⟨fun body rest => readForwardBody_iff, ?_, ?_⟩
  · cases h : readForwardBody headers s with
    | error e =>
      refine ⟨fun _ => ?_, fun _ => ⟨e, rfl⟩⟩
      rintro ⟨frame, body, rest, hs, hf⟩
      exact nomatch h.symm.trans (readForwardBody_iff.mpr ⟨frame, hs, hf⟩)
    | ok r =>
      obtain ⟨frame, hs, hf⟩ := readForwardBody_iff.mp h
      exact iff_of_false (fun he => nomatch he.choose_spec) (not_not.mpr ⟨frame, r.1, r.2, hs, hf⟩)
  · intro coding hl he hc chunks rest hne hm
    obtain ⟨lines, hf⟩ := chunked_encode hne hm
    exact readForwardBody_iff.mpr ⟨encode chunks, rfl, .chunked hl he hc hf hm⟩

theorem forward_body_chunked : readForwardBody [(Utf8.ascii "transfer-encoding", Utf8.ascii "Chunked")]
    (encode [Utf8.ascii "ab", Utf8.ascii "c"] ++ [7]) = .ok (Utf8.ascii "abc", [7]) :=
  (forward_body [(Utf8.ascii "transfer-encoding", Utf8.ascii "Chunked")] []).2.2 (Utf8.ascii "Chunked") (by decide +kernel) (by decide +kernel)
    (by decide +kernel) [Utf8.ascii "ab", Utf8.ascii "c"] [7] (by decide +kernel) (by decide +kernel)

theorem fields_of_length (text : List UInt8) : contentLength [(Utf8.ascii "Content-Length", text)] = [text]
    ∧ transferEncoding [(Utf8.ascii "Content-Length", text)] = [] := by
  have hname : ¬ (Utf8.ascii "Content-Length").map lowerByte = (Utf8.ascii "Transfer-Encoding").map lowerByte := by decide +kernel
  constructor
  · simp [contentLength, getAll]
  · simp [transferEncoding, getAll, hname]

theorem zeros (n : Nat) : Plain 10 (List.replicate (n + 1) 48) ∧ Numeral.read 10 (List.replicate (n + 1) 48) = 0 := by
  have hdigit : digit 10 48 = some 0 := rfl
  refine ⟨⟨by simp, ?_⟩, ?_⟩
  · intro c hc
    rw [List.eq_of_mem_replicate hc, hdigit]
    rfl
  · unfold Numeral.read value
    induction n with
    | zero => rfl
    | succ n ih =>
      rw [List.replicate_succ, List.filterMap_cons_some hdigit, List.foldl_cons]
      exact ih

/-- A length of nothing but zeros is refused when there are too many of them. -/
theorem long_length_refused : ¬ ∀ (headers : List Field) (text body rest : List UInt8), contentLength headers = [text] →
    transferEncoding headers = [] → Plain 10 text → Numeral.read 10 text = body.length → body.length ≤ maxRequest →
      readForwardBody headers (body ++ rest) = .ok (body, rest) := by
  intro h
  obtain ⟨hl, he⟩ := fields_of_length (List.replicate 4301 48)
  obtain ⟨hp, hz⟩ := zeros 4300
  have hok := h _ _ [] [] hl he hp hz (Nat.zero_le _)
  have hone : ([List.replicate 4301 (48 : UInt8)] : List (List UInt8)).length ≤ 1 := le_refl 1
  have hshort := ((readForwardBody_sized he (hl ▸ hone) (congrArg (List.headD · [48]) hl)).mp hok).2.1
  rw [List.headD_cons, List.length_replicate] at hshort
  omega

end Dashboard

end MatchTrader
