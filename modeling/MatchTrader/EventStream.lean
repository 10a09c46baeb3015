import MatchTrader.JsonText
import MatchTrader.Utf8

/-! A stream of events as the browser follows it: bytes that come in pieces are decoded, cut into packets at the empty lines, and
the values of the packets are merged into one snapshot that outlives the connection. -/

namespace MatchTrader

/-- A decoder that goes on where the last piece ended. -/
structure TextDecoder where
  due : Option Utf8.Due := none
  begun : Bool := false

namespace TextDecoder

/-- `decode` with `stream: true`. A byte order mark is left out where the text begins. -/
def decode (d : TextDecoder) : List UInt8 → List Char × TextDecoder
  | [] => ([], d)
  | b :: bytes =>
    let s := Utf8.step d.due b
    let chars := s.1.map fun c => c.getD (Char.ofNat 0xfffd)
    let kept := if d.begun = false ∧ chars.head? = some (Char.ofNat 0xfeff) then chars.tail else chars
    let r := decode ⟨s.2, d.begun || chars ≠ []⟩ bytes
    (kept ++ r.1, r.2)

theorem decode_append (d : TextDecoder) (x y : List UInt8) :
    d.decode (x ++ y) = ((d.decode x).1 ++ ((d.decode x).2.decode y).1, ((d.decode x).2.decode y).2) := by
  induction x generalizing d with
  | nil => rfl
  | cons b x ih => simp only [List.cons_append, decode, ih, List.append_assoc]

end TextDecoder

/-- What stands before the first empty line, and what after it. -/
def boundary : List Char → Option (List Char × List Char)
  | '\n' :: '\n' :: rest => some ([], rest)
  | c :: rest => (boundary rest).map fun p => (c :: p.1, p.2)
  | [] => none

theorem boundary_eq {buffer packet rest : List Char} (h : boundary buffer = some (packet, rest)) :
    buffer = packet ++ '\n' :: '\n' :: rest := by
  fun_induction boundary buffer generalizing packet rest with
  | case1 rest' =>
    cases h
    rfl
  | case2 c buffer _ ih =>
    obtain ⟨p, hp, he⟩ := Option.map_eq_some_iff.mp h
    cases he
    rw [List.cons_append, ← ih hp]
  | case3 => exact nomatch h

/-- The packets of a buffer, and what is left of it. -/
def drain (buffer : List Char) : List (List Char) × List Char :=
  match h : boundary buffer with
  | none => ([], buffer)
  | some (packet, rest) =>
    have hlength : rest.length < buffer.length := by
      have heq := congrArg List.length (boundary_eq h)
      simp only [List.length_append, List.length_cons] at heq
      omega
    (packet :: (drain rest).1, (drain rest).2)
termination_by buffer.length

section Draining

variable {buffer packet rest more : List Char}

theorem drain_none (h : boundary buffer = none) : drain buffer = ([], buffer) := by
  rw [drain]
  split
  · rfl
  · next h' => exact nomatch h.symm.trans h'

theorem drain_some (h : boundary buffer = some (packet, rest)) : drain buffer = (packet :: (drain rest).1, (drain rest).2) := by
  rw [drain]
  split
  · next h' => exact nomatch h.symm.trans h'
  · next h' =>
    cases h.symm.trans h'
    rfl

theorem boundary_append (h : boundary buffer = some (packet, rest)) : boundary (buffer ++ more) = some (packet, rest ++ more) := by
  fun_induction boundary buffer generalizing packet rest with
  | case1 rest' =>
    cases h
    rfl
  | case2 c buffer hne ih =>
    obtain ⟨p, hp, he⟩ := Option.map_eq_some_iff.mp h
    cases he
    have hfirst : ∀ t, c = '\n' → buffer ++ more = '\n' :: t → False := by
      intro t hc ht
      cases buffer with
      | nil => exact nomatch hp
      | cons d buffer => exact hne buffer hc (congrArg (· :: buffer) (List.cons.inj ht).1)
    rw [List.cons_append, boundary.eq_2 c _ hfirst, ih hp]
    rfl
  | case3 => exact nomatch h

theorem drain_append (buffer more : List Char) :
    drain (buffer ++ more) = ((drain buffer).1 ++ (drain ((drain buffer).2 ++ more)).1, (drain ((drain buffer).2 ++ more)).2) := by
  fun_induction drain buffer with
  | case1 buffer h => simp
  | case2 buffer packet rest h _ ih =>
    rw [drain_some (boundary_append h), ih]
    simp

theorem boundary_drain (buffer : List Char) : boundary (drain buffer).2 = none := by
  fun_induction drain buffer with
  | case1 buffer h => exact h
  | case2 buffer packet rest h _ ih => exact ih

theorem boundary_packet (h : '\n' ∉ packet) : boundary (packet ++ '\n' :: '\n' :: rest) = some (packet, rest) := by
  induction packet with
  | nil => rfl
  | cons c packet ih =>
    obtain ⟨hc, hp⟩ := not_or.mp (mt List.mem_cons.mpr h)
    rw [List.cons_append, boundary.eq_2 c _ fun t he _ => hc he.symm, ih hp]
    rfl

/-- Packets without line feeds come out as they were put in. -/
theorem drain_packets {packets : List (List Char)} (h : ∀ p ∈ packets, '\n' ∉ p) :
    drain (packets.flatMap fun p => p ++ ['\n', '\n']) = (packets, []) := by
  induction packets with
  | nil => exact drain_none rfl
  | cons p packets ih =>
    have hfirst := @boundary_packet p (packets.flatMap fun p => p ++ ['\n', '\n']) (h p List.mem_cons_self)
    rw [List.flatMap_cons, List.append_assoc, List.cons_append, List.cons_append, List.nil_append, drain_some hfirst,
      ih fun q hq => h q (List.mem_cons_of_mem p hq)]

end Draining

/-- What `trimStart` trims. -/
def isJsSpace (c : Char) : Bool :=
  let n := c.toNat
  (9 ≤ n && n ≤ 13) || n = 32 || n = 0xa0 || n = 0x1680 || (0x2000 ≤ n && n ≤ 0x200a) || n = 0x2028 || n = 0x2029 || n = 0x202f
    || n = 0x205f || n = 0x3000 || n = 0xfeff

/-- The lines of data in a packet, without their field names. A comment has none. -/
def packetData (packet : List Char) : List Char :=
  ['\n'].intercalate (((packet.splitOn '\n').filter fun line => "data:".toList <+: line).map fun line => (line.drop 5).dropWhile isJsSpace)

/-- An object in the browser. -/
abbrev StreamSnapshot := List (String × Json)

/-- `{ ...merged, ...sections }`. -/
def spread (merged sections : StreamSnapshot) : StreamSnapshot := sections.foldl (fun m f => Rows.setItem f m) merged

/-- The sections of a packet over those merged so far. A packet without a revision is malformed. -/
def Follower.validate (merged : StreamSnapshot) : Json → Option StreamSnapshot
  | .obj packet =>
    if packet.any fun f => f.1 = "revision" then some (spread merged (packet.filter fun f => f.1 ≠ "revision")) else none
  | _ => none

/-- The snapshot, what has been delivered of it, and whether the connection has failed. -/
structure Follower where
  merged : StreamSnapshot
  delivered : List StreamSnapshot := []
  failed : Bool := false

/-- One packet. A connection that has failed takes no more. -/
def Follower.packet (f : Follower) (packet : List Char) : Follower :=
  if f.failed then f
  else if packetData packet = [] then f
  else
    match (Json.parse (packetData packet)).bind (validate f.merged) with
    | none => { f with failed := true }
    | some merged => { f with merged, delivered := f.delivered ++ [merged] }

/-- A connection: the decoder, what has come since the last empty line, and the follower. -/
structure StreamReader where
  decoder : TextDecoder := {}
  buffer : List Char := []
  follower : Follower

/-- One piece of the stream. -/
def StreamReader.receive (r : StreamReader) (bytes : List UInt8) : StreamReader :=
  let d := r.decoder.decode bytes
  let p := drain (r.buffer ++ d.1)
  ⟨d.2, p.2, p.1.foldl Follower.packet r.follower⟩

theorem receive_append (r : StreamReader) (x y : List UInt8) : (r.receive x).receive y = r.receive (x ++ y) := by
  unfold StreamReader.receive
  simp only [TextDecoder.decode_append, ← List.append_assoc, drain_append (r.buffer ++ (r.decoder.decode x).1), List.foldl_append]

/-- It does not matter where a stream is cut. -/
theorem foldl_receive {r : StreamReader} (h : boundary r.buffer = none) (pieces : List (List UInt8)) :
    pieces.foldl StreamReader.receive r = r.receive pieces.flatten := by
  induction pieces generalizing r with
  | nil =>
    have hdrain := drain_none h
    simp [StreamReader.receive, TextDecoder.decode, hdrain]
  | cons x pieces ih => rw [List.foldl_cons, ih (boundary_drain _), receive_append, List.flatten_cons]

/-- `encode`, of a text in ASCII. -/
def encode (text : List Char) : List UInt8 := text.map fun c => c.toNat.toUInt8

theorem decode_encode {d : TextDecoder} (hd : d.due = none) {text : List Char} (h : ∀ c ∈ text, c.toNat < 128) :
    (d.decode (encode text)).1 = text := by
  induction text generalizing d with
  | nil => rfl
  | cons c text ih =>
    have hc := h c List.mem_cons_self
    have hbyte : c.toNat.toUInt8.toNat = c.toNat := by
      rw [Nat.toUInt8_eq, UInt8.toNat_ofNat', Nat.mod_eq_of_lt (by omega)]
    have hstep : Utf8.step none c.toNat.toUInt8 = ([some c], none) := by
      unfold Utf8.step Utf8.lead
      simp only [hbyte, if_pos hc, Char.ofNat_toNat]
    have hmark : ¬ some c = some (Char.ofNat 0xfeff) := by
      intro he
      rw [Option.some.inj he] at hc
      revert hc
      decide
    have hrest := ih (d := ⟨none, true⟩) rfl fun x hx => h x (List.mem_cons_of_mem c hx)
    unfold encode at hrest ⊢
    simp only [List.map_cons, TextDecoder.decode, hd, hstep, List.map_nil, Option.getD_some, List.head?_cons, hmark, and_false, if_false,
      ne_eq, reduceCtorEq, not_false_eq_true, decide_true, Bool.or_true, hrest, List.singleton_append]

/-- The members that a spread leaves: those of the sections, and of the rest of what was there. -/
theorem lookup_spread {merged sections : StreamSnapshot} (hn : (sections.map Prod.fst).Nodup) (name : String) :
    Rows.lookup Prod.fst name (spread merged sections) = (Rows.lookup Prod.fst name sections).or (Rows.lookup Prod.fst name merged) := by
  induction sections generalizing merged with
  | nil => rfl
  | cons f sections ih =>
    obtain ⟨hnew, hrest⟩ := List.nodup_cons.mp hn
    have hput : Rows.lookup Prod.fst name (Rows.setItem f merged) = if name = f.1 then some f else Rows.lookup Prod.fst name merged :=
      Rows.lookup_put
    have hspread : spread merged (f :: sections) = spread (Rows.setItem f merged) sections := rfl
    rw [hspread, ih hrest, hput]
    by_cases hname : name = f.1
    · have hnone : Rows.lookup Prod.fst name sections = none :=
        Rows.lookup_eq_none_iff.mpr fun g hg he => hnew (hname ▸ he ▸ List.mem_map_of_mem hg)
      rw [hnone, if_pos hname]
      simp [Rows.lookup, hname]
    · rw [if_neg hname]
      simp [Rows.lookup, Ne.symm hname]

/-- The data of a packet of one line. -/
theorem packetData_line {c : Char} {text : List Char} (hc : isJsSpace c = false) (h : '\n' ∉ c :: text) :
    packetData ("data: ".toList ++ c :: text) = c :: text := by
  have hline : '\n' ∉ "data: ".toList ++ c :: text := by
    rw [List.mem_append, not_or]
    exact ⟨by decide +kernel, h⟩
  have htrim : (("data: ".toList ++ c :: text).drop 5).dropWhile isJsSpace = c :: text := by
    change (' ' :: c :: text).dropWhile isJsSpace = c :: text
    rw [List.dropWhile_cons_of_pos (by decide), List.dropWhile_cons_of_neg (by rw [hc]; decide)]
  unfold packetData
  rw [List.splitOn_eq_singleton hline, List.filter_cons_of_pos (by simp), List.filter_nil, List.map_cons, List.map_nil, htrim,
    List.intercalate_singleton]

theorem packetData_comment {text : List Char} (h : '\n' ∉ text) : packetData (':' :: text) = [] := by
  have hline : '\n' ∉ ':' :: text := fun hm => (List.mem_cons.mp hm).elim (by decide) h
  unfold packetData
  rw [List.splitOn_eq_singleton hline, List.filter_cons_of_neg (by simp)]
  rfl

end MatchTrader
