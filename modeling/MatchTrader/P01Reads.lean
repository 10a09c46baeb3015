import MatchTrader.P01Log

/-! Reading the P01 log gives the same lines wherever the appends and the polls cut it: a line that
has not ended is kept by its last bytes only, and these are all that is recorded of it. -/

namespace MatchTrader

variable [LogHost]

namespace P01Log

/-- A log is appended to, polled, or polled while it cannot be read. -/
inductive Turn where
  | append (added : List UInt8)
  | poll
  | miss

def Turn.added : Turn → List UInt8
  | .append added => added
  | .poll | .miss => []

def appended (turns : List Turn) : List UInt8 := turns.flatMap Turn.added

/-- The lines that the polls of a run record, and the log after it. -/
def follow (s : P01Log) (f : TailedFile) : List Turn → List (List Char) × P01Log
  | [] => ([], s)
  | .append added :: turns => follow s { f with content := f.content ++ added } turns
  | .poll :: turns =>
    let next := follow (s.poll (some f)).1 f turns
    ((s.readOn f).2 ++ next.1, next.2)
  | .miss :: turns => follow (s.poll none).1 f turns

/-- The lines of a text that was read in one piece. -/
def wholeLines (bytes : List UInt8) : List (List Char) := (Lines.complete newline bytes).map lineText

structure Agrees (s t : P01Log) : Prop where
  events : s.events = t.events
  labels : s.labels = t.labels
  intents : s.intents = t.intents
  releases : s.releases = t.releases

/-- The log is read up to some place of its file, behind which a line has begun. -/
structure Follows (s : P01Log) (f : TailedFile) (begun : List UInt8) : Prop where
  identity : s.identity = some f.identity
  inside : s.offset ≤ f.content.length
  waiting : newline ∉ begun
  pending : s.pending = begun.rtake lineLimit

variable {s t u : P01Log} {f : TailedFile} {begun z : List UInt8} {turns : List Turn} {texts more : List (List Char)}

omit [LogHost] in
theorem wholeLines_append (x y : List UInt8) :
    wholeLines (x ++ y) = wholeLines x ++ wholeLines (Lines.rest newline x ++ y) := by
  unfold wholeLines
  rw [Lines.complete_append, List.map_append]

omit [LogHost] in
/-- Of what a line began with, its last bytes are enough. -/
theorem wholeLines_rtake (h : newline ∉ begun) (y : List UInt8) :
    wholeLines (begun.rtake lineLimit ++ y) = wholeLines (begun ++ y) := by
  have hcut (ls : List (List UInt8)) : ls.map lineText = (ls.map (List.rtake · lineLimit)).map fun l => strip (Utf8.decodeReplace l) := by
    simp only [List.map_map, Function.comp_def]
    exact List.map_congr_left fun l _ => by rw [lineText]
  rw [wholeLines, wholeLines, hcut, hcut, Lines.complete_rtake h]

theorem record_kept (s : P01Log) (raw : List Char) :
    (s.record raw).identity = s.identity ∧ (s.record raw).offset = s.offset ∧ (s.record raw).pending = s.pending := by
  unfold record
  split
  · exact ⟨rfl, rfl, rfl⟩
  · exact ⟨rfl, rfl, rfl⟩

theorem foldl_record_kept (texts : List (List Char)) (s : P01Log) : (texts.foldl record s).identity = s.identity
    ∧ (texts.foldl record s).offset = s.offset ∧ (texts.foldl record s).pending = s.pending := by
  induction texts generalizing s with
  | nil => exact ⟨rfl, rfl, rfl⟩
  | cons raw texts ih =>
    obtain ⟨hi, ho, hp⟩ := ih (s.record raw)
    obtain ⟨hi', ho', hp'⟩ := s.record_kept raw
    exact ⟨hi.trans hi', ho.trans ho', hp.trans hp'⟩

omit [LogHost] in
theorem Agrees.trans (h : s.Agrees t) (hh : t.Agrees u) : s.Agrees u :=
  ⟨h.events.trans hh.events, h.labels.trans hh.labels, h.intents.trans hh.intents, h.releases.trans hh.releases⟩

theorem Agrees.record (h : s.Agrees t) (raw : List Char) : (s.record raw).Agrees (t.record raw) := by
  have hevent : s.event raw = t.event raw := by
    unfold event
    rw [h.labels]
  unfold P01Log.record
  rw [hevent]
  split
  · exact h
  · next _ row labels _ =>
    exact ⟨by simp only [h.events], rfl, by simp only [h.intents], by simp only [h.releases]⟩

theorem Agrees.foldl (h : s.Agrees t) (texts : List (List Char)) : (texts.foldl P01Log.record s).Agrees (texts.foldl P01Log.record t) := by
  induction texts generalizing s t with
  | nil => exact h
  | cons raw texts ih => exact ih (h.record raw)

theorem Follows.miss (h : s.Follows f begun) : (s.poll none).1.Follows f begun :=
  ⟨h.identity, h.inside, h.waiting, h.pending⟩

omit [LogHost] in
theorem Follows.drop_append (h : s.Follows f begun) (added : List UInt8) :
    (f.content ++ added).drop s.offset = f.content.drop s.offset ++ added := List.drop_append_of_le_length h.inside

omit [LogHost] in
theorem Follows.append (h : s.Follows f begun) (added : List UInt8) :
    s.Follows { f with content := f.content ++ added } begun where
  identity := h.identity
  inside := h.inside.trans (by simp)
  waiting := h.waiting
  pending := h.pending

def block (s : P01Log) (f : TailedFile) : List UInt8 := (f.content.drop s.offset).take blockLimit

omit [LogHost] in
theorem Follows.readOn (h : s.Follows f begun) : (s.readOn f).2 = wholeLines (begun ++ s.block f)
    ∧ (s.readOn f).1 = { s with offset := s.offset + (s.block f).length, error := ""
                                pending := (Lines.rest newline (begun ++ s.block f)).rtake lineLimit } := by
  have hsame : ¬ (some f.identity ≠ s.identity ∨ f.content.length < s.offset) := by
    rw [not_or, not_lt, not_not]
    exact ⟨h.identity.symm, h.inside⟩
  have hlines := wholeLines_rtake h.waiting (s.block f)
  have hrest : (Lines.rest newline (begun.rtake lineLimit ++ s.block f)).rtake lineLimit
      = (Lines.rest newline (begun ++ s.block f)).rtake lineLimit := Lines.rest_rtake h.waiting
  rw [← h.pending] at hlines hrest
  have hread : s.readOn f = ({ s with
      identity := some f.identity, offset := s.offset + (s.block f).length, error := ""
      pending := (Lines.rest newline (s.pending ++ s.block f)).rtake lineLimit }, wholeLines (s.pending ++ s.block f)) := by
    unfold P01Log.readOn
    rw [if_neg hsame]
    rfl
  rw [hread, hrest, hlines, h.identity]
  exact ⟨rfl, rfl⟩

/-- A poll records the lines that have ended, and what has not ended is still to come. -/
theorem Follows.poll (h : s.Follows f begun) :
    (s.poll (some f)).1.Follows f (Lines.rest newline (begun ++ s.block f))
      ∧ f.content.drop s.offset = s.block f ++ f.content.drop (s.poll (some f)).1.offset
      ∧ (s.poll (some f)).1.offset = s.offset + (s.block f).length := by
  obtain ⟨hi, ho, hp⟩ := foldl_record_kept (s.readOn f).2 (s.readOn f).1
  have hread := h.readOn.2
  have hoffset : (s.poll (some f)).1.offset = s.offset + (s.block f).length := ho.trans (by rw [hread])
  have hlen : (s.block f).length ≤ f.content.length - s.offset := by
    simp only [block, List.length_take, List.length_drop]
    omega
  have hinside := h.inside
  refine ⟨⟨hi.trans (by rw [hread, h.identity]), by omega, Lines.not_mem_rest, hp.trans (by rw [hread])⟩, ?_, hoffset⟩
  rw [hoffset, ← List.drop_drop]
  by_cases hfull : blockLimit ≤ (f.content.drop s.offset).length
  · have hblock : (s.block f).length = blockLimit := by
      rw [block, List.length_take]
      exact Nat.min_eq_left hfull
    rw [hblock]
    exact (List.take_append_drop blockLimit _).symm
  · have hall : s.block f = f.content.drop s.offset := List.take_of_length_le (by omega)
    rw [hall, List.drop_length, List.append_nil]

theorem Follows.agrees (h : s.Follows f begun) :
    (s.poll (some f)).1.Agrees ((wholeLines (begun ++ s.block f)).foldl record s) := by
  have hagrees : (s.readOn f).1.Agrees s := by
    rw [h.readOn.2]
    exact ⟨rfl, rfl, rfl, rfl⟩
  rw [← h.readOn.1]
  exact hagrees.foldl _

/-- What a run records comes first in the text that it reads. -/
theorem Follows.recorded (h : s.Follows f begun) (turns : List Turn) :
    (s.follow f turns).1 <+: wholeLines (begun ++ (f.content.drop s.offset ++ appended turns))
      ∧ (s.follow f turns).2.Agrees ((s.follow f turns).1.foldl record s) := by
  induction turns generalizing s f begun with
  | nil => exact ⟨List.nil_prefix, rfl, rfl, rfl, rfl⟩
  | cons turn turns ih =>
    cases turn with
    | append added =>
      have hdrop := h.drop_append added
      have hnext := ih (h.append added)
      rw [show ({ f with content := f.content ++ added } : TailedFile).content = f.content ++ added from rfl, hdrop,
        List.append_assoc] at hnext
      exact hnext
    | poll =>
      obtain ⟨hf, hdrop, -⟩ := h.poll
      obtain ⟨hpre, hagrees⟩ := ih hf
      have hlines : wholeLines (begun ++ (f.content.drop s.offset ++ appended (.poll :: turns)))
          = wholeLines (begun ++ s.block f) ++ wholeLines (Lines.rest newline (begun ++ s.block f)
            ++ (f.content.drop (s.poll (some f)).1.offset ++ appended turns)) := by
        rw [hdrop, List.append_assoc, ← List.append_assoc begun, wholeLines_append]
        rfl
      rw [follow, h.readOn.1, hlines]
      refine ⟨(List.prefix_append_right_inj _).mpr hpre, ?_⟩
      rw [List.foldl_append]
      exact hagrees.trans (h.agrees.foldl _)
    | miss =>
      obtain ⟨hpre, hagrees⟩ := ih h.miss
      have hsame : (s.poll none).1.Agrees s := ⟨rfl, rfl, rfl, rfl⟩
      exact ⟨hpre, hagrees.trans (hsame.foldl _)⟩

/-- Polls enough at the end of a run have read all of it. -/
theorem Follows.complete {n : Nat} (h : s.Follows f begun) (turns : List Turn)
    (hn : (f.content.drop s.offset ++ appended turns).length ≤ blockLimit * n) :
    (s.follow f (turns ++ List.replicate n .poll)).1 = wholeLines (begun ++ (f.content.drop s.offset ++ appended turns)) := by
  induction turns generalizing s f begun with
  | nil =>
    rw [show appended [] = [] from rfl, List.append_nil] at hn ⊢
    rw [List.nil_append]
    induction n generalizing s begun with
    | zero =>
      have hend : f.content.drop s.offset = [] := List.eq_nil_of_length_eq_zero (Nat.le_zero.mp hn)
      rw [hend, List.append_nil, wholeLines, Lines.complete_of_not_mem h.waiting]
      rfl
    | succ n ih =>
      obtain ⟨hf, hdrop, hoffset⟩ := h.poll
      have hfew : (f.content.drop (s.poll (some f)).1.offset).length ≤ blockLimit * n := by
        have hblock : (s.block f).length = min blockLimit (f.content.drop s.offset).length := List.length_take
        have hlen := congrArg List.length hdrop
        rw [List.length_append, hblock] at hlen
        rw [Nat.mul_succ] at hn
        omega
      rw [List.replicate_succ, follow, h.readOn.1, ih hf hfew, ← wholeLines_append, List.append_assoc, ← hdrop]
  | cons turn turns ih =>
    cases turn with
    | append added =>
      have hdrop := h.drop_append added
      have hcontent : f.content.drop s.offset ++ appended (.append added :: turns)
          = (f.content ++ added).drop s.offset ++ appended turns := by
        rw [hdrop, List.append_assoc]
        rfl
      rw [hcontent] at hn ⊢
      exact ih (h.append added) hn
    | poll =>
      obtain ⟨hf, hdrop, -⟩ := h.poll
      rw [show appended (.poll :: turns) = appended turns from rfl] at hn ⊢
      have hfew : (f.content.drop (s.poll (some f)).1.offset ++ appended turns).length ≤ blockLimit * n := by
        rw [hdrop] at hn
        simp only [List.length_append] at hn ⊢
        omega
      rw [List.cons_append, follow, h.readOn.1, ih hf hfew, ← wholeLines_append, hdrop]
      simp only [List.append_assoc]
    | miss =>
      exact ih h.miss hn

/-- **Reading the P01 log does not depend on how the appends and the polls split it.** From its start a run records
lines of the text that was appended, as that text has them in one piece, and all of them once polls enough were made. -/
theorem p01_reading_chunk_invariant (s : P01Log) (f : TailedFile) (turns : List Turn) :
    ((s.start (some f)).follow f turns).1 <+: wholeLines (appended turns)
      ∧ ((s.start (some f)).follow f turns).2.Agrees (((s.start (some f)).follow f turns).1.foldl record (s.start (some f)))
      ∧ ∀ n, (appended turns).length ≤ 65536 * n →
        ((s.start (some f)).follow f (turns ++ List.replicate n .poll)).1 = wholeLines (appended turns) := by
  have hstart : (s.start (some f)).Follows f [] := ⟨rfl, Nat.le_refl _, List.not_mem_nil, rfl⟩
  have hend : f.content.drop (s.start (some f)).offset = [] := List.drop_length
  have hrecorded := hstart.recorded turns
  rw [hend, List.nil_append, List.nil_append] at hrecorded
  refine ⟨hrecorded.1, hrecorded.2, fun n hn => ?_⟩
  have hcomplete := hstart.complete turns (n := n) (by rw [hend, List.nil_append]; exact hn)
  rw [hend, List.nil_append, List.nil_append] at hcomplete
  exact hcomplete

end P01Log

end MatchTrader
