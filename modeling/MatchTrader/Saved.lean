/-! A value that a process works on and the file that it is kept in. The file is replaced by a new
one as a whole; each step of that can fail, and a failure after the replacement finds it done. -/

/-- The steps of replacing a file: a file of another name is written and takes its place. -/
inductive WriteStep where
  | mkdir
  | mkstemp
  | write
  | flush
  | fsync
  | replace
  /-- The other name is removed. -/
  | unlink
deriving DecidableEq, Repr

/-- How the values of a kind are kept: more files may be read than are ever written. -/
structure Medium (φ α ε : Type) where
  dump : α → φ
  load : φ → Except ε α
  failed : WriteStep → ε

structure Saved (φ α : Type) where
  value : α
  file : φ

namespace Saved

variable {φ α ε : Type} {m : Medium φ α ε} {s t u : Saved φ α} {v : α}

/-- What is left of a file whose replacement a step may have stopped, and whether it raised. -/
def saveFile (m : Medium φ α ε) (fault : Option WriteStep) (v : α) (file : φ) : φ × Except ε Unit :=
  match fault with
  | none => (m.dump v, .ok ())
  | some .unlink => (m.dump v, .error (m.failed .unlink))
  | some step => (file, .error (m.failed step))

/-- The value is changed, then saved. -/
def assignAndSave (m : Medium φ α ε) (fault : Option WriteStep) (v : α) (s : Saved φ α) : Saved φ α × Except ε Unit :=
  ({ value := v, file := (saveFile m fault v s.file).1 }, (saveFile m fault v s.file).2)

/-- The value is saved, then changed. -/
def saveAndAssign (m : Medium φ α ε) (fault : Option WriteStep) (v : α) (s : Saved φ α) : Saved φ α × Except ε Unit :=
  match saveFile m fault v s.file with
  | (file, .ok ()) => ({ value := v, file }, .ok ())
  | (file, .error e) => ({ s with file }, .error e)

/-- The file reads back as the value. -/
def Settled (m : Medium φ α ε) (s : Saved φ α) : Prop := m.load s.file = .ok s.value

/-- Neither the value nor what the file reads back as is another. -/
structure Kept (m : Medium φ α ε) (s t : Saved φ α) : Prop where
  value : t.value = s.value
  file : m.load t.file = m.load s.file

theorem Kept.refl (m : Medium φ α ε) (s : Saved φ α) : Kept m s s := ⟨rfl, rfl⟩

theorem Kept.settled (h : Kept m s t) (hs : Settled m s) : Settled m t := by
  unfold Settled
  rw [h.file, h.value]
  exact hs

theorem Settled.kept (hs : Settled m s) (ht : Settled m t) (h : t.value = s.value) : Kept m s t := by
  refine ⟨h, ?_⟩
  rw [hs, ht, h]

theorem saveFile_raises (m : Medium φ α ε) (step : WriteStep) (v : α) (file : φ) :
    (saveFile m (some step) v file).2 = .error (m.failed step) := by
  cases step <;> rfl

theorem saveFile_left (m : Medium φ α ε) (step : WriteStep) (v : α) (file : φ) :
    (saveFile m (some step) v file).1 = if step = .unlink then m.dump v else file := by
  cases step <;> rfl

theorem assignAndSave_returned (m : Medium φ α ε) (v : α) (s : Saved φ α) :
    assignAndSave m none v s = ({ value := v, file := m.dump v }, .ok ()) := rfl

theorem assignAndSave_raises (m : Medium φ α ε) (step : WriteStep) (v : α) (s : Saved φ α) :
    (assignAndSave m (some step) v s).2 = .error (m.failed step) := saveFile_raises m step v s.file

/-- A value that is changed first stays changed when its saving fails. -/
theorem assignAndSave_kept_iff (step : WriteStep) (hv : m.load (m.dump v) = .ok v) (hs : Settled m s) :
    Kept m s (assignAndSave m (some step) v s).1 ↔ v = s.value := by
  constructor
  · exact fun h => h.value
  · intro h
    refine ⟨h, ?_⟩
    change m.load (saveFile m (some step) v s.file).1 = m.load s.file
    rw [saveFile_left]
    by_cases hstep : step = .unlink
    · rw [if_pos hstep, hv, hs, h]
    · rw [if_neg hstep]

theorem saveAndAssign_returned (m : Medium φ α ε) (v : α) (s : Saved φ α) :
    saveAndAssign m none v s = ({ value := v, file := m.dump v }, .ok ()) := rfl

theorem saveAndAssign_raised (m : Medium φ α ε) (step : WriteStep) (v : α) (s : Saved φ α) :
    saveAndAssign m (some step) v s =
      ({ s with file := if step = .unlink then m.dump v else s.file }, .error (m.failed step)) := by
  cases step <;> rfl

/-- A value that is saved first stays as it was, and only a file that has been replaced may not. -/
theorem saveAndAssign_kept_iff (v : α) (step : WriteStep) (hs : Settled m s) :
    Kept m s (saveAndAssign m (some step) v s).1 ↔ (step = .unlink → m.load (m.dump v) = .ok s.value) := by
  rw [saveAndAssign_raised]
  constructor
  · intro h hstep
    have hfile := h.file
    rw [if_pos hstep] at hfile
    rw [hfile, hs]
  · intro h
    refine ⟨rfl, ?_⟩
    by_cases hstep : step = .unlink
    · rw [if_pos hstep, h hstep, hs]
    · rw [if_neg hstep]

end Saved
