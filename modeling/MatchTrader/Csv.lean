import Mathlib.Data.String.Basic
import MatchTrader.Lines
import MatchTrader.Rows

/-! Comma-separated values as the standard reader takes them: quotes doubled inside quotes, nothing
escaped, and nothing refused that can be read. -/

namespace Csv

inductive State where
  | startRecord
  | startField
  | inField
  | inQuotedField
  | quoteInQuotedField
  | eatCrNl
deriving DecidableEq

inductive Error where
  /-- "field larger than field limit (131072)" -/
  | fieldLimit
  /-- "new-line character seen in unquoted field" -/
  | newLine
deriving DecidableEq

structure Reader where
  state : State := .startRecord
  field : List Char := []
  fields : List String := []

namespace Reader

def addChar (r : Reader) (c : Char) (state : State) : Except Error Reader :=
  if 131072 ≤ r.field.length then .error .fieldLimit else .ok { r with field := r.field ++ [c], state }

def saveField (r : Reader) (state : State) : Reader :=
  { state, field := [], fields := r.fields ++ [String.ofList r.field] }

def startField (r : Reader) (c : Char) : Except Error Reader :=
  if c = '\n' ∨ c = '\r' then .ok (r.saveField .eatCrNl)
  else if c = '"' then .ok { r with state := .inQuotedField }
  else if c = ',' then .ok (r.saveField .startField)
  else r.addChar c .inField

def processChar (r : Reader) (c : Char) : Except Error Reader :=
  match r.state with
  | .startRecord => if c = '\n' ∨ c = '\r' then .ok { r with state := .eatCrNl } else r.startField c
  | .startField => r.startField c
  | .inField =>
    if c = '\n' ∨ c = '\r' then .ok (r.saveField .eatCrNl)
    else if c = ',' then .ok (r.saveField .startField)
    else r.addChar c .inField
  | .inQuotedField => if c = '"' then .ok { r with state := .quoteInQuotedField } else r.addChar c .inQuotedField
  | .quoteInQuotedField =>
    if c = '"' then r.addChar c .inQuotedField
    else if c = ',' then .ok (r.saveField .startField)
    else if c = '\n' ∨ c = '\r' then .ok (r.saveField .eatCrNl)
    else r.addChar c .inField
  | .eatCrNl => if c = '\n' ∨ c = '\r' then .ok r else .error .newLine

/-- What follows the last character of a line. -/
def endLine (r : Reader) : Reader :=
  match r.state with
  | .startRecord | .inQuotedField => r
  | .startField | .inField | .quoteInQuotedField => r.saveField .startRecord
  | .eatCrNl => { r with state := .startRecord }

end Reader

/-- The only row of a text of one line. A quote left open ends with the text. -/
def row (text : List Char) : Except Error (List String) := do
  let r ← text.foldlM Reader.processChar {}
  let r := r.endLine
  return (if r.state = .inQuotedField then r.saveField .startRecord else r).fields

/-- A row as `DictReader` returns it: nothing under the names that it is too short for, and apart from them what it has over. -/
def record (fieldnames row : List String) : List (String × Option String) × List String :=
  let named := (fieldnames.zip row).foldl (fun d i => Rows.setItem (i.1, some i.2) d) []
  ((fieldnames.drop row.length).foldl (fun d name => Rows.setItem (name, none) d) named, row.drop fieldnames.length)

/-- Text that neither quotes nor breaks. -/
def Plain (text : List Char) : Prop := ∀ c ∈ text, c ≠ '"' ∧ c ≠ '\n' ∧ c ≠ '\r'

variable {text : List Char} {fields : List String}

/-- Inside a field that no quote began, what does not end it is taken as it is. -/
theorem foldlM_inField (field : List Char) (fields : List String) (h : Plain text) (hc : ',' ∉ text)
    (hlen : field.length + text.length ≤ 131072) (rest : List Char) :
    (text ++ rest).foldlM Reader.processChar ⟨.inField, field, fields⟩
      = rest.foldlM Reader.processChar ⟨.inField, field ++ text, fields⟩ := by
  induction text generalizing field with
  | nil => simp
  | cons c text ih =>
    have hplain := h c List.mem_cons_self
    have hcomma : c ≠ ',' := fun he => hc (he ▸ List.mem_cons_self)
    simp only [List.length_cons] at hlen
    have hstep : Reader.processChar ⟨.inField, field, fields⟩ c = .ok ⟨.inField, field ++ [c], fields⟩ := by
      simp [Reader.processChar, Reader.addChar, hplain.2.1, hplain.2.2, hcomma]
      omega
    rw [List.cons_append, List.foldlM_cons, hstep]
    have hrest := ih (field ++ [c]) (fun d hd => h d (List.mem_cons_of_mem c hd))
      (fun hm => hc (List.mem_cons_of_mem c hm)) (by simp only [List.length_append, List.length_singleton]; omega)
    rw [List.append_assoc] at hrest
    exact hrest

theorem foldlM_field (state : State) (h : Plain text) (hc : ',' ∉ text) (hlen : text.length ≤ 131072) {e : Char}
    (he : ∀ r : Reader, r.state = .startField ∨ r.state = .inField → r.processChar e = .ok (r.saveField state)) (rest : List Char) :
    (text ++ e :: rest).foldlM Reader.processChar ⟨.startField, [], fields⟩
      = rest.foldlM Reader.processChar ⟨state, [], fields ++ [String.ofList text]⟩ := by
  cases text with
  | nil =>
    rw [List.nil_append, List.foldlM_cons, he _ (Or.inl rfl)]
    rfl
  | cons c text =>
    have hplain := h c List.mem_cons_self
    have hcomma : c ≠ ',' := fun he => hc (he ▸ List.mem_cons_self)
    have hstep : Reader.processChar ⟨.startField, [], fields⟩ c = .ok ⟨.inField, [c], fields⟩ := by
      simp [Reader.processChar, Reader.startField, Reader.addChar, hplain.1, hplain.2.1, hplain.2.2, hcomma]
    simp only [List.length_cons] at hlen
    have hrest := foldlM_inField [c] fields (fun d hd => h d (List.mem_cons_of_mem c hd))
      (fun hm => hc (List.mem_cons_of_mem c hm)) (by simp only [List.length_singleton]; omega) (e :: rest)
    rw [List.cons_append, List.foldlM_cons, hstep]
    refine hrest.trans ?_
    rw [List.foldlM_cons, he _ (Or.inr rfl)]
    rfl

/-- Text that neither quotes nor breaks is read as what its commas separate. -/
theorem foldlM_plain (h : Plain text) (hlen : ∀ f ∈ text.splitOn ',', f.length ≤ 131072) :
    (text ++ ['\n']).foldlM Reader.processChar ⟨.startField, [], fields⟩
      = .ok ⟨.eatCrNl, [], fields ++ (text.splitOn ',').map String.ofList⟩ := by
  induction text using Lines.induction (s := ',') generalizing fields with
  | last text hc =>
    have hsplit := List.splitOn_eq_singleton hc
    rw [hsplit, foldlM_field .eatCrNl h hc (hlen text (by rw [hsplit]; exact List.mem_singleton_self text)) ?_ []]
    · rfl
    · rintro r (hs | hs) <;> simp [Reader.processChar, Reader.startField, hs]
  | step field text hc ih =>
    have hsplit := List.splitOn_append_cons_self_of_not_mem hc text
    have hfield : Plain field := fun d hd => h d (List.mem_append_left _ hd)
    have htext : Plain text := fun d hd => h d (List.mem_append_right _ (List.mem_cons_of_mem _ hd))
    rw [hsplit] at hlen ⊢
    rw [List.append_assoc, List.cons_append, foldlM_field .startField hfield hc (hlen field List.mem_cons_self) ?_,
      ih htext fun f hf => hlen f (List.mem_cons_of_mem _ hf), List.map_cons, List.append_assoc, List.singleton_append]
    rintro r (hs | hs) <;> simp [Reader.processChar, Reader.startField, hs]

theorem row_plain (h : Plain text) (hne : text ≠ []) (hlen : ∀ f ∈ text.splitOn ',', f.length ≤ 131072) :
    row (text ++ ['\n']) = .ok ((text.splitOn ',').map String.ofList) := by
  have hstart : (text ++ ['\n']).foldlM Reader.processChar {}
      = (text ++ ['\n']).foldlM Reader.processChar ⟨.startField, [], []⟩ := by
    obtain ⟨c, text, rfl⟩ := List.exists_cons_of_ne_nil hne
    have hplain := h c List.mem_cons_self
    simp only [List.cons_append, List.foldlM_cons]
    simp [Reader.processChar, hplain.2.1, hplain.2.2]
    rfl
  unfold row
  rw [hstart, foldlM_plain h hlen]
  rfl

end Csv
