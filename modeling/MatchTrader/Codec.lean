import MatchTrader.Host
import MatchTrader.Rows

/-! Values kept as JSON: each is written as one and read back from it, with the checks that the
validation library makes when it reads. -/

namespace MatchTrader

/-- What is written reads back as it was; more may be read than is ever written. -/
structure Codec (α : Type) where
  dump : α → Json
  read : Json → Option α
  read_dump : ∀ a, read (dump a) = some a

/-- A text without whitespace at its ends, within its length bounds. -/
@[ext] structure Text (lo hi : Nat) where
  text : String
  stripped : trim text = text
  bounds : lo ≤ text.length ∧ text.length ≤ hi
deriving DecidableEq

/-- The text is stripped before its length is checked. -/
def Text.read (lo hi : Nat) (s : String) : Option (Text lo hi) :=
  if h : lo ≤ (trim s).length ∧ (trim s).length ≤ hi then some ⟨trim s, trim_trim s, h⟩ else none

theorem Text.read_text {lo hi : Nat} (t : Text lo hi) : Text.read lo hi t.text = some t := by
  have hbounds : lo ≤ (trim t.text).length ∧ (trim t.text).length ≤ hi := by
    rw [t.stripped]
    exact t.bounds
  rw [Text.read, dif_pos hbounds]
  exact congrArg some (Text.ext t.stripped)

/-- Rows of different keys, each where its key first came. -/
@[ext] structure Keyed {α κ : Type} (key : α → κ) where
  rows : List α
  nodup : (rows.map key).Nodup

namespace Keyed

variable {α κ : Type} [DecidableEq κ] {key : α → κ}

def empty : Keyed key := ⟨[], List.nodup_nil⟩

def put (r : α) (d : Keyed key) : Keyed key := ⟨Rows.put key r d.rows, Rows.nodup_put d.nodup⟩

def erase (k : κ) (d : Keyed key) : Keyed key :=
  ⟨d.rows.filter fun r => key r ≠ k, d.nodup.sublist (List.filter_sublist.map key)⟩

def get? (k : κ) (d : Keyed key) : Option α := Rows.lookup key k d.rows

def ofRows (rows : List α) : Keyed key :=
  ⟨rows.foldl (fun d r => Rows.put key r d) [], Rows.nodup_foldl_put List.nodup_nil⟩

theorem put_eq_self_iff {r : α} {d : Keyed key} : d.put r = d ↔ d.get? (key r) = some r :=
  Keyed.ext_iff.trans (Rows.put_eq_self_iff d.nodup)

theorem erase_ne {k : κ} {r : α} {d : Keyed key} (h : d.get? k = some r) : d.erase k ≠ d := by
  intro he
  obtain ⟨hr, hk⟩ := Rows.lookup_mem h
  have hleft : r ∈ (d.erase k).rows := by
    rw [he]
    exact hr
  exact of_decide_eq_true (List.mem_filter.mp hleft).2 hk

theorem ofRows_rows (d : Keyed key) : ofRows d.rows = d := Keyed.ext (Rows.foldl_put d.nodup)

end Keyed

namespace Codec

variable {α β κ τ : Type}

def map (c : Codec α) (f : α → β) (g : β → α) (h : ∀ b, f (g b) = b) : Codec β where
  dump b := c.dump (g b)
  read v := (c.read v).map f
  read_dump b := by rw [c.read_dump, Option.map_some, h]

def text (lo hi : Nat) : Codec (Text lo hi) where
  dump t := .str t.text
  read
    | .str s => Text.read lo hi s
    | _ => none
  read_dump := Text.read_text

/-- One of the texts that stand for the values of an enumeration. -/
def literal (name : α → String) (all : List α) (h : ∀ a, all.find? (fun b => name b = name a) = some a) : Codec α where
  dump a := .str (name a)
  read
    | .str s => all.find? fun b => name b = s
    | _ => none
  read_dump := h

def yes : Codec Unit where
  dump _ := .bool true
  read
    | .bool true => some ()
    | _ => none
  read_dump _ := rfl

def optional (c : Codec α) (h : ∀ a, c.dump a ≠ .null) : Codec (Option α) where
  dump a := a.elim .null c.dump
  read
    | .null => some none
    | v => (c.read v).map some
  read_dump a := by
    cases a with
    | none => rfl
    | some a =>
      have hread := c.read_dump a
      have hnull := h a
      cases hdump : c.dump a <;> simp_all

theorem mapM_map {f : β → Option α} {g : α → β} (h : ∀ a, f (g a) = some a) (items : List α) :
    (items.map g).mapM f = some items := by
  induction items with
  | nil => rfl
  | cons a items ih => simp [h, ih]

def list (c : Codec α) : Codec (List α) where
  dump items := .arr (items.map c.dump)
  read
    | .arr items => items.mapM c.read
    | _ => none
  read_dump := mapM_map c.read_dump

section Keys

variable [DecidableEq κ]

/-- A list whose rows are told apart by a key: of two with the same key the later one stands. -/
def keyed (c : Codec α) (key : α → κ) : Codec (Keyed key) :=
  c.list.map Keyed.ofRows Keyed.rows Keyed.ofRows_rows

def dict (name : κ → String) (read : String → Option κ) (h : ∀ k, read (name k) = some k) (c : Codec α) :
    Codec (Keyed (Prod.fst : κ × α → κ)) where
  dump d := .obj (d.rows.map fun r => (name r.1, c.dump r.2))
  read
    | .obj items => (items.mapM fun i => (read i.1).bind fun k => (c.read i.2).map fun a => (k, a)).map Keyed.ofRows
    | _ => none
  read_dump d := by
    have hitems := mapM_map (f := fun i => (read i.1).bind fun k => (c.read i.2).map fun a => (k, a))
      (g := fun r : κ × α => (name r.1, c.dump r.2)) (fun r => by simp [h, c.read_dump]) d.rows
    simp only [hitems, Option.map_some, Keyed.ofRows_rows]

end Keys

end Codec

/-- The fields of a model, each with its default, if it has one. -/
inductive Fields : Type → Type 1
  | done : Fields Unit
  | field {α τ : Type} (name : String) (codec : Codec α) (default : Option α) (rest : Fields τ) : Fields (α × τ)

namespace Fields

variable {τ : Type}

def names {τ : Type} : Fields τ → List String
  | .done => []
  | .field name _ _ rest => name :: rest.names

def dump {τ : Type} : Fields τ → τ → List (String × Json)
  | .done, _ => []
  | .field name codec _ rest, (a, t) => (name, codec.dump a) :: rest.dump t

def read {τ : Type} : Fields τ → List (String × Json) → Option τ
  | .done, _ => some ()
  | .field name codec default rest, items => do
    let a ← (Rows.lookup Prod.fst name items).elim default fun i => codec.read i.2
    let t ← rest.read items
    some (a, t)

theorem names_dump (f : Fields τ) (t : τ) : (f.dump t).map Prod.fst = f.names := by
  induction f with
  | done => rfl
  | field name codec default rest ih => exact congrArg (name :: ·) (ih t.2)

/-- Only the items of a field's name are read. -/
theorem read_congr (f : Fields τ) {items others : List (String × Json)}
    (h : ∀ n ∈ f.names, Rows.lookup Prod.fst n items = Rows.lookup Prod.fst n others) : f.read items = f.read others := by
  induction f with
  | done => rfl
  | field name codec default rest ih =>
    have hname := h name List.mem_cons_self
    have hrest := ih fun n hn => h n (List.mem_cons_of_mem _ hn)
    simp only [read, hname, hrest]

theorem read_dump (f : Fields τ) (h : f.names.Nodup) (t : τ) : f.read (f.dump t) = some t := by
  induction f with
  | done => rfl
  | field name codec default rest ih =>
    obtain ⟨a, t⟩ := t
    obtain ⟨hname, hnames⟩ := List.nodup_cons.mp h
    have hself : Rows.lookup Prod.fst name ((name, codec.dump a) :: rest.dump t) = some (name, codec.dump a) := by
      simp [Rows.lookup]
    have hrest : rest.read ((name, codec.dump a) :: rest.dump t) = rest.read (rest.dump t) := by
      refine rest.read_congr fun n hn => ?_
      have hne : name ≠ n := fun he => hname (he ▸ hn)
      simp [Rows.lookup, hne]
    simp [dump, read, hself, hrest, codec.read_dump, ih hnames]

/-- A model: retired names are dropped, and no other name than its fields' is allowed. -/
def codec (f : Fields τ) (retired : List String) (h : f.names.Nodup) (hretired : ∀ n ∈ f.names, n ∉ retired) : Codec τ where
  dump t := .obj (f.dump t)
  read
    | .obj items =>
      let items := items.filter fun i => i.1 ∉ retired
      if ∀ i ∈ items, i.1 ∈ f.names then f.read items else none
    | _ => none
  read_dump t := by
    have hnames : ∀ i ∈ f.dump t, i.1 ∈ f.names := fun i hi => f.names_dump t ▸ List.mem_map_of_mem hi
    have hkept : (f.dump t).filter (fun i => i.1 ∉ retired) = f.dump t :=
      List.filter_eq_self.mpr fun i hi => decide_eq_true (hretired _ (hnames i hi))
    simp only [hkept]
    rw [if_pos hnames]
    exact f.read_dump h t

end Fields

end MatchTrader
