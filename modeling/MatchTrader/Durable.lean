import Mathlib.Logic.Relation

/-! Programs over a durable store. A program alternates atomic transactions on
the store with questions to its surroundings, and its process may stop between
any two of them. The logic relates every single transaction of a program to a
guarantee, so what it proves holds at every stopping point. -/

namespace Durable

inductive Prog (σ Q : Type) (R : Q → Type) (ε α : Type) where
  | ret (a : α)
  | raise (e : ε)
  /-- Read the store. -/
  | look (next : σ → Prog σ Q R ε α)
  /-- Commit an update of the store; what follows may depend on the store before it. -/
  | txn (update : σ → σ) (next : σ → Prog σ Q R ε α)
  | ask (q : Q) (next : R q → Prog σ Q R ε α)

variable {σ Q : Type} {R : Q → Type} {ε α β : Type}

namespace Prog

def bind : Prog σ Q R ε α → (α → Prog σ Q R ε β) → Prog σ Q R ε β
  | ret a, f => f a
  | raise e, _ => raise e
  | look k, f => look fun s => (k s).bind f
  | txn u k, f => txn u fun s => (k s).bind f
  | ask q k, f => ask q fun r => (k r).bind f

def handle : Prog σ Q R ε α → (ε → Prog σ Q R ε α) → Prog σ Q R ε α
  | ret a, _ => ret a
  | raise e, h => h e
  | look k, h => look fun s => (k s).handle h
  | txn u k, h => txn u fun s => (k s).handle h
  | ask q k, h => ask q fun r => (k r).handle h

instance : Monad (Prog σ Q R ε) where
  pure := ret
  bind := bind

theorem bind_ret (p : Prog σ Q R ε α) : p.bind ret = p := by
  induction p with
  | ret a => rfl
  | raise e => rfl
  | look k ih => exact congrArg look (funext ih)
  | txn u k ih => exact congrArg (txn u) (funext ih)
  | ask q k ih => exact congrArg (ask q) (funext ih)

theorem bind_bind {γ : Type} (p : Prog σ Q R ε α) (f : α → Prog σ Q R ε β) (g : β → Prog σ Q R ε γ) :
    (p.bind f).bind g = p.bind fun a => (f a).bind g := by
  induction p with
  | ret a => rfl
  | raise e => rfl
  | look k ih => exact congrArg look (funext ih)
  | txn u k ih => exact congrArg (txn u) (funext ih)
  | ask q k ih => exact congrArg (ask q) (funext ih)

instance : LawfulMonad (Prog σ Q R ε) :=
  LawfulMonad.mk' _ bind_ret (fun _ _ => rfl) bind_bind

instance : MonadExceptOf ε (Prog σ Q R ε) where
  throw := raise
  tryCatch := handle

def reads (f : σ → α) : Prog σ Q R ε α := look fun s => ret (f s)

def commit (f : σ → σ) : Prog σ Q R ε Unit := txn f fun _ => ret ()

def query (q : Q) : Prog σ Q R ε (R q) := ask q ret

/-- A transaction that may refuse: an error leaves the store as it was. -/
def attempt (f : σ → Except ε (α × σ)) : Prog σ Q R ε α :=
  look fun s =>
    match f s with
    | .error e => raise e
    | .ok (a, t) => txn (fun _ => t) fun _ => ret a

/-- An outcome of asking is a value or an error to raise. -/
def ofExcept : Except ε α → Prog σ Q R ε α
  | .ok a => ret a
  | .error e => raise e

/-- Run to the end. The surroundings answer from a stream. -/
def eval : Prog σ Q R ε α → (Nat → (q : Q) → R q) → σ → σ × Except ε α
  | ret a, _, s => (s, .ok a)
  | raise e, _, s => (s, .error e)
  | look k, env, s => (k s).eval env s
  | txn u k, env, s => (k s).eval env (u s)
  | ask q k, env, s => (k (env 0 q)).eval (fun i => env (i + 1)) s

/-- The store left by a process that stops after `n` transactions and answers. -/
def stop : Prog σ Q R ε α → Nat → (Nat → (q : Q) → R q) → σ → σ
  | ret _, _, _, s => s
  | raise _, _, _, s => s
  | look k, n, env, s => (k s).stop n env s
  | txn _ _, 0, _, s => s
  | txn u k, n + 1, env, s => (k s).stop n env (u s)
  | ask _ _, 0, _, s => s
  | ask q k, n + 1, env, s => (k (env 0 q)).stop n (fun i => env (i + 1)) s

theorem eval_map (f : α → β) (p : Prog σ Q R ε α) (env : Nat → (q : Q) → R q) (s : σ) :
    ((f <$> p).eval env s).1 = (p.eval env s).1 := by
  change ((p.bind fun a => ret (f a)).eval env s).1 = _
  induction p generalizing env s with
  | ret a => rfl
  | raise e => rfl
  | look k ih => exact ih s env s
  | txn u k ih => exact ih s env (u s)
  | ask q k ih => exact ih _ _ s

theorem stop_map (f : α → β) (p : Prog σ Q R ε α) (n : Nat) (env : Nat → (q : Q) → R q) (s : σ) :
    (f <$> p).stop n env s = p.stop n env s := by
  change (p.bind fun a => ret (f a)).stop n env s = _
  induction p generalizing n env s with
  | ret a => rfl
  | raise e => rfl
  | look k ih => exact ih s n env s
  | txn u k ih =>
    cases n with
    | zero => rfl
    | succ n => exact ih s n env (u s)
  | ask q k ih =>
    cases n with
    | zero => rfl
    | succ n => exact ih _ n _ s

/-- The weakest precondition under which every transaction of the program meets
the guarantee `G`, and its result or error meets `P` or `E`, as long as every
answer is one that `A` allows. -/
def wp (A : (q : Q) → R q → Prop) (G : σ → σ → Prop) :
    Prog σ Q R ε α → (α → σ → Prop) → (ε → σ → Prop) → σ → Prop
  | ret a, P, _, s => P a s
  | raise e, _, E, s => E e s
  | look k, P, E, s => (k s).wp A G P E s
  | txn u k, P, E, s => G s (u s) ∧ (k s).wp A G P E (u s)
  | ask q k, P, E, s => ∀ r, A q r → (k r).wp A G P E s

variable {A : (q : Q) → R q → Prop} {G : σ → σ → Prop} {P P' : α → σ → Prop} {E E' : ε → σ → Prop}
  {s : σ}

@[simp] theorem wp_pure (a : α) : wp A G (pure a : Prog σ Q R ε α) P E s ↔ P a s := Iff.rfl

@[simp] theorem wp_ret (a : α) : wp A G (ret a : Prog σ Q R ε α) P E s ↔ P a s := Iff.rfl

@[simp] theorem wp_raise (e : ε) : wp A G (raise e : Prog σ Q R ε α) P E s ↔ E e s := Iff.rfl

@[simp] theorem wp_throw (e : ε) : wp A G (throw e : Prog σ Q R ε α) P E s ↔ E e s := Iff.rfl

@[simp] theorem wp_throwThe (e : ε) :
    wp A G (throwThe ε e : Prog σ Q R ε α) P E s ↔ E e s := Iff.rfl

@[simp] theorem wp_reads (f : σ → α) :
    wp A G (reads f : Prog σ Q R ε α) P E s ↔ P (f s) s := Iff.rfl

@[simp] theorem wp_commit (f : σ → σ) {P : Unit → σ → Prop} :
    wp A G (commit f : Prog σ Q R ε Unit) P E s ↔ G s (f s) ∧ P () (f s) := Iff.rfl

@[simp] theorem wp_query (q : Q) {P : R q → σ → Prop} :
    wp A G (query q : Prog σ Q R ε (R q)) P E s ↔ ∀ r, A q r → P r s := Iff.rfl

theorem wp_attempt (f : σ → Except ε (α × σ)) :
    wp A G (attempt f : Prog σ Q R ε α) P E s ↔
      (∀ e, f s = .error e → E e s) ∧ ∀ a t, f s = .ok (a, t) → G s t ∧ P a t := by
  simp only [attempt, wp]
  cases h : f s with
  | error e => simp
  | ok r => obtain ⟨a, t⟩ := r; simp [wp]

theorem wp_ofExcept (r : Except ε α) :
    wp A G (ofExcept r : Prog σ Q R ε α) P E s ↔
      (∀ a, r = .ok a → P a s) ∧ ∀ e, r = .error e → E e s := by
  cases r <;> simp [ofExcept]

@[simp] theorem wp_bind (p : Prog σ Q R ε β) (f : β → Prog σ Q R ε α) :
    wp A G (p >>= f) P E s ↔ wp A G p (fun b t => wp A G (f b) P E t) E s := by
  change wp A G (p.bind f) P E s ↔ _
  induction p generalizing s with
  | ret a => rfl
  | raise e => rfl
  | look k ih => exact ih s
  | txn u k ih => exact and_congr_right fun _ => ih s
  | ask q k ih => exact forall_congr' fun r => imp_congr_right fun _ => ih r

@[simp] theorem wp_map (p : Prog σ Q R ε β) (f : β → α) :
    wp A G (f <$> p) P E s ↔ wp A G p (fun b t => P (f b) t) E s :=
  wp_bind p fun b => pure (f b)

@[simp] theorem wp_discard (p : Prog σ Q R ε β) {P : PUnit → σ → Prop} :
    wp A G (discard p) P E s ↔ wp A G p (fun _ t => P ⟨⟩ t) E s :=
  wp_map p fun _ => PUnit.unit

@[simp] theorem wp_tryCatch (p : Prog σ Q R ε α) (h : ε → Prog σ Q R ε α) :
    wp A G (tryCatch p h) P E s ↔ wp A G p P (fun e t => wp A G (h e) P E t) s := by
  change wp A G (p.handle h) P E s ↔ _
  induction p generalizing s with
  | ret a => rfl
  | raise e => rfl
  | look k ih => exact ih s
  | txn u k ih => exact and_congr_right fun _ => ih s
  | ask q k ih => exact forall_congr' fun r => imp_congr_right fun _ => ih r

@[simp] theorem wp_tryCatchThe (p : Prog σ Q R ε α) (h : ε → Prog σ Q R ε α) :
    wp A G (tryCatchThe ε p h) P E s ↔ wp A G p P (fun e t => wp A G (h e) P E t) s :=
  wp_tryCatch p h

theorem wp_mono {A' : (q : Q) → R q → Prop} {G' : σ → σ → Prop} {p : Prog σ Q R ε α}
    (h : wp A G p P E s) (hA : ∀ q r, A' q r → A q r) (hG : ∀ s t, G s t → G' s t)
    (hP : ∀ a s, P a s → P' a s) (hE : ∀ e s, E e s → E' e s) : wp A' G' p P' E' s := by
  induction p generalizing s with
  | ret a => exact hP a s h
  | raise e => exact hE e s h
  | look k ih => exact ih s h
  | txn u k ih => exact ⟨hG _ _ h.1, ih s h.2⟩
  | ask q k ih => exact fun r hr => ih r (h r (hA q r hr))

theorem wp_consequence {p : Prog σ Q R ε α} (h : wp A G p P E s)
    (hP : ∀ a s, P a s → P' a s) (hE : ∀ e s, E e s → E' e s) : wp A G p P' E' s :=
  wp_mono h (fun _ _ => id) (fun _ _ => id) hP hE

/-- What two accounts of a program say holds together. -/
theorem wp_and {A' : (q : Q) → R q → Prop} {G' : σ → σ → Prop} {p : Prog σ Q R ε α} (h : wp A G p P E s)
    (h' : wp A' G' p P' E' s) : wp (fun q r => A q r ∧ A' q r) (fun s t => G s t ∧ G' s t) p
      (fun a t => P a t ∧ P' a t) (fun e t => E e t ∧ E' e t) s := by
  induction p generalizing s with
  | ret a => exact ⟨h, h'⟩
  | raise e => exact ⟨h, h'⟩
  | look k ih => exact ih s h h'
  | txn u k ih => exact ⟨⟨h.1, h'.1⟩, ih s h.2 h'.2⟩
  | ask q k ih => exact fun r hr => ih r (h r hr.1) (h' r hr.2)

/-- An invariant of the guarantee is at hand when the program ends. -/
theorem wp_invariant {I : σ → Prop} {p : Prog σ Q R ε α} (hI : ∀ s t, I s → G s t → I t) (hs : I s)
    (h : wp A G p P E s) : wp A G p (fun a t => I t ∧ P a t) (fun e t => I t ∧ E e t) s := by
  induction p generalizing s with
  | ret a => exact ⟨hs, h⟩
  | raise e => exact ⟨hs, h⟩
  | look k ih => exact ih s hs h
  | txn u k ih => exact ⟨h.1, ih s (hI _ _ hs h.1) h.2⟩
  | ask q k ih => exact fun r hr => ih r hs (h r hr)

theorem wp_eval {p : Prog σ Q R ε α} (h : wp A G p P E s) (env : Nat → (q : Q) → R q)
    (he : ∀ i q, A q (env i q)) :
    Relation.ReflTransGen G s (p.eval env s).1 ∧
      (∀ a, (p.eval env s).2 = .ok a → P a (p.eval env s).1) ∧
      (∀ e, (p.eval env s).2 = .error e → E e (p.eval env s).1) := by
  induction p generalizing s env with
  | ret a => exact ⟨.refl, by rintro _ ⟨⟩; exact h, by rintro _ ⟨⟩⟩
  | raise e => exact ⟨.refl, by rintro _ ⟨⟩, by rintro _ ⟨⟩; exact h⟩
  | look k ih => exact ih s h env he
  | txn u k ih =>
    obtain ⟨hr, ha, hb⟩ := ih s h.2 env he
    exact ⟨(Relation.ReflTransGen.single h.1).trans hr, ha, hb⟩
  | ask q k ih => exact ih _ (h _ (he 0 q)) _ fun i => he (i + 1)

/-- Every stopping point of a program is reached through the guarantee. -/
theorem wp_stop {p : Prog σ Q R ε α} (h : wp A G p P E s) (n : Nat) (env : Nat → (q : Q) → R q)
    (he : ∀ i q, A q (env i q)) : Relation.ReflTransGen G s (p.stop n env s) := by
  induction p generalizing s n env with
  | ret a => exact .refl
  | raise e => exact .refl
  | look k ih => exact ih s h n env he
  | txn u k ih =>
    cases n with
    | zero => exact .refl
    | succ n => exact (Relation.ReflTransGen.single h.1).trans (ih s h.2 n env he)
  | ask q k ih =>
    cases n with
    | zero => exact .refl
    | succ n => exact ih _ (h _ (he 0 q)) n _ fun i => he (i + 1)

/-- How many transactions and answers a run takes. -/
def moves : Prog σ Q R ε α → (Nat → (q : Q) → R q) → σ → Nat
  | ret _, _, _ | raise _, _, _ => 0
  | look k, env, s => (k s).moves env s
  | txn u k, env, s => (k s).moves env (u s) + 1
  | ask q k, env, s => (k (env 0 q)).moves (fun i => env (i + 1)) s + 1

/-- The answers that a run leaves to what follows it. -/
def rest : Prog σ Q R ε α → (Nat → (q : Q) → R q) → σ → Nat → (q : Q) → R q
  | ret _, env, _ | raise _, env, _ => env
  | look k, env, s => (k s).rest env s
  | txn u k, env, s => (k s).rest env (u s)
  | ask q k, env, s => (k (env 0 q)).rest (fun i => env (i + 1)) s

theorem stop_zero (p : Prog σ Q R ε α) (env : Nat → (q : Q) → R q) (s : σ) : p.stop 0 env s = s := by
  induction p generalizing s with
  | look k ih => exact ih s s
  | ret | raise | txn | ask => rfl

theorem attempt_moves (f : σ → Except ε (α × σ)) (env : Nat → (q : Q) → R q) (s : σ) :
    (attempt f : Prog σ Q R ε α).moves env s ≤ 1 := by
  simp only [attempt, moves]
  cases f s with
  | error e => simp [moves]
  | ok r => simp [moves]

/-- A program that stops late enough is run to its end. -/
theorem stop_eq_eval {p : Prog σ Q R ε α} {n : Nat} {env : Nat → (q : Q) → R q} {s : σ} (h : p.moves env s ≤ n) :
    p.stop n env s = (p.eval env s).1 := by
  induction p generalizing n env s with
  | ret a => rfl
  | raise e => rfl
  | look k ih => exact ih s h
  | txn u k ih =>
    cases n with
    | zero => simp [moves] at h
    | succ n => exact ih s (Nat.le_of_succ_le_succ h)
  | ask q k ih =>
    cases n with
    | zero => simp [moves] at h
    | succ n => exact ih _ (Nat.le_of_succ_le_succ h)

theorem stop_bind_of_lt {p : Prog σ Q R ε α} {f : α → Prog σ Q R ε β} {n : Nat} {env : Nat → (q : Q) → R q} {s : σ}
    (h : n < p.moves env s) : (p >>= f).stop n env s = p.stop n env s := by
  change (p.bind f).stop n env s = _
  induction p generalizing n env s with
  | ret a => simp [moves] at h
  | raise e => rfl
  | look k ih => exact ih s h
  | txn u k ih =>
    cases n with
    | zero => rfl
    | succ n => exact ih s (Nat.lt_of_succ_lt_succ h)
  | ask q k ih =>
    cases n with
    | zero => rfl
    | succ n => exact ih _ (Nat.lt_of_succ_lt_succ h)

theorem stop_bind_error {p : Prog σ Q R ε α} {f : α → Prog σ Q R ε β} {e : ε} {env : Nat → (q : Q) → R q} {s : σ}
    (h : (p.eval env s).2 = .error e) (n : Nat) : (p >>= f).stop n env s = p.stop n env s := by
  change (p.bind f).stop n env s = _
  induction p generalizing n env s with
  | ret a => simp [eval] at h
  | raise e => rfl
  | look k ih => exact ih s h n
  | txn u k ih =>
    cases n with
    | zero => rfl
    | succ n => exact ih s h n
  | ask q k ih =>
    cases n with
    | zero => rfl
    | succ n => exact ih _ h n

theorem stop_bind_of_le {p : Prog σ Q R ε α} {f : α → Prog σ Q R ε β} {n : Nat} {env : Nat → (q : Q) → R q} {s : σ} {a : α}
    (h : p.moves env s ≤ n) (ha : (p.eval env s).2 = .ok a) :
    (p >>= f).stop n env s = (f a).stop (n - p.moves env s) (p.rest env s) (p.eval env s).1 := by
  change (p.bind f).stop n env s = _
  induction p generalizing n env s with
  | ret b => obtain rfl := Except.ok.inj ha; rfl
  | raise e => simp [eval] at ha
  | look k ih => exact ih s h ha
  | txn u k ih =>
    cases n with
    | zero => simp [moves] at h
    | succ n =>
      rw [moves, Nat.add_sub_add_right]
      exact ih s (Nat.le_of_succ_le_succ h) ha
  | ask q k ih =>
    cases n with
    | zero => simp [moves] at h
    | succ n =>
      rw [moves, Nat.add_sub_add_right]
      exact ih _ (Nat.le_of_succ_le_succ h) ha

theorem moves_bind {p : Prog σ Q R ε α} {f : α → Prog σ Q R ε β} {env : Nat → (q : Q) → R q} {s : σ} {a : α}
    (ha : (p.eval env s).2 = .ok a) :
    (p >>= f).moves env s = p.moves env s + (f a).moves (p.rest env s) (p.eval env s).1 := by
  change (p.bind f).moves env s = _
  induction p generalizing env s with
  | ret b => obtain rfl := Except.ok.inj ha; exact (Nat.zero_add _).symm
  | raise e => simp [eval] at ha
  | look k ih => exact ih s ha
  | txn u k ih => exact (congrArg (· + 1) (ih s ha)).trans (Nat.add_right_comm _ _ _)
  | ask q k ih => exact (congrArg (· + 1) (ih _ ha)).trans (Nat.add_right_comm _ _ _)

/-- The questions that a run asks. -/
def asked : Prog σ Q R ε α → (Nat → (q : Q) → R q) → σ → List Q
  | ret _, _, _ | raise _, _, _ => []
  | look k, env, s => (k s).asked env s
  | txn u k, env, s => (k s).asked env (u s)
  | ask q k, env, s => q :: (k (env 0 q)).asked (fun i => env (i + 1)) s

/-- Answers to what is not asked do not matter. -/
theorem eval_congr {p : Prog σ Q R ε α} {env env' : Nat → (q : Q) → R q} {s : σ}
    (h : ∀ q ∈ p.asked env s, ∀ i, env i q = env' i q) : p.eval env s = p.eval env' s := by
  induction p generalizing env env' s with
  | ret a => rfl
  | raise e => rfl
  | look k ih => exact ih s h
  | txn u k ih => exact ih s h
  | ask q k ih =>
    have h₀ := h q List.mem_cons_self 0
    simp only [eval]
    rw [← h₀]
    exact ih _ fun x hx i => h x (List.mem_cons_of_mem _ hx) (i + 1)

/-- Every question that the program asks from a store meets `B`, and its result or error meets
`P` or `E`, as long as every answer is one that `A` allows. -/
def Asks (A : (q : Q) → R q → Prop) (B : Q → Prop) :
    Prog σ Q R ε α → (α → σ → Prop) → (ε → σ → Prop) → σ → Prop
  | ret a, P, _, s => P a s
  | raise e, _, E, s => E e s
  | look k, P, E, s => (k s).Asks A B P E s
  | txn u k, P, E, s => (k s).Asks A B P E (u s)
  | ask q k, P, E, s => B q ∧ ∀ r, A q r → (k r).Asks A B P E s

section Asks

variable {B : Q → Prop}

@[simp] theorem asks_pure (a : α) : Asks A B (pure a : Prog σ Q R ε α) P E s ↔ P a s := Iff.rfl

@[simp] theorem asks_throw (e : ε) : Asks A B (throw e : Prog σ Q R ε α) P E s ↔ E e s := Iff.rfl

theorem asks_ofExcept (r : Except ε α) :
    Asks A B (ofExcept r : Prog σ Q R ε α) P E s ↔ (∀ a, r = .ok a → P a s) ∧ ∀ e, r = .error e → E e s := by
  cases r <;> simp [ofExcept, Asks]

theorem asks_attempt {f : σ → Except ε (α × σ)} (h : ∀ a t, P a t) (he : ∀ e t, E e t) :
    Asks A B (attempt f : Prog σ Q R ε α) P E s := by
  simp only [attempt, Asks]
  cases f s with
  | error e => exact he e s
  | ok r => exact h r.1 r.2

@[simp] theorem asks_bind (p : Prog σ Q R ε β) (f : β → Prog σ Q R ε α) :
    Asks A B (p >>= f) P E s ↔ Asks A B p (fun b t => Asks A B (f b) P E t) E s := by
  change Asks A B (p.bind f) P E s ↔ _
  induction p generalizing s with
  | ret a => rfl
  | raise e => rfl
  | look k ih => exact ih s
  | txn u k ih => exact ih s
  | ask q k ih => exact and_congr_right fun _ => forall_congr' fun r => imp_congr_right fun _ => ih r

@[simp] theorem asks_tryCatch (p : Prog σ Q R ε α) (h : ε → Prog σ Q R ε α) :
    Asks A B (tryCatch p h) P E s ↔ Asks A B p P (fun e t => Asks A B (h e) P E t) s := by
  change Asks A B (p.handle h) P E s ↔ _
  induction p generalizing s with
  | ret a => rfl
  | raise e => rfl
  | look k ih => exact ih s
  | txn u k ih => exact ih s
  | ask q k ih => exact and_congr_right fun _ => forall_congr' fun r => imp_congr_right fun _ => ih r

theorem asks_consequence {p : Prog σ Q R ε α} (h : Asks A B p P E s) (hP : ∀ a t, P a t → P' a t)
    (hE : ∀ e t, E e t → E' e t) : Asks A B p P' E' s := by
  induction p generalizing s with
  | ret a => exact hP a s h
  | raise e => exact hE e s h
  | look k ih => exact ih s h
  | txn u k ih => exact ih s h
  | ask q k ih => exact ⟨h.1, fun r hr => ih r (h.2 r hr)⟩

theorem Asks.bind {p : Prog σ Q R ε β} {f : β → Prog σ Q R ε α} (h : Asks A B p (fun _ _ => True) E s)
    (hf : ∀ b t, Asks A B (f b) P E t) : Asks A B (p >>= f) P E s :=
  (asks_bind p f).mpr (asks_consequence h (fun b t _ => hf b t) fun _ _ he => he)

theorem Asks.tryCatch {p : Prog σ Q R ε α} {f : ε → Prog σ Q R ε α} (h : Asks A B p P (fun _ _ => True) s)
    (hf : ∀ e t, Asks A B (f e) P E t) : Asks A B (tryCatch p f) P E s :=
  (asks_tryCatch p f).mpr (asks_consequence h (fun _ _ hp => hp) fun e t _ => hf e t)

theorem Asks.asked {p : Prog σ Q R ε α} (h : Asks A B p P E s) (env : Nat → (q : Q) → R q)
    (he : ∀ i q, A q (env i q)) : ∀ q ∈ p.asked env s, B q := by
  induction p generalizing s env with
  | ret a => simp [Prog.asked]
  | raise e => simp [Prog.asked]
  | look k ih => exact ih s h env he
  | txn u k ih => exact ih s h env he
  | ask q k ih =>
    intro x hx
    rcases List.mem_cons.mp hx with rfl | hx
    · exact h.1
    · exact ih _ (h.2 _ (he 0 q)) _ (fun i => he (i + 1)) x hx

end Asks

/-- Two programs do the same, one from a store and the other from its image under `f`: they ask the
same questions, each of which meets `B`, their transactions keep the image and meet `G`, and they
end alike, with `P` or `E`. -/
def Twin (f : σ → σ) (B : Q → Prop) (G : σ → σ → Prop) :
    Prog σ Q R ε α → Prog σ Q R ε α → (α → σ → Prop) → (ε → σ → Prop) → σ → Prop
  | ret a, p, P, _, s => p = ret a ∧ P a s
  | raise e, p, _, E, s => p = raise e ∧ E e s
  | look k, p, P, E, s => ∃ l, p = look l ∧ (k s).Twin f B G (l (f s)) P E s
  | txn u k, p, P, E, s => ∃ v l, p = txn v l ∧ G s (u s) ∧ v (f s) = f (u s) ∧ (k s).Twin f B G (l (f s)) P E (u s)
  | ask q k, p, P, E, s => ∃ l, p = ask q l ∧ B q ∧ ∀ r, (k r).Twin f B G (l r) P E s

section Twin

variable {f : σ → σ} {B : Q → Prop} {p q : Prog σ Q R ε α}

theorem Twin.consequence (h : p.Twin f B G q P E s) (hP : ∀ a t, P a t → P' a t) (hE : ∀ e t, E e t → E' e t) :
    p.Twin f B G q P' E' s := by
  induction p generalizing q s with
  | ret a => exact ⟨h.1, hP a s h.2⟩
  | raise e => exact ⟨h.1, hE e s h.2⟩
  | look k ih =>
    obtain ⟨l, hq, hk⟩ := h
    exact ⟨l, hq, ih s hk⟩
  | txn u k ih =>
    obtain ⟨v, l, hq, hg, hv, hk⟩ := h
    exact ⟨v, l, hq, hg, hv, ih s hk⟩
  | ask a k ih =>
    obtain ⟨l, hq, hb, hk⟩ := h
    exact ⟨l, hq, hb, fun r => ih r (hk r)⟩

theorem Twin.bind {p q : Prog σ Q R ε β} {g h : β → Prog σ Q R ε α}
    (hp : p.Twin f B G q (fun b t => (g b).Twin f B G (h b) P E t) E s) :
    (p >>= g).Twin f B G (q >>= h) P E s := by
  change (p.bind g).Twin f B G (q.bind h) P E s
  induction p generalizing q s with
  | ret b =>
    obtain ⟨rfl, hb⟩ := hp
    exact hb
  | raise e =>
    obtain ⟨rfl, he⟩ := hp
    exact ⟨rfl, he⟩
  | look k ih =>
    obtain ⟨l, rfl, hk⟩ := hp
    exact ⟨_, rfl, ih s hk⟩
  | txn u k ih =>
    obtain ⟨v, l, rfl, hg, hv, hk⟩ := hp
    exact ⟨_, _, rfl, hg, hv, ih s hk⟩
  | ask a k ih =>
    obtain ⟨l, rfl, hb, hk⟩ := hp
    exact ⟨_, rfl, hb, fun r => ih r (hk r)⟩

theorem Twin.tryCatch {g h : ε → Prog σ Q R ε α}
    (hp : p.Twin f B G q P (fun e t => (g e).Twin f B G (h e) P E t) s) :
    (tryCatch p g).Twin f B G (tryCatch q h) P E s := by
  change (p.handle g).Twin f B G (q.handle h) P E s
  induction p generalizing q s with
  | ret b =>
    obtain ⟨rfl, hb⟩ := hp
    exact ⟨rfl, hb⟩
  | raise e =>
    obtain ⟨rfl, he⟩ := hp
    exact he
  | look k ih =>
    obtain ⟨l, rfl, hk⟩ := hp
    exact ⟨_, rfl, ih s hk⟩
  | txn u k ih =>
    obtain ⟨v, l, rfl, hg, hv, hk⟩ := hp
    exact ⟨_, _, rfl, hg, hv, ih s hk⟩
  | ask a k ih =>
    obtain ⟨l, rfl, hb, hk⟩ := hp
    exact ⟨_, rfl, hb, fun r => ih r (hk r)⟩

theorem twin_attempt {t : σ → Except ε (α × σ)} (hf : t (f s) = (t s).map fun r => (r.1, f r.2))
    (hP : ∀ a u, t s = .ok (a, u) → G s u ∧ P a u) (hE : ∀ e, t s = .error e → E e s) :
    (attempt t : Prog σ Q R ε α).Twin f B G (attempt t) P E s := by
  refine ⟨_, rfl, ?_⟩
  cases ht : t s with
  | error e =>
    simp only [hf, ht]
    exact ⟨rfl, hE e ht⟩
  | ok r =>
    obtain ⟨a, u⟩ := r
    simp only [hf, ht]
    exact ⟨_, _, rfl, (hP a u ht).1, rfl, rfl, (hP a u ht).2⟩

theorem Twin.eval (h : p.Twin f B G q P E s) (env : Nat → (q : Q) → R q) :
    q.eval env (f s) = (f (p.eval env s).1, (p.eval env s).2) ∧ q.asked env (f s) = p.asked env s
      ∧ (∀ x ∈ p.asked env s, B x) ∧ Relation.ReflTransGen G s (p.eval env s).1 := by
  induction p generalizing q s env with
  | ret a =>
    obtain ⟨rfl, _⟩ := h
    exact ⟨rfl, rfl, by simp [Prog.asked], .refl⟩
  | raise e =>
    obtain ⟨rfl, _⟩ := h
    exact ⟨rfl, rfl, by simp [Prog.asked], .refl⟩
  | look k ih =>
    obtain ⟨l, rfl, hk⟩ := h
    exact ih s hk env
  | txn u k ih =>
    obtain ⟨v, l, rfl, hg, hv, hk⟩ := h
    obtain ⟨hr, ha, hq, hsteps⟩ := ih s hk env
    rw [← hv] at hr ha
    exact ⟨hr, ha, hq, .head hg hsteps⟩
  | ask a k ih =>
    obtain ⟨l, rfl, hb, hk⟩ := h
    obtain ⟨hr, ha, hq, hsteps⟩ := ih _ (hk (env 0 a)) fun i => env (i + 1)
    refine ⟨hr, congrArg (a :: ·) ha, ?_, hsteps⟩
    intro x hx
    rcases List.mem_cons.mp hx with rfl | hx
    · exact hb
    · exact hq x hx

end Twin

/-- Every transaction of the program, from whatever store, meets the guarantee. -/
def Steps (G : σ → σ → Prop) : Prog σ Q R ε α → Prop
  | ret _ | raise _ => True
  | look k => ∀ s, (k s).Steps G
  | txn u k => (∀ s, G s (u s)) ∧ ∀ s, (k s).Steps G
  | ask _ k => ∀ r, (k r).Steps G

section Steps

theorem steps_pure (a : α) : (pure a : Prog σ Q R ε α).Steps G := trivial

theorem steps_throw (e : ε) : (throw e : Prog σ Q R ε α).Steps G := trivial

theorem steps_reads (f : σ → α) : (reads f : Prog σ Q R ε α).Steps G := fun _ => trivial

theorem steps_query (q : Q) : (query q : Prog σ Q R ε (R q)).Steps G := fun _ => trivial

theorem steps_commit {f : σ → σ} (h : ∀ s, G s (f s)) : (commit f : Prog σ Q R ε Unit).Steps G := ⟨h, fun _ => trivial⟩

theorem steps_ofExcept (r : Except ε α) : (ofExcept r : Prog σ Q R ε α).Steps G := by cases r <;> trivial

theorem Steps.bind {p : Prog σ Q R ε α} {f : α → Prog σ Q R ε β} (h : p.Steps G) (hf : ∀ a, (f a).Steps G) :
    (p >>= f).Steps G := by
  change (p.bind f).Steps G
  induction p with
  | ret a => exact hf a
  | raise e => trivial
  | look k ih => exact fun s => ih s (h s)
  | txn u k ih => exact ⟨h.1, fun s => ih s (h.2 s)⟩
  | ask q k ih => exact fun r => ih r (h r)

/-- A guarantee that is a preorder relates the ends of the program as well. -/
theorem Steps.wp {p : Prog σ Q R ε α} (h : p.Steps G) (hrefl : ∀ s, G s s) (htrans : ∀ s t u, G s t → G t u → G s u) :
    p.wp A G (fun _ t => G s t) (fun _ t => G s t) s := by
  induction p generalizing s with
  | ret a => exact hrefl s
  | raise e => exact hrefl s
  | look k ih => exact ih s (h s)
  | txn u k ih =>
    refine ⟨h.1 s, wp_consequence (ih s (h.2 s)) (fun _ t ht => ?_) fun _ t ht => ?_⟩
    · exact htrans s (u s) t (h.1 s) ht
    · exact htrans s (u s) t (h.1 s) ht
  | ask q k ih => exact fun r _ => ih r (h r)

end Steps

/-- A program that commits nothing. -/
def Quiet : Prog σ Q R ε α → Prop
  | ret _ | raise _ => True
  | look k => ∀ s, (k s).Quiet
  | txn _ _ => False
  | ask _ k => ∀ r, (k r).Quiet

theorem quiet_pure (a : α) : (pure a : Prog σ Q R ε α).Quiet := trivial

theorem quiet_throw (e : ε) : (throw e : Prog σ Q R ε α).Quiet := trivial

theorem quiet_reads (f : σ → α) : (reads f : Prog σ Q R ε α).Quiet := fun _ => trivial

theorem quiet_query (q : Q) : (query q : Prog σ Q R ε (R q)).Quiet := fun _ => trivial

theorem quiet_ofExcept (r : Except ε α) : (ofExcept r : Prog σ Q R ε α).Quiet := by cases r <;> trivial

theorem Quiet.bind {p : Prog σ Q R ε α} {f : α → Prog σ Q R ε β} (h : p.Quiet) (hf : ∀ a, (f a).Quiet) :
    (p >>= f).Quiet := by
  change (p.bind f).Quiet
  induction p with
  | ret a => exact hf a
  | raise e => trivial
  | look k ih => exact fun s => ih s (h s)
  | txn u k ih => exact h.elim
  | ask q k ih => exact fun r => ih r (h r)

theorem Quiet.tryCatch {p : Prog σ Q R ε α} {f : ε → Prog σ Q R ε α} (h : p.Quiet) (hf : ∀ e, (f e).Quiet) :
    (tryCatch p f).Quiet := by
  change (p.handle f).Quiet
  induction p with
  | ret a => trivial
  | raise e => exact hf e
  | look k ih => exact fun s => ih s (h s)
  | txn u k ih => exact h.elim
  | ask q k ih => exact fun r => ih r (h r)

theorem Quiet.wp {p : Prog σ Q R ε α} (h : p.Quiet) (hP : ∀ a, P a s) (hE : ∀ e, E e s) : p.wp A G P E s := by
  induction p with
  | ret a => exact hP a
  | raise e => exact hE e
  | look k ih => exact ih s (h s)
  | txn u k ih => exact h.elim
  | ask q k ih => exact fun r _ => ih r (h r)

/-- Every value that the program can return, from whatever stores and answers, meets `P`. -/
def Yields (P : α → Prop) : Prog σ Q R ε α → Prop
  | ret a => P a
  | raise _ => True
  | look k => ∀ s, (k s).Yields P
  | txn _ k => ∀ s, (k s).Yields P
  | ask _ k => ∀ r, (k r).Yields P

section Yields

variable {P : α → Prop} {P' : β → Prop}

theorem yields_pure {a : α} (h : P a) : (pure a : Prog σ Q R ε α).Yields P := h

theorem yields_throw (e : ε) : (throw e : Prog σ Q R ε α).Yields P := trivial

theorem yields_true (p : Prog σ Q R ε α) : p.Yields fun _ => True := by
  induction p with
  | ret a => trivial
  | raise e => trivial
  | look k ih => exact ih
  | txn u k ih => exact ih
  | ask q k ih => exact ih

theorem Yields.bind {p : Prog σ Q R ε α} {f : α → Prog σ Q R ε β} (h : p.Yields P) (hf : ∀ a, P a → (f a).Yields P') :
    (p >>= f).Yields P' := by
  change (p.bind f).Yields P'
  induction p with
  | ret a => exact hf a h
  | raise e => trivial
  | look k ih => exact fun s => ih s (h s)
  | txn u k ih => exact fun s => ih s (h s)
  | ask q k ih => exact fun r => ih r (h r)

theorem yields_bind {p : Prog σ Q R ε α} {f : α → Prog σ Q R ε β} (hf : ∀ a, (f a).Yields P') : (p >>= f).Yields P' :=
  (yields_true p).bind fun a _ => hf a

theorem Yields.tryCatch {p : Prog σ Q R ε α} {f : ε → Prog σ Q R ε α} (h : p.Yields P) (hf : ∀ e, (f e).Yields P) :
    (tryCatch p f).Yields P := by
  change (p.handle f).Yields P
  induction p with
  | ret a => exact h
  | raise e => exact hf e
  | look k ih => exact fun s => ih s (h s)
  | txn u k ih => exact fun s => ih s (h s)
  | ask q k ih => exact fun r => ih r (h r)

theorem Yields.eval {p : Prog σ Q R ε α} (h : p.Yields P) {env : Nat → (q : Q) → R q} {s : σ} {a : α}
    (ha : (p.eval env s).2 = .ok a) : P a := by
  induction p generalizing env s with
  | ret b =>
    obtain rfl := Except.ok.inj ha
    exact h
  | raise e => cases ha
  | look k ih => exact ih s (h s) ha
  | txn u k ih => exact ih s (h s) ha
  | ask q k ih => exact ih _ (h _) ha

end Yields

theorem wp_forM {I : List β → σ → Prop} {f : β → Prog σ Q R ε PUnit} {E : ε → σ → Prop}
    (l : List β) (h : ∀ b rest t, I (b :: rest) t → wp A G (f b) (fun _ u => I rest u) E t)
    (hs : I l s) : wp A G (l.forM f) (fun _ t => I [] t) E s := by
  induction l generalizing s with
  | nil => exact hs
  | cons b rest ih =>
    change wp A G (f b >>= fun _ => rest.forM f) _ _ _
    rw [wp_bind]
    exact wp_consequence (h b rest s hs) (fun _ t ht => ih ht) (fun _ _ he => he)

theorem wp_mapM {γ : Type} {I : List β → σ → Prop} {f : β → Prog σ Q R ε γ} {E : ε → σ → Prop}
    (l : List β) (h : ∀ b rest t, I (b :: rest) t → wp A G (f b) (fun _ u => I rest u) E t)
    (hs : I l s) : wp A G (l.mapM f) (fun _ t => I [] t) E s := by
  induction l generalizing s with
  | nil => simpa using hs
  | cons b rest ih =>
    rw [List.mapM_cons, wp_bind]
    refine wp_consequence (h b rest s hs) (fun c t ht => ?_) (fun _ _ he => he)
    rw [wp_bind]
    exact wp_consequence (ih ht) (fun _ _ hu => hu) (fun _ _ he => he)

/-- A loop that carries a value keeps what each round keeps. -/
theorem wp_foldlM {γ : Type} {I : List β → γ → σ → Prop} {f : γ → β → Prog σ Q R ε γ} {E : ε → σ → Prop}
    (l : List β) {c : γ} (h : ∀ b rest c t, I (b :: rest) c t → wp A G (f c b) (fun d u => I rest d u) E t)
    (hs : I l c s) : wp A G (l.foldlM f c) (fun d t => I [] d t) E s := by
  induction l generalizing c s with
  | nil => exact hs
  | cons b rest ih =>
    rw [List.foldlM_cons, wp_bind]
    exact wp_consequence (h b rest c s hs) (fun _ _ ht => ih ht) fun _ _ he => he

section Keeps

variable {I : σ → Prop} {p : Prog σ Q R ε α}

theorem Yields.wp {B : α → Prop} (hy : p.Yields B) (h : p.wp A G P E s) : p.wp A G (fun a t => P a t ∧ B a) E s := by
  induction p generalizing s with
  | ret a => exact ⟨h, hy⟩
  | raise e => exact h
  | look k ih => exact ih s (hy s) h
  | txn u k ih => exact ⟨h.1, ih s (hy s) h.2⟩
  | ask q k ih => exact fun r hr => ih r (hy r) (h r hr)

/-- From every store that meets `I`, the program's transactions meet the guarantee, and it ends in `I`. -/
def Keeps (I : σ → Prop) (G : σ → σ → Prop) (p : Prog σ Q R ε α) : Prop :=
  ∀ s, I s → p.wp (fun _ _ => True) G (fun _ t => I t) (fun _ t => I t) s

theorem keeps_pure (a : α) : (pure a : Prog σ Q R ε α).Keeps I G := fun _ h => h

theorem keeps_throw (e : ε) : (throw e : Prog σ Q R ε α).Keeps I G := fun _ h => h

theorem Quiet.keeps (h : p.Quiet) : p.Keeps I G := fun _ hs => h.wp (fun _ => hs) fun _ => hs

theorem keeps_commit {f : σ → σ} (h : ∀ s, I s → G s (f s) ∧ I (f s)) : (commit f : Prog σ Q R ε Unit).Keeps I G := h

theorem keeps_attempt {f : σ → Except ε (α × σ)} (h : ∀ s a t, I s → f s = .ok (a, t) → G s t ∧ I t) :
    (attempt f : Prog σ Q R ε α).Keeps I G := by
  intro s hs
  rw [wp_attempt]
  exact ⟨fun _ _ => hs, fun a t ht => h s a t hs ht⟩

/-- What follows a read may use that the store met `I` then. -/
theorem keeps_reads {f : σ → β} {g : β → Prog σ Q R ε α} (h : ∀ s, I s → (g (f s)).Keeps I G) :
    (reads f >>= g).Keeps I G := fun s hs => h s hs s hs

theorem Keeps.bind {f : α → Prog σ Q R ε β} (h : p.Keeps I G) (hf : ∀ a, (f a).Keeps I G) : (p >>= f).Keeps I G := by
  intro s hs
  rw [wp_bind]
  exact wp_consequence (h s hs) (fun a t ht => hf a t ht) fun _ _ he => he

theorem Keeps.bind_yields {B : α → Prop} {f : α → Prog σ Q R ε β} (h : p.Keeps I G) (hy : p.Yields B)
    (hf : ∀ a, B a → (f a).Keeps I G) : (p >>= f).Keeps I G := by
  intro s hs
  rw [wp_bind]
  exact wp_consequence (hy.wp (h s hs)) (fun a t ht => hf a ht.2 t ht.1) fun _ _ he => he

theorem Keeps.map {f : α → β} (h : p.Keeps I G) : (f <$> p).Keeps I G := by
  intro s hs
  rw [wp_map]
  exact h s hs

theorem Keeps.discard (h : p.Keeps I G) : (discard p).Keeps I G := h.map

theorem Keeps.tryCatch {f : ε → Prog σ Q R ε α} (h : p.Keeps I G) (hf : ∀ e, (f e).Keeps I G) :
    (tryCatch p f).Keeps I G := by
  intro s hs
  rw [wp_tryCatch]
  exact wp_consequence (h s hs) (fun _ _ ht => ht) fun e t ht => hf e t ht

theorem keeps_mapM {f : β → Prog σ Q R ε α} (l : List β) (h : ∀ b ∈ l, (f b).Keeps I G) : (l.mapM f).Keeps I G := by
  induction l with
  | nil =>
    rw [List.mapM_nil]
    exact keeps_pure _
  | cons b l ih =>
    rw [List.mapM_cons]
    refine (h b List.mem_cons_self).bind fun c => Keeps.bind (ih fun d hd => h d (List.mem_cons_of_mem _ hd)) fun cs => ?_
    exact keeps_pure _

theorem keeps_forM {f : β → Prog σ Q R ε PUnit} (l : List β) (h : ∀ b ∈ l, (f b).Keeps I G) : (l.forM f).Keeps I G := by
  induction l with
  | nil => exact keeps_pure _
  | cons b l ih => exact (h b List.mem_cons_self).bind fun _ => ih fun d hd => h d (List.mem_cons_of_mem _ hd)

theorem Keeps.eval (h : p.Keeps I G) (hs : I s) (env : Nat → (q : Q) → R q) :
    Relation.ReflTransGen G s (p.eval env s).1 ∧ I (p.eval env s).1 := by
  obtain ⟨hr, ha, he⟩ := wp_eval (h s hs) env fun _ _ => trivial
  refine ⟨hr, ?_⟩
  cases hres : (p.eval env s).2 with
  | ok a => exact ha a hres
  | error e => exact he e hres

theorem Keeps.stop (h : p.Keeps I G) (hs : I s) (n : Nat) (env : Nat → (q : Q) → R q) :
    Relation.ReflTransGen G s (p.stop n env s) := wp_stop (h s hs) n env fun _ _ => trivial

end Keeps

end Prog

theorem invariant_of_reflTransGen {r : σ → σ → Prop} {I : σ → Prop} {s t : σ}
    (h : Relation.ReflTransGen r s t) (hI : ∀ s t, I s → r s t → I t) (hs : I s) : I t := by
  induction h with
  | refl => exact hs
  | tail _ hr ih => exact hI _ _ ih hr

/-- What is said only when nothing like it was said before is said at most once. -/
theorem countP_append_le_one {p : α → Bool} {l : List α} {a : α} (h : l.countP p ≤ 1)
    (hn : p a = true → ∀ b ∈ l, p b = false) : (l ++ [a]).countP p ≤ 1 := by
  rw [List.countP_append, List.countP_singleton]
  cases ha : p a with
  | true =>
    have hz : l.countP p = 0 := List.countP_eq_zero.mpr fun b hb => by simp [hn ha b hb]
    simp [hz]
  | false => simpa using h

end Durable
