import MatchTrader.Durable

/-! Programs that do not see a part of the store: from a store and from its image they ask the same,
end alike, and leave a store and its image. -/

namespace Durable.Prog

variable {σ Q : Type} {R : Q → Type} {ε α β : Type} {f : σ → σ} {G : σ → σ → Prop}

/-- The program does not see what `f` removes, and its transactions meet the guarantee. -/
def Blind (f : σ → σ) (G : σ → σ → Prop) (p : Prog σ Q R ε α) : Prop :=
  ∀ s, p.Twin f (fun _ => True) G p (fun _ _ => True) (fun _ _ => True) s

theorem blind_pure (a : α) : (pure a : Prog σ Q R ε α).Blind f G := fun _ => ⟨rfl, trivial⟩

theorem blind_throw (e : ε) : (throw e : Prog σ Q R ε α).Blind f G := fun _ => ⟨rfl, trivial⟩

theorem blind_ofExcept (r : Except ε α) : (ofExcept r : Prog σ Q R ε α).Blind f G := by
  cases r with
  | ok a => exact blind_pure a
  | error e => exact blind_throw e

theorem blind_query (q : Q) : (query q : Prog σ Q R ε (R q)).Blind f G :=
  fun _ => ⟨_, rfl, trivial, fun _ => ⟨rfl, trivial⟩⟩

theorem blind_commit {u : σ → σ} (h : ∀ s, u (f s) = f (u s)) (hG : ∀ s, G s (u s)) :
    (commit u : Prog σ Q R ε Unit).Blind f G := fun s => ⟨_, _, rfl, hG s, h s, rfl, trivial⟩

theorem blind_attempt {t : σ → Except ε (α × σ)} (h : ∀ s, t (f s) = (t s).map fun r => (r.1, f r.2))
    (hG : ∀ s a u, t s = .ok (a, u) → G s u) : (attempt t : Prog σ Q R ε α).Blind f G :=
  fun s => twin_attempt (h s) (fun a u hu => ⟨hG s a u hu, trivial⟩) fun _ _ => trivial

theorem Blind.bind {p : Prog σ Q R ε β} {g : β → Prog σ Q R ε α} (hp : p.Blind f G) (hg : ∀ b, (g b).Blind f G) :
    (p >>= g).Blind f G :=
  fun s => Twin.bind (Twin.consequence (hp s) (fun b t _ => hg b t) fun _ _ _ => trivial)

/-- What is read need not be the same, if what is made of it is. -/
theorem blind_reads {g : σ → β} {k : β → Prog σ Q R ε α} (h : ∀ s, k (g (f s)) = k (g s)) (hk : ∀ s, (k (g s)).Blind f G) :
    (reads g >>= k).Blind f G := by
  intro s
  refine ⟨_, rfl, ?_⟩
  change (k (g s)).Twin f _ _ (k (g (f s))) _ _ s
  rw [h]
  exact hk s s

theorem Blind.map {p : Prog σ Q R ε β} {g : β → α} (hp : p.Blind f G) : (g <$> p).Blind f G :=
  hp.bind fun b => blind_pure (g b)

theorem Blind.discard {p : Prog σ Q R ε β} (hp : p.Blind f G) : (discard p).Blind f G := hp.map

theorem Blind.tryCatch {p : Prog σ Q R ε α} {g : ε → Prog σ Q R ε α} (hp : p.Blind f G) (hg : ∀ e, (g e).Blind f G) :
    (tryCatch p g).Blind f G :=
  fun s => Twin.tryCatch (Twin.consequence (hp s) (fun _ _ _ => trivial) fun e t _ => hg e t)

theorem Blind.eval {p : Prog σ Q R ε α} (h : p.Blind f G) (env : Nat → (q : Q) → R q) (s : σ) :
    p.eval env (f s) = (f (p.eval env s).1, (p.eval env s).2) := (Twin.eval (h s) env).1

theorem Blind.steps {p : Prog σ Q R ε α} (h : p.Blind f G) (env : Nat → (q : Q) → R q) (s : σ) :
    Relation.ReflTransGen G s (p.eval env s).1 := (Twin.eval (h s) env).2.2.2

/-- From two stores with one image, the two runs leave stores with one image and end alike. -/
theorem Blind.agree {p : Prog σ Q R ε α} (h : p.Blind f G) (env : Nat → (q : Q) → R q) {s t : σ} (hst : f s = f t) :
    f (p.eval env s).1 = f (p.eval env t).1 ∧ (p.eval env s).2 = (p.eval env t).2 := by
  have hboth : (f (p.eval env s).1, (p.eval env s).2) = (f (p.eval env t).1, (p.eval env t).2) := by
    rw [← h.eval, ← h.eval, hst]
  exact Prod.mk.inj hboth

theorem eval_bind_ok {p : Prog σ Q R ε β} {g : β → Prog σ Q R ε α} {env : Nat → (q : Q) → R q} {s t : σ} {b : β}
    (h : p.eval env s = (t, .ok b)) : (p >>= g).eval env s = (g b).eval (p.rest env s) t := by
  change (p.bind g).eval env s = _
  induction p generalizing env s with
  | ret a =>
    obtain ⟨rfl, hb⟩ := Prod.mk.inj h
    obtain rfl := Except.ok.inj hb
    rfl
  | raise e => cases (Prod.mk.inj h).2
  | look k ih => exact ih s h
  | txn u k ih => exact ih s h
  | ask q k ih => exact ih _ h

theorem eval_bind_error {p : Prog σ Q R ε β} {g : β → Prog σ Q R ε α} {env : Nat → (q : Q) → R q} {s t : σ} {e : ε}
    (h : p.eval env s = (t, .error e)) : (p >>= g).eval env s = (t, .error e) := by
  change (p.bind g).eval env s = _
  induction p generalizing env s with
  | ret a => cases (Prod.mk.inj h).2
  | raise e =>
    obtain ⟨rfl, he⟩ := Prod.mk.inj h
    obtain rfl := Except.error.inj he
    rfl
  | look k ih => exact ih s h
  | txn u k ih => exact ih s h
  | ask q k ih => exact ih _ h

end Durable.Prog
