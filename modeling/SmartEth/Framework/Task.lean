import SmartEth.Framework.Prog

/-!
# One program among the others

A program that runs once: a state is that of the world, and what is left of the program
(`World.go`). What it comes to is its weakest precondition without an invariant
(`World.Leads`), with a rule for each way to build a program; `Leads.run` reads it off a run.
In a world that never holds an operation back, every run goes on to the program's end
(`World.ends`). What several weakest preconditions say of one program it meets together
(`WP.and`); with an invariant, the invariant holds after every step of a run (`WP.run`).
-/

namespace SmartEth.World

variable {σ ε κ E α β : Type} {R : E → Type} (W : World σ ε κ E R)

/-- A step of the others, or the next operation of the program. -/
def go (s : σ × Prog E R α) : ε ⊕ κ → Option (σ × Prog E R α)
  | .inl e => (W.env s.1 e).map fun t => (t, s.2)
  | .inr c =>
    match s.2 with
    | .op e k => (W.act s.1 e c).map fun t => (t.2, k t.1)
    | .ret _ => none

/-- The others keep it. -/
def Stable (K : σ → Prop) : Prop := ∀ s e t, K s → W.env s e = some t → K t

/-- Among the others, the program comes to a result and a state with `Q`. -/
abbrev Leads (p : Prog E R α) (Q : α → σ → Prop) (s : σ) : Prop := W.WP (fun _ => True) p Q s

variable {W} {p : Prog E R α} {Q : α → σ → Prop} {K : σ → Prop} {s : σ}

theorem Stable.and {L : σ → Prop} (hK : W.Stable K) (hL : W.Stable L) : W.Stable fun s => K s ∧ L s :=
  fun s e t h he => ⟨hK s e t h.1 he, hL s e t h.2 he⟩

theorem WP.bind {I : σ → Prop} {f : α → Prog E R β} {Q : β → σ → Prop}
    (h : W.WP I p (fun a => W.WP I (f a) Q) s) : W.WP I (p >>= f) Q s := by
  induction p generalizing s with
  | ret a => exact h s .refl
  | op e k ih =>
    intro s' he c r t ha
    obtain ⟨hi, hw⟩ := h s' he c r t ha
    exact ⟨hi, ih r hw⟩

namespace Leads

theorem ret {a : α} (hK : W.Stable K) (h : K s) (hQ : ∀ s, K s → Q a s) : W.Leads (pure a) Q s :=
  WP.ret hK h hQ

theorem call {e : E} {f : R e → Prog E R α} (hK : W.Stable K) (h : K s)
    (hf : ∀ s c r t, K s → W.act s e c = some (r, t) → W.Leads (f r) Q t) :
    W.Leads (Prog.call e >>= f) Q s :=
  WP.op hK h fun s c r t hs ha => ⟨trivial, hf s c r t hs ha⟩

theorem mono {Q' : α → σ → Prop} (h : W.Leads p Q s) (hQ : ∀ a s, Q a s → Q' a s) : W.Leads p Q' s :=
  WP.mono h hQ

theorem bind {f : α → Prog E R β} {Q : β → σ → Prop} (h : W.Leads p (fun a => W.Leads (f a) Q) s) :
    W.Leads (p >>= f) Q s :=
  WP.bind h

/-- A part of a program, by what it comes to. -/
theorem seq {f : α → Prog E R β} {P : α → σ → Prop} {Q : β → σ → Prop} (hp : W.Leads p P s)
    (hf : ∀ a s, P a s → W.Leads (f a) Q s) : W.Leads (p >>= f) Q s :=
  (hp.mono hf).bind

/-- What the others and every operation keep. -/
theorem frame {G : σ → Prop} (hE : W.Stable G) (hA : ∀ s e c r t, G s → W.act s e c = some (r, t) → G t)
    (h : W.Leads p Q s) (hG : G s) : W.Leads p (fun a s => Q a s ∧ G s) s :=
  (WP.frame hE hA h hG).mono_inv fun _ h => h.1

theorem go {e : ε ⊕ κ} {t : σ × Prog E R α} (h : W.Leads p Q s) (ht : W.go (s, p) e = some t) :
    W.Leads t.2 Q t.1 := by
  cases e with
  | inl e =>
    obtain ⟨u, hu, rfl⟩ := Option.map_eq_some_iff.mp ht
    exact h.env (.single ⟨e, hu⟩)
  | inr c =>
    cases p with
    | ret a => cases ht
    | op e k =>
      obtain ⟨u, hu, rfl⟩ := Option.map_eq_some_iff.mp ht
      exact (h s .refl c u.1 u.2 hu).2

/-- The result of a run, and the state that it ends in. -/
theorem run {es : List (ε ⊕ κ)} {t : σ} {a : α} (h : W.Leads p Q s)
    (ht : run W.go (s, p) es = some (t, .ret a)) : Q a t := by
  have hleads := run_inv (I := fun x : σ × Prog E R α => W.Leads x.2 Q x.1) (fun _ _ _ hi hs => hi.go hs) h ht
  exact hleads t .refl

end Leads

/-- A program that is never held back comes to its end. -/
theorem ends (hact : ∀ s e, ∃ c x, W.act s e c = some x) (p : Prog E R α) (s : σ) :
    ∃ es t a, SmartEth.run W.go (s, p) es = some (t, .ret a) := by
  induction p generalizing s with
  | ret a => exact ⟨[], s, a, rfl⟩
  | op e k ih =>
    obtain ⟨c, ⟨r, u⟩, hu⟩ := hact s e
    obtain ⟨es, t, a, ht⟩ := ih r u
    have hgo : W.go (s, .op e k) (.inr c) = some (u, k r) := by
      simp only [World.go, hu, Option.map_some]
    exact ⟨.inr c :: es, t, a, run_cons_some.mpr ⟨_, hgo, ht⟩⟩

/-! ## What holds after every step -/

section

variable {I : σ → Prop}

theorem WP.go {e : ε ⊕ κ} {t : σ × Prog E R α} (hI : W.Stable I) (h : W.WP I p Q s) (hs : I s)
    (ht : W.go (s, p) e = some t) : W.WP I t.2 Q t.1 ∧ I t.1 := by
  cases e with
  | inl e =>
    obtain ⟨u, hu, rfl⟩ := Option.map_eq_some_iff.mp ht
    exact ⟨h.env (.single ⟨e, hu⟩), hI s e u hs hu⟩
  | inr c =>
    cases p with
    | ret a => cases ht
    | op e k =>
      obtain ⟨u, hu, rfl⟩ := Option.map_eq_some_iff.mp ht
      obtain ⟨hi, hw⟩ := h s .refl c u.1 u.2 hu
      exact ⟨hw, hi⟩

/-- What is left of the program in a run, and the state that the run has come to. -/
theorem WP.run {es : List (ε ⊕ κ)} {t : σ × Prog E R α} (hI : W.Stable I) (h : W.WP I p Q s) (hs : I s)
    (ht : SmartEth.run W.go (s, p) es = some t) : W.WP I t.2 Q t.1 ∧ I t.1 :=
  run_inv (I := fun x : σ × Prog E R α => W.WP I x.2 Q x.1 ∧ I x.1) (fun _ _ _ hi hs => hi.1.go hI hi.2 hs)
    ⟨h, hs⟩ ht

end

/-! ## Weakest preconditions of one program together -/

section

variable {I I' : σ → Prop} {Q' : α → σ → Prop}

theorem WP.and (h : W.WP I p Q s) (h' : W.WP I' p Q' s) :
    W.WP (fun s => I s ∧ I' s) p (fun a s => Q a s ∧ Q' a s) s := by
  induction p generalizing s with
  | ret a => exact fun t ht => ⟨h t ht, h' t ht⟩
  | op e k ih =>
    intro t ht c r u hu
    obtain ⟨hi, hw⟩ := h t ht c r u hu
    obtain ⟨hi', hw'⟩ := h' t ht c r u hu
    exact ⟨⟨hi, hi'⟩, ih r hw hw'⟩

/-- What a program ensures, whatever its operations give. -/
theorem WP.ensures {P : α → Prop} (h : p.Ensures P) (s : σ) : W.WP (fun _ => True) p (fun a _ => P a) s := by
  induction p generalizing s with
  | ret a => exact fun _ _ => h
  | op e k ih => exact fun _ _ _ r _ _ => ⟨trivial, ih r (h r) _⟩

variable {ι γ δ : Type} {M : Machine σ ε κ E R ι γ δ} {okE : σ → ε → Prop} {okA : σ → E → κ → Prop}
  {okS : σ → γ → Prop}

/-- A world that takes fewer steps. -/
theorem WP.guard (h : M.toWorld.WP I p Q s) : (M.guard okE okA okS).toWorld.WP I p Q s := by
  have henv : ∀ {s t : σ}, (M.guard okE okA okS).toWorld.Envs s t → M.toWorld.Envs s t :=
    fun he => Relation.ReflTransGen.mono (fun _ _ ⟨e, h⟩ => ⟨e, (Machine.guard_env.mp h).2⟩) _ _ he
  induction p generalizing s with
  | ret a => exact fun t ht => h t (henv ht)
  | op e k ih =>
    intro t ht c r u hu
    obtain ⟨hi, hw⟩ := h t (henv ht) c r u (Machine.guard_act.mp hu).2
    exact ⟨hi, ih r hw⟩

end

end SmartEth.World
