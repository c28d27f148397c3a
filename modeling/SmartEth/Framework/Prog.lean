import Mathlib.Logic.Relation
import SmartEth.Framework.Run

/-!
# Programs with operations, run among others

A program (`Prog`) computes and now and then asks its surroundings for an
operation, whose result it goes on with. `Prog.exec` runs one to its end, each
operation answered by a handler; `Prog.Ensures` is what every such run comes to.
A `Machine` runs one operation at a time: between two of them the rest of the
world may take steps (`env`), and where no program is running it may also take
those that a program's lock holds back (`idle`). `Machine.guard` takes only the
steps that meet given conditions.

`WP` is the weakest precondition of a program that runs so: every operation may
find any state the world has brought about meanwhile. `Machine.inv` turns it
into an invariant of every run: `I` holds in every state, and `J` in those in
which no program runs.
-/

namespace SmartEth

/-- A program with operations `E`, whose results are in `R`. -/
inductive Prog (E : Type) (R : E → Type) (α : Type) where
  | ret (a : α)
  | op (e : E) (k : R e → Prog E R α)

variable {E : Type} {R : E → Type} {α β σ ε ι κ γ : Type}

namespace Prog

def bind (p : Prog E R α) (f : α → Prog E R β) : Prog E R β :=
  match p with
  | ret a => f a
  | op e k => op e fun r => (k r).bind f

instance : Monad (Prog E R) where
  pure := ret
  bind := bind

/-- The program that does one operation. -/
def call (e : E) : Prog E R (R e) := op e ret

@[simp] theorem pure_eq (a : α) : (pure a : Prog E R α) = ret a := rfl
@[simp] theorem ret_bind (a : α) (f : α → Prog E R β) : (ret a >>= f) = f a := rfl
@[simp] theorem op_bind (e : E) (k : R e → Prog E R α) (f : α → Prog E R β) :
    (op e k >>= f) = op e fun r => k r >>= f := rfl
@[simp] theorem call_bind (e : E) (f : R e → Prog E R β) : (call e >>= f) = op e f := rfl

theorem bind_assoc (p : Prog E R α) (f : α → Prog E R β) {δ : Type} (g : β → Prog E R δ) :
    (p >>= f) >>= g = p >>= fun a => f a >>= g := by
  induction p with
  | ret a => rfl
  | op e k ih => exact congrArg (op e) (funext ih)

/-- What a program returns, once nothing else is left of it. -/
def result? : Prog E R α → Option α
  | ret a => some a
  | op _ _ => none

theorem result?_eq_some {p : Prog E R α} {a : α} (h : p.result? = some a) : p = ret a := by
  cases p with
  | ret b => exact congrArg ret (Option.some.inj h)
  | op e k => cases h

/-- Runs a program, its operations answered by `h`. -/
def exec (h : σ → (e : E) → R e × σ) : Prog E R α → σ → α × σ
  | ret a, s => (a, s)
  | op e k, s => ((k (h s e).1).exec h) (h s e).2

@[simp] theorem exec_ret (h : σ → (e : E) → R e × σ) (a : α) (s : σ) : (ret a).exec h s = (a, s) := rfl

@[simp] theorem exec_op (h : σ → (e : E) → R e × σ) (e : E) (k : R e → Prog E R α) (s : σ) :
    (op e k).exec h s = (k (h s e).1).exec h (h s e).2 := rfl

theorem exec_bind (h : σ → (e : E) → R e × σ) (p : Prog E R α) (f : α → Prog E R β) (s : σ) :
    (p >>= f).exec h s = (f (p.exec h s).1).exec h (p.exec h s).2 := by
  induction p generalizing s with
  | ret a => rfl
  | op e k ih => exact ih _ _

/-- Whatever its operations give, the program's result meets `Q`. -/
def Ensures (Q : α → Prop) : Prog E R α → Prop
  | ret a => Q a
  | op _ k => ∀ r, Ensures Q (k r)

theorem Ensures.bind {Q : β → Prop} {p : Prog E R α} {f : α → Prog E R β}
    (h : p.Ensures fun a => (f a).Ensures Q) : (p >>= f).Ensures Q := by
  induction p with
  | ret a => exact h
  | op e k ih => exact fun r => ih r (h r)

theorem Ensures.mono {Q Q' : α → Prop} {p : Prog E R α} (h : p.Ensures Q) (hQ : ∀ a, Q a → Q' a) :
    p.Ensures Q' := by
  induction p with
  | ret a => exact hQ a h
  | op e k ih => exact fun r => ih r (h r)

theorem ensures_of_forall {Q : α → Prop} (p : Prog E R α) (h : ∀ a, Q a) : p.Ensures Q := by
  induction p with
  | ret a => exact h a
  | op e k ih => exact fun r => ih r

theorem Ensures.exec {Q : α → Prop} {p : Prog E R α} (h : p.Ensures Q) (f : σ → (e : E) → R e × σ) (s : σ) :
    Q (p.exec f s).1 := by
  induction p generalizing s with
  | ret a => exact h
  | op e k ih => exact ih _ (h _) _

/-- A program does only operations with `ok`, and its result meets `Q`. -/
def Does (ok : E → Prop) (Q : α → Prop) : Prog E R α → Prop
  | ret a => Q a
  | op e k => ok e ∧ ∀ r, Does ok Q (k r)

theorem Does.bind {ok : E → Prop} {Q : β → Prop} {p : Prog E R α} {f : α → Prog E R β}
    (h : p.Does ok fun a => (f a).Does ok Q) : (p >>= f).Does ok Q := by
  induction p with
  | ret a => exact h
  | op e k ih => exact ⟨h.1, fun r => ih r (h.2 r)⟩

theorem Does.mono {ok : E → Prop} {Q Q' : α → Prop} {p : Prog E R α} (h : p.Does ok Q) (hQ : ∀ a, Q a → Q' a) :
    p.Does ok Q' := by
  induction p with
  | ret a => exact hQ a h
  | op e k ih => exact ⟨h.1, fun r => ih r (h.2 r)⟩

/-- Implements each operation by a program of other operations. -/
def subst {E' : Type} {R' : E' → Type} (f : (e : E) → Prog E' R' (R e)) : Prog E R α → Prog E' R' α
  | ret a => ret a
  | op e k => (f e).bind fun r => (k r).subst f

end Prog

/-- The world around a program: the steps others may take at any time, and
what an operation does (with a choice `κ` where that is open). -/
structure World (σ ε κ : Type) (E : Type) (R : E → Type) where
  env : σ → ε → Option σ
  act : σ → (e : E) → κ → Option (R e × σ)

namespace World

variable (W : World σ ε κ E R)

/-- A step of the others. -/
def Env (s s' : σ) : Prop := ∃ e, W.env s e = some s'

/-- Steps of the others. -/
abbrev Envs : σ → σ → Prop := Relation.ReflTransGen W.Env

/-- What the others keep at each step they keep. -/
theorem Envs.inv {W : World σ ε κ E R} {I : σ → Prop} (hI : ∀ s e s', I s → W.env s e = some s' → I s')
    {s s' : σ} (h : W.Envs s s') (h0 : I s) : I s' := by
  induction h with
  | refl => exact h0
  | tail _ hs ih =>
    obtain ⟨e, he⟩ := hs
    exact hI _ e _ ih he

/-- A program from `s`, among the others, does only operations that lead to
states with `I`, and where it ends its result and the state meet `Q`. -/
def WP (I : σ → Prop) : Prog E R α → (α → σ → Prop) → σ → Prop
  | .ret a, Q, s => ∀ s', W.Envs s s' → Q a s'
  | .op e k, Q, s => ∀ s', W.Envs s s' → ∀ c r s'', W.act s' e c = some (r, s'') →
      I s'' ∧ WP I (k r) Q s''

variable {W} {I : σ → Prop}

theorem WP.env {p : Prog E R α} {Q : α → σ → Prop} {s s' : σ} (h : W.WP I p Q s)
    (he : W.Envs s s') : W.WP I p Q s' := by
  cases p with
  | ret a => exact fun s'' h' => h s'' (he.trans h')
  | op e k => exact fun s'' h' => h s'' (he.trans h')

/-- The end of a program, in a state that the others keep in `K`. -/
theorem WP.ret {a : α} {Q : α → σ → Prop} {K : σ → Prop} {s : σ}
    (hK : ∀ s e s', K s → W.env s e = some s' → K s') (h0 : K s) (h : ∀ s', K s' → Q a s') :
    W.WP I (.ret a) Q s :=
  fun s' he => h s' (Envs.inv hK he h0)

/-- An operation, in a state that the others keep in `K`. -/
theorem WP.op {e : E} {k : R e → Prog E R α} {Q : α → σ → Prop} {K : σ → Prop} {s : σ}
    (hK : ∀ s e s', K s → W.env s e = some s' → K s') (h0 : K s)
    (h : ∀ s' c r s'', K s' → W.act s' e c = some (r, s'') → I s'' ∧ W.WP I (k r) Q s'') :
    W.WP I (.op e k) Q s :=
  fun s' he c r s'' ha => h s' c r s'' (Envs.inv hK he h0) ha

theorem WP.mono {p : Prog E R α} {Q Q' : α → σ → Prop} {s : σ} (h : W.WP I p Q s)
    (hQ : ∀ a s, Q a s → Q' a s) : W.WP I p Q' s := by
  induction p generalizing s with
  | ret a => exact fun s' he => hQ a s' (h s' he)
  | op e k ih =>
    intro s' he c r s'' ha
    exact ⟨(h s' he c r s'' ha).1, ih r (h s' he c r s'' ha).2⟩

theorem WP.mono_inv {I' : σ → Prop} {p : Prog E R α} {Q : α → σ → Prop} {s : σ} (h : W.WP I p Q s)
    (hI : ∀ s, I s → I' s) : W.WP I' p Q s := by
  induction p generalizing s with
  | ret a => exact h
  | op e k ih =>
    intro s' he c r s'' ha
    exact ⟨hI _ (h s' he c r s'' ha).1, ih r (h s' he c r s'' ha).2⟩

/-- What the others and every operation keep, a program keeps. -/
theorem WP.frame {p : Prog E R α} {Q : α → σ → Prop} {G : σ → Prop} {s : σ}
    (hE : ∀ s e s', G s → W.env s e = some s' → G s')
    (hA : ∀ s e c r s', G s → W.act s e c = some (r, s') → G s') (h : W.WP I p Q s) (hG : G s) :
    W.WP (fun s => I s ∧ G s) p (fun a s => Q a s ∧ G s) s := by
  induction p generalizing s with
  | ret a => exact fun s' he => ⟨h s' he, Envs.inv hE he hG⟩
  | op e k ih =>
    intro s' he c r s'' ha
    obtain ⟨hi, hw⟩ := h s' he c r s'' ha
    have hG' := hA _ _ _ _ _ (Envs.inv hE he hG) ha
    exact ⟨⟨hi, hG'⟩, ih r hw hG'⟩

end World

/-- A world in which programs are started one at a time. -/
structure Machine (σ ε κ : Type) (E : Type) (R : E → Type) (ι γ α : Type) extends World σ ε κ E R where
  /-- Steps taken only while no program runs. -/
  idle : σ → ι → Option σ
  /-- Starts a program. -/
  start : σ → γ → Option (σ × Prog E R α)
  /-- What the end of a program does. -/
  finish : σ → α → σ

namespace Machine

/-- A state, and the rest of the program that is running. -/
structure State (E : Type) (R : E → Type) (α σ : Type) where
  st : σ
  cur : Option (Prog E R α)

inductive Event (ε κ ι γ : Type) where
  | env (e : ε)
  | idle (e : ι)
  | start (e : γ)
  | act (c : κ)
  | finish

variable (M : Machine σ ε κ E R ι γ α)

def step (s : State E R α σ) : Event ε κ ι γ → Option (State E R α σ)
  | .env e => (M.env s.st e).map fun t => { s with st := t }
  | .idle e =>
    match s.cur with
    | none => (M.idle s.st e).map fun t => ⟨t, none⟩
    | some _ => none
  | .start e =>
    match s.cur with
    | none => (M.start s.st e).map fun t => ⟨t.1, some t.2⟩
    | some _ => none
  | .act c =>
    match s.cur with
    | some (.op e k) => (M.act s.st e c).map fun t => ⟨t.2, some (k t.1)⟩
    | _ => none
  | .finish =>
    match s.cur with
    | some (.ret a) => some ⟨M.finish s.st a, none⟩
    | _ => none

/-- `I` holds, `J` too where no program runs, and a program that runs leads to
`J`. -/
structure Inv (I J : σ → Prop) (s : State E R α σ) : Prop where
  st : I s.st
  idle : s.cur = none → J s.st
  cur : ∀ p, s.cur = some p → M.WP I p (fun a t => J (M.finish t a)) s.st

variable {M} {I J : σ → Prop}

theorem Inv.step (hJ : ∀ s, J s → I s) (hIenv : ∀ s e s', I s → M.env s e = some s' → I s')
    (hJenv : ∀ s e s', J s → M.env s e = some s' → J s')
    (hidle : ∀ s e s', J s → M.idle s e = some s' → J s')
    (hstart : ∀ s e s' p, J s → M.start s e = some (s', p) →
      I s' ∧ M.WP I p (fun a t => J (M.finish t a)) s')
    {s t : State E R α σ} {e : Event ε κ ι γ} (h : M.Inv I J s) (hs : M.step s e = some t) :
    M.Inv I J t := by
  obtain ⟨s, cur⟩ := s
  cases e with
  | env e =>
    simp only [Machine.step, Option.map_eq_some_iff] at hs
    obtain ⟨t, ht, rfl⟩ := hs
    exact ⟨hIenv _ _ _ h.st ht, fun hc => hJenv _ _ _ (h.idle hc) ht,
      fun p hp => (h.cur p hp).env (.single ⟨e, ht⟩)⟩
  | idle e =>
    cases cur with
    | some p => simp [Machine.step] at hs
    | none =>
      simp only [Machine.step, Option.map_eq_some_iff] at hs
      obtain ⟨t, ht, rfl⟩ := hs
      have hj := hidle _ _ _ (h.idle rfl) ht
      exact ⟨hJ _ hj, fun _ => hj, fun p hp => by cases hp⟩
  | start e =>
    cases cur with
    | some p => simp [Machine.step] at hs
    | none =>
      simp only [Machine.step, Option.map_eq_some_iff] at hs
      obtain ⟨⟨t, p⟩, ht, rfl⟩ := hs
      obtain ⟨hi, hw⟩ := hstart _ _ _ _ (h.idle rfl) ht
      exact ⟨hi, nofun, fun q hq => by cases hq; exact hw⟩
  | act c =>
    rcases cur with _ | ⟨a | ⟨e, k⟩⟩
    · simp [Machine.step] at hs
    · simp [Machine.step] at hs
    · simp only [Machine.step, Option.map_eq_some_iff] at hs
      obtain ⟨⟨r, t⟩, ht, rfl⟩ := hs
      obtain ⟨hi, hw⟩ := h.cur _ rfl _ .refl _ _ _ ht
      exact ⟨hi, nofun, fun q hq => by cases hq; exact hw⟩
  | finish =>
    rcases cur with _ | ⟨a | ⟨e, k⟩⟩
    · simp [Machine.step] at hs
    · simp only [Machine.step, Option.some.injEq] at hs
      subst hs
      have hj := h.cur _ rfl _ .refl
      exact ⟨hJ _ hj, fun _ => hj, fun p hp => by cases hp⟩
    · simp [Machine.step] at hs

/-- `I` in every state of every run, and `J` in those in which no program
runs. -/
theorem inv (hJ : ∀ s, J s → I s) (hIenv : ∀ s e s', I s → M.env s e = some s' → I s')
    (hJenv : ∀ s e s', J s → M.env s e = some s' → J s')
    (hidle : ∀ s e s', J s → M.idle s e = some s' → J s')
    (hstart : ∀ s e s' p, J s → M.start s e = some (s', p) →
      I s' ∧ M.WP I p (fun a t => J (M.finish t a)) s')
    {s : σ} {t : State E R α σ} {es : List (Event ε κ ι γ)} (h0 : J s)
    (h : run M.step ⟨s, none⟩ es = some t) : M.Inv I J t :=
  run_inv (I := M.Inv I J) (fun _ _ _ hi hs => hi.step hJ hIenv hJenv hidle hstart hs)
    ⟨hJ _ h0, fun _ => h0, fun _ hp => by cases hp⟩ h

/-! ### Runs whose steps meet conditions -/

section

variable (okE : σ → ε → Prop) (okA : σ → E → κ → Prop) (okS : σ → γ → Prop)

/-- A step of the others, an operation and a start meet their conditions. -/
def Meets (s : State E R α σ) : Event ε κ ι γ → Prop
  | .env e => okE s.st e
  | .start g => okS s.st g
  | .act c => ∀ e k, s.cur = some (.op e k) → okA s.st e c
  | .idle _ | .finish => True

instance [∀ s e, Decidable (okE s e)] [∀ s e c, Decidable (okA s e c)] [∀ s c, Decidable (okS s c)]
    (s : State E R α σ) (e : Event ε κ ι γ) : Decidable (Meets okE okA okS s e) :=
  match e with
  | .env e => inferInstanceAs (Decidable (okE s.st e))
  | .start g => inferInstanceAs (Decidable (okS s.st g))
  | .act c =>
    match hs : s.cur with
    | some (.op e k) => decidable_of_iff (okA s.st e c)
        ⟨fun h e' k' h' => by cases hs.symm.trans h'; exact h, fun h => h e k hs⟩
    | none => .isTrue fun e k h => by cases hs.symm.trans h
    | some (.ret a) => .isTrue fun e k h => by cases hs.symm.trans h
  | .idle _ => .isTrue trivial
  | .finish => .isTrue trivial

variable (M)

open Classical in
/-- The machine that takes only steps that meet their conditions. -/
noncomputable def guard : Machine σ ε κ E R ι γ α where
  env := fun s e => if okE s e then M.env s e else none
  act := fun s e c => if okA s e c then M.act s e c else none
  idle := M.idle
  start := fun s g => if okS s g then M.start s g else none
  finish := M.finish

variable {M okE okA okS}

theorem guard_env {s t : σ} {e : ε} : (M.guard okE okA okS).env s e = some t ↔ okE s e ∧ M.env s e = some t :=
  Option.ite_none_right_eq_some

theorem guard_act {s : σ} {e : E} {c : κ} {x : R e × σ} :
    (M.guard okE okA okS).act s e c = some x ↔ okA s e c ∧ M.act s e c = some x :=
  Option.ite_none_right_eq_some

theorem guard_start {s : σ} {g : γ} {x : σ × Prog E R α} :
    (M.guard okE okA okS).start s g = some x ↔ okS s g ∧ M.start s g = some x :=
  Option.ite_none_right_eq_some

theorem guard_step {s : State E R α σ} {e : Event ε κ ι γ} (h : Meets okE okA okS s e) :
    (M.guard okE okA okS).step s e = M.step s e := by
  obtain ⟨s, cur⟩ := s
  cases e with
  | env e =>
    have he : (M.guard okE okA okS).env s e = M.env s e := if_pos h
    simp only [step, he]
  | idle e => rfl
  | start g =>
    have hg : (M.guard okE okA okS).start s g = M.start s g := if_pos h
    cases cur with
    | none => simp only [step, hg]
    | some p => rfl
  | act c =>
    rcases cur with _ | ⟨a | ⟨e, k⟩⟩
    · rfl
    · rfl
    · have ha : (M.guard okE okA okS).act s e c = M.act s e c := if_pos (h e k rfl)
      simp only [step, ha]
  | finish => rfl

/-- A run whose steps meet their conditions is a run of the guarded machine. -/
theorem run_guard {s : State E R α σ} {es : List (Event ε κ ι γ)}
    (h : Along M.step (Meets okE okA okS) s es) :
    run (M.guard okE okA okS).step s es = run M.step s es := by
  induction es generalizing s with
  | nil => rfl
  | cons e es ih =>
    rw [run_cons, run_cons, guard_step h.1]
    cases hs : M.step s e with
    | none => rfl
    | some t => exact ih (h.2 t hs)

end

end Machine

end SmartEth
