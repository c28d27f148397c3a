import Mathlib.Data.List.Basic
import Mathlib.Data.List.Infix

/-!
# Runs of a step function

A system is a step function: from a state, an event leads to one state, or
cannot happen. What a system leaves open (which thread moves, what the outside
does) is in the events. An invariant is proved of one step (`run_inv`); where
it needs more than the invariant of the state, the run's steps are restricted
(`Along`, `run_inv_along`). `always_iff_along` is for a property that a step
keeps exactly when it meets a condition: every state of a run has the property
if and only if every step of the run meets the condition; `afterEach_iff_along`
is for one that matters only after certain steps.
-/

namespace SmartEth

section Run

variable {σ ε : Type} (step : σ → ε → Option σ)

/-- The state after the events `es`, in order, if they can all happen. -/
def run : σ → List ε → Option σ
  | s, [] => some s
  | s, e :: es => (step s e).bind fun s' => run s' es

/-- Every step of the run from `s` meets `ok`, a condition on the state before
the step and on its event. -/
def Along (ok : σ → ε → Prop) : σ → List ε → Prop
  | _, [] => True
  | s, e :: es => ok s e ∧ ∀ s', step s e = some s' → Along ok s' es

instance Along.decidable {ok : σ → ε → Prop} [∀ s e, Decidable (ok s e)] :
    (s : σ) → (es : List ε) → Decidable (Along step ok s es)
  | _, [] => .isTrue trivial
  | s, e :: es =>
    match hs : step s e with
    | none => decidable_of_iff (ok s e) ⟨fun h => ⟨h, fun s' h' => by rw [hs] at h'; cases h'⟩, And.left⟩
    | some t =>
      have : Decidable (Along step ok t es) := Along.decidable t es
      decidable_of_iff (ok s e ∧ Along step ok t es)
        ⟨fun h => ⟨h.1, fun s' h' => by rw [hs] at h'; cases h'; exact h.2⟩, fun h => ⟨h.1, h.2 t hs⟩⟩

/-- `P` holds in every state that the run from `s` passes. -/
def Always (P : σ → Prop) (s : σ) (es : List ε) : Prop :=
  ∀ pre, pre <+: es → ∀ s', run step s pre = some s' → P s'

/-- `P` holds after every step of the run from `s` whose event is in `sel`. -/
def AfterEach (sel : ε → Prop) (P : σ → Prop) (s : σ) (es : List ε) : Prop :=
  ∀ pre e, pre ++ [e] <+: es → sel e → ∀ s', run step s (pre ++ [e]) = some s' → P s'

/-- The step, taken only where it meets `ok`. -/
def checked (ok : σ → ε → Prop) [∀ s e, Decidable (ok s e)] (s : σ) (e : ε) : Option σ :=
  if ok s e then step s e else none

variable {step}

@[simp] theorem run_nil (s : σ) : run step s [] = some s := rfl

theorem run_cons (s : σ) (e : ε) (es : List ε) :
    run step s (e :: es) = (step s e).bind fun s' => run step s' es := rfl

theorem run_cons_some {s t : σ} {e : ε} {es : List ε} :
    run step s (e :: es) = some t ↔ ∃ s', step s e = some s' ∧ run step s' es = some t := by
  rw [run_cons, Option.bind_eq_some_iff]

theorem run_append (s : σ) (es es' : List ε) :
    run step s (es ++ es') = (run step s es).bind fun s' => run step s' es' := by
  induction es generalizing s with
  | nil => rfl
  | cons e es ih =>
    simp only [List.cons_append, run_cons, Option.bind_assoc, ih]

theorem run_append_some {s t u : σ} {es es' : List ε} (h : run step s es = some t)
    (h' : run step t es' = some u) : run step s (es ++ es') = some u := by
  rw [run_append, h]
  exact h'

theorem run_append_split {s t u : σ} {es es' : List ε} (h : run step s (es ++ es') = some u)
    (ht : run step s es = some t) : run step t es' = some u := by
  rw [run_append, ht] at h
  exact h

/-- A run is no longer than a number that each of its steps makes smaller. -/
theorem run_length_le {m : σ → Nat} (hm : ∀ s e s', step s e = some s' → m s' < m s) {s t : σ} {es : List ε}
    (h : run step s es = some t) : es.length + m t ≤ m s := by
  induction es generalizing s with
  | nil =>
    cases h
    exact (Nat.zero_add _).le
  | cons e es ih =>
    obtain ⟨s', hs, hr⟩ := run_cons_some.mp h
    have := ih hr
    have := hm s e s' hs
    rw [List.length_cons]
    omega

theorem along_of_forall {ok : σ → ε → Prop} {s : σ} {es : List ε} (h : ∀ e ∈ es, ∀ s, ok s e) :
    Along step ok s es := by
  induction es generalizing s with
  | nil => trivial
  | cons e es ih =>
    exact ⟨h e List.mem_cons_self s, fun s' _ => ih fun e he => h e (List.mem_cons_of_mem _ he)⟩

theorem run_checked {ok : σ → ε → Prop} [∀ s e, Decidable (ok s e)] {s t : σ} {es : List ε} :
    run (checked step ok) s es = some t ↔ Along step ok s es ∧ run step s es = some t := by
  induction es generalizing s with
  | nil => exact ⟨fun h => ⟨trivial, h⟩, And.right⟩
  | cons e es ih =>
    simp only [run_cons_some, checked, Option.ite_none_right_eq_some, Along]
    constructor
    · rintro ⟨u, ⟨hok, hs⟩, hr⟩
      obtain ⟨ha, hr⟩ := ih.mp hr
      refine ⟨⟨hok, fun s' hs' => ?_⟩, u, hs, hr⟩
      obtain rfl := Option.some.inj (hs.symm.trans hs')
      exact ha
    · rintro ⟨⟨hok, ha⟩, u, hs, hr⟩
      exact ⟨u, ⟨hok, hs⟩, ih.mpr ⟨ha u hs, hr⟩⟩

theorem Along.mono {ok ok' : σ → ε → Prop} {s : σ} {es : List ε} (h : Along step ok s es)
    (hok : ∀ e ∈ es, ∀ s, ok s e → ok' s e) : Along step ok' s es := by
  induction es generalizing s with
  | nil => trivial
  | cons e es ih =>
    exact ⟨hok e List.mem_cons_self s h.1,
      fun s' hs => ih (h.2 s' hs) fun e he => hok e (List.mem_cons_of_mem _ he)⟩

theorem along_append {ok : σ → ε → Prop} {s t : σ} {es es' : List ε} (h : Along step ok s (es ++ es'))
    (ht : run step s es = some t) : Along step ok s es ∧ Along step ok t es' := by
  induction es generalizing s with
  | nil =>
    cases ht
    exact ⟨trivial, h⟩
  | cons e es ih =>
    obtain ⟨u, hs, hr⟩ := run_cons_some.mp ht
    refine ⟨⟨h.1, fun s' hs' => ?_⟩, (ih (h.2 u hs) hr).2⟩
    obtain rfl := Option.some.inj (hs.symm.trans hs')
    exact (ih (h.2 u hs) hr).1

theorem Along.append {ok : σ → ε → Prop} {s : σ} {es es' : List ε} (h : Along step ok s es)
    (h' : ∀ t, run step s es = some t → Along step ok t es') : Along step ok s (es ++ es') := by
  induction es generalizing s with
  | nil => exact h' s rfl
  | cons e es ih => exact ⟨h.1, fun s' hs => ih (h.2 s' hs) fun t ht => h' t (run_cons_some.mpr ⟨s', hs, ht⟩)⟩

/-- What every step that meets `ok` keeps holds after a run of such steps. -/
theorem run_inv_along {I : σ → Prop} {ok : σ → ε → Prop}
    (hI : ∀ s e s', I s → ok s e → step s e = some s' → I s') {s t : σ} {es : List ε}
    (h0 : I s) (hok : Along step ok s es) (h : run step s es = some t) : I t := by
  induction es generalizing s with
  | nil =>
    simp only [run_nil, Option.some.injEq] at h
    exact h ▸ h0
  | cons e es ih =>
    obtain ⟨s', hs, hr⟩ := run_cons_some.mp h
    exact ih (hI s e s' h0 hok.1 hs) (hok.2 s' hs) hr

/-- What every step keeps holds after a run. -/
theorem run_inv {I : σ → Prop} (hI : ∀ s e s', I s → step s e = some s' → I s') {s t : σ}
    {es : List ε} (h0 : I s) (h : run step s es = some t) : I t := by
  induction es generalizing s with
  | nil =>
    simp only [run_nil, Option.some.injEq] at h
    exact h ▸ h0
  | cons e es ih =>
    obtain ⟨s', hs, hr⟩ := run_cons_some.mp h
    exact ih (hI s e s' h0 hs) hr

theorem run_snoc {s t : σ} {es : List ε} {e : ε} :
    run step s (es ++ [e]) = some t ↔ ∃ u, run step s es = some u ∧ step u e = some t := by
  rw [run_append, Option.bind_eq_some_iff]
  refine exists_congr fun u => and_congr_right fun _ => ?_
  rw [run_cons_some]
  constructor
  · rintro ⟨v, h, hv⟩
    obtain rfl := Option.some.inj hv
    exact h
  · exact fun h => ⟨t, h, rfl⟩

/-- An invariant that also speaks of the events so far. -/
theorem run_inv_events {s : σ} {I : List ε → σ → Prop} (h0 : I [] s)
    (hI : ∀ es u e t, run step s es = some u → I es u → step u e = some t → I (es ++ [e]) t) {t : σ}
    {es : List ε} (h : run step s es = some t) : I es t := by
  induction es using List.reverseRecOn generalizing t with
  | nil =>
    cases h
    exact h0
  | append_singleton es e ih =>
    obtain ⟨u, hu, he⟩ := run_snoc.mp h
    exact hI es u e t hu (ih hu) he

/-- What a step that does not meet `ok` brings about, and every step keeps, holds
after a run in which not all steps meet `ok`. -/
theorem run_of_not_along {I B : σ → Prop} {ok : σ → ε → Prop}
    (hI : ∀ s e s', I s → ok s e → step s e = some s' → I s')
    (hB : ∀ s e s', I s → ¬ ok s e → step s e = some s' → B s')
    (hK : ∀ s e s', B s → step s e = some s' → B s') {s t : σ} {es : List ε} (h0 : I s)
    (hn : ¬ Along step ok s es) (h : run step s es = some t) : B t := by
  induction es generalizing s with
  | nil => exact absurd trivial hn
  | cons e es ih =>
    obtain ⟨s', hs, hr⟩ := run_cons_some.mp h
    by_cases hok : ok s e
    · refine ih (hI s e s' h0 hok hs) (fun ha => hn ⟨hok, fun s₁ h₁ => ?_⟩) hr
      obtain rfl := Option.some.inj (hs.symm.trans h₁)
      exact ha
    · exact run_inv hK (hB s e s' h0 hok hs) hr

theorem always_nil {P : σ → Prop} {s : σ} : Always step P s [] ↔ P s := by
  constructor
  · intro h
    exact h [] (List.prefix_refl _) s rfl
  · intro h pre hp t ht
    obtain rfl := List.prefix_nil.mp hp
    cases ht; exact h

theorem always_cons {P : σ → Prop} {s : σ} {e : ε} {es : List ε} :
    Always step P s (e :: es) ↔ P s ∧ ∀ s', step s e = some s' → Always step P s' es := by
  constructor
  · intro h
    refine ⟨h [] List.nil_prefix s rfl, fun s' hs pre hp t ht => ?_⟩
    exact h (e :: pre) (List.cons_prefix_cons.mpr ⟨rfl, hp⟩) t (run_cons_some.mpr ⟨s', hs, ht⟩)
  · rintro ⟨h0, h⟩ pre hp t ht
    rcases pre with _ | ⟨e', pre⟩
    · cases ht; exact h0
    · obtain ⟨rfl, hp'⟩ := List.cons_prefix_cons.mp hp
      obtain ⟨s', hs, hr⟩ := run_cons_some.mp ht
      exact h s' hs pre hp' t hr

/-- A property that each step keeps exactly when it meets `ok` holds in every
state of a run if and only if each of its steps meets `ok`. -/
theorem always_iff_along {P I : σ → Prop} {ok : σ → ε → Prop}
    (hI : ∀ s e s', I s → step s e = some s' → I s')
    (hP : ∀ s e s', I s → P s → step s e = some s' → (P s' ↔ ok s e)) {s : σ} {es : List ε}
    (h0 : I s) (hs : P s) (hr : (run step s es).isSome) :
    Always step P s es ↔ Along step ok s es := by
  induction es generalizing s with
  | nil => simpa only [Along, iff_true] using always_nil.mpr hs
  | cons e es ih =>
    obtain ⟨t, ht⟩ := Option.isSome_iff_exists.mp hr
    obtain ⟨s', he, hr'⟩ := run_cons_some.mp ht
    have h1 := hP s e s' h0 hs he
    rw [always_cons]
    constructor
    · rintro ⟨-, h⟩
      have hP' : P s' := (h s' he) [] List.nil_prefix s' rfl
      refine ⟨h1.mp hP', fun s₁ he₁ => ?_⟩
      obtain rfl := Option.some.inj (he.symm.trans he₁)
      exact (ih (hI s e s' h0 he) hP' (hr' ▸ rfl)).mp (h s' he)
    · rintro ⟨hok, h⟩
      refine ⟨hs, fun s₁ he₁ => ?_⟩
      obtain rfl := Option.some.inj (he.symm.trans he₁)
      exact (ih (hI s e s' h0 he) (h1.mpr hok) (hr' ▸ rfl)).mpr (h s' he)

theorem afterEach_cons {sel : ε → Prop} {P : σ → Prop} {s : σ} {e : ε} {es : List ε} :
    AfterEach step sel P s (e :: es) ↔
      ∀ s', step s e = some s' → (sel e → P s') ∧ AfterEach step sel P s' es := by
  constructor
  · intro h s' hs
    refine ⟨fun he => h [] e ⟨es, rfl⟩ he s' (run_cons_some.mpr ⟨s', hs, rfl⟩), fun pre e' hp he t ht => ?_⟩
    exact h (e :: pre) e' (List.cons_prefix_cons.mpr ⟨rfl, hp⟩) he t (run_cons_some.mpr ⟨s', hs, ht⟩)
  · intro h pre e' hp he t ht
    rcases pre with _ | ⟨e₀, pre⟩
    · obtain ⟨rfl, -⟩ := List.cons_prefix_cons.mp hp
      obtain ⟨s', hs, hr⟩ := run_cons_some.mp ht
      cases hr
      exact (h _ hs).1 he
    · obtain ⟨rfl, hp'⟩ := List.cons_prefix_cons.mp hp
      obtain ⟨s', hs, hr⟩ := run_cons_some.mp ht
      exact (h s' hs).2 pre e' hp' he t hr

/-- Steps that meet `ok` keep `I`; a step in `sel` meets it exactly when `P` holds
after it, and the others always do. -/
theorem afterEach_iff_along {I P : σ → Prop} {sel : ε → Prop} {ok : σ → ε → Prop}
    (hI : ∀ s e s', I s → ok s e → step s e = some s' → I s')
    (hP : ∀ s e s', I s → sel e → step s e = some s' → (P s' ↔ ok s e))
    (hn : ∀ s e, ¬ sel e → ok s e) {s : σ} {es : List ε} (h0 : I s) (hr : (run step s es).isSome) :
    AfterEach step sel P s es ↔ Along step ok s es := by
  induction es generalizing s with
  | nil =>
    refine iff_of_true (fun pre e hp => ?_) trivial
    simp at hp
  | cons e es ih =>
    obtain ⟨t, ht⟩ := Option.isSome_iff_exists.mp hr
    obtain ⟨s', he, hr'⟩ := run_cons_some.mp ht
    have hs' : ∀ u, step s e = some u → u = s' := fun u hu => Option.some.inj (hu.symm.trans he)
    rw [afterEach_cons]
    constructor
    · intro h
      obtain ⟨h1, h2⟩ := h s' he
      have hok : ok s e := by
        by_cases hsel : sel e
        · exact (hP s e s' h0 hsel he).mp (h1 hsel)
        · exact hn s e hsel
      refine ⟨hok, fun u hu => ?_⟩
      rw [hs' u hu]
      exact (ih (hI s e s' h0 hok he) (hr' ▸ rfl)).mp h2
    · rintro ⟨hok, h⟩ u hu
      rw [hs' u hu]
      exact ⟨fun hsel => (hP s e s' h0 hsel he).mpr hok, (ih (hI s e s' h0 hok he) (hr' ▸ rfl)).mpr (h s' he)⟩

end Run

end SmartEth
