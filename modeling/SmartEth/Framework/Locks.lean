import Mathlib.Data.List.Nodup
import Mathlib.Logic.Relation
import Mathlib.Order.WellFounded
import SmartEth.Framework.Run

/-!
# Threads, locks and a condition variable

Each thread runs a straight program of acts; the loop around a wait is one act
(`await`), which unfolds once for each time the thread wakes up. `Ordered` is
what is checked of a program alone: a lock is asked for only over locks of a
lower rank, and a wait holds nothing but the lock it gives up. If every program
started is in order, no threads wait for one another in a circle (`Inv.acyclic`),
and from every thread that is not through the waiting leads to one that can go on
(`Inv.progress`).
-/

namespace SmartEth

inductive LockAct (L A : Type) where
  | lock (l : L)
  | unlock (l : L)
  /-- Wait for the condition, with the lock given up while asleep. -/
  | await (l : L)
  | exec (a : A)

/-- Running, with what is left of its program, or asleep in a wait, with what
comes after it. -/
inductive LockThread (L A : Type) where
  | running (p : List (LockAct L A))
  | asleep (l : L) (p : List (LockAct L A))

structure Locks (T L A D : Type) where
  owner : L → Option T
  thread : T → LockThread L A
  data : D

namespace LockAct

variable {L A R : Type} [DecidableEq L] [LT R] (rank : L → R)

/-- A program that is in order, from the locks that its thread holds. -/
def Ordered : List L → List (LockAct L A) → Prop
  | held, [] => held = []
  | held, .lock l :: p => (∀ k ∈ held, rank k < rank l) ∧ Ordered (l :: held) p
  | held, .unlock l :: p => l ∈ held ∧ Ordered (held.erase l) p
  | held, .await l :: p => held = [l] ∧ Ordered held p
  | held, .exec _ :: p => Ordered held p

/-- The data after the acts of a program, run without a pause. -/
def result {D : Type} (exec : A → D → D) : List (LockAct L A) → D → D
  | [], d => d
  | .exec a :: p, d => result exec p (exec a d)
  | _ :: p, d => result exec p d

end LockAct

namespace Locks

variable {T L A D : Type}

/-- The thread's next act is to take the lock. -/
def Wants (s : Locks T L A D) (t : T) (l : L) : Prop := ∃ p, s.thread t = .running (.lock l :: p)

/-- A thread wants a lock that another, or itself, holds. -/
def WaitsFor (s : Locks T L A D) (t u : T) : Prop := ∃ l, s.Wants t l ∧ s.owner l = some u

/-- The thread is in a wait that gives up the lock: asleep, about to look at the
condition, or about to take the lock again. -/
def InWait (s : Locks T L A D) (t : T) (l : L) : Prop :=
  ∃ p, s.thread t = .asleep l p ∨ s.thread t = .running (.await l :: p) ∨
    s.thread t = .running (.lock l :: .await l :: p)

/-- The locks that a thread holds. -/
structure Holds (s : Locks T L A D) (t : T) (held : List L) : Prop where
  nodup : held.Nodup
  mem : ∀ l, l ∈ held ↔ s.owner l = some t

variable {s s' : Locks T L A D} {t : T}

theorem Holds.congr {held : List L} (h : s.Holds t held) (ho : ∀ l, s'.owner l = some t ↔ s.owner l = some t) :
    s'.Holds t held :=
  ⟨h.nodup, fun l => (h.mem l).trans (ho l).symm⟩

section

variable [DecidableEq T]

def setThread (s : Locks T L A D) (t : T) (th : LockThread L A) : Locks T L A D :=
  { s with thread := Function.update s.thread t th }

/-- A thread that is through starts a program. -/
def start (s : Locks T L A D) (t : T) (p : List (LockAct L A)) : Option (Locks T L A D) :=
  match s.thread t with
  | .running [] => some (s.setThread t (.running p))
  | _ => none

/-- A thread asleep wakes up: by a signal, or by itself. It takes the lock again,
and looks at the condition again. -/
def wake (s : Locks T L A D) (t : T) : Option (Locks T L A D) :=
  match s.thread t with
  | .asleep l p => some (s.setThread t (.running (.lock l :: .await l :: p)))
  | _ => none

@[simp] theorem setThread_self (th : LockThread L A) : (s.setThread t th).thread t = th := Function.update_self ..

theorem setThread_of_ne {u : T} (h : u ≠ t) (th : LockThread L A) : (s.setThread t th).thread u = s.thread u :=
  Function.update_of_ne h ..

end

section

variable [DecidableEq L]

def setOwner (s : Locks T L A D) (l : L) (t : Option T) : Locks T L A D :=
  { s with owner := Function.update s.owner l t }

theorem owner_setOwner {l : L} {x y : Option T} (hx : x = none ∨ x = some t) (hy : y = none ∨ y = some t)
    (hl : s.owner l = x) (k : L) :
    (s.setOwner l y).owner k = s.owner k ∨ (s.owner k = none ∨ s.owner k = some t) ∧
      ((s.setOwner l y).owner k = none ∨ (s.setOwner l y).owner k = some t) := by
  by_cases hk : k = l
  · subst hk
    exact .inr ⟨hl ▸ hx, by simpa [setOwner] using hy⟩
  · exact .inl (Function.update_of_ne hk ..)

end

/-- A thread takes its next act. -/
def go [DecidableEq T] [DecidableEq L] (exec : A → D → D) (waits : D → Bool) (s : Locks T L A D) (t : T) :
    Option (Locks T L A D) :=
  match s.thread t with
  | .running (.lock l :: p) =>
    if s.owner l = none then some ((s.setOwner l (some t)).setThread t (.running p)) else none
  | .running (.unlock l :: p) =>
    if s.owner l = some t then some ((s.setOwner l none).setThread t (.running p)) else none
  | .running (.await l :: p) =>
    if s.owner l = some t then
      if waits s.data then some ((s.setOwner l none).setThread t (.asleep l p))
      else some (s.setThread t (.running p))
    else none
  | .running (.exec a :: p) => some { s.setThread t (.running p) with data := exec a s.data }
  | .running [] | .asleep _ _ => none

section Order

variable [DecidableEq L] {R : Type} [Preorder R] (rank : L → R)

/-- What is left of a thread's program is in order. -/
inductive Placed (s : Locks T L A D) (t : T) : Prop
  | running {held : List L} {p : List (LockAct L A)} (thread : s.thread t = .running p)
      (holds : s.Holds t held) (ordered : LockAct.Ordered rank held p)
  | asleep {l : L} {p : List (LockAct L A)} (thread : s.thread t = .asleep l p) (holds : s.Holds t [])
      (ordered : LockAct.Ordered rank [l] p)

def Inv (s : Locks T L A D) : Prop := ∀ t, s.Placed rank t

variable {rank}

theorem Placed.congr (h : s.Placed rank t) (ht : s'.thread t = s.thread t)
    (ho : ∀ l, s'.owner l = some t ↔ s.owner l = some t) : s'.Placed rank t := by
  cases h with
  | running thread holds ordered => exact .running (ht.trans thread) (holds.congr ho) ordered
  | asleep thread holds ordered => exact .asleep (ht.trans thread) (holds.congr ho) ordered

/-- What is left of a running thread's program, with the locks it holds. -/
theorem Inv.running (hi : s.Inv rank) {p : List (LockAct L A)} (ht : s.thread t = .running p) :
    ∃ held, s.Holds t held ∧ LockAct.Ordered rank held p := by
  cases hi t with
  | running thread holds ordered =>
    obtain rfl := LockThread.running.inj (ht.symm.trans thread)
    exact ⟨_, holds, ordered⟩
  | asleep thread _ _ => cases ht.symm.trans thread

theorem Inv.asleep (hi : s.Inv rank) {l : L} {p : List (LockAct L A)} (ht : s.thread t = .asleep l p) :
    s.Holds t [] ∧ LockAct.Ordered rank [l] p := by
  cases hi t with
  | running thread _ _ => cases ht.symm.trans thread
  | asleep thread holds ordered =>
    obtain ⟨rfl, rfl⟩ := LockThread.asleep.inj (ht.symm.trans thread)
    exact ⟨holds, ordered⟩

/-! ## Waiting -/

/-- A thread asks for a lock over those it holds. -/
theorem Inv.rank_lt (hi : s.Inv rank) {k l : L} (hw : s.Wants t l) (hk : s.owner k = some t) : rank k < rank l := by
  obtain ⟨p, ht⟩ := hw
  obtain ⟨held, holds, hlt, -⟩ := hi.running ht
  exact hlt k ((holds.mem k).mpr hk)

/-- Along the waiting, the locks held rise above the one asked for first. -/
theorem Inv.rank_le (hi : s.Inv rank) {u : T} (h : Relation.TransGen s.WaitsFor t u) :
    ∃ l k, s.Wants t l ∧ s.owner k = some u ∧ rank l ≤ rank k := by
  induction h with
  | single h =>
    obtain ⟨l, hw, hl⟩ := h
    exact ⟨l, l, hw, hl, le_rfl⟩
  | tail _ h ih =>
    obtain ⟨l, k, hw, hk, hle⟩ := ih
    obtain ⟨l', hw', hl'⟩ := h
    exact ⟨l, l', hw, hl', hle.trans (hi.rank_lt hw' hk).le⟩

/-- No threads wait for one another in a circle. -/
theorem Inv.acyclic (hi : s.Inv rank) (t : T) : ¬ Relation.TransGen s.WaitsFor t t := by
  intro h
  obtain ⟨l, k, hw, hk, hle⟩ := hi.rank_le h
  exact absurd (hi.rank_lt hw hk) (not_lt_of_ge hle)

/-- In a wait, a thread holds no lock but the one that the wait gives up. -/
theorem Inv.eq_of_inWait (hi : s.Inv rank) {k l : L} (hw : s.InWait t l) (hk : s.owner k = some t) : k = l := by
  obtain ⟨p, ht | ht | ht⟩ := hw
  · cases ((hi.asleep ht).1.mem k).mpr hk
  · obtain ⟨held, holds, rfl, -⟩ := hi.running ht
    exact List.mem_singleton.mp ((holds.mem k).mpr hk)
  · obtain ⟨held, holds, -, hl, -⟩ := hi.running ht
    exact List.mem_singleton.mp (hl ▸ List.mem_cons_of_mem l ((holds.mem k).mpr hk))

/-! ## Steps -/

variable [DecidableEq T] {exec : A → D → D} {waits : D → Bool}

/-- A step of one thread: the others keep their places. -/
theorem Inv.of_step (hi : s.Inv rank) (ht : s'.Placed rank t) (hu : ∀ u ≠ t, s'.thread u = s.thread u)
    (ho : ∀ l, s'.owner l = s.owner l ∨ (s.owner l = none ∨ s.owner l = some t) ∧
      (s'.owner l = none ∨ s'.owner l = some t)) : s'.Inv rank := by
  intro u
  by_cases he : u = t
  · exact he ▸ ht
  · refine (hi u).congr (hu u he) fun l => ?_
    have hne : some t ≠ some u := fun h => he (Option.some.inj h).symm
    rcases ho l with h | ⟨h, h'⟩
    · rw [h]
    · rcases h with h | h <;> rcases h' with h' | h' <;> simp [h, h', hne]

/-- A thread takes a lock that is free. -/
theorem Holds.lock {held : List L} {l : L} (h : s.Holds t held) (hl : s.owner l = none) (th : LockThread L A) :
    ((s.setOwner l (some t)).setThread t th).Holds t (l :: held) := by
  refine ⟨List.nodup_cons.mpr ⟨fun hm => ?_, h.nodup⟩, fun k => ?_⟩
  · rw [h.mem, hl] at hm
    cases hm
  · by_cases hk : k = l
    · simp [hk, setOwner, setThread]
    · simp [hk, setOwner, setThread, h.mem]

/-- A thread gives up a lock that it holds. -/
theorem Holds.unlock {held : List L} (h : s.Holds t held) (l : L) (th : LockThread L A) :
    ((s.setOwner l none).setThread t th).Holds t (held.erase l) := by
  refine ⟨h.nodup.erase l, fun k => ?_⟩
  rw [h.nodup.mem_erase_iff]
  by_cases hk : k = l
  · simp [hk, setOwner, setThread]
  · simp [hk, setOwner, setThread, h.mem]

theorem Inv.start {p : List (LockAct L A)} (hi : s.Inv rank) (hp : LockAct.Ordered rank [] p)
    (h : s.start t p = some s') : s'.Inv rank := by
  simp only [Locks.start] at h
  split at h
  · rename_i ht
    cases h
    obtain ⟨held, holds, rfl⟩ := hi.running ht
    exact hi.of_step (.running (setThread_self _) (holds.congr fun _ => Iff.rfl) hp)
      (fun u hu => setThread_of_ne hu _) fun _ => .inl rfl
  · simp at h

theorem Inv.wake (hi : s.Inv rank) (h : s.wake t = some s') : s'.Inv rank := by
  simp only [Locks.wake] at h
  split at h
  · rename_i l p ht
    cases h
    obtain ⟨holds, ordered⟩ := hi.asleep ht
    refine hi.of_step (.running (setThread_self _) (holds.congr fun _ => Iff.rfl) ⟨?_, rfl, ordered⟩)
      (fun u hu => setThread_of_ne hu _) fun _ => .inl rfl
    intro k hk
    cases hk
  · simp at h

theorem Inv.go (hi : s.Inv rank) (h : s.go exec waits t = some s') : s'.Inv rank := by
  simp only [Locks.go] at h
  split at h
  · rename_i l p ht
    split at h
    · rename_i hl
      cases h
      obtain ⟨held, holds, -, ordered⟩ := hi.running ht
      exact hi.of_step (.running (setThread_self _) (holds.lock hl _) ordered)
        (fun u hu => setThread_of_ne hu _) (owner_setOwner (.inl rfl) (.inr rfl) hl)
    · simp at h
  · rename_i l p ht
    split at h
    · rename_i hl
      cases h
      obtain ⟨held, holds, -, ordered⟩ := hi.running ht
      exact hi.of_step (.running (setThread_self _) (holds.unlock l _) ordered)
        (fun u hu => setThread_of_ne hu _) (owner_setOwner (.inr rfl) (.inl rfl) hl)
    · simp at h
  · rename_i l p ht
    split at h
    · rename_i hl
      obtain ⟨held, holds, rfl, ordered⟩ := hi.running ht
      split at h
      · cases h
        have hu := holds.unlock l (.asleep l p)
        rw [List.erase_cons_head] at hu
        exact hi.of_step (.asleep (setThread_self _) hu ordered)
          (fun u hu => setThread_of_ne hu _) (owner_setOwner (.inr rfl) (.inl rfl) hl)
      · cases h
        exact hi.of_step (.running (setThread_self _) (holds.congr fun _ => Iff.rfl) ordered)
          (fun u hu => setThread_of_ne hu _) fun _ => .inl rfl
    · simp at h
  · rename_i a p ht
    cases h
    obtain ⟨held, holds, ordered⟩ := hi.running ht
    exact hi.of_step (.running (setThread_self (s := s) _) (holds.congr fun _ => Iff.rfl) ordered)
      (fun u hu => setThread_of_ne hu _) fun _ => .inl rfl
  · simp at h
  · simp at h

variable (exec waits) in
/-- A running thread that is not through can take its next act, or wants a lock
that another thread holds, which is running and not through. -/
theorem Inv.go_or_waitsFor (hi : s.Inv rank) {a : LockAct L A} {p : List (LockAct L A)}
    (ht : s.thread t = .running (a :: p)) : (s.go exec waits t).isSome ∨
      ∃ l u b q, s.Wants t l ∧ s.owner l = some u ∧ s.thread u = .running (b :: q) := by
  obtain ⟨held, holds, ordered⟩ := hi.running ht
  cases a with
  | lock l =>
    cases hl : s.owner l with
    | none => exact .inl (by simp [Locks.go, ht, hl])
    | some u =>
      right
      cases hu : s.thread u with
      | asleep k q =>
        cases ((hi.asleep hu).1.mem l).mpr hl
      | running q =>
        obtain ⟨held', holds', ordered'⟩ := hi.running hu
        have hm := (holds'.mem l).mpr hl
        cases q with
        | nil =>
          rw [show held' = [] from ordered'] at hm
          cases hm
        | cons b q => exact ⟨l, u, b, q, ⟨p, ht⟩, hl, hu⟩
  | unlock l =>
    have hl := (holds.mem l).mp ordered.1
    exact .inl (by simp [Locks.go, ht, hl])
  | await l =>
    have hl := (holds.mem l).mp (ordered.1 ▸ List.mem_singleton_self l)
    left
    cases hw : waits s.data <;> simp [Locks.go, ht, hl, hw]
  | exec a => exact .inl (by simp [Locks.go, ht])

/-- From a running thread that is not through, the waiting leads to one that can
take its next act. -/
theorem Inv.progress [WellFoundedGT R] (hi : s.Inv rank) {a : LockAct L A} {p : List (LockAct L A)}
    (ht : s.thread t = .running (a :: p)) :
    ∃ u, Relation.ReflTransGen s.WaitsFor t u ∧ (s.go exec waits u).isSome := by
  rcases hi.go_or_waitsFor exec waits ht with h | ⟨l, u, b, q, hw, hl, hu⟩
  · exact ⟨t, .refl, h⟩
  · -- the ranks of the locks asked for rise
    have hrec : ∀ r : R, ∀ l t u b q, rank l = r → s.Wants t l → s.owner l = some u →
        s.thread u = .running (b :: q) →
        ∃ v, Relation.ReflTransGen s.WaitsFor t v ∧ (s.go exec waits v).isSome := by
      intro r
      induction r using WellFoundedGT.induction with
      | ind r ih =>
        intro l t u b q hr hw hl hu
        have htu : s.WaitsFor t u := ⟨l, hw, hl⟩
        rcases hi.go_or_waitsFor exec waits hu with h | ⟨l', v, b', q', hw', hl', hv⟩
        · exact ⟨u, .single htu, h⟩
        · obtain ⟨x, hx, hgo⟩ := ih _ (hr ▸ hi.rank_lt hw' hl) l' u v b' q' rfl hw' hl' hv
          exact ⟨x, .head htu hx, hgo⟩
    exact hrec _ l t u b q rfl hw hl hu

end Order

end Locks

end SmartEth
