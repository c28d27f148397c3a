import Mathlib.Data.List.Count
import Mathlib.Data.List.Nodup
import SmartEth.Framework.Run

/-!
# Producers of one queue

Threads write cells `β` to one queue of bounded size. Each looks at the queue before every write
and goes on only if it is empty, but writes some time later, when others may have written too: a
cell that finds the queue full is lost. At most as many cells are in the queue as threads have
looked, so none is lost in any run if and only if the queue has room for one cell of each thread
(`Producers.lossless_iff`); what a thread writes then comes out in order (`Producers.textOf_run`).
-/

namespace SmartEth

variable {β : Type}

/-- A thread: what it has yet to write, and whether it has seen the queue empty. -/
structure Producer (β : Type) where
  todo : List β
  armed : Bool

/-- Every cell is kept with the thread that wrote it. -/
structure Producers (β : Type) where
  threads : List (Producer β)
  queue : List (Nat × β)
  /-- What has left the queue. -/
  out : List (Nat × β)
  lost : List (Nat × β)

inductive ProducerEvent where
  /-- Thread `i` sees the queue empty. -/
  | look (i : Nat)
  /-- Thread `i` writes. -/
  | push (i : Nat)
  /-- A cell leaves the queue. -/
  | drain

namespace Producers

/-- A cell is written. -/
def put (cap : Nat) (s : Producers β) (x : Nat × β) : Producers β :=
  if s.queue.length < cap then { s with queue := s.queue ++ [x] } else { s with lost := s.lost ++ [x] }

def step (cap : Nat) (s : Producers β) : ProducerEvent → Option (Producers β)
  | .look i =>
    match s.threads[i]? with
    | some ⟨c :: cs, false⟩ => if s.queue = [] then some { s with threads := s.threads.set i ⟨c :: cs, true⟩ } else none
    | _ => none
  | .push i =>
    match s.threads[i]? with
    | some ⟨c :: cs, true⟩ => some ({ s with threads := s.threads.set i ⟨cs, false⟩ }.put cap (i, c))
    | _ => none
  | .drain =>
    match s.queue with
    | x :: queue => some { s with queue := queue, out := s.out ++ [x] }
    | [] => none

/-- The cells of thread `i`. -/
def cellsOf (i : Nat) (xs : List (Nat × β)) : List β := (xs.filter fun x => x.1 = i).map Prod.snd

/-- How many threads have looked and not yet written. -/
def armed (s : Producers β) : Nat := s.threads.countP Producer.armed

/-- How many threads have something to write. -/
def active (s : Producers β) : Nat := s.threads.countP fun p => p.todo ≠ []

section

variable {s t : Producers β} {cap i : Nat} {e : ProducerEvent}

theorem cellsOf_append (xs ys : List (Nat × β)) : cellsOf i (xs ++ ys) = cellsOf i xs ++ cellsOf i ys := by
  simp [cellsOf]

theorem put_eq (cap : Nat) (s : Producers β) (x : Nat × β) :
    (s.put cap x).threads = s.threads ∧ (s.put cap x).out = s.out ∧
    (s.queue.length < cap ∧ (s.put cap x).queue = s.queue ++ [x] ∧ (s.put cap x).lost = s.lost ∨
      cap ≤ s.queue.length ∧ (s.put cap x).queue = s.queue ∧ (s.put cap x).lost = s.lost ++ [x]) := by
  unfold put
  split
  · rename_i h
    exact ⟨rfl, rfl, .inl ⟨h, rfl, rfl⟩⟩
  · rename_i h
    exact ⟨rfl, rfl, .inr ⟨by omega, rfl, rfl⟩⟩

/-- What a step does. -/
theorem step_cases (h : s.step cap e = some t) :
    (∃ i c cs, e = .look i ∧ s.threads[i]? = some ⟨c :: cs, false⟩ ∧ s.queue = [] ∧
      t = { s with threads := s.threads.set i ⟨c :: cs, true⟩ }) ∨
    (∃ i c cs, e = .push i ∧ s.threads[i]? = some ⟨c :: cs, true⟩ ∧
      t = { s with threads := s.threads.set i ⟨cs, false⟩ }.put cap (i, c)) ∨
    (∃ x queue, e = .drain ∧ s.queue = x :: queue ∧ t = { s with queue := queue, out := s.out ++ [x] }) := by
  cases e with
  | look i =>
    simp only [step] at h
    split at h
    · rename_i c cs hi
      simp only [Option.ite_none_right_eq_some, Option.some.injEq] at h
      exact .inl ⟨i, c, cs, rfl, hi, h.1, h.2.symm⟩
    · cases h
  | push i =>
    simp only [step] at h
    split at h
    · rename_i c cs hi
      exact .inr (.inl ⟨i, c, cs, rfl, hi, (Option.some.inj h).symm⟩)
    · cases h
  | drain =>
    simp only [step] at h
    split at h
    · rename_i x queue hq
      exact .inr (.inr ⟨x, queue, rfl, hq, (Option.some.inj h).symm⟩)
    · cases h

end

/-! ## No cell is lost -/

/-- A count after one element has been replaced. -/
theorem countP_set {α : Type} {p : α → Bool} {l : List α} {i : Nat} {a b : α} (h : l[i]? = some a) :
    (l.set i b).countP p + (if p a then 1 else 0) = l.countP p + if p b then 1 else 0 := by
  induction l generalizing i with
  | nil => cases h
  | cons x l ih =>
    cases i with
    | zero =>
      obtain rfl : x = a := Option.some.inj h
      simp only [List.set_cons_zero, List.countP_cons]
      omega
    | succ i =>
      have := ih (i := i) h
      simp only [List.set_cons_succ, List.countP_cons]
      omega

section

variable {s t : Producers β} {cap n i : Nat} {e : ProducerEvent}

theorem put_length (cap : Nat) (s : Producers β) (x : Nat × β) : (s.put cap x).queue.length ≤ s.queue.length + 1 := by
  rcases (put_eq cap s x).2.2 with ⟨-, h, -⟩ | ⟨-, h, -⟩
  · rw [h, List.length_append, List.length_singleton]
  · rw [h]
    omega

/-- A thread that writes is no longer one that has looked. -/
theorem push_armed (cap : Nat) {c : β} {cs : List β} (hi : s.threads[i]? = some ⟨c :: cs, true⟩) :
    ({ s with threads := s.threads.set i ⟨cs, false⟩ }.put cap (i, c)).armed + 1 = s.armed := by
  have h := countP_set (p := Producer.armed) (b := (⟨cs, false⟩ : Producer β)) hi
  unfold armed
  rw [(put_eq _ _ _).1]
  simpa using h

theorem push_active (cap : Nat) {c : β} {cs : List β} (hi : s.threads[i]? = some ⟨c :: cs, true⟩) :
    ({ s with threads := s.threads.set i ⟨cs, false⟩ }.put cap (i, c)).active ≤ s.active := by
  have h := countP_set (p := fun p => decide (p.todo ≠ [])) (b := (⟨cs, false⟩ : Producer β)) hi
  have hle : (if decide (cs ≠ []) then 1 else 0) ≤ 1 := by split <;> omega
  unfold active
  rw [(put_eq _ _ _).1]
  simp only [ne_eq, reduceCtorEq, not_false_eq_true, decide_true, if_true] at h hle ⊢
  omega

/-- At most `n` threads have anything to write, and together with the cells in the queue there are no
more than that which have looked. -/
structure Room (n : Nat) (s : Producers β) : Prop where
  active : s.active ≤ n
  armed : ∀ p ∈ s.threads, p.armed = true → p.todo ≠ []
  queue : s.armed = 0 ∨ s.queue.length + s.armed ≤ n

theorem Room.armed_le (h : Room n s) : s.armed ≤ s.active :=
  List.countP_mono_left fun p hp ha => decide_eq_true (h.armed p hp ha)

theorem Room.step (h : Room n s) (he : s.step cap e = some t) : Room n t := by
  rcases step_cases he with ⟨i, c, cs, rfl, hi, hq, rfl⟩ | ⟨i, c, cs, rfl, hi, rfl⟩ | ⟨x, queue, rfl, hq, rfl⟩
  · -- the queue is empty, and only threads with something to write have looked
    have hroom : Room n { s with threads := s.threads.set i ⟨c :: cs, true⟩, queue := [] } := by
      have hact := countP_set (p := fun p => decide (p.todo ≠ [])) (b := (⟨c :: cs, true⟩ : Producer β)) hi
      have ha : ∀ p ∈ s.threads.set i ⟨c :: cs, true⟩, p.armed = true → p.todo ≠ [] := by
        intro p hp ha
        rcases List.mem_or_eq_of_mem_set hp with hp | rfl
        · exact h.armed p hp ha
        · exact List.cons_ne_nil _ _
      have hle : (s.threads.set i ⟨c :: cs, true⟩).countP Producer.armed ≤
          (s.threads.set i ⟨c :: cs, true⟩).countP fun p => decide (p.todo ≠ []) :=
        List.countP_mono_left fun p hp hpa => decide_eq_true (ha p hp hpa)
      have hn := h.active
      simp only [ne_eq, reduceCtorEq, not_false_eq_true, decide_true, if_true, Nat.add_right_cancel_iff] at hact
      refine ⟨?_, ha, .inr ?_⟩
      · exact hact.trans_le hn
      · show ([] : List (Nat × β)).length + _ ≤ n
        rw [List.length_nil, Nat.zero_add]
        exact hle.trans (hact.trans_le hn)
    rw [← hq] at hroom
    exact hroom
  · -- the thread gives up its place for the cell that it writes
    have harm := push_armed cap hi
    have hact := (push_active cap hi).trans h.active
    have hq := h.queue
    refine ⟨hact, ?_, .inr ?_⟩
    · rw [(put_eq _ _ _).1]
      intro p hp ha
      rcases List.mem_or_eq_of_mem_set hp with hp | rfl
      · exact h.armed p hp ha
      · cases ha
    · have hlen := put_length cap { s with threads := s.threads.set i ⟨cs, false⟩ } (i, c)
      simp only at hlen
      omega
  · refine ⟨h.active, h.armed, ?_⟩
    rcases h.queue with ha | hle
    · exact .inl ha
    · rw [hq, List.length_cons] at hle
      exact .inr (show queue.length + s.armed ≤ n by omega)

/-- With room for them all, no cell is lost. -/
theorem Room.lost (h : Room n s) (hn : n ≤ cap) (he : s.step cap e = some t) : t.lost = s.lost := by
  rcases step_cases he with ⟨i, c, cs, rfl, hi, hq, rfl⟩ | ⟨i, c, cs, rfl, hi, rfl⟩ | ⟨x, queue, rfl, hq, rfl⟩
  · rfl
  · have harm : 0 < s.armed := List.countP_pos_iff.mpr ⟨_, List.mem_of_getElem? hi, rfl⟩
    obtain ⟨-, -, hput⟩ := put_eq cap { s with threads := s.threads.set i ⟨cs, false⟩ } (i, c)
    rcases hput with ⟨-, -, hlost⟩ | ⟨hfull, -, -⟩
    · exact hlost
    · have hfull : cap ≤ s.queue.length := hfull
      have := h.queue
      omega
  · rfl

theorem Room.run (h : Room n s) (hn : n ≤ cap) {es : List ProducerEvent}
    (hr : SmartEth.run (Producers.step cap) s es = some t) :
    Room n t ∧ t.lost = s.lost :=
  run_inv (I := fun t => Room n t ∧ t.lost = s.lost)
    (fun _ _ _ hi he => ⟨hi.1.step he, (hi.1.lost hn he).trans hi.2⟩) ⟨h, rfl⟩ hr

/-- No thread has looked. -/
def Idle (s : Producers β) : Prop := ∀ p ∈ s.threads, p.armed = false

theorem Idle.armed_eq (h : Idle s) : s.armed = 0 :=
  List.countP_eq_zero.mpr fun p hp => by rw [h p hp]; exact Bool.false_ne_true

theorem Idle.room (h : Idle s) : Room s.active s :=
  ⟨le_rfl, fun p hp ha => absurd ha (by rw [h p hp]; exact Bool.false_ne_true), .inl h.armed_eq⟩

end

/-! ## Without room, one is lost in some run -/

section

variable {cap : Nat}

theorem drained (cap : Nat) (s : Producers β) :
    ∃ es t, run (step cap) s es = some t ∧ t.queue = [] ∧ t.threads = s.threads ∧ t.lost = s.lost := by
  obtain ⟨threads, queue, out, lost⟩ := s
  induction queue generalizing out with
  | nil => exact ⟨[], _, rfl, rfl, rfl, rfl⟩
  | cons x queue ih =>
    obtain ⟨es, t, hr, h⟩ := ih (out ++ [x])
    exact ⟨.drain :: es, t, run_cons_some.mpr ⟨_, rfl, hr⟩, h⟩

theorem all_look (cap : Nat) {s : Producers β} (hroom : Room s.active s) (hq : s.queue = []) :
    ∃ es t, run (step cap) s es = some t ∧ Room s.active t ∧ t.queue = [] ∧ t.armed = s.active ∧ t.lost = s.lost := by
  generalize hk : s.active - s.armed = k
  induction k generalizing s with
  | zero =>
    have hle := hroom.armed_le
    exact ⟨[], s, rfl, hroom, hq, by omega, rfl⟩
  | succ k ih =>
    -- a thread with something to write that has not looked
    obtain ⟨p, hp, htodo, harm⟩ : ∃ p ∈ s.threads, p.todo ≠ [] ∧ p.armed = false := by
      by_contra hno
      have hle : s.active ≤ s.armed := by
        refine List.countP_mono_left fun p hp ht => ?_
        by_contra ha
        exact hno ⟨p, hp, of_decide_eq_true ht, by simpa using ha⟩
      omega
    obtain ⟨i, hi⟩ := List.getElem?_of_mem hp
    obtain ⟨todo, looked⟩ := p
    obtain rfl : looked = false := harm
    obtain ⟨c, cs, rfl⟩ := List.exists_cons_of_ne_nil htodo
    have hstep : s.step cap (.look i) = some { s with threads := s.threads.set i ⟨c :: cs, true⟩ } := by
      simp only [step, hi, hq, if_true]
    have hact := countP_set (p := fun p => decide (p.todo ≠ [])) (b := (⟨c :: cs, true⟩ : Producer β)) hi
    have hlook := countP_set (p := Producer.armed) (b := (⟨c :: cs, true⟩ : Producer β)) hi
    simp only [ne_eq, reduceCtorEq, not_false_eq_true, decide_true, if_true, Nat.add_right_cancel_iff,
      Bool.false_eq_true, if_false, Nat.add_zero] at hact hlook
    have hact : ({ s with threads := s.threads.set i ⟨c :: cs, true⟩ } : Producers β).active = s.active := hact
    have hlook : ({ s with threads := s.threads.set i ⟨c :: cs, true⟩ } : Producers β).armed = s.armed + 1 := hlook
    obtain ⟨es, t, hr, hroom', hq', harmed, hlost⟩ :=
      ih (s := { s with threads := s.threads.set i ⟨c :: cs, true⟩ }) (hact ▸ hroom.step hstep) hq
        (by rw [hact, hlook]; omega)
    exact ⟨.look i :: es, t, run_cons_some.mpr ⟨_, hstep, hr⟩, hact ▸ hroom', hq', harmed.trans hact, hlost⟩

theorem all_push {s : Producers β} {n : Nat} (hroom : Room n s) (hcap : s.queue.length ≤ cap) :
    ∃ es t, run (step cap) s es = some t ∧ t.queue.length ≤ cap ∧
      s.queue.length + s.lost.length + s.armed ≤ t.queue.length + t.lost.length := by
  generalize hk : s.armed = k
  induction k generalizing s with
  | zero => exact ⟨[], s, rfl, hcap, le_rfl⟩
  | succ k ih =>
    obtain ⟨p, hp, harm⟩ := List.countP_pos_iff.mp (show 0 < s.armed by omega)
    obtain ⟨i, hi⟩ := List.getElem?_of_mem hp
    obtain ⟨c, cs, htodo⟩ := List.exists_cons_of_ne_nil (hroom.armed p hp harm)
    obtain ⟨todo, looked⟩ := p
    obtain rfl : looked = true := harm
    obtain rfl : todo = c :: cs := htodo
    have hstep : s.step cap (.push i) = some ({ s with threads := s.threads.set i ⟨cs, false⟩ }.put cap (i, c)) := by
      simp only [step, hi]
    have harmed := push_armed cap hi
    obtain ⟨hlen, hsum⟩ : ({ s with threads := s.threads.set i ⟨cs, false⟩ }.put cap (i, c)).queue.length ≤ cap ∧
        ({ s with threads := s.threads.set i ⟨cs, false⟩ }.put cap (i, c)).queue.length +
          ({ s with threads := s.threads.set i ⟨cs, false⟩ }.put cap (i, c)).lost.length =
        s.queue.length + s.lost.length + 1 := by
      rcases (put_eq cap { s with threads := s.threads.set i ⟨cs, false⟩ } (i, c)).2.2 with
        ⟨hlt, hqueue, hlost⟩ | ⟨-, hqueue, hlost⟩ <;> rw [hqueue, hlost, List.length_append, List.length_singleton]
      · exact ⟨hlt, by show s.queue.length + 1 + s.lost.length = _; omega⟩
      · exact ⟨hcap, by show s.queue.length + (s.lost.length + 1) = _; omega⟩
    obtain ⟨es, t, hr, hlen', hsum'⟩ := ih (hroom.step hstep) hlen (by omega)
    exact ⟨.push i :: es, t, run_cons_some.mpr ⟨_, hstep, hr⟩, hlen', by omega⟩

/-- From a state in which no thread has looked, no cell is lost in any run, if and only if the queue
has room for a cell of every thread that has something to write. -/
theorem lossless_iff (cap : Nat) {s : Producers β} (h : Idle s) :
    (∀ es t, run (step cap) s es = some t → t.lost = s.lost) ↔ s.active ≤ cap := by
  constructor
  · intro hno
    by_contra hn
    obtain ⟨es₁, s₁, hr₁, hq₁, hthreads, hlost₁⟩ := drained cap s
    have hactive : s₁.active = s.active := congrArg (List.countP _) hthreads
    have hidle : Idle s₁ := fun p hp => h p (hthreads ▸ hp)
    obtain ⟨es₂, s₂, hr₂, hroom, hq₂, harmed, hlost₂⟩ := all_look cap hidle.room hq₁
    obtain ⟨es₃, s₃, hr₃, hlen, hsum⟩ := all_push hroom (show s₂.queue.length ≤ cap by rw [hq₂]; exact Nat.zero_le _)
    have hlost := hno _ s₃ (run_append_some hr₁ (run_append_some hr₂ hr₃))
    rw [hlost, hlost₂, hlost₁, harmed, hactive, hq₂, List.length_nil] at hsum
    omega
  · exact fun hn es t hr => (h.room.run hn hr).2

end

/-! ## What a thread writes stays in order -/

/-- What thread `i` has yet to write. -/
def todoOf (s : Producers β) (i : Nat) : List β := (s.threads[i]?.map Producer.todo).getD []

/-- The cells of thread `i`: those that have left the queue, those in it, and those to come. -/
def textOf (s : Producers β) (i : Nat) : List β := cellsOf i (s.out ++ s.queue) ++ s.todoOf i

theorem textOf_step {s t : Producers β} {cap : Nat} {e : ProducerEvent} (he : s.step cap e = some t)
    (hlost : t.lost = s.lost) (j : Nat) : t.textOf j = s.textOf j := by
  rcases step_cases he with ⟨i, c, cs, rfl, hi, hq, rfl⟩ | ⟨i, c, cs, rfl, hi, rfl⟩ | ⟨x, queue, rfl, hq, rfl⟩
  · unfold textOf todoOf
    by_cases hj : i = j
    · subst hj
      have hset : (s.threads.set i ⟨c :: cs, true⟩)[i]? = some ⟨c :: cs, true⟩ := by
        simp [(List.getElem?_eq_some_iff.mp hi).1]
      rw [hi, hset]
      rfl
    · simp [hj]
  · obtain ⟨hthreads, hout, hput⟩ := put_eq cap { s with threads := s.threads.set i ⟨cs, false⟩ } (i, c)
    rcases hput with ⟨-, hqueue, -⟩ | ⟨-, -, hl⟩
    · unfold textOf todoOf
      rw [hthreads, hout, hqueue]
      by_cases hj : i = j
      · subst hj
        have hset : (s.threads.set i ⟨cs, false⟩)[i]? = some ⟨cs, false⟩ := by
          simp [(List.getElem?_eq_some_iff.mp hi).1]
        simp [hset, hi, cellsOf]
      · simp [hj, cellsOf]
    · rw [hl] at hlost
      simp at hlost
  · unfold textOf
    rw [hq]
    simp [todoOf]

theorem prefix_step {s t : Producers β} {cap : Nat} {e : ProducerEvent} (he : s.step cap e = some t) :
    s.out ++ s.queue <+: t.out ++ t.queue := by
  rcases step_cases he with ⟨i, c, cs, rfl, hi, hq, rfl⟩ | ⟨i, c, cs, rfl, hi, rfl⟩ | ⟨x, queue, rfl, hq, rfl⟩
  · exact List.prefix_refl _
  · obtain ⟨-, hout, hput⟩ := put_eq cap { s with threads := s.threads.set i ⟨cs, false⟩ } (i, c)
    rw [hout]
    rcases hput with ⟨-, hqueue, -⟩ | ⟨-, hqueue, -⟩ <;> rw [hqueue]
    exact ⟨[(i, c)], by simp⟩
  · rw [hq]
    simp

/-- With room for every thread, what a thread has written comes out of the queue in order, and is
what it had to write, up to what it has yet to write. -/
theorem textOf_run {s t : Producers β} {cap : Nat} (h : Idle s) (hn : s.active ≤ cap) {es : List ProducerEvent}
    (hr : run (step cap) s es = some t) (j : Nat) : ∃ done,
      cellsOf j (t.out ++ t.queue) = cellsOf j (s.out ++ s.queue) ++ done ∧ s.todoOf j = done ++ t.todoOf j := by
  have hinv := run_inv (I := fun t => Room s.active t ∧ s.out ++ s.queue <+: t.out ++ t.queue ∧ t.textOf j = s.textOf j)
    (fun _ _ _ hi he => ⟨hi.1.step he, hi.2.1.trans (prefix_step he),
      (textOf_step he (hi.1.lost hn he) j).trans hi.2.2⟩) ⟨h.room, List.prefix_refl _, rfl⟩ hr
  obtain ⟨-, ⟨rest, hrest⟩, htext⟩ := hinv
  refine ⟨cellsOf j rest, by rw [← hrest, cellsOf_append], ?_⟩
  unfold textOf at htext
  rw [← hrest, cellsOf_append _ rest, List.append_assoc] at htext
  exact (List.append_cancel_left htext).symm

end Producers

end SmartEth
