import SmartEth.System.SendAll

/-!
# Whole messages on the wire

When no `send_all` is in progress, what QEMU is sent is whole messages exactly
when no thread has written while another was part of the way through a message
(`whole_iff_alone`). The lock keeps NIC threads apart, but not a reply of the
socket thread from what a NIC thread sends (`reply_inside_message`).
-/

namespace SmartEth.SendAll

variable {s t : SendAll}

theorem inv_start (h0 : Start s) : s.out.Inv := by
  have hnone : ∀ x job, s.out.sending x ≠ some job := fun x job h => by
    rw [h0.sending x] at h
    cases h
  refine ⟨fun x job hx => absurd hx (hnone x job), fun x _ jx _ hx => absurd hx (hnone x jx), [], List.nodup_nil,
    fun i => ?_, fun x job hx => absurd hx (hnone x job), .inl ⟨h0.stream, fun x job hx => absurd hx (hnone x job)⟩⟩
  rw [h0.begun]
  refine ⟨fun h => absurd h (Nat.not_lt_zero i), ?_⟩
  rintro (h | ⟨x, job, hx, -⟩)
  · simp at h
  · exact absurd hx (hnone x job)

/-- What a step does to the stream. -/
theorem step_out {e : SendAllEvent} (h : s.step e = some t) :
    t.out = s.out ∨ (∃ x m, s.out.start x m = some t.out) ∨
      ∃ x n, e = .write x n ∧ s.out.write x n = some t.out := by
  cases e with
  | lock x =>
    simp only [step] at h
    split at h <;> cases h
    exact .inl rfl
  | unlock x =>
    simp only [step] at h
    split at h <;> cases h
    exact .inl rfl
  | send x m =>
    simp only [step] at h
    split at h
    · obtain ⟨w, hw, rfl⟩ := Option.map_eq_some_iff.mp h
      exact .inr (.inl ⟨x, _, hw⟩)
    · simp at h
  | write x n =>
    obtain ⟨w, hw, rfl⟩ := Option.map_eq_some_iff.mp h
    exact .inr (.inr ⟨x, n, rfl, hw⟩)

theorem inv_step {e : SendAllEvent} (hi : s.out.Inv) (hok : Alone s e) (h : s.step e = some t) : t.out.Inv := by
  rcases step_out h with he | ⟨x, m, hm⟩ | ⟨x, n, rfl, hw⟩
  · exact he ▸ hi
  · exact hi.start hm
  · exact hi.write hok hw

theorem mixed_of_not_alone {e : SendAllEvent} (hi : s.out.Inv) (hok : ¬ Alone s e) (h : s.step e = some t) :
    t.out.Mixed := by
  cases e with
  | write x n =>
    obtain ⟨w, hw, rfl⟩ := Option.map_eq_some_iff.mp h
    exact hi.mixed hok hw
  | _ => exact absurd trivial hok

theorem mixed_step {e : SendAllEvent} (hm : s.out.Mixed) (h : s.step e = some t) : t.out.Mixed := by
  rcases step_out h with he | ⟨x, m, hs⟩ | ⟨x, n, -, hw⟩
  · exact he ▸ hm
  · exact hm.start hs
  · exact hm.write hw

/-- When no `send_all` is in progress, the bytes sent are whole messages if and
only if no thread has written inside another's message. -/
theorem whole_iff_alone {es : List SendAllEvent} (h0 : Start s) (h : run step s es = some t) (hq : t.out.Quiet) :
    t.out.Whole ↔ Along step Alone s es := by
  constructor
  · intro hw
    by_contra hn
    have hm : t.out.Mixed := run_of_not_along (I := fun s => s.out.Inv) (B := fun s => s.out.Mixed)
      (fun _ _ _ hi hok hs => inv_step hi hok hs) (fun _ _ _ hi hok hs => mixed_of_not_alone hi hok hs)
      (fun _ _ _ hm hs => mixed_step hm hs) (inv_start h0) hn h
    exact hm.not_whole hq hw
  · intro hok
    have hi : t.out.Inv := run_inv_along (I := fun s => s.out.Inv) (fun _ _ _ hi hok hs => inv_step hi hok hs)
      (inv_start h0) hok h
    exact hi.whole hq

/-- A thread that starts no message writes none. -/
theorem sending_run {y : Sender} {es : List SendAllEvent} (hy : s.out.sending y = none)
    (hes : Along step (fun _ e => ∀ m, e ≠ .send y m) s es) (h : run step s es = some t) :
    t.out.sending y = none := by
  refine run_inv_along (I := fun s => s.out.sending y = none) (fun s e s' hy hok hs => ?_) hy hes h
  cases e with
  | lock x =>
    simp only [step] at hs
    split at hs <;> cases hs
    exact hy
  | unlock x =>
    simp only [step] at hs
    split at hs <;> cases hs
    exact hy
  | send x m =>
    have hyx : y ≠ x := fun he => hok m (he ▸ rfl)
    simp only [step] at hs
    split at hs
    · obtain ⟨w, hw, rfl⟩ := Option.map_eq_some_iff.mp hs
      obtain ⟨-, -, rfl⟩ := Writers.start_some hw
      exact (if_neg hyx).trans hy
    · simp at hs
  | write x n =>
    obtain ⟨w, hw, rfl⟩ := Option.map_eq_some_iff.mp hs
    obtain ⟨job, hx, -, -, rfl⟩ := Writers.write_some hw
    have hyx : y ≠ x := fun he => by
      rw [he, hx] at hy
      cases hy
    exact (if_neg hyx).trans hy

def exampleStart : SendAll := ⟨none, ⟨fun _ => none, [], []⟩⟩

/-- A reply in two writes, then an interrupt. -/
def exampleTurns : List SendAllEvent :=
  [.send .socket (mmioReadResp 1), .write .socket 5, .write .socket 11, .lock (.nic 0), .send (.nic 0) (msiIrqMsg 1),
    .write (.nic 0) 12]

/-- The same messages, the interrupt sent between the two writes of the reply. -/
def exampleInside : List SendAllEvent :=
  [.send .socket (mmioReadResp 1), .write .socket 5, .lock (.nic 0), .send (.nic 0) (msiIrqMsg 1), .write (.nic 0) 12,
    .write .socket 11]

/-- The two threads of these runs are done. -/
theorem quiet_of_two {es : List SendAllEvent} (h : run step exampleStart es = some t)
    (hes : ∀ e ∈ es, ∀ i m, i ≠ 0 → e ≠ .send (.nic i) m) (hs : t.out.sending .socket = none)
    (h0 : t.out.sending (.nic 0) = none) : t.out.Quiet := by
  intro x
  cases x with
  | socket => exact hs
  | nic i =>
    by_cases hi : i = 0
    · exact hi ▸ h0
    · exact sending_run rfl (along_of_forall fun e he _ m => hes e he i m hi) h

theorem whole_turns : ∃ t, run step exampleStart exampleTurns = some t ∧ t.out.Quiet ∧
    Along step Alone exampleStart exampleTurns := by
  have hr : ((run step exampleStart exampleTurns).map fun t =>
      ((t.out.sending .socket).isNone, (t.out.sending (.nic 0)).isNone, t.out.begun.length,
        decide (t.out.stream = t.out.messages [0, 1]))) = some (true, true, 2, true) := by decide +kernel
  obtain ⟨t, ht, he⟩ := Option.map_eq_some_iff.mp hr
  simp only [Prod.mk.injEq, Option.isNone_iff_eq_none, decide_eq_true_eq] at he
  have hq := quiet_of_two ht (by simp [exampleTurns]; omega) he.1 he.2.1
  refine ⟨t, ht, hq, (whole_iff_alone ⟨fun _ => rfl, rfl, rfl⟩ ht hq).mp ⟨[0, 1], ?_, he.2.2.2⟩⟩
  rw [he.2.2.1]
  exact List.Perm.refl _

/-- QEMU finds the interrupt inside the reply: the bytes sent are neither message
followed by the other. -/
theorem reply_inside_message : ∃ t, run step exampleStart exampleInside = some t ∧ t.out.Quiet ∧ ¬ t.out.Whole ∧
    t.out.stream.map Prod.snd ≠ (mmioReadResp 1).frame.cells ++ (msiIrqMsg 1).frame.cells ∧
    t.out.stream.map Prod.snd ≠ (msiIrqMsg 1).frame.cells ++ (mmioReadResp 1).frame.cells := by
  have hr : ((run step exampleStart exampleInside).map fun t =>
      ((t.out.sending .socket).isNone, (t.out.sending (.nic 0)).isNone, t.out.nums)) =
      some (true, true, List.replicate 5 0 ++ List.replicate 12 1 ++ List.replicate 11 0) := by decide +kernel
  have hb : ((run step exampleStart exampleInside).map fun t =>
      decide (t.out.stream.map Prod.snd ≠ (mmioReadResp 1).frame.cells ++ (msiIrqMsg 1).frame.cells ∧
        t.out.stream.map Prod.snd ≠ (msiIrqMsg 1).frame.cells ++ (mmioReadResp 1).frame.cells)) = some true := by
    decide +kernel
  obtain ⟨t, ht, he⟩ := Option.map_eq_some_iff.mp hr
  simp only [Prod.mk.injEq, Option.isNone_iff_eq_none] at he
  rw [ht, Option.map_some, Option.some.injEq, decide_eq_true_eq] at hb
  refine ⟨t, ht, quiet_of_two ht (by simp [exampleInside]; omega) he.1 he.2.1, Writers.Broken.not_whole ?_, hb⟩
  exact ⟨[], List.replicate 4 0, List.replicate 11 1, List.replicate 10 0, 0, 1, by decide, he.2.2⟩

end SmartEth.SendAll
