import SmartEth.System.ProbeCalls

/-!
# What probe and remove hold

The labels of probe release what the calls before them have acquired, but none of them frees the
receive buffers: a probe that fails while it prepares them keeps those it has prepared
(`exec_prepareRxBuffers`). Everything is released exactly if it gets none or all of them
(`releasesAll_iff`).
-/

namespace SmartEth

namespace Holdings

theorem ext {s t : Holdings} (h : ∀ r, s.held r = t.held r) (hb : s.bad = t.bad) : s = t := by
  obtain ⟨held, bad⟩ := s
  obtain ⟨held', bad'⟩ := t
  obtain rfl : held = held' := funext h
  obtain rfl : bad = bad' := hb
  rfl

/-- `n` buffers from `i` on are held besides. -/
def withBufs (s : Holdings) (i n : Nat) : Holdings :=
  { s with held := fun
    | .rxBuf j => (i ≤ j && j < i + n) || s.held (.rxBuf j)
    | .rxMap j => (i ≤ j && j < i + n) || s.held (.rxMap j)
    | r => s.held r }

/-- No buffer from `i` on is held. -/
def NoBufs (s : Holdings) (i : Nat) : Prop := ∀ j, i ≤ j → s.held (.rxBuf j) = false ∧ s.held (.rxMap j) = false

variable {s : Holdings} {i n : Nat}

theorem withBufs_zero (s : Holdings) (i : Nat) : s.withBufs i 0 = s := by
  refine ext (fun r => ?_) rfl
  cases r <;> simp [withBufs]

/-- The first of them, and the others. -/
theorem withBufs_succ (s : Holdings) (i n : Nat) :
    ((s.acquire (.rxBuf i)).acquire (.rxMap i)).withBufs (i + 1) n = s.withBufs i (n + 1) := by
  refine ext (fun r => ?_) rfl
  cases r with
  | rxBuf j =>
    simp only [withBufs, acquire, reduceCtorEq, if_false, Resource.rxBuf.injEq]
    by_cases h : j = i
    · simp [h]
    · rw [if_neg h]
      congr 2 <;> simp <;> omega
  | rxMap j =>
    simp only [withBufs, acquire, reduceCtorEq, if_false, Resource.rxMap.injEq]
    by_cases h : j = i
    · simp [h]
    · rw [if_neg h]
      congr 2 <;> simp <;> omega
  | _ => rfl

/-- A buffer that could not be mapped. -/
theorem release_acquire {r : Resource} (h : s.held r = false) : (s.acquire r).release r = s := by
  refine ext (fun x => ?_) ?_
  · by_cases hx : x = r
    · simp [acquire, release, hx, h]
    · simp [acquire, release, hx]
  · simp [acquire, release]

/-- The first of the buffers is released. -/
theorem release_withBufs (h : s.NoBufs i) :
    ((s.withBufs i (n + 1)).release (.rxMap i)).release (.rxBuf i) = s.withBufs (i + 1) n := by
  refine ext (fun r => ?_) ?_
  · cases r with
    | rxBuf j =>
      simp only [withBufs, release, reduceCtorEq, if_false, Resource.rxBuf.injEq]
      by_cases hj : j = i
      · simp [hj, (h i le_rfl).1]
      · rw [if_neg hj]
        congr 2 <;> simp <;> omega
    | rxMap j =>
      simp only [withBufs, release, reduceCtorEq, if_false, Resource.rxMap.injEq]
      by_cases hj : j = i
      · simp [hj, (h i le_rfl).2]
      · rw [if_neg hj]
        congr 2 <;> simp <;> omega
    | _ => rfl
  · simp [withBufs, release]

end Holdings

namespace ProbeCalls

variable (ok : ProbeCall → Bool) {s : Holdings}

/-! ## Calls -/

/-- What is held after a call that succeeds. -/
def afterCall (c : ProbeCall) (s : Holdings) : Holdings :=
  match c with
  | .get r => s.acquire r
  | _ => s

theorem exec_call (c : ProbeCall) {α : Type} (k : Bool → ProbeM α) :
    (Prog.call (ProbeOp.call c) >>= k).exec (answer ok) s =
      if ok c then (k true).exec (answer ok) (afterCall c s) else (k false).exec (answer ok) s := by
  rw [Prog.call_bind, Prog.exec_op]
  cases c <;> simp only [answer, afterCall] <;> split <;> simp_all

theorem exec_get (r : Resource) {α : Type} (k : Bool → ProbeM α) :
    (get r >>= k).exec (answer ok) s =
      if ok (.get r) then (k true).exec (answer ok) (s.acquire r) else (k false).exec (answer ok) s :=
  exec_call ok (.get r) k

theorem exec_release (r : Resource) {α : Type} (k : Unit → ProbeM α) :
    (release r >>= k).exec (answer ok) s = (k ()).exec (answer ok) (s.release r) := rfl

/-! ## Receive buffers -/

/-- How many of `n` buffers from `i` on are prepared. -/
def prepared (i : Nat) : Nat → Nat
  | 0 => 0
  | n + 1 => if bufferOk ok i then prepared (i + 1) n + 1 else 0

theorem prepared_eq_iff (i n : Nat) : prepared ok i n = n ↔ ∀ j, i ≤ j → j < i + n → bufferOk ok j = true := by
  induction n generalizing i with
  | zero => exact iff_of_true rfl fun j _ _ => by omega
  | succ n ih =>
    rw [prepared]
    by_cases h : bufferOk ok i = true
    · rw [if_pos h, Nat.add_right_cancel_iff, ih]
      constructor
      · intro hj j h1 h2
        rcases Nat.lt_or_eq_of_le h1 with h1 | rfl
        · exact hj j h1 (by omega)
        · exact h
      · intro hj j h1 h2
        exact hj j (by omega) (by omega)
    · rw [if_neg h]
      exact iff_of_false (by omega) fun hj => h (hj i le_rfl (by omega))

/-- The preparation holds the buffers it has prepared. -/
theorem exec_prepareRxBuffers {i : Nat} (n : Nat) (h : s.NoBufs i) :
    ((prepareRxBuffers i n).exec (answer ok) s).1.2 = decide (prepared ok i n = n) ∧
      (prepared ok i n = n → ((prepareRxBuffers i n).exec (answer ok) s).1.1 = List.replicate n true) ∧
      ((prepareRxBuffers i n).exec (answer ok) s).2 = s.withBufs i (prepared ok i n) := by
  induction n generalizing i s with
  | zero => exact ⟨rfl, fun _ => rfl, (s.withBufs_zero i).symm⟩
  | succ n ih =>
    rw [prepareRxBuffers, exec_get, prepared, bufferOk]
    by_cases hb : ok (.get (.rxBuf i)) = true
    · rw [if_pos hb]
      by_cases hm : ok (.get (.rxMap i)) = true
      · have h' : ((s.acquire (.rxBuf i)).acquire (.rxMap i)).NoBufs (i + 1) := by
          intro j hj
          obtain ⟨h1, h2⟩ := h j (by omega)
          have hne : j ≠ i := by omega
          simp [Holdings.acquire, h1, h2, hne]
        obtain ⟨h1, h2, h3⟩ := ih h'
        simp only [Bool.not_true, Bool.false_eq_true, if_false, hb, hm, Bool.and_self, if_true]
        rw [exec_get, if_pos hm]
        simp only [Bool.not_true, Bool.false_eq_true, if_false, Prog.exec_bind, Prog.pure_eq, Prog.exec_ret]
        refine ⟨?_, fun he => ?_, ?_⟩
        · rw [h1]
          simp
        · rw [h2 (by omega)]
          rfl
        · rw [h3, Holdings.withBufs_succ]
      · simp only [Bool.not_true, Bool.false_eq_true, if_false, hb, hm, Bool.and_false]
        rw [exec_get, if_neg hm]
        simp only [Bool.not_false, if_true]
        rw [exec_release, Holdings.release_acquire (h i le_rfl).1]
        exact ⟨by simp, fun he => absurd he (by omega), (s.withBufs_zero i).symm⟩
    · simp only [Bool.eq_false_of_not_eq_true hb, Bool.false_eq_true, if_false, Bool.not_false, if_true,
        Bool.false_and]
      exact ⟨by simp, fun he => absurd he (by omega), (s.withBufs_zero i).symm⟩

/-- All the buffers are released again. -/
theorem exec_freeRxBuffers {i : Nat} (n : Nat) (h : s.NoBufs i) :
    ((freeRxBuffers i (List.replicate n true)).exec (answer ok) (s.withBufs i n)).2 = s := by
  induction n generalizing i with
  | zero => exact s.withBufs_zero i
  | succ n ih =>
    rw [List.replicate_succ, freeRxBuffers, if_pos rfl]
    show ((freeRxBuffers (i + 1) (List.replicate n true)).exec (answer ok)
      (((s.withBufs i (n + 1)).release (.rxMap i)).release (.rxBuf i))).2 = s
    rw [Holdings.release_withBufs h]
    exact ih fun j hj => h j (by omega)

/-! ## Probe and remove -/

/-- What is held when the preparation of the buffers is reached. -/
def beforeBuffers : Holdings where
  held := fun
    | .rxBuf _ | .rxMap _ => false
    | _ => true
  bad := false

theorem noBufs_beforeBuffers : beforeBuffers.NoBufs 0 := fun _ _ => ⟨rfl, rfl⟩

/-- From `s` on, probe fails and leaves nothing. -/
def FailsClean (p : ProbeM (Option (List Bool))) (s : Holdings) : Prop :=
  (p.exec (answer ok) s).1 = none ∧ (p.exec (answer ok) s).2.devresRelease.Clean

theorem failsClean_call {c : ProbeCall} {k : Bool → ProbeM (Option (List Bool))}
    (hf : FailsClean ok (k false) s) (ht : ok c = true → FailsClean ok (k true) (afterCall c s)) :
    FailsClean ok (Prog.call (ProbeOp.call c) >>= k) s := by
  rw [FailsClean, exec_call]
  by_cases h : ok c = true
  · rw [if_pos h]
    exact ht h
  · rw [if_neg h]
    exact hf

/-- The calls before the buffers, all of them successful. -/
theorem exec_probe (h : ∀ c ∈ earlierCalls, ok c = true) :
    probe.exec (answer ok) .none =
      (do
        let (bufs, ok) ← prepareRxBuffers 0 SmartEthMain.SMARTETH_RING_SIZE
        if !ok then errIrq else pure (some bufs) : ProbeM _).exec (answer ok) beforeBuffers := by
  have hc : ∀ c ∈ earlierCalls, ∀ (s : Holdings) (k : Bool → ProbeM (Option (List Bool))),
      (Prog.call (ProbeOp.call c) >>= k).exec (answer ok) s = (k true).exec (answer ok) (afterCall c s) := by
    intro c hm s k
    rw [exec_call, if_pos (h c hm)]
  simp only [earlierCalls, List.forall_mem_cons] at hc
  obtain ⟨h1, h2, h3, h4, h5, h6, h7, h8, h9, h10, h11, h12, -⟩ := hc
  simp only [probe, probeRings, get, dmaMask, devId, h1, h2, h3, h4, h5, h6, h7, h8, h9, h10, h11, h12,
    Bool.not_true, Bool.false_eq_true, if_false, Bool.or_self]
  congr 1
  refine Holdings.ext (fun r => ?_) rfl
  cases r <;> rfl

/-- The labels release what was acquired. -/
theorem releasesAll_of_earlier (h : ¬ ∀ c ∈ earlierCalls, ok c = true) : ReleasesAll ok := by
  have hf : FailsClean ok probe .none := by
    refine failsClean_call ok (c := .get .adapter) ⟨rfl, by rintro (_ | _) <;> rfl, rfl⟩ fun h1 => ?_
    refine failsClean_call ok (c := .get .device) ⟨rfl, by rintro (_ | _) <;> rfl, rfl⟩ fun h2 => ?_
    refine failsClean_call ok (c := .dmaMask) ⟨rfl, by rintro (_ | _) <;> rfl, rfl⟩ fun h3 => ?_
    refine failsClean_call ok (c := .get .region) ⟨rfl, by rintro (_ | _) <;> rfl, rfl⟩ fun h4 => ?_
    refine failsClean_call ok (c := .get .iomap) ⟨rfl, by rintro (_ | _) <;> rfl, rfl⟩ fun h5 => ?_
    refine failsClean_call ok (c := .devId) ⟨rfl, by rintro (_ | _) <;> rfl, rfl⟩ fun h6 => ?_
    refine failsClean_call ok (c := .get .vectors) ⟨rfl, by rintro (_ | _) <;> rfl, rfl⟩ fun h7 => ?_
    refine failsClean_call ok (c := .get .irq) ⟨rfl, by rintro (_ | _) <;> rfl, rfl⟩ fun h8 => ?_
    refine failsClean_call ok (c := .get .txRing) ⟨rfl, by rintro (_ | _) <;> rfl, rfl⟩ fun h9 => ?_
    refine failsClean_call ok (c := .get .rxRing) ⟨rfl, by rintro (_ | _) <;> rfl, rfl⟩ fun h10 => ?_
    refine failsClean_call ok (c := .get .rxBufArray) ?_ fun h11 => ?_
    · refine failsClean_call ok (c := .get .rxDmaArray) ?_ fun _ => ?_
      all_goals exact ⟨rfl, by rintro (_ | _) <;> rfl, rfl⟩
    refine failsClean_call ok (c := .get .rxDmaArray) ⟨rfl, by rintro (_ | _) <;> rfl, rfl⟩ fun h12 => ?_
    refine absurd ?_ h
    simp only [earlierCalls, List.forall_mem_cons]
    exact ⟨h1, h2, h3, h4, h5, h6, h7, h8, h9, h10, h11, h12, List.forall_mem_nil _⟩
  have hp : probed ok = (none, (probe.exec (answer ok) .none).2.devresRelease) := by
    rw [probed, hf.1]
    rfl
  rw [ReleasesAll, hp]
  exact hf.2

/-- The labels do not free the buffers. -/
theorem clean_errIrq_iff (m : Nat) :
    (errIrq.exec (answer ok) (beforeBuffers.withBufs 0 m)).2.devresRelease.Clean ↔ m = 0 := by
  constructor
  · intro h
    have h0 : ((decide (0 ≤ 0) && decide (0 < 0 + m) || false) && true) = false := h.1 (.rxBuf 0)
    simpa using h0
  · rintro rfl
    rw [Holdings.withBufs_zero]
    exact ⟨by rintro (_ | _) <;> rfl, rfl⟩

theorem clean_removed (n : Nat) :
    (removed ok (List.replicate n true) (beforeBuffers.withBufs 0 n)).Clean := by
  rw [removed, remove, Prog.exec_bind, exec_freeRxBuffers ok n noBufs_beforeBuffers]
  exact ⟨by rintro (_ | _) <;> rfl, rfl⟩

/-- Where the preparation of the buffers is reached. -/
theorem releasesAll_iff_prepared (h : ∀ c ∈ earlierCalls, ok c = true) :
    ReleasesAll ok ↔ prepared ok 0 SmartEthMain.SMARTETH_RING_SIZE = SmartEthMain.SMARTETH_RING_SIZE ∨
      prepared ok 0 SmartEthMain.SMARTETH_RING_SIZE = 0 := by
  obtain ⟨hdone, hlist, hheld⟩ := exec_prepareRxBuffers ok SmartEthMain.SMARTETH_RING_SIZE noBufs_beforeBuffers
  by_cases hm : prepared ok 0 SmartEthMain.SMARTETH_RING_SIZE = SmartEthMain.SMARTETH_RING_SIZE
  · have hp : probed ok = (some (List.replicate SmartEthMain.SMARTETH_RING_SIZE true),
        beforeBuffers.withBufs 0 SmartEthMain.SMARTETH_RING_SIZE) := by
      rw [probed, exec_probe ok h, Prog.exec_bind]
      simp only [hdone, hheld, hm, hlist hm, decide_true, Bool.not_true, Bool.false_eq_true, if_false,
        Prog.pure_eq, Prog.exec_ret, Option.isNone_some]
    rw [ReleasesAll, hp]
    exact iff_of_true ⟨rfl, clean_removed ok _⟩ (.inl hm)
  · have hp : probed ok = (none, (errIrq.exec (answer ok)
        (beforeBuffers.withBufs 0 (prepared ok 0 SmartEthMain.SMARTETH_RING_SIZE))).2.devresRelease) := by
      rw [probed, exec_probe ok h, Prog.exec_bind]
      simp only [hdone, hheld, hm, decide_false, Bool.not_false, if_true]
      rfl
    rw [ReleasesAll, hp]
    exact (clean_errIrq_iff ok _).trans (or_iff_right hm).symm

/-- Probe and remove release everything exactly if the receive buffers are all prepared or none. -/
theorem releasesAll_iff : ReleasesAll ok ↔ NoneOrAllBuffers ok := by
  by_cases h : ∀ c ∈ earlierCalls, ok c = true
  · rw [releasesAll_iff_prepared ok h, prepared_eq_iff]
    constructor
    · rintro (hall | h0) - hb i hi
      · exact hall i (Nat.zero_le i) (by omega)
      · rw [SmartEthMain.SMARTETH_RING_SIZE, prepared, if_pos hb] at h0
        exact absurd h0 (Nat.succ_ne_zero _)
    · intro hall
      by_cases hb : bufferOk ok 0 = true
      · exact .inl fun j _ hj => hall h hb j (by omega)
      · rw [SmartEthMain.SMARTETH_RING_SIZE, prepared, if_neg hb]
        exact .inr rfl
  · exact iff_of_true (releasesAll_of_earlier ok h) fun hall => absurd hall h

/-- The second `kmalloc` of the receive buffers fails: the first buffer is kept, mapped. -/
theorem second_buffer_fails : ¬ ∀ ok, ReleasesAll ok := by
  intro h
  have hp := (releasesAll_iff_prepared (fun c => c ≠ .get (.rxBuf 1)) (by decide)).mp (h _)
  exact absurd hp (by decide)

end ProbeCalls

end SmartEth
