import SmartEth.Impl.PciTest

/-!
# The last poll of the DMA test

The device answers the reads of `DMA_STS` as it may; the test ought to report whether one of
them has shown it not busy, and to stop there. What `timeout` has counted down to tells after the
loop whether a read has shown the device idle (`exec_pollDma_idle`, `exec_pollDma_busy`). It is
zero after the 500th read: the test takes a transfer that is over only then for a timeout, and is
truthful otherwise (`truthful_iff_not_last`).
-/

namespace SmartEth.PciTest

/-! ## The device and the report -/

/-- The values that the reads of `DMA_STS` return, one after another, and the other loads. -/
structure Device where
  dmaSts : Nat → Word
  other : BitVec 64 → Word

/-- An operation is answered, after `n` reads of `DMA_STS`. -/
def Device.answer (d : Device) (bar0 : BitVec 64) (n : Nat) : (e : FirmwareOp) → e.Res × Nat
  | .load addr => if addr = regAddr bar0 REG_DMA_STS then (d.dmaSts n, n + 1) else (d.other addr, n)
  | .store _ _ => ((), n)
  | .puts _ => ((), n)
  | .delay _ => ((), n)

/-- What `test_dma` returns, and how often it has read `DMA_STS`. -/
def Device.outcome (d : Device) (bar0 : BitVec 64) : PciTestResult × Nat := (testDma bar0).exec (d.answer bar0) 0

/-- The value has the busy bit clear. -/
def Idle (sts : Word) : Prop := sts &&& STATUS_DMA_BSY = 0

instance (sts : Word) : Decidable (Idle sts) := inferInstanceAs (Decidable (_ = _))

/-- The test passes exactly if one of its reads has the bit clear; it makes 500 of them at most, and
none after that one. -/
structure Truthful (d : Device) (bar0 : BitVec 64) : Prop where
  pass_iff : (d.outcome bar0).1 = .pass ↔ ∃ i < (d.outcome bar0).2, Idle (d.dmaSts i)
  reads_le : (d.outcome bar0).2 ≤ 500
  stops : ∀ i < (d.outcome bar0).2, Idle (d.dmaSts i) → (d.outcome bar0).2 = i + 1

/-- The first value with the bit clear is that of read `n`, counted from 0. -/
def FirstIdle (d : Device) (n : Nat) : Prop := (∀ i < n, ¬ Idle (d.dmaSts i)) ∧ Idle (d.dmaSts n)

/-! ## The loop -/

variable {d : Device} {bar0 : BitVec 64} {k n : Nat}

theorem answer_dmaSts (d : Device) (bar0 : BitVec 64) (k : Nat) :
    d.answer bar0 k (.load (regAddr bar0 REG_DMA_STS)) = (d.dmaSts k, k + 1) := if_pos rfl

/-- One read, and the rest of the loop if it shows the device busy. -/
theorem exec_pollDma_succ (d : Device) (bar0 : BitVec 64) (k n : Nat) :
    (pollDma bar0 (n + 1)).exec (d.answer bar0) k =
      if Idle (d.dmaSts k) then ((n : Int), k + 1) else (pollDma bar0 n).exec (d.answer bar0) (k + 1) := by
  rw [pollDma, smartethRegRead, load, Prog.call_bind, Prog.exec_op, answer_dmaSts]
  dsimp only
  by_cases hidle : Idle (d.dmaSts k)
  · rw [if_pos hidle, if_pos (show d.dmaSts k &&& STATUS_DMA_BSY = 0 from hidle)]
    rfl
  · rw [if_neg hidle, if_neg (show ¬ d.dmaSts k &&& STATUS_DMA_BSY = 0 from hidle)]
    rfl

/-- After `k` reads, with `n` left: read `j` of these is the first that shows the device idle. -/
theorem exec_pollDma_idle {j : Nat} (hj : j < n) (hb : ∀ i < j, ¬ Idle (d.dmaSts (k + i)))
    (hi : Idle (d.dmaSts (k + j))) :
    (pollDma bar0 n).exec (d.answer bar0) k = (((n - 1 - j : Nat) : Int), k + j + 1) := by
  induction j generalizing k n with
  | zero =>
    obtain ⟨n, rfl⟩ := Nat.exists_eq_succ_of_ne_zero hj.ne'
    have hi : Idle (d.dmaSts k) := hi
    rw [exec_pollDma_succ, if_pos hi]
    rfl
  | succ j ih =>
    obtain ⟨n, rfl⟩ := Nat.exists_eq_succ_of_ne_zero (Nat.ne_of_gt (Nat.zero_lt_of_lt hj))
    have hfirst : ¬ Idle (d.dmaSts k) := hb 0 (Nat.succ_pos j)
    have hadd : ∀ i, k + 1 + i = k + (i + 1) := fun i => by omega
    rw [exec_pollDma_succ, if_neg hfirst,
      ih (by omega) (fun i hi => hadd i ▸ hb (i + 1) (by omega)) (hadd j ▸ hi), hadd]
    refine Prod.ext (congrArg Nat.cast ?_) rfl
    omega

/-- After `k` reads: none of the `n` left shows the device idle. -/
theorem exec_pollDma_busy (hb : ∀ i < n, ¬ Idle (d.dmaSts (k + i))) :
    (pollDma bar0 n).exec (d.answer bar0) k = (-1, k + n) := by
  induction n generalizing k with
  | zero => rfl
  | succ n ih =>
    have hfirst : ¬ Idle (d.dmaSts k) := hb 0 (Nat.succ_pos n)
    have hadd : ∀ i, k + 1 + i = k + (i + 1) := fun i => by omega
    rw [exec_pollDma_succ, if_neg hfirst, ih fun i hi => hadd i ▸ hb (i + 1) (by omega), hadd]

/-! ## The test -/

theorem exec_fillPattern (d : Device) (bar0 : BitVec 64) (k n : Nat) :
    (fillPattern n).exec (d.answer bar0) k = ((), k) := by
  induction n with
  | zero => rfl
  | succ n ih =>
    rw [fillPattern, store, Prog.call_bind, Prog.exec_op]
    exact ih

/-- The test passes on a `timeout` above zero; only the loop reads `DMA_STS`. -/
theorem outcome_eq {timeout : Int} {reads : Nat}
    (h : (pollDma bar0 500).exec (d.answer bar0) 0 = (timeout, reads)) :
    d.outcome bar0 = (if timeout ≤ 0 then .fail else .pass, reads) := by
  rw [Device.outcome, testDma, Prog.exec_bind, exec_fillPattern]
  show (pollDma bar0 500 >>= _ : FirmwareM PciTestResult).exec (d.answer bar0) 0 = _
  rw [Prog.exec_bind, h]
  dsimp only
  split
  · rfl
  · rfl

/-- The test stops at the first read that shows the device idle, and passes unless it is the 500th. -/
theorem outcome_of_firstIdle (bar0 : BitVec 64) (h : FirstIdle d n) (hn : n < 500) :
    d.outcome bar0 = (if n < 499 then .pass else .fail, n + 1) := by
  have hzero : ∀ i, 0 + i = i := Nat.zero_add
  have hloop : (pollDma bar0 500).exec (d.answer bar0) 0 = (((500 - 1 - n : Nat) : Int), 0 + n + 1) :=
    exec_pollDma_idle hn (fun i hi => (hzero i).symm ▸ h.1 i hi) ((hzero n).symm ▸ h.2)
  rw [outcome_eq hloop, hzero]
  by_cases hlast : n < 499
  · rw [if_neg (by omega), if_pos hlast]
  · rw [if_pos (by omega), if_neg hlast]

/-- No read shows the device idle. -/
theorem outcome_of_busy (bar0 : BitVec 64) (h : ∀ i < 500, ¬ Idle (d.dmaSts i)) : d.outcome bar0 = (.fail, 500) := by
  have hloop : (pollDma bar0 500).exec (d.answer bar0) 0 = (-1, 0 + 500) :=
    exec_pollDma_busy fun i hi => (Nat.zero_add i).symm ▸ h i hi
  rw [outcome_eq hloop]
  rfl

/-- The first read of `m` that shows the device idle, if there is one. -/
theorem firstIdle_or_busy (d : Device) (m : Nat) : (∃ n < m, FirstIdle d n) ∨ ∀ i < m, ¬ Idle (d.dmaSts i) := by
  by_cases h : ∃ n, n < m ∧ Idle (d.dmaSts n)
  · have hmin : ∀ i < Nat.find h, ¬ Idle (d.dmaSts i) := fun i hi hidle =>
      Nat.find_min h hi ⟨hi.trans (Nat.find_spec h).1, hidle⟩
    exact .inl ⟨Nat.find h, (Nat.find_spec h).1, hmin, (Nat.find_spec h).2⟩
  · exact .inr fun i hi hidle => h ⟨i, hi, hidle⟩

/-- The device is idle in none of the reads before the last. -/
theorem FirstIdle.eq_of_lt (h : FirstIdle d n) {i : Nat} (hi : i < n + 1) (hidle : Idle (d.dmaSts i)) : i = n := by
  by_contra hne
  exact h.1 i (by omega) hidle

/-- A read before the 500th shows the device idle. -/
theorem FirstIdle.truthful (bar0 : BitVec 64) (h : FirstIdle d n) (hn : n < 499) : Truthful d bar0 := by
  have hout := outcome_of_firstIdle bar0 h (by omega)
  rw [if_pos hn] at hout
  refine ⟨?_, ?_, fun i hi hidle => ?_⟩
  · rw [hout]
    exact iff_of_true rfl ⟨n, n.lt_succ_self, h.2⟩
  · rw [hout]
    dsimp only
    omega
  · rw [hout] at hi ⊢
    rw [h.eq_of_lt hi hidle]

theorem truthful_of_busy (bar0 : BitVec 64) (h : ∀ i < 500, ¬ Idle (d.dmaSts i)) : Truthful d bar0 := by
  have hout := outcome_of_busy bar0 h
  refine ⟨?_, ?_, fun i hi hidle => ?_⟩
  · rw [hout]
    refine iff_of_false nofun ?_
    rintro ⟨i, hi, hidle⟩
    exact h i hi hidle
  · rw [hout]
  · rw [hout] at hi
    exact absurd hidle (h i hi)

/-- The test fails, though its 500th read shows the device idle. -/
theorem FirstIdle.not_truthful (bar0 : BitVec 64) (h : FirstIdle d 499) : ¬ Truthful d bar0 := by
  intro ht
  have hpass := ht.pass_iff
  rw [outcome_of_firstIdle bar0 h (by decide)] at hpass
  cases hpass.mpr ⟨499, Nat.lt_succ_self 499, h.2⟩

/-- The test tells the truth about any values of `DMA_STS` but those whose first with the bit clear is the 500th. -/
theorem truthful_iff_not_last (d : Device) (bar0 : BitVec 64) : Truthful d bar0 ↔ ¬ FirstIdle d 499 := by
  refine ⟨fun ht hlast => hlast.not_truthful bar0 ht, fun hlast => ?_⟩
  rcases firstIdle_or_busy d 500 with ⟨n, hn, hfirst⟩ | hbusy
  · have hne : n ≠ 499 := by
      rintro rfl
      exact hlast hfirst
    exact hfirst.truthful bar0 (by omega)
  · exact truthful_of_busy bar0 hbusy

/-- A device that is busy in 499 reads, and then no more. -/
def lateDevice : Device := ⟨fun i => if i < 499 then STATUS_DMA_BSY else 0, fun _ => 0⟩

theorem firstIdle_lateDevice : FirstIdle lateDevice 499 := by
  have hbusy : ¬ Idle STATUS_DMA_BSY := by decide
  refine ⟨fun i hi => ?_, rfl⟩
  have hsts : lateDevice.dmaSts i = STATUS_DMA_BSY := if_pos hi
  rw [hsts]
  exact hbusy

/-- The last read shows that the transfer is over, and the test fails. -/
theorem late_transfer_fails : ¬ ∀ (d : Device) (bar0 : BitVec 64), Truthful d bar0 := fun h =>
  firstIdle_lateDevice.not_truthful 0x40000000 (h lateDevice 0x40000000)

end SmartEth.PciTest
