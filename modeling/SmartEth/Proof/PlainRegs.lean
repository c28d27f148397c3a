import SmartEth.Proof.NicFrame
import SmartEth.Proof.RegFiles

/-!
# Plain registers

A plain register of the NIC, and the bridge's copy of it, hold the last value
written (`Plain.reg_onMmioWrite`, `Plain.regs_mmioWrite`).
-/

namespace SmartEth

open SmartNic

variable {addr : Addr}

/-! ## The last write -/

theorem lastWritten_append (ws ws' : List (Addr × Word)) :
    lastWritten addr (ws ++ ws') = (lastWritten addr ws').or (lastWritten addr ws) := by
  rw [lastWritten, List.reverse_append, List.find?_append, Option.map_or]
  rfl

theorem lastWritten_singleton (w : Addr × Word) : lastWritten addr [w] = if w.1 = addr then some w.2 else none := by
  rw [lastWritten, List.reverse_singleton, List.find?_singleton]
  by_cases h : w.1 = addr
  · rw [if_pos h, if_pos (decide_eq_true h)]
    rfl
  · rw [if_neg h, if_neg (by simpa using h)]
    rfl

theorem getD_lastWritten_append (ws ws' : List (Addr × Word)) (v : Word) :
    (lastWritten addr (ws ++ ws')).getD v = (lastWritten addr ws').getD ((lastWritten addr ws).getD v) := by
  rw [lastWritten_append]
  cases lastWritten addr ws' <;> rfl

theorem getD_lastWritten_cons (w : Addr × Word) (ws : List (Addr × Word)) (v : Word) :
    (lastWritten addr (w :: ws)).getD v = (lastWritten addr ws).getD (if w.1 = addr then w.2 else v) := by
  rw [← List.singleton_append, getD_lastWritten_append, lastWritten_singleton]
  by_cases h : w.1 = addr
  · rw [if_pos h, if_pos h]
    rfl
  · rw [if_neg h, if_neg h]
    rfl

/-! ## Plain registers -/

theorem Plain.ne (h : Plain addr) {a : Addr} (ha : a ∈ SPECIAL_REGS) : addr ≠ a := fun he => h.2.2 (he ▸ ha)

theorem Plain.index_ne (h : Plain addr) {a : Addr} (ha : a ∈ SPECIAL_REGS) : addr >>> 2 ≠ a >>> 2 := by
  have hal : a &&& 3 = 0 := by
    simp only [SPECIAL_REGS, List.mem_cons, List.not_mem_nil, or_false] at ha
    rcases ha with rfl | rfl | rfl | rfl | rfl | rfl | rfl | rfl | rfl | rfl <;> rfl
  intro he
  exact h.ne ha ((shift_inj h.1 hal).mp he)

theorem Plain.hostReg (h : Plain addr) : HostReg addr := by
  intro b hb
  refine h.index_ne ?_
  simp only [NIC_REGS, List.mem_cons, List.not_mem_nil, or_false] at hb
  rcases hb with rfl | rfl | rfl | rfl | rfl <;> simp [SPECIAL_REGS]

theorem Plain.takesWrite (h : Plain addr) : ScBridge.takesWrite addr = true := by
  rw [ScBridge.takesWrite, decide_eq_true h.2.1, decide_eq_true (h.ne (by decide)),
    decide_eq_true (h.ne (by decide))]
  rfl

theorem Plain.onMmioRead (h : Plain addr) (nic : SmartNic) : nic.onMmioRead addr = nic.reg addr := by
  rw [SmartNic.onMmioRead, if_neg (h.ne (by decide))]
  exact (read_of_takesWrite (.new false) nic.regs h.takesWrite).2

theorem Plain.mmioReadLocal (h : Plain addr) (q : ScBridge) : q.mmioReadLocal addr = q.regs (addr >>> 2) :=
  (read_of_takesWrite q .new h.takesWrite).1

/-- A plain register of the NIC keeps what is written to it, and no other write
changes it. -/
theorem Plain.reg_onMmioWrite (h : Plain addr) (nic : SmartNic) {w : Addr × Word} (hw : Ordinary w) :
    (nic.onMmioWrite w.1 w.2).1.reg addr = if w.1 = addr then w.2 else nic.reg addr := by
  have hstart : ∀ u : SmartNic, (u.startDma w.2).reg addr = u.reg addr :=
    fun u => reg_setReg_ne (h.index_ne (by decide))
  have hregs : (nic.regs.write w.1 w.2).1.getReg (addr >>> 2) = if w.1 = addr then w.2 else nic.reg addr := by
    rw [RegBlock.write_of_not_reset _ hw.2]
    by_cases hwa : w.1 = addr
    · have ht : w.1 < SC_REG_COUNT ∧ w.1 ≠ SC_REG_STATUS ∧ w.1 ≠ SC_REG_DEV_ID :=
        ⟨hwa ▸ h.2.1, hwa ▸ h.ne (by decide), hwa ▸ h.ne (by decide)⟩
      rw [if_neg (not_not.mpr ht), if_neg (hwa ▸ h.ne (by decide)), if_neg (hwa ▸ h.ne (by decide)), if_pos hwa, hwa]
      exact RegBlock.getReg_setReg_self _ _ _
    · rw [if_neg hwa]
      have hi : addr >>> 2 ≠ w.1 >>> 2 := fun he => hwa ((shift_inj h.1 hw.1).mp he).symm
      repeat' split
      · rfl
      · exact RegBlock.getReg_setReg_ne (h.index_ne (by decide))
      · rfl
      · exact RegBlock.getReg_setReg_ne (h.index_ne (by decide))
      · exact RegBlock.getReg_setReg_ne hi
  rw [onMmioWrite_fst]
  dsimp only
  split
  · rw [hstart]
    exact hregs
  · exact hregs

/-- So does the bridge's copy. -/
theorem Plain.regs_mmioWrite (h : Plain addr) (q : ScBridge) {w : Addr × Word} (hw : Ordinary w) :
    (q.mmioWrite w.1 (w.2.setWidth 64)).1.regs (addr >>> 2) = if w.1 = addr then w.2 else q.regs (addr >>> 2) := by
  have hreset : ¬ (w.1 = SC_REG_CTRL ∧ w.2.setWidth 64 &&& SC_CTRL_RESET.setWidth 64 ≠ 0) := by
    rw [ne_eq, setWidth_and_eq_zero]
    exact hw.2
  have hset : ∀ (q : ScBridge) {a : Addr} (v : Word), addr >>> 2 ≠ a >>> 2 →
      (q.setReg a v).regs (addr >>> 2) = q.regs (addr >>> 2) := fun q a v hne => if_neg hne
  by_cases hwa : w.1 = addr
  · rw [ScBridge.mmioWrite, hwa, if_pos h.takesWrite, ScBridge.mmioWriteLocal, if_neg (hwa ▸ hreset),
      if_neg (h.ne (by decide)), if_neg fun hd => h.ne (by decide) hd.1, setWidth_setWidth_word]
    exact (if_pos rfl).trans (if_pos rfl).symm
  · have hi : addr >>> 2 ≠ w.1 >>> 2 := fun he => hwa ((shift_inj h.1 hw.1).mp he).symm
    rw [ScBridge.mmioWrite, if_neg hwa]
    split
    · rw [ScBridge.mmioWriteLocal, if_neg hreset]
      split
      · exact hset q _ hi
      split
      · exact (hset _ _ (h.index_ne (by decide))).trans (hset q _ hi)
      · exact hset q _ hi
    · rfl

end SmartEth
