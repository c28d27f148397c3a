import SmartEth.System.WideAccess
import SmartEth.Proof.RegFiles

/-!
# Register accesses of 8 bytes

The handlers keep the low word of a write and return the low word of a read. An access of 8
bytes is then the two of 4 bytes exactly when the upper one has nothing to do
(`whole_iff_upper_idle`): the high word is the one the upper register holds already
(`HighKept`), or reads as zero (`HighZero`, `AnswersZero`).
-/

namespace SmartEth

namespace MmioOps

/-! ## Addresses and words -/

section Wide

variable {addr : Addr} (h : Wide addr)

include h

theorem Wide.bounds : addr.toNat % 8 = 0 ∧ (addr + 4).toNat = addr.toNat + 4 ∧ addr.toNat + 4 < 0x400 := by
  obtain ⟨h8, hlt⟩ := h
  have h7 : addr.toNat &&& (2 ^ 3 - 1) = 0 := congrArg BitVec.toNat h8
  rw [Nat.and_two_pow_sub_one_eq_mod] at h7
  have hn : addr.toNat < 0x400 := hlt
  rw [BitVec.toNat_add, show BitVec.toNat (4 : Addr) = 4 from rfl]
  omega

/-- The upper word is not at a multiple of 8. -/
theorem Wide.upper_ne {c : Addr} (hc : c.toNat % 8 = 0) : addr + 4 ≠ c := by
  rintro rfl
  have := h.bounds
  omega

theorem Wide.ne {c : Addr} (hc : c.toNat % 8 ≠ 0) : addr ≠ c := by
  rintro rfl
  exact hc h.bounds.1

theorem Wide.aligned : addr &&& 3 = 0 := by
  apply BitVec.eq_of_toNat_eq
  rw [BitVec.toNat_and, show BitVec.toNat (3 : Addr) = 2 ^ 2 - 1 from rfl, Nat.and_two_pow_sub_one_eq_mod]
  have := h.bounds
  show _ = 0
  omega

theorem Wide.upper_aligned : (addr + 4) &&& 3 = 0 := by
  apply BitVec.eq_of_toNat_eq
  rw [BitVec.toNat_and, show BitVec.toNat (3 : Addr) = 2 ^ 2 - 1 from rfl, Nat.and_two_pow_sub_one_eq_mod]
  have := h.bounds
  show _ = 0
  omega

theorem Wide.lt : addr < SC_REG_COUNT := h.2

theorem Wide.upper_lt : addr + 4 < SC_REG_COUNT := by
  have := h.bounds
  show (addr + 4).toNat < 0x400
  omega

theorem Wide.upper_self : addr + 4 ≠ addr := by
  intro he
  have := h.bounds
  rw [he] at this
  omega

end Wide

/-- `addr` is below a register that has the number 4 modulo 8. -/
theorem upper_eq_iff {addr c : Addr} : addr + 4 = c ↔ addr = c - 4 := by
  constructor
  · rintro rfl
    rw [BitVec.add_sub_cancel]
  · rintro rfl
    rw [BitVec.sub_add_cancel]

/-- A mask of 32 bits tests the low word. -/
theorem and_mask_eq_zero (val : BitVec 64) (m : Word) :
    val &&& m.setWidth 64 = 0 ↔ (lowWord val).setWidth 64 &&& m.setWidth 64 = 0 := by
  have he : val &&& m.setWidth 64 = (lowWord val &&& m).setWidth 64 := by
    ext i hi
    simp only [lowWord, BitVec.getElem_and, BitVec.getElem_setWidth, BitVec.getLsbD_and, BitVec.getLsbD_setWidth]
    by_cases h32 : i < 32
    · simp [h32, BitVec.getLsbD_eq_getElem hi]
    · simp [h32, BitVec.getLsbD_of_ge m i (Nat.le_of_not_lt h32)]
  rw [he, setWidth_and_eq_zero]
  exact setWidth_eq_zero

theorem setWidth_low (val : BitVec 64) : ((lowWord val).setWidth 64).setWidth 32 = val.setWidth 32 :=
  setWidth_setWidth_word _

/-- A value is zero if its two words are. -/
theorem eq_zero_of_halves {val : BitVec 64} (hl : lowWord val = 0) (hh : highWord val = 0) : val = 0 := by
  have h1 := congrArg BitVec.toNat hl
  have h2 := congrArg BitVec.toNat hh
  apply BitVec.eq_of_toNat_eq
  simp only [lowWord, highWord, BitVec.toNat_setWidth, BitVec.toNat_ushiftRight, Nat.shiftRight_eq_div_pow] at h1 h2
  have := val.isLt
  change _ = 0 at h1 h2
  show val.toNat = 0
  omega

/-- The word above is zero, if it adds nothing. -/
theorem eq_or_shift_iff (low high : Word) :
    low.setWidth 64 = low.setWidth 64 ||| high.setWidth 64 <<< 32 ↔ high = 0 := by
  constructor
  · intro h
    ext i hi
    have hb := congrArg (fun x => BitVec.getLsbD x (i + 32)) h
    simpa [BitVec.getLsbD_of_ge low (i + 32) (by omega), hi, BitVec.getLsbD_eq_getElem hi,
      show i + 32 < 64 by omega] using hb.symm
  · rintro rfl
    simp

/-! ## Writes -/

/-- What the write of the high word leaves in the registers. -/
def highWrite (regs : Addr → Word) (addr : Addr) (high : Word) : Addr → Word :=
  if addr + 4 = SC_REG_STATUS then regs
  else fun i => if i = (addr + 4) >>> 2 then
    if addr + 4 = SC_REG_IRQ_STS then regs (SC_REG_IRQ_STS >>> 2) &&& ~~~high else high
    else regs i

/-- The write of the high word changes nothing. -/
theorem highWrite_eq_self_iff (regs : Addr → Word) (addr : Addr) (high : Word) :
    highWrite regs addr high = regs ↔
      if addr + 4 = SC_REG_STATUS then True
      else if addr + 4 = SC_REG_IRQ_STS then regs (SC_REG_IRQ_STS >>> 2) &&& high = 0
      else regs ((addr + 4) >>> 2) = high := by
  rw [highWrite]
  by_cases hst : addr + 4 = SC_REG_STATUS
  · rw [if_pos hst, if_pos hst]
    exact iff_true_intro rfl
  rw [if_neg hst, if_neg hst]
  have hself : ∀ v : Word, (fun i => if i = (addr + 4) >>> 2 then v else regs i) = regs ↔
      v = regs ((addr + 4) >>> 2) := by
    intro v
    constructor
    · intro h
      simpa using congrFun h ((addr + 4) >>> 2)
    · rintro rfl
      funext i
      split
      · rename_i hi
        rw [hi]
      · rfl
  rw [hself]
  by_cases hirq : addr + 4 = SC_REG_IRQ_STS
  · rw [if_pos hirq, if_pos hirq, hirq]
    exact and_not_eq_self
  · rw [if_neg hirq, if_neg hirq]
    exact eq_comm

/-- The two writes of 4 bytes, from what each does to the registers. -/
theorem writesWhole_iff_of {σ : Type} {ops : MmioOps σ} {s : σ} {addr : Addr} {val : BitVec 64}
    (hlow : ops.regs (ops.write s addr val 8) = ops.regs (ops.write s addr ((lowWord val).setWidth 64) 4))
    (hhigh : ∀ s, ops.regs (ops.write s (addr + 4) ((highWord val).setWidth 64) 4) =
      highWrite (ops.regs s) addr (highWord val))
    (hupper : addr + 4 ≠ SC_REG_STATUS →
      ops.regs (ops.write s addr ((lowWord val).setWidth 64) 4) ((addr + 4) >>> 2) =
        if addr + 4 = SC_REG_DMA_STS ∧ lowWord val &&& SC_DMA_START ≠ 0 then SC_STATUS_DMA_BSY
        else ops.regs s ((addr + 4) >>> 2)) :
    ops.WritesWhole s addr val ↔ HighKept (ops.regs s) addr (lowWord val) (highWord val) := by
  rw [WritesWhole, writeHalves, hlow, hhigh, eq_comm, highWrite_eq_self_iff, HighKept]
  by_cases hst : addr + 4 = SC_REG_STATUS
  · rw [if_pos hst, if_pos hst]
  rw [if_neg hst, if_neg hst]
  have hup := hupper hst
  by_cases hirq : addr + 4 = SC_REG_IRQ_STS
  · rw [if_pos hirq, if_pos hirq]
    rw [hirq, if_neg fun h => absurd h.1 (by decide)] at hup
    rw [hup]
  rw [if_neg hirq, if_neg hirq, hup]
  split
  · exact eq_comm
  · rfl

end MmioOps

open MmioOps

namespace SmartEthPci

theorem regs_setReg_eq_self {s : SmartEthPci} {i : Addr} {v : Word} (h : v = s.regs i) :
    (s.setReg i v).regs = s.regs := by
  funext j
  by_cases hj : j = i
  · rw [hj, regs_setReg_self, h]
  · exact regs_setReg_ne hj

theorem regs_startDma (s : SmartEthPci) : s.startDma.regs (REG_DMA_STS >>> 2) = STATUS_DMA_BSY := by
  dsimp only [startDma]
  exact regs_setReg_self _ _ _

variable (s : SmartEthPci) {addr : Addr} (hw : Wide addr)

include hw

/-- The device keeps the low word of a write, except that `IRQ_TEST` looks at the whole. -/
theorem mmioWrite_lowWord (val : BitVec 64) (ht : addr ≠ SC_REG_IRQ_TEST) :
    s.mmioWrite addr val = s.mmioWrite addr ((lowWord val).setWidth 64) := by
  rw [mmioWrite, mmioWrite, if_neg (show ¬ addr = REG_IRQ_STS from hw.ne (by decide)),
    if_neg (show ¬ addr = REG_IRQ_STS from hw.ne (by decide)), if_neg (show ¬ addr = REG_IRQ_TEST from ht),
    if_neg (show ¬ addr = REG_IRQ_TEST from ht), setWidth_low]
  have hr := and_mask_eq_zero val SC_CTRL_RESET
  have hs := and_mask_eq_zero val DMA_START
  by_cases hctrl : addr = REG_CTRL
  · rw [if_pos hctrl, if_pos hctrl]
    exact congrArg _ (ite_congr (propext hr.not) (fun _ => rfl) fun _ => rfl)
  rw [if_neg hctrl, if_neg hctrl]
  by_cases hdma : addr = REG_DMA_CTRL
  · rw [if_pos hdma, if_pos hdma]
    dsimp only
    simp only [ne_eq, hs]
  · rw [if_neg hdma, if_neg hdma]

theorem regs_mmioWrite_upper (high : Word) :
    (s.mmioWrite (addr + 4) (high.setWidth 64)).1.regs = highWrite s.regs addr high := by
  rw [mmioWrite, if_neg (show ¬ addr + 4 ≥ REG_COUNT * 4 from BitVec.not_le.mpr hw.upper_lt),
    if_neg (show ¬ addr + 4 = REG_CTRL from hw.upper_ne (by decide)),
    if_neg (show ¬ addr + 4 = REG_DMA_CTRL from hw.upper_ne (by decide)),
    if_neg (show ¬ addr + 4 = REG_IRQ_TEST from hw.upper_ne (by decide)), setWidth_setWidth_word, highWrite]
  by_cases hirq : addr + 4 = SC_REG_IRQ_STS
  · rw [if_pos (show addr + 4 = REG_IRQ_STS from hirq), if_neg (by rw [hirq]; decide), if_pos hirq, hirq]
    rfl
  rw [if_neg (show ¬ addr + 4 = REG_IRQ_STS from hirq), if_neg hirq]
  by_cases hst : addr + 4 = SC_REG_STATUS
  · rw [if_pos (show addr + 4 = REG_STATUS ∨ addr + 4 = REG_DEV_ID from .inl hst), if_pos hst]
  · rw [if_neg (show ¬ (addr + 4 = REG_STATUS ∨ addr + 4 = REG_DEV_ID) from
      not_or.mpr ⟨hst, hw.upper_ne (by decide)⟩), if_neg hst]
    rfl

/-- The write of the low word starts a transfer, or leaves the upper register alone. -/
theorem regs_mmioWrite_lower (hst : addr + 4 ≠ SC_REG_STATUS) (low : Word) :
    (s.mmioWrite addr (low.setWidth 64)).1.regs ((addr + 4) >>> 2) =
      if addr + 4 = SC_REG_DMA_STS ∧ low &&& SC_DMA_START ≠ 0 then SC_STATUS_DMA_BSY
      else s.regs ((addr + 4) >>> 2) := by
  have hidx : ∀ c : Addr, c &&& 3 = 0 → addr + 4 ≠ c → (addr + 4) >>> 2 ≠ c >>> 2 :=
    fun c hc hne h => hne ((shift_inj hw.upper_aligned hc).mp h)
  rw [mmioWrite, if_neg (show ¬ addr ≥ REG_COUNT * 4 from BitVec.not_le.mpr hw.lt),
    if_neg (show ¬ addr = REG_CTRL from fun h => hst (by rw [h]; decide)),
    if_neg (show ¬ addr = REG_IRQ_STS from hw.ne (by decide))]
  by_cases hdma : addr = REG_DMA_CTRL
  · have hsts : addr + 4 = SC_REG_DMA_STS := by
      rw [hdma]
      decide
    rw [if_pos hdma, setWidth_setWidth_word, hsts]
    dsimp only
    have hs := setWidth_and_eq_zero (a := low) (b := DMA_START)
    by_cases hgo : low &&& DMA_START = 0
    · rw [if_neg (not_not.mpr (hs.mpr hgo)), if_neg fun h => h.2 hgo]
      exact regs_setReg_ne (by decide)
    · rw [if_pos (hs.not.mpr hgo), if_pos ⟨rfl, hgo⟩]
      exact regs_startDma _
  rw [if_neg hdma, if_neg (show ¬ (addr + 4 = SC_REG_DMA_STS ∧ _) from
    fun h => hdma (upper_eq_iff.mp h.1))]
  by_cases htest : addr = REG_IRQ_TEST
  · rw [if_pos htest]
    split
    · exact regs_setReg_ne (hidx REG_IRQ_STS (by decide) (by rw [htest]; decide))
    · rfl
  rw [if_neg htest]
  split
  · rfl
  · exact regs_setReg_ne (hidx addr hw.aligned hw.upper_self)

/-- If `IRQ_TEST` does not make the two differ, a write of 8 bytes is the two of 4 bytes if and
only if the second has nothing to do. -/
theorem writesWhole_iff_highKept {val : BitVec 64}
    (hlow : (s.mmioWrite addr val).1.regs = (s.mmioWrite addr ((lowWord val).setWidth 64)).1.regs) :
    smartethMmioOps.WritesWhole s addr val ↔ HighKept s.regs addr (lowWord val) (highWord val) :=
  writesWhole_iff_of hlow (fun s => regs_mmioWrite_upper s hw _) fun hst => regs_mmioWrite_lower s hw hst _

/-- What a write to `IRQ_TEST` does. -/
theorem regs_mmioWrite_irqTest (htest : addr = SC_REG_IRQ_TEST) (v : BitVec 64) :
    (s.mmioWrite addr v).1.regs =
      if v = 0 then s.regs else (s.setReg (REG_IRQ_STS >>> 2) (s.regs (REG_IRQ_STS >>> 2) ||| IRQ_TEST)).regs := by
  rw [mmioWrite, if_neg (show ¬ addr ≥ REG_COUNT * 4 from BitVec.not_le.mpr hw.lt),
    if_neg (show ¬ addr = REG_CTRL by rw [htest]; decide), if_neg (show ¬ addr = REG_IRQ_STS by rw [htest]; decide),
    if_neg (show ¬ addr = REG_DMA_CTRL by rw [htest]; decide), if_pos (show addr = REG_IRQ_TEST from htest)]
  by_cases hv : v = 0
  · rw [if_neg (not_not.mpr hv), if_pos hv]
  · rw [if_pos hv, if_neg hv]
    rfl

/-- A write of 8 bytes to `IRQ_TEST` whose low word alone raises nothing. -/
theorem writesWhole_irqTest_iff (htest : addr = SC_REG_IRQ_TEST) {val : BitVec 64} (hl : lowWord val = 0)
    (hh : highWord val ≠ 0) :
    smartethMmioOps.WritesWhole s addr val ↔ HighKept s.regs addr (lowWord val) (highWord val) ∧
      s.regs (REG_IRQ_STS >>> 2) ||| IRQ_TEST = s.regs (REG_IRQ_STS >>> 2) := by
  have hv : val ≠ 0 := by
    rintro rfl
    exact hh rfl
  have hwhole : (s.mmioWrite addr val).1.regs =
      (s.setReg (REG_IRQ_STS >>> 2) (s.regs (REG_IRQ_STS >>> 2) ||| IRQ_TEST)).regs := by
    rw [regs_mmioWrite_irqTest s hw htest, if_neg hv]
  have hlow : (s.mmioWrite addr ((lowWord val).setWidth 64)).1.regs = s.regs := by
    rw [hl, regs_mmioWrite_irqTest s hw htest, if_pos (setWidth_eq_zero.mpr rfl)]
  have hsame : s.regs (REG_IRQ_STS >>> 2) ||| IRQ_TEST = s.regs (REG_IRQ_STS >>> 2) →
      (s.mmioWrite addr val).1.regs = (s.mmioWrite addr ((lowWord val).setWidth 64)).1.regs :=
    fun hkept => hwhole.trans ((regs_setReg_eq_self hkept).trans hlow.symm)
  -- the second write leaves the interrupt status alone
  have hsts : (smartethMmioOps.writeHalves s addr val).regs (REG_IRQ_STS >>> 2) = s.regs (REG_IRQ_STS >>> 2) := by
    have hup := regs_mmioWrite_upper (s.mmioWrite addr ((lowWord val).setWidth 64)).1 hw (highWord val)
    rw [hlow, highWrite, if_neg (by rw [htest]; decide), if_neg (by rw [htest]; decide), htest] at hup
    rw [htest]
    exact congrFun hup (REG_IRQ_STS >>> 2)
  constructor
  · intro h
    have hkept : s.regs (REG_IRQ_STS >>> 2) ||| IRQ_TEST = s.regs (REG_IRQ_STS >>> 2) :=
      (regs_setReg_self s (REG_IRQ_STS >>> 2) _).symm.trans
        ((congrFun hwhole _).symm.trans ((congrFun h _).trans hsts))
    exact ⟨(writesWhole_iff_highKept s hw (hsame hkept)).mp h, hkept⟩
  · rintro ⟨hk, hkept⟩
    exact (writesWhole_iff_highKept s hw (hsame hkept)).mpr hk

/-- A write of 8 bytes is the two of 4 bytes if and only if the second has nothing to do and
`IRQ_TEST` does not make them differ. -/
theorem writesWhole_iff (val : BitVec 64) :
    smartethMmioOps.WritesWhole s addr val ↔
      HighKept s.regs addr (lowWord val) (highWord val) ∧ TestKept s.regs addr (lowWord val) (highWord val) := by
  by_cases htest : addr = SC_REG_IRQ_TEST
  · by_cases hl : lowWord val = 0
    · by_cases hh : highWord val = 0
      · have hv : val = (lowWord val).setWidth 64 := by
          rw [hl]
          exact eq_zero_of_halves hl hh
        rw [writesWhole_iff_highKept s hw (congrArg (fun v => (s.mmioWrite addr v).1.regs) hv)]
        exact (and_iff_left fun _ _ hn => absurd hh hn).symm
      · rw [writesWhole_irqTest_iff s hw htest hl hh]
        exact and_congr_right fun _ => ⟨fun hkept _ _ _ => hkept, fun ht => ht htest hl hh⟩
    · have hv : val ≠ 0 := by
        rintro rfl
        exact hl rfl
      have hlow : (s.mmioWrite addr val).1.regs = (s.mmioWrite addr ((lowWord val).setWidth 64)).1.regs := by
        rw [regs_mmioWrite_irqTest s hw htest, regs_mmioWrite_irqTest s hw htest, if_neg hv,
          if_neg (setWidth_eq_zero.not.mpr hl)]
      rw [writesWhole_iff_highKept s hw hlow]
      exact (and_iff_left fun _ hn => absurd hn hl).symm
  · rw [writesWhole_iff_highKept s hw (congrArg (fun r => r.1.regs) (mmioWrite_lowWord s hw val htest))]
    exact (and_iff_left fun h => absurd h htest).symm

/-- A read of 8 bytes is the two of 4 bytes if and only if the upper one returns zero. -/
theorem readsWhole_iff : smartethMmioOps.ReadsWhole s addr ↔ HighZero s.regs addr := by
  have hup : s.mmioRead (addr + 4) =
      if addr + 4 = REG_STATUS then STATUS_READY else s.regs ((addr + 4) >>> 2) := by
    rw [mmioRead, if_neg (show ¬ addr + 4 ≥ REG_COUNT * 4 from BitVec.not_le.mpr hw.upper_lt),
      if_neg (show ¬ addr + 4 = REG_DEV_ID from hw.upper_ne (by decide))]
  refine (eq_or_shift_iff _ (s.mmioRead (addr + 4))).trans ?_
  rw [hup, HighZero]
  by_cases hst : addr + 4 = REG_STATUS
  · rw [if_pos hst]
    exact iff_of_false (by decide) fun h => h.1 hst
  · rw [if_neg hst]
    exact (and_iff_right hst).symm

end SmartEthPci

namespace ScBridge

variable (s : ScBridge) {addr : Addr} (hw : Wide addr)

include hw

omit hw in
/-- The bridge keeps the low word of a write. -/
theorem regs_mmioWrite_lowWord (val : BitVec 64) :
    (s.mmioWrite addr val).1.regs = (s.mmioWrite addr ((lowWord val).setWidth 64)).1.regs := by
  have hr := and_mask_eq_zero val SC_CTRL_RESET
  have hs := and_mask_eq_zero val SC_DMA_START
  rw [mmioWrite, mmioWrite]
  by_cases ht : takesWrite addr = true
  · rw [if_pos ht, if_pos ht, mmioWriteLocal, mmioWriteLocal, setWidth_low]
    simp only [ne_eq, hr, hs]
  · rw [if_neg ht, if_neg ht]

theorem regs_mmioWrite_upper (high : Word) :
    (s.mmioWrite (addr + 4) (high.setWidth 64)).1.regs = highWrite s.regs addr high := by
  rw [mmioWrite, highWrite]
  by_cases hst : addr + 4 = SC_REG_STATUS
  · rw [if_pos hst, if_neg (by rw [hst]; decide)]
  have ht : takesWrite (addr + 4) = true := by
    simp only [takesWrite, Bool.and_eq_true, decide_eq_true_eq]
    exact ⟨⟨hw.upper_lt, hst⟩, hw.upper_ne (by decide)⟩
  rw [if_neg hst, if_pos ht, mmioWriteLocal, if_neg fun h => hw.upper_ne (by decide) h.1, setWidth_setWidth_word]
  by_cases hirq : addr + 4 = SC_REG_IRQ_STS
  · rw [if_pos hirq, if_pos hirq, hirq]
    rfl
  · rw [if_neg hirq, if_neg fun h => hw.upper_ne (by decide) h.1, if_neg hirq]
    rfl

/-- The write of the low word starts a transfer, or leaves the upper register alone. -/
theorem regs_mmioWrite_lower (hst : addr + 4 ≠ SC_REG_STATUS) (low : Word) :
    (s.mmioWrite addr (low.setWidth 64)).1.regs ((addr + 4) >>> 2) =
      if addr + 4 = SC_REG_DMA_STS ∧ low &&& SC_DMA_START ≠ 0 then SC_STATUS_DMA_BSY
      else s.regs ((addr + 4) >>> 2) := by
  have hs := setWidth_and_eq_zero (a := low) (b := SC_DMA_START)
  have hset : ∀ v, (s.setReg addr v).regs ((addr + 4) >>> 2) = s.regs ((addr + 4) >>> 2) := by
    intro v
    rw [regs_setReg s hw.upper_aligned hw.aligned, if_neg hw.upper_self]
  have hdma : addr = SC_REG_DMA_CTRL ↔ addr + 4 = SC_REG_DMA_STS :=
    (upper_eq_iff (c := SC_REG_DMA_STS)).symm
  rw [mmioWrite]
  by_cases ht : takesWrite addr = true
  · rw [if_pos ht]
    dsimp only
    rw [mmioWriteLocal, if_neg fun h => hst (by rw [h.1]; decide), if_neg (hw.ne (by decide)),
      setWidth_setWidth_word]
    by_cases hgo : addr = SC_REG_DMA_CTRL ∧ low &&& SC_DMA_START ≠ 0
    · rw [if_pos ⟨hgo.1, hs.not.mpr hgo.2⟩, if_pos ⟨hdma.mp hgo.1, hgo.2⟩, hdma.mp hgo.1,
        regs_setReg _ (by decide) (by decide), if_pos rfl]
    · rw [if_neg fun h => hgo ⟨h.1, hs.not.mp h.2⟩, if_neg fun h => hgo ⟨hdma.mpr h.1, h.2⟩]
      exact hset _
  · rw [if_neg ht, if_neg]
    rintro ⟨h, -⟩
    rw [hdma.mpr h] at ht
    exact ht (by decide)

theorem writesWhole_iff (ans : Addr → Word × Word) (val : BitVec 64) :
    (scBridgeMmioOps ans).WritesWhole s addr val ↔ HighKept s.regs addr (lowWord val) (highWord val) :=
  writesWhole_iff_of (regs_mmioWrite_lowWord s val) (fun s => regs_mmioWrite_upper s hw _)
    fun hst => regs_mmioWrite_lower s hw hst _

/-- A read that is not forwarded. -/
theorem readsWhole_iff_local (ans : Addr → Word × Word) (hc : s.connected = false) :
    (scBridgeMmioOps ans).ReadsWhole s addr ↔ HighZero s.regs addr := by
  have hread : ∀ a n, (scBridgeMmioOps ans).read s a n = (s, (s.mmioReadLocal a).setWidth 64) := by
    intro a n
    exact if_neg (by rw [forwardsRead, hc, Bool.and_false]; decide)
  have hup : s.mmioReadLocal (addr + 4) =
      if addr + 4 = SC_REG_STATUS then SC_STATUS_READY else s.regs ((addr + 4) >>> 2) := by
    rw [mmioReadLocal, if_neg (BitVec.not_le.mpr hw.upper_lt), if_neg (hw.upper_ne (by decide))]
  rw [ReadsWhole, readHalves]
  simp only [hread]
  rw [eq_or_shift_iff, hup, HighZero]
  by_cases hst : addr + 4 = SC_REG_STATUS
  · rw [if_pos hst]
    exact iff_of_false (by decide) fun h => h.1 hst
  · rw [if_neg hst]
    exact (and_iff_right hst).symm

/-- A read that SystemC answers. -/
theorem readsWhole_iff_forwarded (ans : Addr → Word × Word) (hc : s.connected = true) :
    (scBridgeMmioOps ans).ReadsWhole s addr ↔ AnswersZero ans s.regs addr := by
  have hread : ∀ (b : ScBridge) (a : Addr) n, b.connected = true → a < SC_REG_COUNT →
      (scBridgeMmioOps ans).read b a n =
        let r := b.mmioReadBegin.mmioReadFinish a (ans a).1 (ans a).2
        (r.1, r.2.setWidth 64) := by
    intro b a n hb ha
    exact if_pos (by rw [forwardsRead, hb, Bool.and_true]; exact decide_eq_true ha)
  -- the bridge's copy of the upper register is still the one before the first read
  have hcopy : (s.mmioReadBegin.mmioReadFinish addr (ans addr).1 (ans addr).2).1.regs ((addr + 4) >>> 2) =
      s.regs ((addr + 4) >>> 2) := by
    rw [mmioReadFinish]
    split
    · rfl
    · exact if_neg fun h => hw.upper_self ((shift_inj hw.upper_aligned hw.aligned).mp h)
  rw [ReadsWhole, readHalves, hread s addr 8 hc hw.lt, hread s addr 4 hc hw.lt]
  dsimp only
  rw [hread _ (addr + 4) 4 (by rw [connected_mmioReadFinish]; exact hc) hw.upper_lt]
  dsimp only
  rw [eq_or_shift_iff, mmioReadFinish, AnswersZero]
  by_cases hok : (ans (addr + 4)).2 = PcieStatus.ok.code
  · rw [if_neg (not_not.mpr hok), if_pos hok]
  · rw [if_pos hok, if_neg hok]
    exact Eq.congr_left hcopy

end ScBridge

/-- For every state of both devices, an access of 8 bytes is the two of 4 bytes if and only
if the upper one has nothing to do. -/
theorem whole_iff_upper_idle {addr : Addr} (hw : Wide addr) :
    (∀ (s : SmartEthPci) val, smartethMmioOps.WritesWhole s addr val ↔
      HighKept s.regs addr (lowWord val) (highWord val) ∧ TestKept s.regs addr (lowWord val) (highWord val)) ∧
    (∀ s : SmartEthPci, smartethMmioOps.ReadsWhole s addr ↔ HighZero s.regs addr) ∧
    (∀ (s : ScBridge) ans val, (scBridgeMmioOps ans).WritesWhole s addr val ↔
      HighKept s.regs addr (lowWord val) (highWord val)) ∧
    ∀ (s : ScBridge) ans, (scBridgeMmioOps ans).ReadsWhole s addr ↔
      if s.connected then AnswersZero ans s.regs addr else HighZero s.regs addr := by
  refine ⟨fun s val => s.writesWhole_iff hw val, fun s => s.readsWhole_iff hw,
    fun s ans val => s.writesWhole_iff hw ans val, fun s ans => ?_⟩
  cases hc : s.connected with
  | true => exact s.readsWhole_iff_forwarded hw ans hc
  | false => exact s.readsWhole_iff_local hw ans hc

/-- At power-on, a high word of zero for `DMA_DST`. -/
theorem whole_iff_upper_idle_dmaDst :
    smartethMmioOps.WritesWhole (.new true false) SC_REG_DMA_DST 0x12345678 := by
  have hw : Wide SC_REG_DMA_DST := by decide
  exact ((whole_iff_upper_idle hw).1 (.new true false) 0x12345678).mpr
    ⟨show HighKept _ SC_REG_DMA_DST _ _ by rw [HighKept]; decide, fun h => absurd h (by decide)⟩

/-- The upper half of a 64-bit address is lost. -/
theorem upper_half_lost :
    ¬ smartethMmioOps.WritesWhole (.new true false) SC_REG_DMA_DST 0x100000000 ∧
      ¬ (scBridgeMmioOps fun _ => (0, 0)).WritesWhole (.new true) SC_REG_TX_RING_BASE_LO 0x100000000 ∧
      ¬ smartethMmioOps.ReadsWhole (.new true false) SC_REG_MAC_LO := by
  refine ⟨fun h => ?_, fun h => ?_, fun h => ?_⟩
  · exact absurd (congrFun h ((SC_REG_DMA_DST + 4) >>> 2)) (by decide)
  · exact absurd (congrFun h ((SC_REG_TX_RING_BASE_LO + 4) >>> 2)) (by decide)
  · exact absurd h (by rw [ReadsWhole]; decide)

end SmartEth
