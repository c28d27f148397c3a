import SmartEth.Impl.Protocol

/-!
# The register block (`reg_block.cpp`)

`m_regs` is a function of the word index (an address shifted right by 2); only
the indices below `SC_REG_COUNT / 4` are used. The access delay, a constant
that the NIC does not read, is left out.
-/

namespace SmartEth

@[ext] structure RegBlock where
  regs : Addr → Word
  mac : Vector Byte 6

namespace RegBlock

/-- `get_reg`, `set_reg`: an index, not an address. -/
def getReg (b : RegBlock) (idx : Addr) : Word := b.regs idx

def setReg (b : RegBlock) (idx : Addr) (val : Word) : RegBlock :=
  { b with regs := fun i => if i = idx then val else b.regs i }

theorem getReg_setReg (b : RegBlock) (i j : Addr) (v : Word) :
    (b.setReg i v).getReg j = if j = i then v else b.getReg j := rfl

@[simp] theorem getReg_setReg_self (b : RegBlock) (i : Addr) (v : Word) :
    (b.setReg i v).getReg i = v := by
  rw [getReg_setReg, if_pos rfl]

theorem getReg_setReg_ne {b : RegBlock} {i j : Addr} {v : Word} (h : j ≠ i) :
    (b.setReg i v).getReg j = b.getReg j := by
  rw [getReg_setReg, if_neg h]

theorem setReg_getReg (b : RegBlock) (i : Addr) : b.setReg i (b.getReg i) = b := by
  refine RegBlock.ext (funext fun j => ?_) rfl
  by_cases h : j = i
  · rw [h]
    exact getReg_setReg_self _ _ _
  · exact getReg_setReg_ne h

def irqStatus (b : RegBlock) : Word := b.getReg (SC_REG_IRQ_STS >>> 2)

def setMac (b : RegBlock) (mac : Vector Byte 6) : RegBlock :=
  { (b.setReg (SC_REG_MAC_LO >>> 2)
      (mac[0].setWidth 32 ||| mac[1].setWidth 32 <<< 8 ||| mac[2].setWidth 32 <<< 16 |||
        mac[3].setWidth 32 <<< 24)).setReg (SC_REG_MAC_HI >>> 2)
      (mac[4].setWidth 32 ||| mac[5].setWidth 32 <<< 8) with mac := mac }

def getMac (b : RegBlock) : Vector Byte 6 :=
  let lo := b.getReg (SC_REG_MAC_LO >>> 2)
  let hi := b.getReg (SC_REG_MAC_HI >>> 2)
  #v[lo.extractLsb' 0 8, lo.extractLsb' 8 8, lo.extractLsb' 16 8, lo.extractLsb' 24 8, hi.extractLsb' 0 8,
    hi.extractLsb' 8 8]

/-- The constructor: all registers zero, then the default MAC address. -/
def new : RegBlock :=
  setMac ⟨fun _ => 0, #v[0, 0, 0, 0, 0, 0]⟩ #v[0x52, 0x54, 0x00, 0x12, 0x34, 0x56]

def reset (b : RegBlock) : RegBlock :=
  { b with regs := fun _ => 0 }.setReg (SC_REG_DMA_STS >>> 2) 0

def read (b : RegBlock) (addr : Addr) : Word :=
  if addr ≥ SC_REG_COUNT then 0
  else if addr = SC_REG_DEV_ID then SC_DEV_ID
  else if addr = SC_REG_STATUS then SC_STATUS_READY
  else b.getReg (addr >>> 2)

/-- A write, and whether it changed the interrupt status. -/
def write (b : RegBlock) (addr : Addr) (val : Word) : RegBlock × Bool :=
  if addr ≥ SC_REG_COUNT then (b, false)
  else if addr = SC_REG_CTRL then
    if val &&& SC_CTRL_RESET != 0 then
      (((b.reset).setMac b.mac).setReg (SC_REG_IRQ_STS >>> 2) 0, false)
    else (b.setReg (SC_REG_CTRL >>> 2) val, false)
  else if addr = SC_REG_IRQ_STS then
    -- write 1 to clear
    (b.setReg (SC_REG_IRQ_STS >>> 2) (b.irqStatus &&& ~~~val), true)
  else if addr = SC_REG_DMA_CTRL then (b.setReg (SC_REG_DMA_CTRL >>> 2) val, false)
  else if addr = SC_REG_IRQ_TEST then
    if val != 0 then (b.setReg (SC_REG_IRQ_STS >>> 2) (b.irqStatus ||| SC_IRQ_TEST), true)
    else (b, false)
  else if addr = SC_REG_STATUS ∨ addr = SC_REG_DEV_ID then (b, false)
  else (b.setReg (addr >>> 2) val, false)

/-- A write that is not a reset. -/
theorem write_of_not_reset (b : RegBlock) {addr : Addr} {val : Word}
    (hr : ¬ (addr = SC_REG_CTRL ∧ val &&& SC_CTRL_RESET ≠ 0)) :
    (b.write addr val).1 =
      if ¬ (addr < SC_REG_COUNT ∧ addr ≠ SC_REG_STATUS ∧ addr ≠ SC_REG_DEV_ID) then b
      else if addr = SC_REG_IRQ_STS then b.setReg (SC_REG_IRQ_STS >>> 2) (b.irqStatus &&& ~~~val)
      else if addr = SC_REG_IRQ_TEST then
        if val = 0 then b else b.setReg (SC_REG_IRQ_STS >>> 2) (b.irqStatus ||| SC_IRQ_TEST)
      else b.setReg (addr >>> 2) val := by
  rw [write]
  by_cases hge : addr ≥ SC_REG_COUNT
  · rw [if_pos hge, if_pos fun h => BitVec.not_lt.mpr hge h.1]
  rw [if_neg hge]
  by_cases hro : addr = SC_REG_STATUS ∨ addr = SC_REG_DEV_ID
  · rw [if_pos fun h => hro.elim h.2.1 h.2.2]
    rcases hro with rfl | rfl <;> rfl
  rw [if_neg (not_not.mpr ⟨BitVec.not_le.mp hge, fun h => hro (.inl h), fun h => hro (.inr h)⟩)]
  by_cases hctrl : addr = SC_REG_CTRL
  · subst hctrl
    have h0 : ¬ (val &&& SC_CTRL_RESET != 0) = true := fun h => hr ⟨rfl, bne_iff_ne.mp h⟩
    rw [if_pos rfl, if_neg h0, if_neg (by decide), if_neg (by decide)]
  rw [if_neg hctrl]
  by_cases hirq : addr = SC_REG_IRQ_STS
  · rw [if_pos hirq, if_pos hirq]
  rw [if_neg hirq, if_neg hirq]
  by_cases htest : addr = SC_REG_IRQ_TEST
  · have hdma : addr ≠ SC_REG_DMA_CTRL := by rw [htest]; decide
    rw [if_neg hdma, if_pos htest, if_pos htest]
    by_cases hv : val = 0
    · rw [if_pos hv, if_neg (by simp [hv])]
    · rw [if_neg hv, if_pos (bne_iff_ne.mpr hv)]
  rw [if_neg htest, if_neg htest, if_neg hro]
  by_cases hdma : addr = SC_REG_DMA_CTRL
  · rw [if_pos hdma, hdma]
  · rw [if_neg hdma]

/-- A reset restores the power-on registers, if the MAC address is still the default one. -/
theorem write_reset {b : RegBlock} (hm : b.mac = new.mac) {addr : Addr} {val : Word}
    (hr : addr = SC_REG_CTRL ∧ val &&& SC_CTRL_RESET ≠ 0) : (b.write addr val).1 = new := by
  obtain ⟨rfl, hv⟩ := hr
  rw [write, if_neg (by decide), if_pos rfl, if_pos (bne_iff_ne.mpr hv)]
  refine RegBlock.ext (funext fun i => ?_) hm
  have hn : new.regs i = (setMac ⟨fun _ => 0, #v[0, 0, 0, 0, 0, 0]⟩ new.mac).regs i := rfl
  rw [hn, hm]
  generalize new.mac = mac
  simp only [setReg, reset, setMac]
  by_cases hi : i = SC_REG_IRQ_STS >>> 2
  · subst hi
    rfl
  · rw [if_neg hi, ite_self]

/-- The writes that change the interrupt status. -/
theorem write_snd (b : RegBlock) (addr : Addr) (val : Word) :
    (b.write addr val).2 = decide (addr = SC_REG_IRQ_STS ∨ addr = SC_REG_IRQ_TEST ∧ val ≠ 0) := by
  rw [write]
  by_cases hirq : addr = SC_REG_IRQ_STS
  · subst hirq
    rfl
  by_cases htest : addr = SC_REG_IRQ_TEST
  · subst htest
    rw [if_neg (by decide), if_neg (by decide), if_neg hirq, if_neg (by decide), if_pos rfl]
    by_cases hv : val = 0
    · rw [if_neg (by simp [hv]), decide_eq_false fun h => h.elim hirq fun h => h.2 hv]
    · rw [if_pos (bne_iff_ne.mpr hv), decide_eq_true (.inr ⟨rfl, hv⟩)]
  · rw [decide_eq_false fun h => h.elim hirq fun h => htest h.1, if_neg hirq, if_neg htest]
    repeat' split
    all_goals rfl

@[simp] theorem mac_write (b : RegBlock) (addr : Addr) (val : Word) : (b.write addr val).1.mac = b.mac := by
  rw [write]
  repeat' split
  all_goals rfl

end RegBlock

/-! ## Plain registers

The registers that keep what is written to them, and what a list of writes leaves in one. -/

instance (ws : List (Addr × Word)) (p : Addr × Word → Prop) [DecidablePred p] : Decidable (∀ w ∈ ws, p w) :=
  List.decidableBAll p ws

/-- An aligned write that does not reset. -/
def Ordinary (w : Addr × Word) : Prop := w.1 &&& 3 = 0 ∧ ¬ (w.1 = SC_REG_CTRL ∧ w.2 &&& SC_CTRL_RESET ≠ 0)

instance (w : Addr × Word) : Decidable (Ordinary w) := inferInstanceAs (Decidable (_ ∧ ¬ (_ ∧ _)))

/-- The registers that have side effects, cannot be written, or are changed by the
NIC. -/
def SPECIAL_REGS : List Addr :=
  [SC_REG_CTRL, SC_REG_STATUS, SC_REG_DEV_ID, SC_REG_IRQ_STS, SC_REG_IRQ_TEST, SC_REG_DMA_CTRL,
    SC_REG_DMA_STS, SC_REG_TX_DOORBELL, SC_REG_TX_TAIL, SC_REG_RX_TAIL]

/-- A plain read/write register. -/
def Plain (addr : Addr) : Prop := addr &&& 3 = 0 ∧ addr < SC_REG_COUNT ∧ addr ∉ SPECIAL_REGS

instance (addr : Addr) : Decidable (Plain addr) := inferInstanceAs (Decidable (_ ∧ _ ∧ ¬ _))

/-- The last value written to a register. -/
def lastWritten (addr : Addr) (ws : List (Addr × Word)) : Option Word :=
  (ws.reverse.find? fun w => w.1 = addr).map Prod.snd

end SmartEth
