import SmartEth.Impl.Nic

/-!
# A loop-back through the DMA engine

Guest memory is read into the engine's buffer and written back from it: two transfers, each
programmed by register writes and then executed by `process_dma`. The bridge's callbacks
access guest memory exactly.
-/

namespace SmartEth

structure LoopBack where
  nic : SmartNic
  mem : GuestMem

namespace LoopBack

def write (s : LoopBack) (addr : Addr) (val : Word) : LoopBack := { s with nic := (s.nic.onMmioWrite addr val).1 }

/-- `process_dma`, when it finds a transfer pending. -/
def processDma (s : LoopBack) : LoopBack :=
  if s.nic.dmaPending then
    let r := s.nic.processDmaBody.exec exactDma s.mem
    ⟨r.1.1, r.2⟩
  else s

/-- A transfer from the guest. -/
def read (s : LoopBack) (src len ctrl : Word) : LoopBack :=
  (((s.write SC_REG_DMA_SRC src).write SC_REG_DMA_LEN len).write SC_REG_DMA_CTRL ctrl).processDma

/-- A transfer to the guest. -/
def writeBack (s : LoopBack) (dst len ctrl : Word) : LoopBack :=
  (((s.write SC_REG_DMA_DST dst).write SC_REG_DMA_LEN len).write SC_REG_DMA_CTRL ctrl).processDma

/-- The registers that the transfers program or change. -/
def LOOP_REGS : List Addr :=
  [SC_REG_DMA_SRC, SC_REG_DMA_DST, SC_REG_DMA_LEN, SC_REG_DMA_CTRL, SC_REG_DMA_STS, SC_REG_IRQ_STS]

/-- A `DMA_CTRL` value that starts a transfer from the guest, or one to the guest. -/
def Starts (ctrl : Word) (dirWrite : Bool) : Prop :=
  ctrl &&& SC_DMA_START ≠ 0 ∧ (ctrl &&& SC_DMA_DIR_WRITE != 0) = dirWrite

instance (ctrl : Word) (dirWrite : Bool) : Decidable (Starts ctrl dirWrite) := inferInstanceAs (Decidable (_ ∧ _))

end LoopBack

end SmartEth
