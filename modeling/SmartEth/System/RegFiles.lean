import SmartEth.Impl.RegBlock
import SmartEth.Impl.ScBridge
import SmartEth.Impl.SmartEthPci

/-!
# Three register files

The same aligned 32-bit writes to `RegBlock`, to the Phase 2 device and to the
bridge while it is not connected.
-/

namespace SmartEth

/-- A 32-bit register write. -/
structure RegWrite where
  addr : Addr
  val : Word

namespace RegWrite

def Aligned (w : RegWrite) : Prop := w.addr &&& 3 = 0

/-- A `DMA_CTRL` write with the start bit. -/
def starts (w : RegWrite) : Bool := w.addr = SC_REG_DMA_CTRL ∧ w.val &&& SC_DMA_START ≠ 0

/-- A `CTRL` write with the reset bit. -/
def resets (w : RegWrite) : Bool := w.addr = SC_REG_CTRL ∧ w.val &&& SC_CTRL_RESET ≠ 0

/-- An `IRQ_TEST` write that raises the interrupt. -/
def tests (w : RegWrite) : Bool := w.addr = SC_REG_IRQ_TEST ∧ w.val ≠ 0

/-- An `IRQ_STS` write that clears the test interrupt. -/
def acks (w : RegWrite) : Bool := w.addr = SC_REG_IRQ_STS ∧ w.val &&& SC_IRQ_TEST ≠ 0

/-- The writes after the last reset. -/
def sinceReset (ws : List RegWrite) : List RegWrite :=
  ws.foldl (fun acc w => if w.resets then [] else acc ++ [w]) []

/-- The last value written to a register. -/
def lastTo (addr : Addr) (ws : List RegWrite) : Option Word :=
  ((ws.filter fun w => w.addr = addr).map RegWrite.val).getLast?

/-- Every test interrupt is acknowledged. -/
def Acked (ws : List RegWrite) : Prop :=
  ∀ pre w post, ws = pre ++ w :: post → w.tests → ∃ a ∈ post, a.acks

end RegWrite

def RegBlock.writes (b : RegBlock) (ws : List RegWrite) : RegBlock :=
  ws.foldl (fun b w => (b.write w.addr w.val).1) b

def SmartEthPci.writes (s : SmartEthPci) (ws : List RegWrite) : SmartEthPci :=
  ws.foldl (fun s w => (s.mmioWrite w.addr (w.val.setWidth 64)).1) s

def ScBridge.writes (s : ScBridge) (ws : List RegWrite) : ScBridge :=
  ws.foldl (fun s w => (s.mmioWrite w.addr (w.val.setWidth 64)).1) s

/-- What was written since the last reset makes the bridge's copy and `RegBlock`
alike. -/
structure RegWrite.Alike (ws : List RegWrite) : Prop where
  macLo : ∃ w ∈ sinceReset ws, w.addr = SC_REG_MAC_LO
  macHi : ∃ w ∈ sinceReset ws, w.addr = SC_REG_MAC_HI
  test : (lastTo SC_REG_IRQ_TEST (sinceReset ws)).getD 0 = 0
  acked : Acked (sinceReset ws)

end SmartEth
