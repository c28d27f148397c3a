import SmartEth.System.Driver

/-!
# The position in the TX ring

`adapter->tx_head` and the NIC's `TX_TAIL`, over `smarteth_probe`, `smarteth_test_tx`
and `smarteth_remove`, each frame processed before its test goes on, and its DMA
exact.
-/

namespace SmartEth.DriverNic

open SmartEthMain

/-- `TX_TAIL`. What a section does to the registers after its last operation is done
when that is. -/
def txTail (s : DriverNic) : Word :=
  match s.sect with
  | some ⟨_, .ret (nic, _)⟩ => nic.reg SC_REG_TX_TAIL
  | _ => s.nic.reg SC_REG_TX_TAIL

/-- The registers of the TX ring. -/
def ringCfg (ring : Addr) : List (Addr × Word) :=
  [(REG_TX_RING_BASE_LO, lower ring), (REG_TX_RING_BASE_HI, upper ring),
    (REG_TX_RING_SIZE, BitVec.ofNat 32 SMARTETH_RING_SIZE)]

/-- A descriptor of the driver's TX ring is the NIC's. -/
def Outstanding (s : DriverNic) : Prop :=
  ∃ a, s.adapter = some a ∧ ∃ i < SMARTETH_RING_SIZE, (DescRing.entry a.txRing s.mem i).own = true

/-- The next descriptor that the driver fills is the next one that the NIC reads. -/
def Agree (s : DriverNic) : Prop := ∀ a, s.adapter = some a → ¬ Outstanding s → a.txHead = s.txTail

/-- The NIC sends, its DMA moves the bytes, and no frame arrives. -/
def TxEvent (_ : DriverNic) : DriverEvent → Prop
  | .handle | .signal | .txWake | .txIteration | .txDone | .nicEnd => True
  | .nicOp r => r = .moved
  | .packet _ | .dmaCheck | .processDma => False

/-- The descriptor that the driver filled last. -/
def lastDesc (s : DriverNic) : Option SmartEthDesc :=
  s.adapter.map fun a =>
    DescRing.entry a.txRing s.mem ((a.txHead - 1) % BitVec.ofNat 32 SMARTETH_RING_SIZE).toNat

/-- A test waits until its frame is processed. -/
def Processed (s : DriverNic) (e : DriverOp) (_ : DriverChoice) : Prop := e = .wait → ∀ d ∈ s.lastDesc, d.own = false

def TxCall (_ : DriverNic) (c : DriverCall) : Prop := c = .probe ∨ c = .testTx ∨ c = .remove

/-- The driver is probed only while `TX_TAIL` is zero. -/
def ProbesAtZero (s : DriverNic) (c : DriverCall) : Prop := c = .probe → s.txTail = 0

instance (s : DriverNic) : (e : DriverEvent) → Decidable (TxEvent s e)
  | .handle | .signal | .txWake | .txIteration | .txDone | .nicEnd => .isTrue trivial
  | .nicOp .moved => .isTrue rfl
  | .nicOp .failed | .nicOp (.other _) => .isFalse nofun
  | .packet _ | .dmaCheck | .processDma => .isFalse id

instance (s : DriverNic) (c : DriverChoice) : (e : DriverOp) → Decidable (Processed s e c)
  | .wait => decidable_of_iff (∀ d ∈ s.lastDesc, d.own = false) ⟨fun h _ => h, fun h => h rfl⟩
  | .readReg _ | .writeReg _ _ | .map _ | .unmap _ _ | .store _ _ | .setTxHead _ | .complete => .isTrue nofun

instance (s : DriverNic) (c : DriverCall) : Decidable (TxCall s c) := inferInstanceAs (Decidable (_ ∨ _ ∨ _))

instance (s : DriverNic) (c : DriverCall) : Decidable (ProbesAtZero s c) := inferInstanceAs (Decidable (_ → _))

end SmartEth.DriverNic
