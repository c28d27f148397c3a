import SmartEth.System.TxPosition

/-!
# Memory that the driver lets go of

The tests wait for a second at most, and then let go of their buffers; `smarteth_remove`
lets go of the receive buffers and the rings. What the NIC has of them when they do, and
which ring it takes a frame into.
-/

namespace SmartEth

open SmartEthMain

/-- Not a read that returns true with other bytes. -/
def DmaEnd.Right : DmaEnd → NicOp → Prop
  | .other _, .dmaRead _ _ => False
  | _, _ => True

instance (r : DmaEnd) (e : NicOp) : Decidable (r.Right e) :=
  match r, e with
  | .other _, .dmaRead _ _ => .isFalse id
  | .moved, _ | .failed, _ | .other _, .dmaWrite _ _ | .other _, .sendIrq _ | .other _, .transmit _ => .isTrue trivial

namespace DriverNic

/-- The RX ring and its buffers. -/
def rxRegions (a : Adapter) : List (Region 64) :=
  ⟨a.rxRing, RING_BYTES⟩ :: a.rxDma.map fun dma => ⟨dma, SMARTETH_RX_BUF_SIZE⟩

/-- The NIC takes a frame in: the filter accepts it, and a ring is configured. -/
def Takes (nic : SmartNic) (data : List Byte) : Prop :=
  nic.rxMatch data = true ∧ ¬ (nic.reg SC_REG_RX_RING_SIZE = 0 ∨ nic.rxRingBase = 0)

/-- `smarteth_probe` has succeeded and the NIC has handled its writes of the RX ring's address, and
`smarteth_remove` has not been called since. -/
def RxLive (s : DriverNic) : Prop :=
  s.adapter.isSome ∧ s.call ≠ some .remove ∧
    ∀ w ∈ s.posted, w.1 ≠ REG_RX_RING_BASE_LO ∧ w.1 ≠ REG_RX_RING_BASE_HI

/-- A frame is taken in only while the RX ring is live, and a read that does not fail brings what is in memory. -/
def Orderly (s : DriverNic) : DriverEvent → Prop
  | .packet data => Takes s.nic data → RxLive s
  | .nicOp r => ∀ th e k, s.sect = some ⟨th, .op e k⟩ → r.Right e
  | .handle | .signal | .dmaCheck | .processDma | .txWake | .txIteration | .txDone | .nicEnd => True

/-- The NIC has handled all register writes, and no transfer is pending. -/
def DmaOver (s : DriverNic) : Prop := s.posted = [] ∧ s.nic.dmaPending = false

/-- The NIC has handled all register writes and the doorbell, and given back the last descriptor. -/
def TxOver (s : DriverNic) : Prop :=
  s.posted = [] ∧ s.nic.reg SC_REG_TX_DOORBELL = 0 ∧ ∀ d ∈ s.lastDesc, d.own = false

/-- `on_packet_rx` is at work. -/
def RxBusy (s : DriverNic) : Prop := ∃ x ∈ s.sect, x.thread = .rx ∧ ∀ r, x.rest ≠ .ret r

/-- A test waits until the NIC is done with its buffer, and `smarteth_remove` lets go of memory only
while no frame is being taken in. -/
def Released (s : DriverNic) : DriverOp → DriverChoice → Prop
  | .wait, _ => (s.call = some .testDma → DmaOver s) ∧ (s.call = some .testTx → TxOver s)
  | .unmap _ _, _ => s.call = some .remove → ¬ RxBusy s
  | .readReg _, _ | .writeReg _ _, _ | .map _, _ | .store _ _, _ | .setTxHead _, _ | .complete, _ => True

/-- `smarteth_probe` finds the memory that it asks for. -/
def ProbeSucceeds (s : DriverNic) (e : DriverOp) (c : DriverChoice) : Prop :=
  s.call = some .probe → ∀ len, e = .map len → c ≠ .fails

instance (nic : SmartNic) (data : List Byte) : Decidable (Takes nic data) :=
  inferInstanceAs (Decidable (_ ∧ ¬ (_ ∨ _)))

instance (s : DriverNic) : Decidable (RxLive s) :=
  inferInstanceAs (Decidable (_ ∧ _ ∧ ∀ w ∈ s.posted, w.1 ≠ REG_RX_RING_BASE_LO ∧ w.1 ≠ REG_RX_RING_BASE_HI))

instance (s : DriverNic) (r : DmaEnd) : Decidable (∀ th e k, s.sect = some ⟨th, .op e k⟩ → r.Right e) :=
  match s.sect with
  | some ⟨_, .op e _⟩ => decidable_of_iff (r.Right e) ⟨fun h _ _ _ he => by cases he; exact h, fun h => h _ _ _ rfl⟩
  | some ⟨_, .ret _⟩ | none => .isTrue nofun

instance (s : DriverNic) : (e : DriverEvent) → Decidable (Orderly s e)
  | .packet _ => inferInstanceAs (Decidable (_ → _))
  | .nicOp r => inferInstanceAs (Decidable (∀ th e k, s.sect = some ⟨th, .op e k⟩ → r.Right e))
  | .handle | .signal | .dmaCheck | .processDma | .txWake | .txIteration | .txDone | .nicEnd => .isTrue trivial

instance (s : DriverNic) : Decidable (DmaOver s) := inferInstanceAs (Decidable (_ ∧ _))

instance (s : DriverNic) : Decidable (TxOver s) :=
  inferInstanceAs (Decidable (_ ∧ _ ∧ ∀ d ∈ s.lastDesc, d.own = false))

instance (x : NicSect) : Decidable (∀ r, x.rest ≠ .ret r) :=
  match x.rest with
  | .ret r => .isFalse fun hr => hr r rfl
  | .op _ _ => .isTrue nofun

instance (s : DriverNic) : Decidable (RxBusy s) :=
  inferInstanceAs (Decidable (∃ x ∈ s.sect, x.thread = .rx ∧ ∀ r, x.rest ≠ .ret r))

instance (s : DriverNic) (c : DriverChoice) : (e : DriverOp) → Decidable (Released s e c)
  | .wait => inferInstanceAs (Decidable ((_ → _) ∧ (_ → _)))
  | .unmap _ _ => inferInstanceAs (Decidable (_ → ¬ _))
  | .readReg _ | .writeReg _ _ | .map _ | .store _ _ | .setTxHead _ | .complete => .isTrue trivial

instance (s : DriverNic) : (e : DriverOp) → (c : DriverChoice) → Decidable (ProbeSucceeds s e c)
  | .map len, .fails =>
    decidable_of_iff (s.call ≠ some .probe) ⟨fun h h' => absurd h' h, fun h h' => h h' len rfl rfl⟩
  | .map _, .mapped _ | .map _, .done => .isTrue fun _ _ _ => nofun
  | .readReg _, _ | .writeReg _ _, _ | .unmap _ _, _ | .store _ _, _ | .setTxHead _, _ | .wait, _ | .complete, _ =>
    .isTrue fun _ _ => nofun

end DriverNic

end SmartEth
