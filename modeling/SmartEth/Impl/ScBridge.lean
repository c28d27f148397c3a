import SmartEth.Impl.Protocol

/-!
# The bridge on the QEMU side (`smarteth_sc_bridge.c`)

A register read, in its parts before and after the wait for the answer, a register
write, and the handling of a message from SystemC by the I/O thread. `pci_dma_read` and
`pci_dma_write` are taken to move the bytes exactly; the mutexes, which order
the threads, are in the systems that need them.
-/

namespace SmartEth

def DMA_BUF_SIZE : Nat := 4096

/-- `msix` tells whether MSI-X is enabled. -/
structure ScBridge where
  connected : Bool
  msix : Bool
  mmioPending : Bool
  mmioRespData : Word
  mmioRespStatus : Word
  regs : Addr → Word

/-- What the handling of a message comes to: the messages sent to SystemC, the
vectors notified, and whether `mmio_cv` is signalled. -/
structure ScHandled where
  bridge : ScBridge
  mem : GuestMem
  sent : List Msg
  irqs : List Word
  signal : Bool

namespace ScBridge

/-- `sc_bridge_mmio_read`, before it sends its request. -/
def mmioReadBegin (s : ScBridge) : ScBridge := { s with mmioPending := true }

/-- `sc_bridge_mmio_read`, from the answer it has picked up: an error leaves the
cached value. -/
def mmioReadFinish (s : ScBridge) (addr : Addr) (result status : Word) : ScBridge × Word :=
  if status ≠ PcieStatus.ok.code then (s, s.regs (addr >>> 2))
  else ({ s with regs := fun i => if i = addr >>> 2 then result else s.regs i }, result)

/-- A read is answered by SystemC. -/
def forwardsRead (s : ScBridge) (addr : Addr) : Bool := addr < SC_REG_COUNT && s.connected

/-- What a read that is not forwarded returns. -/
def mmioReadLocal (s : ScBridge) (addr : Addr) : Word :=
  if addr ≥ SC_REG_COUNT then 0
  else if addr = SC_REG_DEV_ID then SC_DEV_ID
  else if addr = SC_REG_STATUS then SC_STATUS_READY
  else s.regs (addr >>> 2)

/-- `regs` after a reset. -/
def resetRegs (i : Addr) : Word :=
  if i = SC_REG_DEV_ID >>> 2 then SC_DEV_ID
  else if i = SC_REG_STATUS >>> 2 then SC_STATUS_READY
  else if i = SC_REG_MAC_LO >>> 2 then 0x00541234
  else if i = SC_REG_MAC_HI >>> 2 then 0x0056
  else 0

/-- `sc_bridge_realize`: not connected yet. -/
def new (msix : Bool) : ScBridge where
  connected := false
  msix := msix
  mmioPending := false
  mmioRespData := 0
  mmioRespStatus := 0
  regs := resetRegs

def setReg (s : ScBridge) (addr : Addr) (val : Word) : ScBridge :=
  { s with regs := fun i => if i = addr >>> 2 then val else s.regs i }

/-- A write is not ignored. -/
def takesWrite (addr : Addr) : Bool := addr < SC_REG_COUNT && addr ≠ SC_REG_STATUS && addr ≠ SC_REG_DEV_ID

/-- The switch of `sc_bridge_mmio_write`, for a write that is not ignored. -/
def mmioWriteLocal (s : ScBridge) (addr : Addr) (val : BitVec 64) : ScBridge :=
  if addr = SC_REG_CTRL ∧ val &&& SC_CTRL_RESET.setWidth 64 ≠ 0 then { s with regs := resetRegs }
  else if addr = SC_REG_IRQ_STS then s.setReg addr (s.regs (addr >>> 2) &&& ~~~val.setWidth 32)
  else if addr = SC_REG_DMA_CTRL ∧ val &&& SC_DMA_START.setWidth 64 ≠ 0 then
    (s.setReg addr (val.setWidth 32)).setReg SC_REG_DMA_STS SC_STATUS_DMA_BSY
  else s.setReg addr (val.setWidth 32)

/-- `sc_bridge_mmio_write`, and the message it sends. A reset is forwarded like
any other write. -/
def mmioWrite (s : ScBridge) (addr : Addr) (val : BitVec 64) : ScBridge × Option Msg :=
  if takesWrite addr then
    (s.mmioWriteLocal addr val, if s.connected then some (mmioWriteMsg addr (val.setWidth 32)) else none)
  else (s, none)

/-- `MIN(req->length, DMA_BUF_SIZE)`. -/
def dmaLen (len : Word) : Nat := min len.toNat DMA_BUF_SIZE

/-- The answer to a read, from what `pci_dma_read` left in the buffer. -/
def handleDmaRead (buf : List Byte) : Msg := dmaReadResp buf

def handleDmaWrite (mem : GuestMem) (addr : Addr) (len : Word) (data : List Byte) : GuestMem :=
  mem.write addr (data.take (dmaLen len))

def handleMsg (s : ScBridge) (mem : GuestMem) (m : Msg) : ScHandled :=
  match m.kind with
  | some .mmioRead =>
    if m.payload.length < 8 then ⟨s, mem, [], [], false⟩
    else
      ⟨{ s with
          mmioRespData := ofLeBytes 32 m.payload
          mmioRespStatus := ofLeBytes 32 (m.payload.drop 4)
          mmioPending := false }, mem, [], [], true⟩
  | some .mmioWrite => ⟨s, mem, [], [], false⟩
  | some .dmaRead =>
    if m.payload.length < 12 then ⟨s, mem, [], [], false⟩
    else
      let addr := ofLeBytes 64 m.payload
      let len := ofLeBytes 32 (m.payload.drop 8)
      ⟨s, mem, [handleDmaRead (mem.read addr (dmaLen len))], [], false⟩
  | some .dmaWrite =>
    if m.payload.length < 12 then ⟨s, mem, [], [], false⟩
    else
      let addr := ofLeBytes 64 m.payload
      let len := ofLeBytes 32 (m.payload.drop 8)
      ⟨s, handleDmaWrite mem addr len (m.payload.drop 12), [statusMsg .dmaWrite], [], false⟩
  | some .msiIrq =>
    if m.payload.length < 4 then ⟨s, mem, [], [], false⟩
    else ⟨s, mem, [], if s.msix then [ofLeBytes 32 m.payload] else [], false⟩
  | _ => ⟨s, mem, [], [], false⟩

section

variable (s : ScBridge) (mem : GuestMem)

/-- Only a `DMA_WRITE` changes guest memory. -/
theorem mem_handleMsg {m : Msg} (h : m.kind ≠ some .dmaWrite) : (s.handleMsg mem m).mem = mem := by
  unfold handleMsg
  split
  · split <;> rfl
  · rfl
  · split <;> rfl
  · rename_i hk
    exact absurd hk h
  · split <;> rfl
  · rfl

/-- Only an answer to a register read changes what `sc_bridge_mmio_read` waits for,
and signals. -/
theorem handleMsg_of_not_read {m : Msg} (h : m.kind ≠ some .mmioRead) :
    (s.handleMsg mem m).bridge = s ∧ (s.handleMsg mem m).signal = false := by
  unfold handleMsg
  split
  · rename_i hk
    exact absurd hk h
  all_goals (try split) <;> exact ⟨rfl, rfl⟩

@[simp] theorem mmioPending_mmioReadFinish (addr : Addr) (result status : Word) :
    (s.mmioReadFinish addr result status).1.mmioPending = s.mmioPending := by
  unfold mmioReadFinish
  split <;> rfl

/-- Only a DMA request is answered. -/
theorem sent_eq_nil {m : Msg} (hr : m.kind ≠ some .dmaRead) (hw : m.kind ≠ some .dmaWrite) :
    (s.handleMsg mem m).sent = [] := by
  unfold handleMsg
  split
  · split <;> rfl
  · rfl
  · rename_i hk
    exact absurd hk hr
  · rename_i hk
    exact absurd hk hw
  · split <;> rfl
  · rfl

@[simp] theorem connected_handleMsg (m : Msg) : (s.handleMsg mem m).bridge.connected = s.connected := by
  unfold handleMsg
  split <;> (try split) <;> rfl

theorem regs_handleMsg (m : Msg) : (s.handleMsg mem m).bridge.regs = s.regs := by
  unfold handleMsg
  split <;> (try split) <;> rfl

@[simp] theorem connected_mmioWrite (addr : Addr) (val : BitVec 64) :
    (s.mmioWrite addr val).1.connected = s.connected := by
  unfold mmioWrite mmioWriteLocal
  repeat' split
  all_goals rfl

@[simp] theorem connected_mmioReadFinish (addr : Addr) (result status : Word) :
    (s.mmioReadFinish addr result status).1.connected = s.connected := by
  unfold mmioReadFinish
  split <;> rfl

/-- What is sent to SystemC are answers to DMA requests. -/
theorem kind_sent {m r : Msg} (hr : r ∈ (s.handleMsg mem m).sent) :
    r.kind = some .dmaRead ∨ r.kind = some .dmaWrite := by
  unfold handleMsg at hr
  split at hr <;> (try split at hr) <;> simp only [List.not_mem_nil, List.mem_singleton] at hr
  · exact .inl (hr ▸ kind_makeMsg _ _)
  · exact .inr (hr ▸ kind_makeMsg _ _)

theorem addr_dmaReadReq (addr : Addr) (len : Word) : ofLeBytes 64 (dmaReadReq addr len).payload = addr :=
  ofLeBytes_leBytes (by decide) _ _

theorem length_dmaReadReq (addr : Addr) (len : Word) :
    ofLeBytes 32 ((dmaReadReq addr len).payload.drop 8) = len := by
  have h8 : (dmaReadReq addr len).payload.drop 8 = leBytes len ++ [] := by
    rw [List.append_nil]; exact List.drop_left' (length_leBytes addr)
  rw [h8, ofLeBytes_leBytes (w := 32) (by decide)]

@[simp] theorem handleMsg_dmaReadReq (addr : Addr) (len : Word) :
    s.handleMsg mem (dmaReadReq addr len) = ⟨s, mem, [dmaReadResp (mem.read addr (dmaLen len))], [], false⟩ := by
  have hl : ¬ (dmaReadReq addr len).payload.length < 12 := by simp [dmaReadReq]
  rw [handleMsg, show (dmaReadReq addr len).kind = some .dmaRead from kind_makeMsg _ _]
  refine (if_neg hl).trans ?_
  simp only [addr_dmaReadReq, length_dmaReadReq, handleDmaRead]

theorem addr_dmaWriteReq (addr : Addr) (data : List Byte) : ofLeBytes 64 (dmaWriteReq addr data).payload = addr :=
  ofLeBytes_leBytes (by decide) _ _

theorem length_dmaWriteReq (addr : Addr) (data : List Byte) :
    ofLeBytes 32 ((dmaWriteReq addr data).payload.drop 8) = BitVec.ofNat 32 data.length := by
  rw [dmaWriteReq, payload_makeMsg, List.drop_left' (length_leBytes addr)]
  exact ofLeBytes_leBytes (by decide) _ _

theorem data_dmaWriteReq (addr : Addr) (data : List Byte) : (dmaWriteReq addr data).payload.drop 12 = data := by
  rw [dmaWriteReq, payload_makeMsg, show 12 = 8 + 4 from rfl, ← List.drop_drop,
    List.drop_left' (length_leBytes addr)]
  exact List.drop_left' (length_leBytes _)

theorem length_payload_dmaWriteReq (addr : Addr) (data : List Byte) :
    (dmaWriteReq addr data).payload.length = 12 + data.length := by
  simp only [dmaWriteReq, payload_makeMsg, List.length_append, length_leBytes]
  omega

/-- The bytes of a write that QEMU does not cut off. -/
theorem take_dmaLen {data : List Byte} (h : data.length < 2 ^ 32) :
    data.take (dmaLen (BitVec.ofNat 32 data.length)) = data.take DMA_BUF_SIZE := by
  rw [dmaLen, BitVec.toNat_ofNat, Nat.mod_eq_of_lt h, Nat.min_comm, ← List.take_take, List.take_length]

@[simp] theorem handleMsg_dmaWriteReq (addr : Addr) {data : List Byte} (h : data.length < 2 ^ 32) :
    s.handleMsg mem (dmaWriteReq addr data) =
      ⟨s, mem.write addr (data.take DMA_BUF_SIZE), [statusMsg .dmaWrite], [], false⟩ := by
  have hl : ¬ (dmaWriteReq addr data).payload.length < 12 := by
    rw [length_payload_dmaWriteReq]
    omega
  rw [handleMsg, show (dmaWriteReq addr data).kind = some .dmaWrite from kind_makeMsg _ _]
  refine (if_neg hl).trans ?_
  simp only [addr_dmaWriteReq, length_dmaWriteReq, data_dmaWriteReq, handleDmaWrite, take_dmaLen h]

@[simp] theorem handleMsg_mmioReadResp (data : Word) :
    s.handleMsg mem (mmioReadResp data) = ⟨{ s with
      mmioRespData := data
      mmioRespStatus := PcieStatus.ok.code
      mmioPending := false }, mem, [], [], true⟩ := by
  have hl : ¬ (mmioReadResp data).payload.length < 8 := by simp [mmioReadResp]
  have hd : ofLeBytes 32 (mmioReadResp data).payload = data := ofLeBytes_leBytes (by decide) _ _
  have h4 : (mmioReadResp data).payload.drop 4 = leBytes PcieStatus.ok.code ++ [] := by
    rw [List.append_nil]; exact List.drop_left' (length_leBytes data)
  rw [handleMsg, show (mmioReadResp data).kind = some .mmioRead from kind_makeMsg _ _]
  refine (if_neg hl).trans ?_
  simp only [hd, h4, ofLeBytes_leBytes (w := 32) (by decide)]

@[simp] theorem handleMsg_msiIrq (vector : Word) :
    s.handleMsg mem (msiIrqMsg vector) = ⟨s, mem, [], if s.msix then [vector] else [], false⟩ := by
  have hl : ¬ (msiIrqMsg vector).payload.length < 4 := by simp [msiIrqMsg]
  have hv : ofLeBytes 32 (msiIrqMsg vector).payload = vector := by
    rw [show (msiIrqMsg vector).payload = leBytes vector ++ [] from (List.append_nil _).symm]
    exact ofLeBytes_leBytes (by decide) _ _
  rw [handleMsg, show (msiIrqMsg vector).kind = some .msiIrq from kind_makeMsg _ _]
  refine (if_neg hl).trans ?_
  rw [hv]

end

end ScBridge

end SmartEth
