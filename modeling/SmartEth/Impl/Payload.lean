import SmartEth.Framework.Reader
import SmartEth.Impl.PcieBridge
import SmartEth.Impl.ScBridge

/-!
# The dispatchers, copy by copy

`PcieBridge::handle_message` and `sc_bridge_handle_msg` in two parts: the copies
they make out of the payload (`readMessage`, `readMsg`), and what they then do
(`perform`). The sizes are in 32 bits, as in the source. What `pci_dma_read` and
`pci_dma_write` come to is a parameter here (`PciDma`).
-/

namespace SmartEth

/-! ## SystemC side -/

/-- What `handle_message` has copied out of the payload. -/
inductive PcieRequest where
  | mmioRead (addr : Addr)
  | mmioWrite (addr : Addr) (data : Word)
  | reset
  | dmaRead (status : Word) (data : List Byte)
  | dmaWrite
  | unknown

namespace PcieRequest

/-- A register callback is called. -/
def callsBack : PcieRequest → Bool
  | .mmioRead _ | .mmioWrite _ _ | .reset => true
  | _ => false

/-- The number of bytes stored into `m_dma_resp`. -/
def stored : PcieRequest → Nat
  | .dmaRead _ data => data.length
  | _ => 0

end PcieRequest

namespace PcieBridge

/-- The copies of `handle_message`, which does not look at `hdr.length` before it
makes them. -/
def readMessage (type length : Word) : Reader Byte PcieRequest :=
  match PcieMsgType.ofCode type with
  | some .mmioRead => do
    let addr ← Reader.get 0 8
    pure (.mmioRead (ofLeBytes 64 addr))
  | some .mmioWrite => do
    let addr ← Reader.get 0 8
    let data ← Reader.get 8 4
    pure (.mmioWrite (ofLeBytes 64 addr) (ofLeBytes 32 data))
  | some .bridgeReset => pure .reset
  | some .dmaRead => do
    let status ← Reader.get 0 4
    let dataLen := length - 4
    let data ← Reader.get 4 dataLen.toNat
    pure (.dmaRead (ofLeBytes 32 status) data)
  | some .dmaWrite => pure .dmaWrite
  | _ => pure .unknown

def perform (b : PcieBridge) (nic : SmartNic) : PcieRequest → PcieHandled
  | .mmioRead addr => ⟨b, nic, [mmioReadResp (nic.onMmioRead addr)], false⟩
  | .mmioWrite addr data =>
    let (nic, outs) := nic.onMmioWrite addr data
    ⟨b, nic, outMsgs outs ++ [statusMsg .mmioWrite], outs.contains .notifyTx⟩
  | .reset => ⟨b, nic.onReset, [statusMsg .bridgeReset], false⟩
  | .dmaRead _ data => ⟨{ b with dmaResp := data, dmaPending := false }, nic, [], false⟩
  | .dmaWrite => ⟨{ b with dmaPending := false }, nic, [], false⟩
  | .unknown => ⟨b, nic, [], false⟩

/-- The size of the payload that the protocol gives a message of this type, less
the data of a `DMA_READ`. -/
def payloadSize (type : Word) : Nat :=
  match PcieMsgType.ofCode type with
  | some .mmioRead => 8
  | some .mmioWrite => 12
  | some .dmaRead => 4
  | some .dmaWrite => 4
  | _ => 0

end PcieBridge

/-! ## QEMU side -/

/-- How `pci_dma_read` and `pci_dma_write` turn out. One that fails leaves in the
buffer what was there (`stale`), or has written a part of the bytes. -/
structure PciDma where
  readOk : Addr → Nat → Bool
  stale : Nat → Byte
  writeOk : Addr → Nat → Bool
  part : Nat

namespace PciDma

/-- The buffer of `len` bytes after `pci_dma_read`. -/
def read (p : PciDma) (mem : GuestMem) (addr : Addr) (len : Nat) : List Byte :=
  if p.readOk addr len then mem.read addr len else (List.range len).map p.stale

/-- Guest memory after `pci_dma_write`. -/
def write (p : PciDma) (mem : GuestMem) (addr : Addr) (data : List Byte) : GuestMem :=
  mem.write addr (if p.writeOk addr data.length then data else data.take p.part)

/-- No access fails. -/
def exact : PciDma := ⟨fun _ _ => true, fun _ => 0, fun _ _ => true, 0⟩

@[simp] theorem read_exact (mem : GuestMem) (addr : Addr) (len : Nat) :
    exact.read mem addr len = mem.read addr len := rfl

@[simp] theorem write_exact (mem : GuestMem) (addr : Addr) (data : List Byte) :
    exact.write mem addr data = mem.write addr data := rfl

end PciDma

/-- What `sc_bridge_handle_msg` and the handlers have copied out of the payload;
the data of a `DMA_WRITE` is what `pci_dma_write` takes. -/
inductive ScRequest where
  | mmioRead (data status : Word)
  | mmioWrite
  | dmaRead (addr : Addr) (length : Word)
  | dmaWrite (addr : Addr) (length : Word) (data : List Byte)
  | msi (vector : Word)
  | short
  | unknown

namespace ScBridge

def readMsg (type payloadLen : Word) : Reader Byte ScRequest :=
  match PcieMsgType.ofCode type with
  | some .mmioRead =>
    if payloadLen.toNat < 8 then pure .short
    else do
      let data ← Reader.get 0 4
      let status ← Reader.get 4 4
      pure (.mmioRead (ofLeBytes 32 data) (ofLeBytes 32 status))
  | some .mmioWrite => pure .mmioWrite
  | some .dmaRead =>
    if payloadLen.toNat < 12 then pure .short
    else do
      let addr ← Reader.get 0 8
      let length ← Reader.get 8 4
      pure (.dmaRead (ofLeBytes 64 addr) (ofLeBytes 32 length))
  | some .dmaWrite =>
    if payloadLen.toNat < 12 then pure .short
    else do
      let addr ← Reader.get 0 8
      let length ← Reader.get 8 4
      -- `payload_len` is not compared with the length inside the payload
      let data ← Reader.get 12 (dmaLen (ofLeBytes 32 length))
      pure (.dmaWrite (ofLeBytes 64 addr) (ofLeBytes 32 length) data)
  | some .msiIrq =>
    if payloadLen.toNat < 4 then pure .short
    else do
      let vector ← Reader.get 0 4
      pure (.msi (ofLeBytes 32 vector))
  | _ => pure .unknown

/-- `handleMsg` of a whole message, with the accesses to guest memory as they turn
out. -/
def handleMsgPci (pci : PciDma) (s : ScBridge) (mem : GuestMem) (m : Msg) : ScHandled :=
  match m.kind with
  | some .dmaRead =>
    if m.payload.length < 12 then ⟨s, mem, [], [], false⟩
    else
      let addr := ofLeBytes 64 m.payload
      let len := ofLeBytes 32 (m.payload.drop 8)
      ⟨s, mem, [handleDmaRead (pci.read mem addr (dmaLen len))], [], false⟩
  | some .dmaWrite =>
    if m.payload.length < 12 then ⟨s, mem, [], [], false⟩
    else
      let addr := ofLeBytes 64 m.payload
      let len := ofLeBytes 32 (m.payload.drop 8)
      ⟨s, pci.write mem addr ((m.payload.drop 12).take (dmaLen len)), [statusMsg .dmaWrite], [], false⟩
  | _ => s.handleMsg mem m

def perform (pci : PciDma) (s : ScBridge) (mem : GuestMem) : ScRequest → ScHandled
  | .mmioRead data status =>
    ⟨{ s with mmioRespData := data, mmioRespStatus := status, mmioPending := false }, mem, [], [], true⟩
  | .mmioWrite => ⟨s, mem, [], [], false⟩
  | .dmaRead addr length => ⟨s, mem, [handleDmaRead (pci.read mem addr (dmaLen length))], [], false⟩
  | .dmaWrite addr _ data => ⟨s, pci.write mem addr data, [statusMsg .dmaWrite], [], false⟩
  | .msi vector => ⟨s, mem, [], if s.msix then [vector] else [], false⟩
  | .short | .unknown => ⟨s, mem, [], [], false⟩

section

variable (pci : PciDma) (s : ScBridge) (mem : GuestMem)

theorem handleMsgPci_of_not_dma {m : Msg} (hr : m.kind ≠ some .dmaRead) (hw : m.kind ≠ some .dmaWrite) :
    s.handleMsgPci pci mem m = s.handleMsg mem m := by
  unfold handleMsgPci
  split
  · rename_i hk
    exact absurd hk hr
  · rename_i hk
    exact absurd hk hw
  · rfl

@[simp] theorem handleMsgPci_exact (m : Msg) : s.handleMsgPci .exact mem m = s.handleMsg mem m := by
  unfold handleMsgPci
  split
  · rename_i hk
    simp only [handleMsg, hk, PciDma.read_exact]
  · rename_i hk
    simp only [handleMsg, hk, PciDma.write_exact, handleDmaWrite]
  · rfl

@[simp] theorem handleMsgPci_dmaReadReq (addr : Addr) (len : Word) : s.handleMsgPci pci mem (dmaReadReq addr len) =
    ⟨s, mem, [dmaReadResp (pci.read mem addr (dmaLen len))], [], false⟩ := by
  have hl : ¬ (dmaReadReq addr len).payload.length < 12 := by simp [dmaReadReq]
  rw [handleMsgPci, show (dmaReadReq addr len).kind = some .dmaRead from kind_makeMsg _ _]
  refine (if_neg hl).trans ?_
  simp only [addr_dmaReadReq, length_dmaReadReq, handleDmaRead]

@[simp] theorem handleMsgPci_dmaWriteReq (addr : Addr) {data : List Byte} (h : data.length < 2 ^ 32) :
    s.handleMsgPci pci mem (dmaWriteReq addr data) =
      ⟨s, pci.write mem addr (data.take DMA_BUF_SIZE), [statusMsg .dmaWrite], [], false⟩ := by
  have hl : ¬ (dmaWriteReq addr data).payload.length < 12 := by
    rw [length_payload_dmaWriteReq]
    omega
  rw [handleMsgPci, show (dmaWriteReq addr data).kind = some .dmaWrite from kind_makeMsg _ _]
  refine (if_neg hl).trans ?_
  simp only [addr_dmaWriteReq, length_dmaWriteReq, data_dmaWriteReq, take_dmaLen h]

end

end ScBridge

end SmartEth
