import SmartEth.Impl.Nic

/-!
# The bridge on the SystemC side (`pcie_bridge.cpp`)

What `dma_read` waits for (`m_dma_pending`, `m_dma_resp`), and the handling of a
message from QEMU. The register callbacks are the NIC's; they need `g_reg_mtx`
(`needsLock`), and are the only messages that do.
-/

namespace SmartEth

/-- `sockOpen` tells whether `m_sock_fd` is a socket. -/
structure PcieBridge where
  sockOpen : Bool
  dmaPending : Bool
  dmaResp : List Byte

/-- What the handling of a message comes to: the messages sent to QEMU, in order,
and whether `m_tx_event` is notified. -/
structure PcieHandled where
  bridge : PcieBridge
  nic : SmartNic
  sent : List Msg
  notifyTx : Bool

namespace PcieBridge

/-- `dma_read`, before it sends its request. -/
def dmaReadBegin (b : PcieBridge) : PcieBridge := { b with dmaPending := true, dmaResp := [] }

/-- `dma_read`, if its request cannot be sent. -/
def dmaReadUnsent (b : PcieBridge) : PcieBridge := { b with dmaPending := false }

/-- The bytes that `dma_read` puts into its caller's buffer when it returns true. -/
def dmaReadResult (b : PcieBridge) (len : Word) : List Byte := b.dmaResp.take len.toNat

/-- The messages whose callback takes `g_reg_mtx`. -/
def needsLock (m : Msg) : Bool :=
  match m.kind with
  | some .mmioRead | some .mmioWrite | some .bridgeReset => true
  | _ => false

/-- The messages a register callback sends. -/
def outMsgs (outs : List NicOut) : List Msg :=
  outs.filterMap fun
    | .irq vector => some (msiIrqMsg vector)
    | .notifyTx => none

def handleMessage (b : PcieBridge) (nic : SmartNic) (m : Msg) : PcieHandled :=
  match m.kind with
  | some .mmioRead => ⟨b, nic, [mmioReadResp (nic.onMmioRead (ofLeBytes 64 m.payload))], false⟩
  | some .mmioWrite =>
    let (nic, outs) := nic.onMmioWrite (ofLeBytes 64 m.payload) (ofLeBytes 32 (m.payload.drop 8))
    ⟨b, nic, outMsgs outs ++ [statusMsg .mmioWrite], outs.contains .notifyTx⟩
  | some .bridgeReset => ⟨b, nic.onReset, [statusMsg .bridgeReset], false⟩
  | some .dmaRead => ⟨{ b with dmaResp := m.payload.drop 4, dmaPending := false }, nic, [], false⟩
  | some .dmaWrite => ⟨{ b with dmaPending := false }, nic, [], false⟩
  | _ => ⟨b, nic, [], false⟩

section

variable (b : PcieBridge) (nic : SmartNic)

@[simp] theorem handleMessage_mmioReadReq (addr : Addr) :
    b.handleMessage nic (mmioReadReq addr) = ⟨b, nic, [mmioReadResp (nic.onMmioRead addr)], false⟩ := by
  have ha : ofLeBytes 64 (leBytes addr) = addr := by
    have h := ofLeBytes_leBytes (w := 64) (by decide) addr []
    rwa [List.append_nil] at h
  rw [handleMessage, mmioReadReq, kind_makeMsg]
  simp only [payload_makeMsg, ha]

@[simp] theorem sockOpen_handleMessage (m : Msg) : (b.handleMessage nic m).bridge.sockOpen = b.sockOpen := by
  unfold handleMessage
  split <;> rfl

theorem kind_outMsgs {outs : List NicOut} {r : Msg} (h : r ∈ outMsgs outs) : r.kind = some .msiIrq := by
  obtain ⟨o, -, ho⟩ := List.mem_filterMap.mp h
  cases o with
  | notifyTx => cases ho
  | irq vector =>
    cases ho
    exact kind_makeMsg _ _

/-- Only a register read is answered with a value. -/
theorem kind_sent_ne {m r : Msg} (h : m.kind ≠ some .mmioRead) (hr : r ∈ (b.handleMessage nic m).sent) :
    r.kind ≠ some .mmioRead := by
  unfold handleMessage at hr
  split at hr
  · rename_i hk
    exact absurd hk h
  · rcases List.mem_append.mp hr with hm | hm
    · rw [kind_outMsgs hm]
      decide
    · rw [List.mem_singleton.mp hm, statusMsg, kind_makeMsg]
      decide
  · rw [List.mem_singleton.mp hr, statusMsg, kind_makeMsg]
    decide
  all_goals cases hr

/-- A message that is not of a DMA call does not touch what `dma_read` waits for,
and is not answered by one. -/
theorem handleMessage_of_not_dma {m : Msg} (hr : m.kind ≠ some .dmaRead) (hw : m.kind ≠ some .dmaWrite) :
    (b.handleMessage nic m).bridge = b ∧
      ∀ r ∈ (b.handleMessage nic m).sent, r.kind ≠ some .dmaRead ∧ r.kind ≠ some .dmaWrite := by
  unfold handleMessage
  split
  · refine ⟨rfl, fun r h => ?_⟩
    rw [List.mem_singleton.mp h, mmioReadResp, kind_makeMsg]
    decide
  · refine ⟨rfl, fun r h => ?_⟩
    rcases List.mem_append.mp h with h | h
    · rw [kind_outMsgs h]
      decide
    · rw [List.mem_singleton.mp h, statusMsg, kind_makeMsg]
      decide
  · refine ⟨rfl, fun r h => ?_⟩
    rw [List.mem_singleton.mp h, statusMsg, kind_makeMsg]
    decide
  · rename_i hk
    exact absurd hk hr
  · rename_i hk
    exact absurd hk hw
  · refine ⟨rfl, fun r h => ?_⟩
    cases h

@[simp] theorem handleMessage_dmaReadResp (data : List Byte) :
    b.handleMessage nic (dmaReadResp data) = ⟨{ b with dmaResp := data, dmaPending := false }, nic, [], false⟩ := by
  rw [handleMessage, dmaReadResp, kind_makeMsg]
  exact congrArg (fun r => PcieHandled.mk { b with dmaResp := r, dmaPending := false } nic [] false)
    (List.drop_left' (length_leBytes _))

@[simp] theorem handleMessage_dmaWrite :
    b.handleMessage nic (statusMsg .dmaWrite) = ⟨{ b with dmaPending := false }, nic, [], false⟩ := by
  rw [handleMessage, statusMsg, kind_makeMsg]

end

end PcieBridge

end SmartEth
