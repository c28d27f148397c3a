import SmartEth.Impl.SmartEthMain

/-!
# Probe and remove, as calls of the PCI core (`smarteth_main.c`)

`SmartEthMain` has what probe and remove do to the device and to mapped memory; here are the
calls that it leaves out: what they acquire, in which order, which of them may fail, and the
labels that release it again.
-/

namespace SmartEth

/-- What probe acquires, each under the call that gets it. The last two are of one buffer. -/
inductive Resource where
  /-- `devm_kzalloc`, the adapter. -/
  | adapter
  /-- `pci_enable_device`. -/
  | device
  /-- `pci_request_region`. -/
  | region
  /-- `pci_iomap`. -/
  | iomap
  /-- `pci_alloc_irq_vectors`. -/
  | vectors
  /-- `request_irq`. -/
  | irq
  /-- `dmam_alloc_coherent`, twice. -/
  | txRing
  | rxRing
  /-- `devm_kcalloc`, twice. -/
  | rxBufArray
  | rxDmaArray
  /-- `kmalloc`. -/
  | rxBuf (i : Nat)
  /-- `dma_map_single`. -/
  | rxMap (i : Nat)
  deriving DecidableEq

/-- The driver core releases it, when probe fails and after remove (`devm_`, `dmam_`). -/
def Resource.managed : Resource → Bool
  | .adapter | .txRing | .rxRing | .rxBufArray | .rxDmaArray => true
  | _ => false

/-- A call that may fail. -/
inductive ProbeCall where
  | get (r : Resource)
  /-- `dma_set_mask_and_coherent`. -/
  | dmaMask
  /-- `DEV_ID` is read, and is the one expected. -/
  | devId
  deriving DecidableEq

inductive ProbeOp where
  | call (c : ProbeCall)
  | release (r : Resource)

/-- A call gives whether it has succeeded. -/
abbrev ProbeOp.Res : ProbeOp → Type
  | .call _ => Bool
  | .release _ => Unit

abbrev ProbeM := Prog ProbeOp ProbeOp.Res

namespace ProbeCalls

open SmartEthMain (SMARTETH_RING_SIZE)

def get (r : Resource) : ProbeM Bool := Prog.call (ProbeOp.call (.get r))
def dmaMask : ProbeM Bool := Prog.call (ProbeOp.call .dmaMask)
def devId : ProbeM Bool := Prog.call (ProbeOp.call .devId)
def release (r : Resource) : ProbeM Unit := Prog.call (ProbeOp.release r)

/-! ## Receive buffers

`rx_buf` is a list of which of its entries are not `NULL`. -/

/-- `smarteth_prepare_rx_buffers`, for the `n` entries from `i`: `rx_buf`, and whether none has failed. -/
def prepareRxBuffers (i : Nat) : Nat → ProbeM (List Bool × Bool)
  | 0 => pure ([], true)
  | n + 1 => do
    if !(← get (.rxBuf i)) then pure (List.replicate (n + 1) false, false)
    else if !(← get (.rxMap i)) then
      release (.rxBuf i)
      pure (List.replicate (n + 1) false, false)
    else
      let (rest, ok) ← prepareRxBuffers (i + 1) n
      pure (true :: rest, ok)

/-- `smarteth_free_rx_buffers`, from entry `i`. -/
def freeRxBuffers (i : Nat) : List Bool → ProbeM Unit
  | [] => pure ()
  | buf :: rest => do
    if buf then
      release (.rxMap i)
      release (.rxBuf i)
    freeRxBuffers (i + 1) rest

/-! ## Probe and remove -/

def errDisable : ProbeM (Option (List Bool)) := do
  release .device
  pure none

def errRelease : ProbeM (Option (List Bool)) := do
  release .region
  errDisable

def errIounmap : ProbeM (Option (List Bool)) := do
  release .iomap
  errRelease

def errVectors : ProbeM (Option (List Bool)) := do
  release .vectors
  errIounmap

def errIrq : ProbeM (Option (List Bool)) := do
  release .irq
  errVectors

/-- `smarteth_probe`, from the DMA-coherent rings on. -/
def probeRings : ProbeM (Option (List Bool)) := do
  if !(← get .txRing) then errIrq
  else if !(← get .rxRing) then errIrq
  else
    let rxBuf ← get .rxBufArray
    let rxDma ← get .rxDmaArray
    if !rxBuf || !rxDma then errIrq
    else
      let (bufs, ok) ← prepareRxBuffers 0 SMARTETH_RING_SIZE
      if !ok then errIrq else pure (some bufs)

/-- `smarteth_probe`: `rx_buf`, or none if it fails. -/
def probe : ProbeM (Option (List Bool)) := do
  if !(← get .adapter) then pure none
  else if !(← get .device) then pure none
  else if !(← dmaMask) then errDisable
  else if !(← get .region) then errDisable
  else if !(← get .iomap) then errRelease
  else if !(← devId) then errIounmap
  else if !(← get .vectors) then errIounmap
  else if !(← get .irq) then errVectors
  else probeRings

/-- `smarteth_remove`. -/
def remove (rxBuf : List Bool) : ProbeM Unit := do
  freeRxBuffers 0 rxBuf
  release .irq
  release .vectors
  release .iomap
  release .region
  release .device

end ProbeCalls

end SmartEth
