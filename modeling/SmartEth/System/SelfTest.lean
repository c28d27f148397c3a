import SmartEth.Framework.Task
import SmartEth.Framework.Mem
import SmartEth.Impl.SelfTest
import SmartEth.Impl.SmartEthPci
import SmartEth.Impl.ScBridge
import SmartEth.System.NicRun
import SmartEth.System.PciConfig

/-!
# The self-test on a board

The firmware's accesses go to config space, to the registers of the SmartEth device at `slot`,
or to memory; between two of them the device takes steps of its own. The device is the one of
Phase 2, or the bridge with the NIC, whose messages arrive in order: a write is where the NIC
handles it, and a read where it is answered.
-/

namespace SmartEth

/-- The registers of BAR0, of 32 bits each, and what the device does of itself. -/
structure BarDevice (ν ε : Type) where
  size : Nat
  read : ν → Addr → Word × ν
  write : ν → Addr → Word → ν
  step : ν → GuestMem → ε → Option (ν × GuestMem)

/-- Of itself, the Phase 2 device does the timer's callback. -/
def pciDevice : BarDevice SmartEthPci Unit where
  size := 4096
  read s addr := (s.mmioRead addr, s)
  write s addr val := (s.mmioWrite addr (val.setWidth 64)).1
  step s mem _ :=
    if s.timer then
      let x := { s with timer := false }.dmaTimerCb mem
      some (x.1, x.2.1)
    else none

/-- What the NIC does other than for a message from QEMU. -/
def NicEvent.own : NicEvent → Bool
  | .write _ _ => false
  | .reset => false
  | _ => true

/-- What the NIC's DMA makes of guest memory is open. -/
def scDevice : BarDevice (ScBridge × NicRun) (NicEvent × GuestMem) where
  size := SC_REG_COUNT.toNat
  read s addr :=
    if s.1.forwardsRead addr then
      let x := s.1.mmioReadFinish addr (s.2.nic.onMmioRead addr) PcieStatus.ok.code
      (x.2, x.1, s.2)
    else (s.1.mmioReadLocal addr, s)
  write s addr val :=
    match s.1.mmioWrite addr (val.setWidth 64) with
    | (bridge, some _) => (bridge, { s.2 with nic := (s.2.nic.onMmioWrite addr val).1 })
    | (bridge, none) => (bridge, s.2)
  step s _ e := if e.1.own then (s.2.step e.1).map fun nic => ((s.1, nic), e.2) else none

namespace PciTest

structure Board (ν ε : Type) where
  cfg : PciConfig
  dev : ν
  mem : GuestMem
  /-- What the device and the firmware have done. -/
  trace : List (ε ⊕ FirmwareOp)

/-- Where an access goes: to a word of config space, to an offset in BAR0, to memory. -/
inductive Target where
  | config (idx : Word)
  | device (offset : Addr)
  | memory

def ecam : Region 64 := ⟨PCIE_ECAM_BASE, 2 ^ 28⟩

/-- The address in BAR0 of the device at `slot`. -/
def bar0Of (c : PciConfig) (slot : Word) : BitVec 64 := (c.read32 0 slot 0 PciConfig.PCI_BAR0 &&& ~~~0xF).setWidth 64

/-- The device at `slot` decodes memory accesses. -/
def MemEnabled (c : PciConfig) (slot : Word) : Prop := c.read16 0 slot 0 PciConfig.PCI_COMMAND &&& 0x0002 ≠ 0

instance (c : PciConfig) (slot : Word) : Decidable (MemEnabled c slot) := inferInstanceAs (Decidable (_ ≠ _))

def target (size : Nat) (slot : Word) (c : PciConfig) (addr : BitVec 64) : Target :=
  if addr ∈ ecam then .config (((addr - PCIE_ECAM_BASE) >>> 2).setWidth 32)
  else if MemEnabled c slot ∧ addr ∈ (⟨bar0Of c slot, size⟩ : Region 64) then .device (addr - bar0Of c slot)
  else .memory

/-- A write to a word of config space. -/
def setWord (c : PciConfig) (idx val : Word) : PciConfig :=
  { c with words := fun i => if i = idx then PciConfig.store (c.w1c i) (c.words i) val else c.words i }

namespace Board

variable {ν ε : Type} (D : BarDevice ν ε) (slot : Word)

def perform (b : Board ν ε) : (e : FirmwareOp) → e.Res × Board ν ε
  | .load addr =>
    match target D.size slot b.cfg addr with
    | .config idx => (b.cfg.words idx, b)
    | .device offset => ((D.read b.dev offset).1, { b with dev := (D.read b.dev offset).2 })
    | .memory => (ofLeBytes 32 (b.mem.read addr 4), b)
  | .store addr val =>
    match target D.size slot b.cfg addr with
    | .config idx => ((), { b with cfg := setWord b.cfg idx val })
    | .device offset => ((), { b with dev := D.write b.dev offset val })
    | .memory => ((), { b with mem := b.mem.write addr (leBytes val) })
  | .puts _ => ((), b)
  | .delay _ => ((), b)

def log (b : Board ν ε) (x : ε ⊕ FirmwareOp) : Board ν ε := { b with trace := b.trace ++ [x] }

/-- The board, for the firmware. -/
def world : World (Board ν ε) ε Unit FirmwareOp FirmwareOp.Res where
  env := fun b e => (D.step b.dev b.mem e).map fun x => { b with dev := x.1, mem := x.2 }.log (.inl e)
  act := fun b e _ => some ((b.perform D slot e).1, (b.perform D slot e).2.log (.inr e))

end Board

/-! ## What a trace shows -/

section

variable {ε : Type}

/-- The texts on the console. -/
def console (trace : List (ε ⊕ FirmwareOp)) : List String :=
  trace.filterMap fun x => match x with
    | .inr (.puts text) => some text
    | _ => none

/-- The last lines of `vTaskPciTest` after tests that came to `result`. -/
def report (result : PciTestResult) : List String :=
  ["====== Tests ", result.text, " ======\n\n", "[PCI] Test task complete, deleting self.\n"]

/-- After a write to `DMA_CTRL`: how often `DMA_STS` has been read, and how often it had been when
the device took its first step. -/
structure Transfer where
  polls : Nat
  done : Option Nat

def watch (bar0 : BitVec 64) (w : Option Transfer) : ε ⊕ FirmwareOp → Option Transfer
  | .inl _ => w.map fun t => { t with done := t.done.or (some t.polls) }
  | .inr (.load addr) => if addr = regAddr bar0 REG_DMA_STS then w.map fun t => { t with polls := t.polls + 1 } else w
  | .inr (.store addr _) => if addr = regAddr bar0 REG_DMA_CTRL then some ⟨0, none⟩ else w
  | .inr (.puts _) => w
  | .inr (.delay _) => w

/-- The last transfer of a trace. -/
def lastTransfer (bar0 : BitVec 64) (trace : List (ε ⊕ FirmwareOp)) : Option Transfer :=
  trace.foldl (watch bar0) none

end

/-! ## The config space that the scan finds -/

/-- COMMAND and BAR0 of the device at `slot` have no bits that are cleared by writing a one. -/
structure PlainRegs (c : PciConfig) (slot : Word) : Prop where
  bar0 : c.w1c (PciConfig.ecamAddr 0 slot 0 PciConfig.PCI_BAR0 >>> 2) = 0
  command : PciConfig.half false (c.w1c (PciConfig.ecamAddr 0 slot 0 PciConfig.PCI_COMMAND >>> 2)) = 0

/-- BAR0 is not programmed, or it is in the PCI window, and so are `size` bytes from there. -/
def BarFits (size : Nat) (c : PciConfig) (slot : Word) : Prop :=
  bar0Of c slot = 0 ∨ (0x40000000 ≤ (bar0Of c slot).toNat ∧ (bar0Of c slot).toNat + size ≤ 0x80000000)

/-- The words of the pattern of `test_dma`, as bytes. -/
def patternBytes (n : Nat) : List Byte := (List.range n).flatMap fun i => leBytes (0xAABB0000 + BitVec.ofNat 32 i)

end PciTest

end SmartEth
