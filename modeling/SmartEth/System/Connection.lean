import SmartEth.System.MmioOrder

/-!
# Register accesses while SystemC comes and goes

One vCPU in one register access after another, and `sc_bridge_io_thread`, which
accepts one connection and ends with it. What is on its way then is lost, and a
read that has not been answered waits for ever. The guest's accesses are aligned
and 32 bits wide, and none resets; the NIC takes steps by itself.
-/

namespace SmartEth

/-- Where `sc_bridge_io_thread` is: in `accept`, in its loop, at its end. -/
inductive IoLoc where
  | accept
  | loop
  | done
  deriving DecidableEq

/-- A section of one of the NIC's threads, with the bridge's answers. -/
inductive NicWork where
  | packet (data : List Byte) (r : Replies)
  | processDma (r : Replies)
  | txIteration (r : Replies)
  | txDone (r : Replies)

def NicWork.run (nic : SmartNic) : NicWork → SmartNic
  | packet data r => (nic.onPacketRx data).runWith r
  | processDma r => (nic.processDmaBody.runWith r).1
  | txIteration r => (nic.processTxIteration.runWith r).1
  | txDone r => nic.processTxDone.runWith r

structure Connection where
  io : IoLoc
  mmio : MmioOrder
  /-- Every write of the vCPU, forwarded or not, and every read that has returned,
  in program order. -/
  accesses : List MmioAccess

inductive ConnectionEvent where
  | connect
  /-- `accept` fails. -/
  | refuse
  | disconnect
  | write (addr : Addr) (val : Word)
  /-- The request of a read, for which there is no socket any more. -/
  | unsent
  | nic (w : NicWork)
  | mmio (e : MmioEvent)

namespace Connection

/-- The steps that are as in `MmioOrder`, some only while connected. -/
def allows (s : Connection) : MmioEvent → Bool
  | .readBegin addr => addr &&& 3 = 0
  | .check | .wake | .readReturn | .dma _ | .guest _ _ => true
  | .readSend | .qemu | .socket | .nicSend _ => s.io = .loop
  | .write _ _ | .nic _ => false

def step (s : Connection) : ConnectionEvent → Option Connection
  | .connect =>
    if s.io = .accept then
      some { s with
        io := .loop
        mmio := { s.mmio with link := { s.mmio.link with qemu := { s.mmio.link.qemu with connected := true } } } }
    else none
  | .refuse => if s.io = .accept then some { s with io := .done } else none
  | .disconnect =>
    if s.io = .loop then
      some { s with
        io := .done
        mmio := { s.mmio with link := { s.mmio.link with
          qemu := { s.mmio.link.qemu with connected := false }
          toQemu := []
          fromQemu := [] } } }
    else none
  | .write addr val =>
    if Ordinary (addr, val) then
      (s.mmio.step (.write addr (val.setWidth 64))).map fun m =>
        { s with mmio := m, accesses := s.accesses ++ [.write addr val] }
    else none
  | .unsent =>
    match s.mmio.pc with
    | .pending addr => if s.io = .loop then none else some { s with mmio := { s.mmio with pc := .sent addr } }
    | _ => none
  | .nic w => some { s with mmio := { s.mmio with link := { s.mmio.link with nic := w.run s.mmio.link.nic } } }
  | .mmio e =>
    if s.allows e then
      -- a read that has returned is the last in the trace
      (s.mmio.step e).map fun m =>
        { s with mmio := m, accesses := s.accesses ++ m.trace.drop s.mmio.trace.length }
    else none

/-- Before the connection, SystemC in any state. -/
def init (msix : Bool) (bridge : PcieBridge) (nic : SmartNic) (mem : GuestMem) : Connection where
  io := .accept
  mmio := {
    link := {
      bridge := bridge
      nic := nic
      qemu := .new msix
      mem := mem
      toQemu := []
      fromQemu := []
      count := 0 }
    pc := .idle
    trace := [] }
  accesses := []

/-- Every read of a plain register returned what was last written to it. -/
def ReadsOwnWrites (l : List MmioAccess) : Prop :=
  ∀ pre addr value post v, l = pre ++ .read addr value :: post → Plain addr →
    lastWritten addr (MmioAccess.writes pre) = some v → value = v

/-- What the last write over the connection left in a register of the NIC, which
began as `nic`. -/
def forwarded (nic : SmartNic) (s : Connection) (addr : Addr) : Word :=
  (lastWritten addr (MmioAccess.writes s.mmio.trace)).getD (nic.reg addr)

/-- When a read of a plain register returns with SystemC's answer, the last value
written to the register is the last one forwarded. -/
def Forwarded (nic : SmartNic) (s : Connection) : ConnectionEvent → Prop
  | .mmio .readReturn =>
    match s.mmio.pc with
    | .got addr _ _ =>
      Plain addr → ∀ v ∈ lastWritten addr (MmioAccess.writes s.accesses), forwarded nic s addr = v
    | _ => True
  | _ => True

end Connection

end SmartEth
