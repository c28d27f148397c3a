import SmartEth.Framework.Run
import SmartEth.Impl.Nic

/-!
# The SystemC kernel and the processes of the NIC

The processes are coroutines of one OS thread: one runs until it waits, and
`g_reg_mtx` is not recursive. A process that is registered with
`dont_initialize()` starts only at an event that it is sensitive to; `wait(t)`
ends after `t` nanoseconds, `wait(e)` when `e` is notified meanwhile. The socket
and network threads take the lock at any time that it is free, also between two
critical sections of a process that runs.
-/

namespace SmartEth

/-- The processes of `SmartNic`. -/
inductive ScProcess where
  | pollIrq | processDma | processTx | processRx
  deriving DecidableEq

/-- `SmartNic::m_tx_event`, `NetIf::m_rx_event`. -/
inductive ScEvent where
  | tx | rx
  deriving DecidableEq

/-- `dont_initialize()`, and static sensitivity. -/
structure Registration where
  dontInitialize : Bool
  sensitivity : List ScEvent

/-- The constructor registers every process with `dont_initialize()`, and makes
none sensitive to anything. -/
def SmartNic.registration : ScProcess → Registration
  | .pollIrq => ⟨true, []⟩
  | .processDma => ⟨true, []⟩
  | .processTx => ⟨true, []⟩
  | .processRx => ⟨true, []⟩

/-- What a process is waiting for: its first activation, the processor, the end
of a time, an event. -/
inductive ScWait where
  | never
  | ready
  | time (till : Nat)
  | event (e : ScEvent)

/-- Runnable, or in a timed wait. -/
def ScWait.live : ScWait → Bool
  | .ready | .time _ => true
  | _ => false

/-- Where a process goes on: at the top of its loop, past its first or second
`wait`, or further on, at a lock that it takes later (`process_dma` past its
check, `process_tx` past its inner loop). -/
inductive ScLoc where
  | top | first | second | lock
  deriving DecidableEq

structure Kernel where
  nic : SmartNic
  now : Nat
  wait : ScProcess → ScWait
  loc : ScProcess → ScLoc
  running : Option ScProcess
  /-- The process that has waited with a `lock_guard` of `g_reg_mtx` in scope. -/
  holder : Option ScProcess
  /-- Notifications that are outstanding. -/
  notified : ScEvent → Bool
  /-- A process has locked `g_reg_mtx` while its own OS thread held it. -/
  deadlock : Bool

inductive KernelEvent where
  | write (addr : Addr) (data : Word)
  | reset
  | packet (data : List Byte) (r : Replies)
  | pick (p : ScProcess)
  | run (r : Replies)
  | wake (p : ScProcess)
  | deliver (e : ScEvent)
  | advance (now : Nat)

namespace Kernel

def setLoc (s : Kernel) (p : ScProcess) (loc : ScLoc) : Kernel :=
  { s with loc := fun q => if q = p then loc else s.loc q }

/-- The process that runs waits, to go on at `loc`. -/
def suspend (s : Kernel) (p : ScProcess) (loc : ScLoc) (w : ScWait) : Kernel :=
  { s.setLoc p loc with
    wait := fun q => if q = p then w else s.wait q
    running := none }

/-- A critical section of the process that runs. -/
def locked (s : Kernel) (body : Kernel) : Kernel :=
  if s.holder = none then body else { s with deadlock := true }

/-- `poll_irq`: its section may send an interrupt, and changes nothing. -/
def runPollIrq (s : Kernel) : Kernel :=
  match s.loc .pollIrq with
  | .top => s.suspend .pollIrq .first (.time (s.now + 100))
  | _ => s.locked (s.suspend .pollIrq .first (.time (s.now + 100)))

def runProcessDma (s : Kernel) (r : Replies) : Kernel :=
  match s.loc .processDma with
  | .top => s.suspend .processDma .first (.time (s.now + 10))
  | .first =>
    if !s.nic.dmaPending then s.suspend .processDma .first (.time (s.now + 10))
    else s.setLoc .processDma .lock
  | .lock =>
    let (nic, delay) := s.nic.processDmaBody.runWith r
    -- the `lock_guard` is in scope until the end of the loop's body
    s.locked ({ s with nic := nic, holder := some .processDma }.suspend .processDma .second
      (.time (s.now + delay)))
  | .second => { s with holder := none }.suspend .processDma .first (.time (s.now + 10))

def runProcessTx (s : Kernel) (r : Replies) : Kernel :=
  match s.loc .processTx with
  | .top => s.suspend .processTx .first (.event .tx)
  | .first =>
    let (nic, delay) := s.nic.processTxIteration.runWith r
    s.locked <| match delay with
      | none => { s with nic := nic }.setLoc .processTx .lock
      | some delay => { s with nic := nic, holder := some .processTx }.suspend .processTx .second
          (.time (s.now + delay))
  | .second => { s with holder := none }.setLoc .processTx .first
  | .lock =>
    s.locked ({ s with nic := s.nic.processTxDone.runWith r }.suspend .processTx .first (.event .tx))

def runProcessRx (s : Kernel) : Kernel :=
  match s.loc .processRx with
  | .top =>
    if s.nic.netif then s.suspend .processRx .first (.event .rx)
    else s.suspend .processRx .top (.time (s.now + 1000000))
  | .first => s.suspend .processRx .second (.time (s.now + 10))
  | _ => s.setLoc .processRx .top

/-- The process that runs, up to its next wait or its next lock. -/
def runProcess (s : Kernel) (r : Replies) : ScProcess → Kernel
  | .pollIrq => s.runPollIrq
  | .processDma => s.runProcessDma r
  | .processTx => s.runProcessTx r
  | .processRx => s.runProcessRx

/-- An event is notified: to those that wait for it, and to those that were not
activated yet and are sensitive to it. -/
def notify (reg : ScProcess → Registration) (e : ScEvent) (p : ScProcess) : ScWait → ScWait
  | .event e' => if e' = e then .ready else .event e'
  | .never => if e ∈ (reg p).sensitivity then .ready else .never
  | w => w

def processes : List ScProcess := [.pollIrq, .processDma, .processTx, .processRx]

/-- Time moves on only when no process is runnable and nothing is notified, and
not beyond the end of a timed wait. -/
def canAdvance (s : Kernel) (now : Nat) : Bool :=
  s.running = none ∧ s.now ≤ now ∧ s.notified .tx = false ∧ s.notified .rx = false ∧
    processes.all fun p =>
      match s.wait p with
      | .ready => false
      | .time till => now ≤ till
      | _ => true

variable (reg : ScProcess → Registration)

def step (s : Kernel) : KernelEvent → Option Kernel
  | .write addr data =>
    if s.holder = none then
      let (nic, outs) := s.nic.onMmioWrite addr data
      some { s with
        nic := nic
        notified := fun e => s.notified e || (e = .tx && outs.contains .notifyTx) }
    else none
  | .reset => if s.holder = none then some { s with nic := s.nic.onReset } else none
  | .packet data r =>
    if s.holder = none then
      some { s with
        nic := (s.nic.onPacketRx data).runWith r
        notified := fun e => s.notified e || e = .rx }
    else none
  | .pick p =>
    match s.wait p with
    | .ready => if s.running = none ∧ s.deadlock = false then some { s with running := some p } else none
    | _ => none
  | .run r =>
    match s.running with
    | some p => if s.deadlock then none else some (s.runProcess r p)
    | none => none
  | .wake p =>
    match s.wait p with
    | .time till =>
      if till ≤ s.now then some { s with wait := fun q => if q = p then .ready else s.wait q } else none
    | _ => none
  | .deliver e =>
    if s.running = none ∧ s.notified e then
      some { s with
        notified := fun e' => if e' = e then false else s.notified e'
        wait := fun p => notify reg e p (s.wait p) }
    else none
  | .advance now => if s.canAdvance now then some { s with now := now } else none

/-- The start of the simulation. -/
def init (bridge netif : Bool) : Kernel where
  nic := { SmartNic.new with bridge := bridge, netif := netif }
  now := 0
  wait := fun p => if (reg p).dontInitialize then .never else .ready
  loc := fun _ => .top
  running := none
  holder := none
  notified := fun _ => false
  deadlock := false

/-- Work that is pending is with a process that will come to it. -/
structure Attended (s : Kernel) : Prop where
  dma : s.nic.dmaPending = true → (s.wait .processDma).live = true
  tx : s.nic.txPending = true →
    (s.wait .processTx).live = true ∨ s.wait .processTx ≠ .never ∧ s.notified .tx = true

/-- No process waits with the lock held, and none has run into its own lock. -/
structure Free (s : Kernel) : Prop where
  holder : ∀ p, s.holder = some p → s.running = some p
  deadlock : s.deadlock = false

end Kernel

end SmartEth
