import SmartEth.System.Confined

/-!
# The tests and what they wait for

The driver and the NIC, and runs of `smarteth_irq_handler`, as many at a time as there
may be; nothing else signals `test_done`. `process_tx` wakes only for a doorbell. Of the
test that runs a state tells whether its operation has been started, and whether the NIC
has completed it.
-/

namespace SmartEth

open SmartEthMain

structure TestRun where
  drv : DriverNic
  /-- What the interrupt handlers have yet to do. -/
  handlers : List (DriverM Unit)
  /-- How many of the writes on their way are from before the call. -/
  before : Nat
  /-- `m_tx_event` is notified. -/
  notified : Bool
  /-- The NIC has handled the call's DMA start. -/
  started : Bool
  /-- The descriptor that the call has posted. -/
  desc : Option Addr
  /-- The NIC has completed the call's operation. -/
  completed : Bool
  /-- Every test that has returned 0 had its operation completed. -/
  honest : Bool

inductive TestEvent where
  | nic (e : DriverEvent)
  /-- The interrupt handler is called. -/
  | interrupt
  /-- The next operation of handler `i`. -/
  | handler (i : Nat)

/-- A call that returns 0 for an operation completed. -/
def DriverCall.isTest : DriverCall → Bool
  | .testDma | .testTx | .testIrq => true
  | .probe | .remove => false

namespace TestRun

/-! ## The operation of a test -/

/-- The register write that the NIC handles, if it is of this call. -/
def ownWrite (s : TestRun) : DriverEvent → Option (Addr × Word)
  | .handle => if s.before = 0 then s.drv.posted.head? else none
  | _ => none

/-- The call's transfer is started. -/
def startsDma (s : TestRun) (e : DriverEvent) : Bool :=
  s.drv.call = some .testDma ∧ ∃ w ∈ s.ownWrite e, w.1 = REG_DMA_CTRL ∧ w.2 &&& DMA_START ≠ 0

/-- The call's transfer is executed. -/
def transfers (s : TestRun) : DriverEvent → Bool
  | .nicOp .moved =>
    match s.drv.sect with
    | some ⟨.dma, .op (.dmaRead _ _) _⟩ => s.drv.call = some .testDma ∧ s.started
    | _ => false
  | _ => false

/-- The call's cause is raised. -/
def raises (s : TestRun) (e : DriverEvent) : Bool :=
  s.drv.call = some .testIrq ∧ ∃ w ∈ s.ownWrite e, w.1 = REG_IRQ_TEST ∧ w.2 ≠ 0

/-- The descriptor that the call has filled is posted when `tx_head` moves on past it. -/
def posts (s : TestRun) : DriverOp → Option Addr
  | .setTxHead _ => s.drv.adapter.map fun a => entry a.txRing a.txHead.toNat
  | _ => s.desc

/-- The call's descriptor has been given back. -/
def given (s : TestRun) : Bool :=
  s.drv.call = some .testTx ∧ ∃ a ∈ s.desc, (descAt s.drv.mem a).own = false ∧ (descAt s.drv.mem a).done = true

def see (s : TestRun) : TestRun := { s with completed := s.completed || s.given }

/-! ## Steps -/

/-- The NIC notifies `m_tx_event`. -/
def notifies (s : TestRun) : DriverEvent → Bool
  | .handle => ∃ w ∈ s.drv.posted.head?, NicOut.notifyTx ∈ (s.drv.nic.onMmioWrite w.1 w.2).2
  | _ => false

/-- A step of the NIC. -/
def after (s : TestRun) (e : DriverEvent) (drv : DriverNic) : TestRun :=
  { s with
    drv := drv
    before := match e with
      | .handle => s.before - 1
      | _ => s.before
    notified := s.notified || s.notifies e
    started := s.started || s.startsDma e
    completed := s.completed || s.transfers e || s.raises e }.see

def env (s : TestRun) : TestEvent → Option TestRun
  | .nic .signal => none
  | .nic .txWake =>
    -- a notification that `process_tx` does not wait for is lost
    if s.notified then some { s with drv := (s.drv.env .txWake).getD s.drv, notified := false } else none
  | .nic e => (s.drv.env e).map (s.after e)
  | .interrupt => some { s with handlers := s.handlers ++ [irqHandler] }
  | .handler i =>
    match s.handlers[i]? with
    | some (.op e k) => (s.drv.act e .done).map fun x => { s with drv := x.2, handlers := s.handlers.set i (k x.1) }
    | _ => none

def act (s : TestRun) (e : DriverOp) (c : DriverChoice) : Option (e.Res × TestRun) :=
  (s.drv.act e c).map fun x => (x.1, { s with drv := x.2, desc := s.posts e }.see)

def start (s : TestRun) (c : DriverCall) : Option (TestRun × DriverM CallEnd) :=
  (s.drv.start c).map fun x =>
    ({ s with drv := x.1, before := s.drv.posted.length, started := false, desc := none, completed := false }, x.2)

def finish (s : TestRun) : CallEnd → TestRun
  | .tested ok => { s with drv := s.drv.finish (.tested ok), honest := s.honest && (!ok || s.completed) }
  | r => { s with drv := s.drv.finish r }

def machine : Machine TestRun TestEvent DriverChoice DriverOp DriverOp.Res Empty DriverCall CallEnd where
  env := env
  act := act
  idle := fun _ e => e.elim
  start := start
  finish := finish

def init (netif : Bool) (mem : GuestMem) : TestRun := ⟨.init netif mem, [], 0, false, false, none, false, true⟩

/-! ## Conditions -/

/-- A handler that has found causes, and has not ended. -/
def handling : DriverM Unit → Bool
  | .ret _ | .op (.readReg _) _ => false
  | .op _ _ => true

/-- A register write that starts nothing and raises nothing. -/
def Silent (w : Addr × Word) : Prop := Plain w.1 ∨ w.1 = REG_IRQ_STS

/-- Nothing is left of what was before: no completion banked, no cause unhandled, no handler under way with one; and
nothing that the NIC has, or will get from the writes on their way, will raise one. -/
structure Quiet (s : TestRun) : Prop where
  banked : s.drv.completions = 0
  causes : s.drv.nic.reg SC_REG_IRQ_STS = 0
  handlers : ∀ p ∈ s.handlers, handling p = false
  posted : ∀ w ∈ s.drv.posted, Silent w
  sect : s.drv.sect = none
  dma : s.drv.nic.dmaPending = false ∧ s.drv.dmaChecked = false
  tx : s.drv.txLoc = .wait ∧ s.notified = false

/-- The NIC's TX ring will be the driver's, and the next descriptor that it reads the one that the driver fills. -/
def TxAligned (s : TestRun) : Prop :=
  ∀ a ∈ s.drv.adapter, a.txRing ≠ 0 ∧ (∀ c ∈ DriverNic.ringCfg a.txRing, s.drv.settled c.1 = c.2) ∧
    s.drv.nic.reg SC_REG_TX_TAIL = a.txHead

/-- A test starts only when all is quiet, and `smarteth_test_tx` only with the positions in the TX ring the same. -/
def StartsQuiet (s : TestRun) (c : DriverCall) : Prop :=
  (c.isTest = true → s.Quiet) ∧ (c = .testTx → s.TxAligned)

/-- A test runs. -/
def Testing (s : TestRun) : Prop := ∃ c ∈ s.drv.call, c.isTest = true

/-- While a test runs, the NIC takes no frame in, and its DMA moves the bytes. -/
def Undisturbed (s : TestRun) : TestEvent → Prop
  | .nic (.packet data) => s.Testing → ¬ DriverNic.Takes s.drv.nic data
  | .nic (.nicOp r) => s.Testing → r = .moved
  | _ => True

instance (w : Addr × Word) : Decidable (Silent w) := inferInstanceAs (Decidable (_ ∨ _))

instance (s : TestRun) : Decidable s.Quiet :=
  decidable_of_iff (s.drv.completions = 0 ∧ s.drv.nic.reg SC_REG_IRQ_STS = 0 ∧ (∀ p ∈ s.handlers, handling p = false) ∧
      (∀ w ∈ s.drv.posted, Silent w) ∧ s.drv.sect.isNone ∧
      (s.drv.nic.dmaPending = false ∧ s.drv.dmaChecked = false) ∧ s.drv.txLoc = .wait ∧ s.notified = false)
    ⟨fun ⟨h₁, h₂, h₃, h₄, h₅, h₆, h₇⟩ => ⟨h₁, h₂, h₃, h₄, Option.isNone_iff_eq_none.mp h₅, h₆, h₇⟩,
      fun ⟨h₁, h₂, h₃, h₄, h₅, h₆, h₇⟩ => ⟨h₁, h₂, h₃, h₄, Option.isNone_iff_eq_none.mpr h₅, h₆, h₇⟩⟩

instance (s : TestRun) : Decidable s.TxAligned :=
  inferInstanceAs (Decidable (∀ a ∈ s.drv.adapter, a.txRing ≠ 0 ∧
    (∀ c ∈ DriverNic.ringCfg a.txRing, s.drv.settled c.1 = c.2) ∧ s.drv.nic.reg SC_REG_TX_TAIL = a.txHead))

instance (s : TestRun) (c : DriverCall) : Decidable (StartsQuiet s c) := inferInstanceAs (Decidable ((_ → _) ∧ (_ → _)))

instance (s : TestRun) : Decidable s.Testing := inferInstanceAs (Decidable (∃ c ∈ s.drv.call, c.isTest = true))

instance (r : DmaEnd) : Decidable (r = .moved) :=
  match r with
  | .moved => .isTrue rfl
  | .failed | .other _ => .isFalse nofun

instance (s : TestRun) : (e : TestEvent) → Decidable (Undisturbed s e)
  | .nic (.packet _) => inferInstanceAs (Decidable (_ → ¬ _))
  | .nic (.nicOp r) => inferInstanceAs (Decidable (_ → r = .moved))
  | .nic .handle | .nic .signal | .nic .dmaCheck | .nic .processDma | .nic .txWake | .nic .txIteration | .nic .txDone
  | .nic .nicEnd | .interrupt | .handler _ => .isTrue trivial

end TestRun

end SmartEth
