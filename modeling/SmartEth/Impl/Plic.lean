import SmartEth.Framework.Prog
import SmartEth.Impl.Uart

/-!
# The interrupt controller driver (`plic.c`)

The calls of the PLIC driver and the firmware's handler of external interrupts (`main.c`), as
programs of what they do to the registers of the PLIC. An address is the offset from `PLIC_BASE`,
and the hart is hart 0.
-/

namespace SmartEth.Plic

/-- `PLIC_PRIORITY_BASE[irq]`. -/
def priorityReg (irq : Nat) : Nat := 4 * irq

/-- `PLIC_ENABLE_BASE(0)[irq / 32]`. -/
def enableReg (irq : Nat) : Nat := 0x2000 + 4 * (irq / 32)

def PLIC_THRESHOLD_REG : Nat := 0x200000
def PLIC_CLAIM_REG : Nat := 0x200004
def PLIC_MAX_IRQ : Int := 127

inductive PlicOp where
  | read (addr : Nat)
  | write (addr : Nat) (val : BitVec 32)
  /-- `uart_printf`, and what it prints. -/
  | print (text : String)

@[reducible] def PlicOp.Result : PlicOp → Type
  | .read _ => BitVec 32
  | .write _ _ => Unit
  | .print _ => Unit

abbrev PlicM := Prog PlicOp PlicOp.Result

def readReg (addr : Nat) : PlicM (BitVec 32) := Prog.call (PlicOp.read addr)

def writeReg (addr : Nat) (val : BitVec 32) : PlicM Unit := Prog.call (PlicOp.write addr val)

/-- `1UL << (irq % 32)`. -/
def irqBit (irq : Nat) : BitVec 64 := (1 : BitVec 64) <<< (irq % 32)

/-- `plic_init`. -/
def plicInit : PlicM Unit := writeReg PLIC_THRESHOLD_REG 0

/-- `plic_enable_irq`. -/
def plicEnableIrq (irq : Int) : PlicM Unit :=
  if irq < 0 ∨ irq > PLIC_MAX_IRQ then pure ()
  else do
    let enable ← readReg (enableReg irq.toNat)
    writeReg (enableReg irq.toNat) ((enable.setWidth 64 ||| irqBit irq.toNat).setWidth 32)

/-- `plic_disable_irq`. -/
def plicDisableIrq (irq : Int) : PlicM Unit :=
  if irq < 0 ∨ irq > PLIC_MAX_IRQ then pure ()
  else do
    let enable ← readReg (enableReg irq.toNat)
    writeReg (enableReg irq.toNat) ((enable.setWidth 64 &&& ~~~irqBit irq.toNat).setWidth 32)

/-- `plic_set_priority`. -/
def plicSetPriority (irq : Int) (priority : BitVec 32) : PlicM Unit :=
  if irq < 0 ∨ irq > PLIC_MAX_IRQ ∨ priority > 7 then pure () else writeReg (priorityReg irq.toNat) priority

/-- `plic_set_threshold`. -/
def plicSetThreshold (threshold : BitVec 32) : PlicM Unit := writeReg PLIC_THRESHOLD_REG threshold

/-- `plic_claim`. -/
def plicClaim : PlicM Int := do
  let claim ← readReg PLIC_CLAIM_REG
  pure claim.toInt

/-- `plic_complete`. -/
def plicComplete (irq : Int) : PlicM Unit := writeReg PLIC_CLAIM_REG (BitVec.ofInt 32 irq)

/-- `freertos_risc_v_application_interrupt_handler`. -/
def interruptHandler : PlicM Unit := do
  let irq ← plicClaim
  if irq > 0 then
    if irq = 10 then pure ()
    else Prog.call (PlicOp.print (Printf.text "[IRQ] unhandled irq=%d\n" [BitVec.ofInt 32 irq]))
    plicComplete irq
  else pure ()

end SmartEth.Plic
