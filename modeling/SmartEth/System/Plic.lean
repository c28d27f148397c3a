import SmartEth.Impl.Plic

/-!
# The interrupt controller and its interrupts

The registers hold what is written to them, but the claim register, which gives the number of an
interrupt that is pending and takes that of one that is served. The handler may interrupt the
firmware between any two accesses; it runs to its end before the firmware goes on.

Against them stand the controller's settings, and what each call is to do to them (`Settings`).
Nothing is said of the bit and the priority of interrupt 0, which is none.
-/

namespace SmartEth.Plic

structure Board where
  regs : Nat → BitVec 32
  /-- What the claim register has given, and what it has taken. -/
  claimed : List (BitVec 32)
  completed : List (BitVec 32)

namespace Board

variable (s : Board)

def setReg (addr : Nat) (val : BitVec 32) : Board := { s with regs := fun a => if a = addr then val else s.regs a }

/-- An access, where the pending interrupt is `n`. -/
def access (n : BitVec 32) : (e : PlicOp) → e.Result × Board
  | .read addr => if addr = PLIC_CLAIM_REG then (n, { s with claimed := s.claimed ++ [n] }) else (s.regs addr, s)
  | .write addr val =>
    ((), if addr = PLIC_CLAIM_REG then { s with completed := s.completed ++ [val] } else s.setReg addr val)
  | .print _ => ((), s)

/-- The handler runs, and is given interrupt `n`. -/
def interrupt (n : BitVec 32) : Board := (interruptHandler.exec (fun s e => s.access n e) s).2

/-- The firmware, and the interrupts. -/
def world : World Board (BitVec 32) Unit PlicOp PlicOp.Result where
  env s n := some (s.interrupt n)
  act s e _ := some (s.access 0 e)

end Board

/-! ## Settings -/

inductive Call where
  | init
  | enable (irq : Int)
  | disable (irq : Int)
  | setPriority (irq : Int) (priority : BitVec 32)
  | setThreshold (threshold : BitVec 32)

def Call.prog : Call → PlicM Unit
  | init => plicInit
  | enable irq => plicEnableIrq irq
  | disable irq => plicDisableIrq irq
  | setPriority irq priority => plicSetPriority irq priority
  | setThreshold threshold => plicSetThreshold threshold

/-- The firmware makes the calls one after another. -/
def calling : List Call → PlicM Unit
  | [] => pure ()
  | c :: calls => c.prog >>= fun _ => calling calls

/-- The interrupts there are: 0 stands for none. -/
abbrev Irq := { i : Nat // 0 < i ∧ i ≤ 127 }

@[ext] structure Settings where
  enabled : Irq → Bool
  priority : Irq → BitVec 32
  threshold : BitVec 32

/-- The settings that registers stand for. -/
def settingsOf (regs : Nat → BitVec 32) : Settings where
  enabled i := (regs (enableReg i.1)).getLsbD (i.1 % 32)
  priority i := regs (priorityReg i.1)
  threshold := regs PLIC_THRESHOLD_REG

namespace Settings

variable (s : Settings)

/-- A call for an interrupt that there is not, or with a priority that there is not, does nothing. -/
def after : Call → Settings
  | .init => { s with threshold := 0 }
  | .enable irq => { s with enabled := fun i => s.enabled i || decide ((i.1 : Int) = irq) }
  | .disable irq => { s with enabled := fun i => s.enabled i && !decide ((i.1 : Int) = irq) }
  | .setPriority irq priority =>
    { s with priority := fun i => if (i.1 : Int) = irq ∧ priority ≤ 7 then priority else s.priority i }
  | .setThreshold threshold => { s with threshold := threshold }

end Settings

/-- The registers of the settings. -/
def Used (addr : Nat) : Prop := addr < 0x200 ∨ (0x2000 ≤ addr ∧ addr < 0x2010) ∨ addr = PLIC_THRESHOLD_REG

end SmartEth.Plic
