import SmartEth.Framework.Producers
import SmartEth.Impl.Console

/-!
# The tasks and the UART

The tasks of the firmware write to one UART and hold no lock while they do: any of them may run
between two accesses of another. The UART is an NS16550A: with `LCR.DLAB` set, the registers at
offsets 0 and 1 are the divisor, and else those of the data and of the interrupts; `LSR.THRE`
says that the transmitter has nothing to send; it holds 16 characters with its FIFO on and one
with it off, and what is written to a full one is lost. Each character is kept with the task
that wrote it.
-/

namespace SmartEth.Console

structure Ns16550 where
  ier : Byte
  lcr : Byte
  dll : Byte
  dlm : Byte
  fcr : Byte
  /-- What is to be sent. -/
  tx : List (Nat × Byte)
  sent : List (Nat × Byte)
  lost : List (Nat × Byte)

namespace Ns16550

variable (u : Ns16550)

def Dlab : Prop := u.lcr &&& 0x80 ≠ 0

instance : Decidable u.Dlab := inferInstanceAs (Decidable (_ ≠ _))

def capacity : Nat := if u.fcr &&& 1 = 0 then 1 else 16

def read (offset : Nat) : Byte :=
  match offset with
  | 0 => if u.Dlab then u.dll else 0
  | 1 => if u.Dlab then u.dlm else u.ier
  | 3 => u.lcr
  | 5 => if u.tx = [] then 0x60 else 0
  | _ => 0

/-- A character to send, of task `i`. -/
def transmit (i : Nat) (c : Byte) : Ns16550 :=
  if u.tx.length < u.capacity then { u with tx := u.tx ++ [(i, c)] } else { u with lost := u.lost ++ [(i, c)] }

/-- The FIFO is emptied where bit 0 of `FCR` changes, and by bit 2. -/
def writeFcr (val : Byte) : Ns16550 :=
  if u.fcr &&& 1 ≠ val &&& 1 ∨ val &&& 4 ≠ 0 then { u with fcr := val, tx := [], lost := u.lost ++ u.tx }
  else { u with fcr := val }

/-- A write of task `i`. -/
def write (i : Nat) (offset : Nat) (val : Byte) : Ns16550 :=
  match offset with
  | 0 => if u.Dlab then { u with dll := val } else u.transmit i val
  | 1 => if u.Dlab then { u with dlm := val } else { u with ier := val }
  | 2 => u.writeFcr val
  | 3 => { u with lcr := val }
  | _ => u

/-- An operation of task `i`. A wait goes on where the register has one of the bits. -/
def act (i : Nat) : (op : UartOp) → Option (op.Result × Ns16550)
  | .read offset => some (u.read offset, u)
  | .write offset val => some ((), u.write i offset val)
  | .wait offset mask => if u.read offset &&& mask ≠ 0 then some ((), u) else none

/-- `uart_init`, which waits for nothing. -/
def initialised : Ns16550 :=
  (uartInit.exec (fun u op => match op with
    | .read offset => (u.read offset, u)
    | .write offset val => ((), u.write 0 offset val)
    | .wait _ _ => ((), u)) u).2

end Ns16550

/-! ## The firmware's tasks -/

structure Tasks where
  uart : Ns16550
  /-- What is left of each. -/
  left : List (UartM Unit)

inductive TasksEvent where
  /-- The next access of task `i`. -/
  | task (i : Nat)
  /-- The UART sends a character. -/
  | send

namespace Tasks

def step (s : Tasks) : TasksEvent → Option Tasks
  | .task i =>
    match s.left[i]? with
    | some (.op e k) => (s.uart.act i e).map fun r => ⟨r.2, s.left.set i (k r.1)⟩
    | _ => none
  | .send =>
    match s.uart.tx with
    | x :: tx => some { s with uart := { s.uart with tx := tx, sent := s.uart.sent ++ [x] } }
    | [] => none

/-- A task that makes calls of `uart_puts`. -/
def printing : List (List Byte) → UartM Unit
  | [] => pure ()
  | s :: texts => uartPuts s >>= fun _ => printing texts

/-- The firmware after `uart_init`: task `i` has the strings `texts[i]` to print. -/
def start (u : Ns16550) (texts : List (List (List Byte))) : Tasks := ⟨u.initialised, texts.map printing⟩

end Tasks

/-! ## What should come out -/

/-- What `uart_putc` sends for a character. -/
def wire (c : Byte) : List Byte := if c = ch '\n' then [c, ch '\r'] else [c]

/-- A string, up to its first NUL. -/
def wireText (s : List Byte) : List Byte := (s.takeWhile fun c => c ≠ 0).flatMap wire

/-- What a task sends. -/
def wireOf (texts : List (List Byte)) : List Byte := texts.flatMap wireText

/-- Of the tasks with these texts, no character has been lost, and each has sent a first part of its
text, which is all of it once the task is done. -/
structure Printed (u : Ns16550) (texts : List (List (List Byte))) (t : Tasks) : Prop where
  lossless : t.uart.lost = u.initialised.lost
  inOrder : ∀ i text, texts[i]? = some text → ∃ done rest, wireOf text = done ++ rest ∧
    Producers.cellsOf i (t.uart.sent ++ t.uart.tx) =
      Producers.cellsOf i (u.initialised.sent ++ u.initialised.tx) ++ done ∧
    (t.left[i]? = some (pure ()) → rest = [])

end SmartEth.Console
