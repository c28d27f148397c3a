import SmartEth.System.Printing

/-!
# The firmware on its console

`main` and the tasks that print, from their calls of `uart_puts` and `uart_printf` on; and the lines
that each of them should send. What `main` prints comes before the tasks start, which is one of the
orders in which the model lets them run.
-/

namespace SmartEth.Console

open Printf (textOf)

/-- What is in memory besides the arguments of a call: in `buf`, and behind the arguments. -/
structure Surroundings where
  stack : Nat → Byte
  more : Nat → VarArg

/-- The calls one after another. -/
def printsProg : (around : Nat → Surroundings) → List Print → Option (UartM Unit)
  | _, [] => some (pure ())
  | around, p :: ps =>
    (p.prog (around 0).stack (around 0).more).bind fun q =>
      (printsProg (fun i => around (i + 1)) ps).map fun r => q >>= fun _ => r

structure Firmware where
  mhartid : BitVec 64
  marchid : BitVec 64
  mimpid : BitVec 64
  /-- The rounds of `vTaskHeartbeat`. -/
  beats : Nat
  /-- The free heap in each round of `vTaskInfo`. -/
  heap : List (BitVec 64)

namespace Firmware

variable (f : Firmware)

/-- The firmware after `uart_init`: `main`, `vTaskHeartbeat`, `vTaskInfo`, and `others` with their texts. -/
def start (u : Ns16550) (around : Nat → Nat → Surroundings) (others : List (List (List Byte))) : Option Tasks :=
  (printsProg (around 0) mainPrints).bind fun main =>
    (printsProg (around 1) (vTaskHeartbeat f.beats 0)).bind fun heartbeat =>
      (printsProg (around 2) (vTaskInfo f.mhartid f.marchid f.mimpid f.heap)).map fun info =>
        ⟨u.initialised, main :: heartbeat :: info :: others.map Tasks.printing⟩

/-! ## What should come out -/

def line (text : String) : List Byte := text.toList.map ch

/-- A line with a number. -/
def lineOf (pre : String) (base : Nat) (v : Int) (post : String) : List Byte := line pre ++ textOf base v ++ line post

def banner : List (List Byte) :=
  ["\n", "========================================\n", "  SmartEth RISC-V NIC Firmware\n",
    "  Phase 1: FreeRTOS on QEMU RISC-V\n", "========================================\n", "BSP Init OK\n\n",
    "[SYS] Starting FreeRTOS scheduler...\n\n"].map line

/-- Round `k` of `vTaskHeartbeat`, whose count is of 32 bits. -/
def beat (k : Nat) : List Byte := lineOf "[HB] count=0x" 16 (k % 2 ^ 32 : Nat) "\n"

/-- A round of `vTaskInfo`. -/
def infoLines (heap : BitVec 64) : List (List Byte) :=
  [line "---[INFO]---\n",
    lineOf "  mhartid: 0x" 16 f.mhartid.toNat "\n",
    lineOf "  marchid: 0x" 16 f.marchid.toNat "\n",
    lineOf "  mimpid:  0x" 16 f.mimpid.toNat "\n",
    lineOf "  Tick Hz: " 10 100 "\n",
    lineOf "  Heap:    " 10 (heap.setWidth 32).toInt " bytes free\n",
    line "------------\n"]

def texts : List (List (List Byte)) := [banner, (List.range f.beats).map beat, f.heap.flatMap f.infoLines]

end Firmware

end SmartEth.Console
