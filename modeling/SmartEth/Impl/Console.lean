import SmartEth.Framework.Prog
import SmartEth.Impl.Uart

/-!
# The console driver (`uart.c`)

`uart_init`, `uart_putc`, `uart_puts`, `uart_puthex`, `uart_printf` and `uart_getc_nonblock`, as
programs of what they do to the registers of the UART, and what the firmware prints and echoes
(`main.c`).
-/

namespace SmartEth.Console

def UART_THR : Nat := 0
def UART_RBR : Nat := 0
def UART_DLL : Nat := 0
def UART_IER : Nat := 1
def UART_DLM : Nat := 1
def UART_FCR : Nat := 2
def UART_LCR : Nat := 3
def UART_LSR : Nat := 5

def UART_LSR_THRE : Byte := 0x20
def UART_LSR_DR : Byte := 0x01

/-- What the driver does to a register, by its offset. -/
inductive UartOp where
  | read (offset : Nat)
  | write (offset : Nat) (val : Byte)
  /-- `while (!(UART[offset] & mask));` -/
  | wait (offset : Nat) (mask : Byte)

@[reducible] def UartOp.Result : UartOp → Type
  | .read _ => Byte
  | .write _ _ => Unit
  | .wait _ _ => Unit

abbrev UartM := Prog UartOp UartOp.Result

/-- `UART[offset]`. -/
def readReg (offset : Nat) : UartM Byte := Prog.call (UartOp.read offset)

/-- `UART[offset] = val`. -/
def writeReg (offset : Nat) (val : Byte) : UartM Unit := Prog.call (UartOp.write offset val)

def waitReg (offset : Nat) (mask : Byte) : UartM Unit := Prog.call (UartOp.wait offset mask)

/-- `uart_init`. -/
def uartInit : UartM Unit := do
  let lcr ← readReg UART_LCR
  writeReg UART_IER 0x00
  writeReg UART_LCR (lcr ||| 0x80)
  writeReg UART_DLL 1
  writeReg UART_DLM 0
  writeReg UART_LCR (lcr &&& ~~~0x80)
  writeReg UART_LCR 0x03
  writeReg UART_FCR 0x01

/-- `uart_putc`. -/
def uartPutc (c : Byte) : UartM Unit := do
  waitReg UART_LSR UART_LSR_THRE
  writeReg UART_THR c
  if c = ch '\n' then uartPutc (ch '\r') else pure ()
termination_by if c = ch '\n' then 1 else 0
decreasing_by
  rename_i h
  subst h
  decide

/-- `uart_puts`: the memory from `s` on is the list, and a terminator after it. -/
def uartPuts : List Byte → UartM Unit
  | [] => pure ()
  | c :: s => if c ≠ 0 then uartPutc c >>= fun _ => uartPuts s else pure ()

/-- `buf[x.1] = x.2`. -/
def setBuf (buf : Nat → Byte) (x : Nat × Byte) (i : Nat) : Byte := if i = x.1 then x.2 else buf i

/-- The digits that `uart_puthex` has yet to store, from `buf[n - 1]` down. -/
def puthexLoop : (n : Nat) → (val : BitVec 64) → (Nat → Byte) → Nat → Byte
  | 0, _, buf => buf
  | n + 1, val, buf => puthexLoop n (val >>> 4) (setBuf buf (n, Printf.hexChar (val &&& 0xf).toNat))

/-- `uart_puthex`, where `stack` was in `buf` at first. -/
def uartPuthex (stack : Nat → Byte) (val : BitVec 64) : UartM Unit :=
  uartPuts ((List.range 17).map (setBuf (puthexLoop 16 val stack) (16, 0)))

/-- `buf` with its terminator, where `stack` was in it at first. -/
def bufOf (stack : Nat → Byte) (s : Printf) : Nat → Byte := setBuf (s.stores.foldl setBuf stack) (s.len, 0)

/-- `uart_printf`, if `fuel` passes of its loop are enough. -/
def uartPrintf (stack fmt : Nat → Byte) (args : Nat → VarArg) (fuel : Nat) : Option (UartM Unit) :=
  let s := Printf.after fmt args fuel
  if Printf.GoesOn fmt s then none else some (uartPuts ((List.range Printf.BUF_SIZE).map (bufOf stack s)))

/-! ## What `main` and its tasks print -/

/-- A call of `uart_puts`, or of `uart_printf` with integers. -/
inductive Print where
  | puts (text : String)
  | printf (fmt : String) (ws : List (BitVec 64))

/-- The call, where `stack` was in `buf` at first and `more` are behind the arguments. There are no
more passes than characters in the format. -/
def Print.prog (stack : Nat → Byte) (more : Nat → VarArg) : Print → Option (UartM Unit)
  | puts text => some (uartPuts (text.toList.map ch))
  | printf fmt ws => uartPrintf stack (Printf.literal fmt) (fun i => (ws.map Printf.intArg).getD i (more i)) fmt.length

/-- What `main` prints until it starts the scheduler. -/
def mainPrints : List Print :=
  [.puts "\n",
    .puts "========================================\n",
    .puts "  SmartEth RISC-V NIC Firmware\n",
    .puts "  Phase 1: FreeRTOS on QEMU RISC-V\n",
    .puts "========================================\n",
    .puts "BSP Init OK\n\n",
    .puts "[SYS] Starting FreeRTOS scheduler...\n\n"]

/-- A round of the loop of `vTaskHeartbeat`. -/
def vTaskHeartbeatRound (count : BitVec 32) : List Print := [.printf "[HB] count=0x%x\n" [count.setWidth 64]]

/-- `n` rounds of `vTaskHeartbeat`, from `count` on. -/
def vTaskHeartbeat : (n : Nat) → (count : BitVec 32) → List Print
  | 0, _ => []
  | n + 1, count => vTaskHeartbeatRound count ++ vTaskHeartbeat n (count + 1)

def configTICK_RATE_HZ : BitVec 64 := 100

/-- A round of the loop of `vTaskInfo`, where `xPortGetFreeHeapSize` gives `heap`. -/
def vTaskInfoRound (mhartid marchid mimpid heap : BitVec 64) : List Print :=
  [.puts "---[INFO]---\n",
    .printf "  mhartid: 0x%lx\n" [mhartid],
    .printf "  marchid: 0x%lx\n" [marchid],
    .printf "  mimpid:  0x%lx\n" [mimpid],
    .printf "  Tick Hz: %d\n" [configTICK_RATE_HZ],
    .printf "  Heap:    %d bytes free\n" [heap],
    .puts "------------\n"]

/-- The rounds of `vTaskInfo` where there is this much free heap. -/
def vTaskInfo (mhartid marchid mimpid : BitVec 64) (heap : List (BitVec 64)) : List Print :=
  heap.flatMap (vTaskInfoRound mhartid marchid mimpid)

/-! ## What the firmware reads -/

/-- `uart_getc_nonblock`. A `char` is unsigned on RISC-V. -/
def uartGetcNonblock : UartM Int := do
  let lsr ← readReg UART_LSR
  if lsr &&& UART_LSR_DR ≠ 0 then
    let c ← readReg UART_RBR
    pure c.toNat
  else pure (-1)

/-- What `vTaskEcho` does before its loop. -/
def vTaskEchoBegin : UartM Unit := uartPuts ("[ECHO] Enter characters (will echo back):\n".toList.map ch)

/-- A round of the loop of `vTaskEcho`. -/
def vTaskEchoRound : UartM Unit := do
  let c ← uartGetcNonblock
  if c ≥ 0 then
    uartPutc (BitVec.ofInt 8 c)
    if c = (ch '\r').toNat ∨ c = (ch '\n').toNat then uartPuts ("> ".toList.map ch) else pure ()
  else pure ()

end SmartEth.Console
