import SmartEth.System.Console

/-!
# The echo task and the receiver

The receiver of the UART holds 16 characters, and one that comes when it is full is lost. Characters
come at any time between two accesses of the task; the other bits of `LSR` are open, and with them
how long `uart_putc` waits.
-/

namespace SmartEth.Console

structure Echo where
  /-- What the receiver holds. -/
  rx : List Byte
  /-- All that it has taken in. -/
  kept : List Byte
  lost : List Byte
  /-- What the task has read. -/
  got : List Byte
  /-- What the task has written. -/
  written : List Byte
  /-- The task is past its first line. -/
  begun : Bool

namespace Echo

/-- A character comes. -/
def arrive (s : Echo) (c : Byte) : Echo :=
  if s.rx.length < 16 then { s with rx := s.rx ++ [c], kept := s.kept ++ [c] } else { s with lost := s.lost ++ [c] }

/-- `LSR`, whose bits but `DR` are those of `b`. -/
def lsr (s : Echo) (b : Byte) : Byte := if s.rx = [] then b &&& ~~~UART_LSR_DR else b ||| UART_LSR_DR

def read (s : Echo) (offset : Nat) (b : Byte) : Byte × Echo :=
  if offset = UART_LSR then (s.lsr b, s)
  else if offset = UART_RBR then
    match s.rx with
    | [] => (b, s)
    | c :: rx => (c, { s with rx := rx, got := s.got ++ [c] })
  else (b, s)

def act (s : Echo) (e : UartOp) (b : Byte) : Option (e.Result × Echo) :=
  match e with
  | .read offset => some (s.read offset b)
  | .write offset val => some ((), if offset = UART_THR then { s with written := s.written ++ [val] } else s)
  | .wait _ _ => some ((), s)

/-- The task says its line, and then makes one round after another. -/
def machine : Machine Echo Byte Byte UartOp UartOp.Result Empty Unit Unit where
  env s c := some (s.arrive c)
  act := act
  idle _ e := e.elim
  start s _ := if s.begun then some (s, vTaskEchoRound) else some ({ s with begun := true }, vTaskEchoBegin)
  finish s _ := s

def init : Echo := ⟨[], [], [], [], [], false⟩

/-- The characters that come in a run. -/
def arrivals (es : List (Machine.Event Byte Byte Empty Unit)) : List Byte :=
  es.filterMap fun
    | .env c => some c
    | _ => none

end Echo

/-! ## What should come back -/

/-- A character that is read, and the prompt after the end of a line. -/
def echoed (c : Byte) : List Byte :=
  wire c ++ if c = ch '\r' ∨ c = ch '\n' then wireText ("> ".toList.map ch) else []

def transcript (got : List Byte) : List Byte :=
  wireText ("[ECHO] Enter characters (will echo back):\n".toList.map ch) ++ got.flatMap echoed

end SmartEth.Console
