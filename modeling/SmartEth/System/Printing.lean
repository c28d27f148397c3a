import SmartEth.Framework.Reader
import SmartEth.System.Console
import SmartEth.System.Uart

/-!
# What a format says

A format as the pieces it is made of (`Piece`), each with the argument it takes and the text that
it stands for; and a task that makes one call of `uart_puts`, `uart_puthex` or `uart_printf` after
another (`calling`).
-/

namespace SmartEth.Console

open Printf (Conversion conversions textOf)

/-- A piece of a format: a plain character, `%%`, `%c`, `%s` or a conversion of a number. -/
inductive Piece where
  | plain (c : Byte) (h : c ≠ 0 ∧ c ≠ ch '%')
  | percent
  | character (w : BitVec 64)
  | string (a : VarArg)
  | number (c : Conversion) (h : c ∈ conversions) (w : BitVec 64)

namespace Piece

def chars : Piece → List Byte
  | plain c _ => [c]
  | percent => [ch '%', ch '%']
  | character _ => [ch '%', ch 'c']
  | string _ => [ch '%', ch 's']
  | number c _ _ => c.chars

def args : Piece → List VarArg
  | plain _ _ => []
  | percent => []
  | character w => [Printf.intArg w]
  | string a => [a]
  | number _ _ w => [Printf.intArg w]

def text : Piece → List Byte
  | plain c _ => [c]
  | percent => [ch '%']
  | character w => [w.setWidth 8]
  | string a => a.str
  | number c _ w => textOf c.base (c.value w)

def isString : Piece → Bool
  | string _ => true
  | _ => false

end Piece

/-- The text of a format. -/
def rendered (ps : List Piece) : List Byte := ps.flatMap Piece.text

/-- The format as it is in memory, with `beyond` behind its terminator. -/
def formatOf (ps : List Piece) (beyond : Nat → Byte) : Nat → Byte := buffer (ps.flatMap Piece.chars ++ [0]) beyond

def argsOf (ps : List Piece) (more : Nat → VarArg) : Nat → VarArg := buffer (ps.flatMap Piece.args) more

/-- From `len` characters on, no piece but a string has text across the end of the buffer. -/
def Fit (len : Nat) : List Piece → Prop
  | [] => True
  | p :: ps => len < 255 → (p.isString = false → len + p.text.length ≤ 255) ∧ Fit (len + p.text.length) ps

instance Fit.decidable : (len : Nat) → (ps : List Piece) → Decidable (Fit len ps)
  | _, [] => isTrue trivial
  | len, p :: ps =>
    have := Fit.decidable (len + p.text.length) ps
    inferInstanceAs (Decidable (_ → _ ∧ _))

/-! ## Calls -/

/-- A call of a task, with what is in memory besides its arguments. -/
inductive Call where
  | puts (s : List Byte)
  | puthex (val : BitVec 64) (stack : Nat → Byte)
  | printf (ps : List Piece) (stack beyond : Nat → Byte) (more : Nat → VarArg)

namespace Call

/-- A format is gone through in at most as many passes as it has characters. -/
def prog : Call → Option (UartM Unit)
  | puts s => some (uartPuts s)
  | puthex val stack => some (uartPuthex stack val)
  | printf ps stack beyond more =>
    uartPrintf stack (formatOf ps beyond) (argsOf ps more) (ps.flatMap Piece.chars).length

/-- What the call should print: a number with leading zeros; of a format, what there is room for. -/
def text : Call → List Byte
  | puts s => s
  | puthex val _ => (textOf 16 val.toNat).leftpad 16 (ch '0')
  | printf ps _ _ _ => (rendered ps).take 255

def Fits : Call → Prop
  | puts _ => True
  | puthex _ _ => True
  | printf ps _ _ _ => Fit 0 ps

end Call

/-- A task that makes the calls one after another. -/
def calling : List Call → Option (UartM Unit)
  | [] => some (pure ())
  | c :: calls => c.prog.bind fun p => (calling calls).map fun q => p >>= fun _ => q

end SmartEth.Console
