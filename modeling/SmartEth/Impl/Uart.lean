import SmartEth.Framework.Bytes

/-!
# `uart_printf` (`uart.c`)

The loop of `uart_printf`, pass by pass, with what it stores into `buf` and which characters
of the format it reads. The format is the memory from `fmt` on, whatever is in it. Left out is
`uart_puts`, to which the buffer goes in the end.
-/

namespace SmartEth

/-- The code of a character. -/
def ch (c : Char) : Byte := BitVec.ofNat 8 c.toNat

/-- What a variadic argument is where an integer is read, and where a string is: its characters
before the terminator. -/
structure VarArg where
  word : BitVec 64
  str : List Byte
  str_ne : ∀ c ∈ str, c ≠ 0

/-- The locals of `uart_printf`: `fmt`, `args` and `len`, and the stores into `buf` and the reads
of the format so far. -/
structure Printf where
  pos : Nat
  arg : Nat
  len : Nat
  stores : List (Nat × Byte)
  reads : List Nat

namespace Printf

/-- `sizeof(buf)`. -/
def BUF_SIZE : Nat := 256

def init : Printf := ⟨0, 0, 0, [], []⟩

variable (s : Printf)

/-- `buf[len++] = c`. -/
def putc (c : Byte) : Printf := { s with len := s.len + 1, stores := s.stores ++ [(s.len, c)] }

def putAll (cs : List Byte) : Printf := cs.foldl putc s

/-- `va_arg`: the next argument is taken. -/
def takeArg : Printf := { s with arg := s.arg + 1 }

/-- `fmt++`, and the read of `*fmt` in a `switch`. -/
def advance : Printf := { s with pos := s.pos + 1, reads := s.reads ++ [s.pos + 1] }

/-! ## Conversions -/

/-- `while (*s && len < (int)sizeof(buf) - 1)`. -/
def putString : List Byte → Printf → Printf
  | [], s => s
  | c :: cs, s => if s.len < BUF_SIZE - 1 then putString cs (s.putc c) else s

/-- `"0123456789abcdef"[nibble]`. -/
def hexChar (nibble : Nat) : Byte := ("0123456789abcdef".toList.map ch).getD nibble 0

/-- The nibbles from `shift = 4 * (n - 1)` down. -/
def putHex {w : Nat} (v : BitVec w) : (n : Nat) → (started : Bool) → Printf → Printf
  | 0, started, s => if started then s else s.putc (ch '0')
  | n + 1, started, s =>
    let nibble := (v >>> (4 * n)).toNat % 16
    if nibble ≠ 0 ∨ started ∨ n = 0 then putHex v n true (s.putc (hexChar nibble))
    else putHex v n started s

/-- `while (u > 0)`: the digits in `tmp`, the lowest first. A 64-bit number has at most 20. -/
def tmpDigits : Nat → BitVec 64 → List Byte
  | 0, _ => []
  | n + 1, u => if u = 0 then [] else (ch '0' + (u % 10).setWidth 8) :: tmpDigits n (u / 10)

/-- The digits of `u`, through `tmp`. -/
def putUnsigned (u : BitVec 64) (s : Printf) : Printf :=
  s.putAll (if u = 0 then [ch '0'] else tmpDigits 20 u).reverse

def putSigned (v : BitVec 64) (s : Printf) : Printf :=
  if v.slt 0 then putUnsigned (-v) (s.putc (ch '-')) else putUnsigned v s

/-! ## The loop -/

section

variable (fmt : Nat → Byte) (args : Nat → VarArg)

/-- The `switch` after `%l`. -/
def longCase (s : Printf) : Printf :=
  let c := fmt s.pos
  let a := args s.arg
  if c = ch 'x' then putHex a.word 16 false s.takeArg
  else if c = ch 'd' ∨ c = ch 'i' then putSigned a.word s.takeArg
  else if c = ch 'u' then putUnsigned a.word s.takeArg
  else ((s.putc (ch '%')).putc (ch 'l')).putc c

/-- The `switch` after `%`. -/
def percentCase (s : Printf) : Printf :=
  let c := fmt s.pos
  let a := args s.arg
  if c = ch 's' then putString a.str s.takeArg
  else if c = ch 'x' then putHex (a.word.setWidth 32) 8 false s.takeArg
  else if c = ch 'l' then longCase fmt args s.advance
  else if c = ch 'd' ∨ c = ch 'i' then putSigned ((a.word.setWidth 32).signExtend 64) s.takeArg
  else if c = ch 'u' then putUnsigned ((a.word.setWidth 32).setWidth 64) s.takeArg
  else if c = ch 'c' then s.takeArg.putc (a.word.setWidth 8)
  else if c = ch '%' then s.putc (ch '%')
  else (s.putc (ch '%')).putc c

/-- The body of the loop. -/
def pass (s : Printf) : Printf :=
  let s := if fmt s.pos = ch '%' then percentCase fmt args s.advance else s.putc (fmt s.pos)
  { s with pos := s.pos + 1 }

/-- `*fmt && len < (int)sizeof(buf) - 1`. -/
def GoesOn (s : Printf) : Prop := fmt s.pos ≠ 0 ∧ s.len < BUF_SIZE - 1

instance (s : Printf) : Decidable (GoesOn fmt s) := inferInstanceAs (Decidable (_ ∧ _))

/-- After `n` passes, or as many as there are. The head of the loop reads the character at `pos`. -/
def after : Nat → Printf
  | 0 => init
  | n + 1 => if GoesOn fmt (after n) then pass fmt args (after n) else after n

end

/-! ## Calls with integers -/

/-- A string constant as it is in memory. -/
def literal (text : String) (i : Nat) : Byte := (text.toList.map ch).getD i 0

def intArg (w : BitVec 64) : VarArg := ⟨w, [], nofun⟩

/-- What goes to `uart_puts`. There are no more passes than characters in the format. -/
def text (fmt : String) (args : List (BitVec 32)) : String :=
  let s := after (literal fmt) (fun i => intArg ((args.getD i 0).setWidth 64)) fmt.length
  String.ofList (s.stores.map fun x => Char.ofNat x.2.toNat)

end Printf

end SmartEth
