import SmartEth.Framework.Digits
import SmartEth.Impl.Uart

/-!
# What a format comes to

The directives of a format one after another, each with the text that it stands for, as if the
buffer had no end; and what `uart_printf` ought to keep to: the buffer, the format string, and
canonical numbers.
-/

namespace SmartEth

namespace Printf

/-! ## Numbers -/

/-- The canonical text of a number. -/
def textOf (base : Nat) (v : Int) : List Byte :=
  (if v < 0 then [ch '-'] else []) ++ (digitsOf base v.natAbs).map hexChar

def digitOfChar (base : Nat) (c : Byte) : Option Nat := (List.range base).find? fun d => hexChar d = c

/-- The number that digits stand for. -/
def parseDigits (base : Nat) (cs : List Byte) : Option Nat :=
  cs.foldl (fun acc c => acc.bind fun n => (digitOfChar base c).map fun d => n * base + d) (some 0)

/-- The number that a text stands for: digits, with a sign or without. -/
def parse (base : Nat) : List Byte → Option Int
  | [] => none
  | c :: cs =>
    if c = ch '-' then (parseDigits base cs).map fun n : Nat => -(n : Int)
    else (parseDigits base (c :: cs)).map fun n : Nat => (n : Int)

/-- A sign for a negative number, then its canonical digits; and the text is read back. -/
structure Canonical (base : Nat) (text : List Byte) (v : Int) : Prop where
  shape : ∃ ds, Canon base ds v.natAbs ∧ text = (if v < 0 then [ch '-'] else []) ++ ds.map hexChar
  parsed : parse base text = some v

/-- An integer conversion: its characters, its base, and the number that an argument is to it. -/
structure Conversion where
  chars : List Byte
  base : Nat
  value : BitVec 64 → Int

def conversions : List Conversion :=
  [⟨"%d".toList.map ch, 10, fun w => (w.setWidth 32).toInt⟩,
    ⟨"%i".toList.map ch, 10, fun w => (w.setWidth 32).toInt⟩,
    ⟨"%u".toList.map ch, 10, fun w => (w.setWidth 32).toNat⟩,
    ⟨"%x".toList.map ch, 16, fun w => (w.setWidth 32).toNat⟩,
    ⟨"%ld".toList.map ch, 10, fun w => w.toInt⟩,
    ⟨"%li".toList.map ch, 10, fun w => w.toInt⟩,
    ⟨"%lu".toList.map ch, 10, fun w => w.toNat⟩,
    ⟨"%lx".toList.map ch, 16, fun w => w.toNat⟩]

/-- Stored one after another from `len` on. -/
def placed (len : Nat) : List Byte → List (Nat × Byte)
  | [] => []
  | c :: cs => (len, c) :: placed (len + 1) cs

/-! ## Directives -/

/-- A directive, or a character that is none: how many characters it has, its text, how many
arguments it takes, and whether it is a string, which is stored only as far as there is room. -/
structure Item where
  width : Nat
  text : List Byte
  args : Nat
  isString : Bool

section

variable (fmt : Nat → Byte) (args : Nat → VarArg)

/-- After `%l`. -/
def longItem (a : VarArg) (c : Byte) : Item :=
  if c = ch 'x' then ⟨3, textOf 16 a.word.toNat, 1, false⟩
  else if c = ch 'd' ∨ c = ch 'i' then ⟨3, textOf 10 a.word.toInt, 1, false⟩
  else if c = ch 'u' then ⟨3, textOf 10 a.word.toNat, 1, false⟩
  else ⟨3, [ch '%', ch 'l', c], 0, false⟩

/-- After `%`, with the character after that. -/
def percentItem (a : VarArg) (c c' : Byte) : Item :=
  if c = ch 's' then ⟨2, a.str, 1, true⟩
  else if c = ch 'x' then ⟨2, textOf 16 (a.word.setWidth 32).toNat, 1, false⟩
  else if c = ch 'l' then longItem a c'
  else if c = ch 'd' ∨ c = ch 'i' then ⟨2, textOf 10 (a.word.setWidth 32).toInt, 1, false⟩
  else if c = ch 'u' then ⟨2, textOf 10 (a.word.setWidth 32).toNat, 1, false⟩
  else if c = ch 'c' then ⟨2, [a.word.setWidth 8], 1, false⟩
  else if c = ch '%' then ⟨2, [ch '%'], 0, false⟩
  else ⟨2, [ch '%', c], 0, false⟩

def item (pos arg : Nat) : Item :=
  if fmt pos = ch '%' then percentItem (args arg) (fmt (pos + 1)) (fmt (pos + 2)) else ⟨1, [fmt pos], 0, false⟩

/-- Where a directive starts: in the format, in the arguments, and in the text. -/
structure Cursor where
  pos : Nat
  arg : Nat
  start : Nat

def Cursor.item (c : Cursor) : Item := Printf.item fmt args c.pos c.arg

/-- Directive `n`. -/
def cursor : Nat → Cursor
  | 0 => ⟨0, 0, 0⟩
  | n + 1 =>
    let c := cursor n
    let i := c.item fmt args
    ⟨c.pos + i.width, c.arg + i.args, c.start + i.text.length⟩

/-- Directive `n` comes before the terminator, and its text starts before character 255. -/
def Reached (n : Nat) : Prop := (∀ j ≤ n, fmt (cursor fmt args j).pos ≠ 0) ∧ (cursor fmt args n).start < 255

/-- No directive that is reached, but a string, has text that goes on after character 255. -/
def Fits : Prop :=
  ∀ n, Reached fmt args n → ((cursor fmt args n).item fmt args).isString = false →
    (cursor fmt args n).start + ((cursor fmt args n).item fmt args).text.length ≤ 255

/-- Every store is within the buffer, the final terminator too. -/
def InBuffer : Prop :=
  ∀ n, (∀ x ∈ (after fmt args n).stores, x.1 ≤ 255) ∧
    (¬ GoesOn fmt (after fmt args n) → (after fmt args n).len ≤ 255)

/-- The directive at `pos` is cut off by the terminator. -/
def CutOff (pos : Nat) : Prop :=
  fmt pos = ch '%' ∧ (fmt (pos + 1) = 0 ∨ fmt (pos + 1) = ch 'l' ∧ fmt (pos + 2) = 0)

instance (pos : Nat) : Decidable (CutOff fmt pos) := inferInstanceAs (Decidable (_ ∧ _))

/-- No directive that is reached is cut off. -/
def Complete : Prop := ∀ n, Reached fmt args n → ¬ CutOff fmt (cursor fmt args n).pos

/-- No character after the one at `m` is read, in a pass or by the head of the loop, and the loop ends
after at most `m` passes. -/
def InString (m : Nat) : Prop :=
  (∀ n, (after fmt args n).pos ≤ m ∧ ∀ p ∈ (after fmt args n).reads, p ≤ m) ∧
    ∃ n ≤ m, ¬ GoesOn fmt (after fmt args n)

end

end Printf

end SmartEth
