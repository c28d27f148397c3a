import Mathlib.Algebra.Group.Nat.Defs
import Mathlib.Data.List.Basic

/-!
# Little-endian words

`leBytes` and `ofLeBytes` are the copies (`memcpy`) of a little-endian word to
and from a byte string. A word whose width is a whole number of bytes is read
back as written, whatever follows it (`ofLeBytes_leBytes`, with the tail).
`overlay` is a copy over the start of a buffer, `copyAt` one at an offset in it.
-/

namespace SmartEth

abbrev Byte := BitVec 8

/-- The `n` low bytes of `x`, the lowest first. -/
def natToLE : Nat → Nat → List Byte
  | 0, _ => []
  | n + 1, x => BitVec.ofNat 8 x :: natToLE n (x / 256)

/-- The number whose bytes are `bs`, the lowest first. -/
def natOfLE : List Byte → Nat
  | [] => 0
  | b :: bs => b.toNat + 256 * natOfLE bs

@[simp] theorem length_natToLE (n x : Nat) : (natToLE n x).length = n := by
  induction n generalizing x with
  | zero => rfl
  | succ n ih => simp only [natToLE, List.length_cons, ih]

theorem natOfLE_natToLE (n x : Nat) : natOfLE (natToLE n x) = x % 256 ^ n := by
  induction n generalizing x with
  | zero => simp only [natToLE, natOfLE, Nat.pow_zero, Nat.mod_one]
  | succ n ih =>
    simp only [natToLE, natOfLE, ih, BitVec.toNat_ofNat, Nat.pow_succ']
    exact (Nat.mod_mul).symm

theorem natOfLE_append (as bs : List Byte) : natOfLE (as ++ bs) = natOfLE as + 256 ^ as.length * natOfLE bs := by
  induction as with
  | nil => simp only [List.nil_append, natOfLE, List.length_nil, Nat.pow_zero, Nat.one_mul, Nat.zero_add]
  | cons a as ih =>
    simp only [List.cons_append, natOfLE, ih, List.length_cons, Nat.pow_succ', Nat.mul_add, Nat.mul_assoc,
      Nat.add_assoc]

theorem natOfLE_lt (bs : List Byte) : natOfLE bs < 256 ^ bs.length := by
  induction bs with
  | nil => decide
  | cons b bs ih =>
    have := b.isLt
    simp only [natOfLE, List.length_cons, Nat.pow_succ']
    omega

/-- The bytes of a word in memory. -/
def leBytes {w : Nat} (x : BitVec w) : List Byte := natToLE (w / 8) x.toNat

/-- The word at the start of a byte string. -/
def ofLeBytes (w : Nat) (bs : List Byte) : BitVec w := BitVec.ofNat w (natOfLE (bs.take (w / 8)))

@[simp] theorem length_leBytes {w : Nat} (x : BitVec w) : (leBytes x).length = w / 8 :=
  length_natToLE _ _

theorem ofLeBytes_leBytes {w : Nat} (hw : 8 * (w / 8) = w) (x : BitVec w) (bs : List Byte) :
    ofLeBytes w (leBytes x ++ bs) = x := by
  rw [ofLeBytes, List.take_left' (length_leBytes x), leBytes, natOfLE_natToLE]
  apply BitVec.eq_of_toNat_eq
  rw [BitVec.toNat_ofNat, show 256 ^ (w / 8) = 2 ^ w by
    rw [show (256 : Nat) = 2 ^ 8 from rfl, ← Nat.pow_mul, hw], Nat.mod_mod]
  exact Nat.mod_eq_of_lt x.isLt

/-- `memcpy` of `bs` over the start of the buffer `buf`, which keeps its length. -/
def overlay (buf bs : List Byte) : List Byte :=
  bs.take buf.length ++ buf.drop bs.length

@[simp] theorem length_overlay (buf bs : List Byte) : (overlay buf bs).length = buf.length := by
  simp only [overlay, List.length_append, List.length_take, List.length_drop]
  omega

/-- A copy as long as the buffer replaces it. -/
theorem overlay_eq {buf bs : List Byte} (h : bs.length = buf.length) : overlay buf bs = bs := by
  rw [overlay, List.take_of_length_le (by omega), List.drop_of_length_le (by omega),
    List.append_nil]

/-- `memcpy` of `bs` to offset `off` of a buffer. -/
def copyAt (buf : List Byte) (off : Nat) (bs : List Byte) : List Byte := buf.take off ++ overlay (buf.drop off) bs

/-- A copy into what is still zero, behind what is already there. -/
theorem copyAt_zeros (done bs : List Byte) {off n k : Nat} (hd : done.length = off) (hn : n = bs.length + k) :
    copyAt (done ++ List.replicate n 0) off bs = done ++ bs ++ List.replicate k 0 := by
  subst hn
  rw [copyAt, List.take_left' hd, List.drop_left' hd, overlay, List.length_replicate,
    List.take_of_length_le (Nat.le_add_right _ _), List.drop_replicate, Nat.add_sub_cancel_left,
    List.append_assoc]

/-- The last copy, which fills the buffer. -/
theorem copyAt_last (done bs : List Byte) {off n : Nat} (hd : done.length = off) (hn : n = bs.length) :
    copyAt (done ++ List.replicate n 0) off bs = done ++ bs := by
  rw [copyAt_zeros (k := 0) done bs hd hn, List.replicate_zero, List.append_nil]

end SmartEth
