import SmartEth.Impl.Protocol

/-!
# The C library of the firmware (`libc_supp.c`)

Each loop is a recursion on the number of bytes that are left. An `int` is wide enough for the
difference of two bytes.
-/

namespace SmartEth.Libc

/-- `memset`. -/
def memset (mem : GuestMem) (s : Addr) (c : Word) : Nat → GuestMem
  | 0 => mem
  | n + 1 => memset (mem.write s [c.setWidth 8]) (s + 1) c n

/-- `memcpy`, from the first byte to the last. -/
def memcpy (mem : GuestMem) (dest src : Addr) : Nat → GuestMem
  | 0 => mem
  | n + 1 => memcpy (mem.write dest [mem src]) (dest + 1) (src + 1) n

/-- `memcmp`. -/
def memcmp (mem : GuestMem) (s1 s2 : Addr) : Nat → Int
  | 0 => 0
  | n + 1 => if mem s1 ≠ mem s2 then (mem s1).toNat - (mem s2).toNat else memcmp mem (s1 + 1) (s2 + 1) n

end SmartEth.Libc
