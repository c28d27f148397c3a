import SmartEth.Impl.Protocol

/-!
# Descriptor rings in guest memory

A ring of `n` descriptors at `base`. Entries do not overlap (`entry_write_ne`),
and writes outside the ring keep them (`entry_write_outside`). The ring fits the
address space, since its size is kept in a 32-bit register.
-/

namespace SmartEth.DescRing

section

variable (base : Addr) (n : Nat)

abbrev ringRegion : Region 64 := ⟨base, SmartEthDesc.size * n⟩

abbrev entryAddr (i : Nat) : Addr := slot base SmartEthDesc.size i

abbrev entryRegion (i : Nat) : Region 64 := ⟨entryAddr base i, SmartEthDesc.size⟩

/-- The descriptor in entry `i`. -/
def entry (m : GuestMem) (i : Nat) : SmartEthDesc := descAt m (entryAddr base i)

/-- The buffer a descriptor names. -/
abbrev bufRegion (d : SmartEthDesc) : Region 64 := ⟨d.addr, d.length.toNat⟩

/-- A buffer that the NIC may write, or has written and the host not taken back. -/
abbrev InUse (d : SmartEthDesc) : Prop := d.own ∨ d.done

end

variable {base : Addr} {n : Nat}

theorem size_le (hn : n < 2 ^ 32) : SmartEthDesc.size * n ≤ 2 ^ 64 := by
  simp only [SmartEthDesc.size]; omega

theorem entryAddr_mem_entry (i : Nat) : entryAddr base i ∈ entryRegion base i := by
  rw [Region.mem_def, BitVec.sub_self]
  exact Nat.succ_pos 15

theorem entryAddr_mem {i : Nat} (hi : i < n) : entryAddr base i ∈ ringRegion base n :=
  slot_sub_table hi _ (entryAddr_mem_entry i)

theorem entryAddr_inj (hn : n < 2 ^ 32) {i j : Nat} (hi : i < n) (hj : j < n)
    (h : entryAddr base i = entryAddr base j) : i = j := by
  by_contra hne
  have hd : (entryRegion base i).Disjoint (entryRegion base j) := slot_disjoint (size_le hn) hi hj hne
  exact hd _ (entryAddr_mem_entry i) (h ▸ entryAddr_mem_entry j)

theorem entry_write_self (m : GuestMem) (i : Nat) (d : SmartEthDesc) :
    entry base (m.write (entryAddr base i) d.toBytes) i = d :=
  descAt_write_self m _ d

theorem entry_write_ne (hn : n < 2 ^ 32) {m : GuestMem} {i j : Nat} {d : SmartEthDesc} (hi : i < n)
    (hj : j < n) (h : i ≠ j) :
    entry base (m.write (entryAddr base j) d.toBytes) i = entry base m i :=
  descAt_write_disjoint (by
    rw [d.length_toBytes]; exact slot_disjoint (size_le hn) hi hj h)

/-- A write outside the ring keeps its entries. -/
theorem entry_write_outside {m : GuestMem} {a : Addr} {bs : List Byte} {i : Nat} (hi : i < n)
    (h : (⟨a, bs.length⟩ : Region 64).Disjoint (ringRegion base n)) :
    entry base (m.write a bs) i = entry base m i :=
  descAt_write_disjoint (h.sub_right (slot_sub_table hi)).symm

/-- A buffer outside the ring keeps its bytes when an entry is written. -/
theorem buf_write_entry {m : GuestMem} {d d' : SmartEthDesc} {i : Nat} (hi : i < n)
    (h : (bufRegion d).Disjoint (ringRegion base n)) :
    (m.write (entryAddr base i) d'.toBytes).read d.addr d.length.toNat =
      m.read d.addr d.length.toNat :=
  Mem.read_write_disjoint (by
    rw [d'.length_toBytes]; exact h.sub_right (slot_sub_table hi))

/-- The bytes read of an entry, in a local descriptor. -/
theorem ofBytes_read_entry (m : GuestMem) (i : Nat) :
    SmartEthDesc.ofBytes (overlay (List.replicate SmartEthDesc.size 0)
      (m.read (entryAddr base i) SmartEthDesc.size)) = entry base m i := by
  rw [overlay_eq (by simp)]; rfl

/-- A ring's address arithmetic: the entry that a tail register names. -/
theorem descAddr_eq (tail : Word) :
    base + tail.setWidth 64 * 16 = entryAddr base tail.toNat := by
  rw [entryAddr, slot]
  congr 1
  apply BitVec.eq_of_toNat_eq
  have h16 : (16 : Addr).toNat = 16 := rfl
  have := tail.isLt
  simp only [BitVec.toNat_mul, BitVec.toNat_setWidth, BitVec.toNat_ofNat, SmartEthDesc.size, h16]
  omega

end SmartEth.DescRing
