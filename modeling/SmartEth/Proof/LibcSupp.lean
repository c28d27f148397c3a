import SmartEth.Impl.LibcSupp

/-!
# What the C library does to memory

`memset` and `memcpy` store what they should, byte after byte (`memset_eq`, `memcpy_eq`). As
`memcpy` starts with the first byte, it copies every memory exactly if and only if the destination
does not begin inside the source, behind its first byte (`memcpy_exact_iff`); and `memcmp` tells the
lexicographic order of the bytes (`memcmp_order`).
-/

namespace SmartEth.Libc

theorem memset_eq (mem : GuestMem) (s : Addr) (c : Word) {n : Nat} (h : n ≤ 2 ^ 64) :
    memset mem s c n = mem.write s (List.replicate n (c.setWidth 8)) := by
  induction n generalizing mem s with
  | zero => rfl
  | succ n ih =>
    have hcons := mem.write_cons s (c.setWidth 8) (List.replicate n (c.setWidth 8)) (by rwa [List.length_replicate])
    rw [memset, ih _ _ (by omega), List.replicate_succ, hcons]

/-! ## Copies -/

/-- The destination does not begin behind the first byte of the source, and inside it. -/
def Forward (dest src : Addr) (n : Nat) : Prop := dest = src ∨ n ≤ (dest - src).toNat

instance (dest src : Addr) (n : Nat) : Decidable (Forward dest src n) := inferInstanceAs (Decidable (_ ∨ _))

variable {dest src x : Addr} {n : Nat}

/-- The distance to the next address. -/
theorem toNat_sub_add_one (x a : Addr) :
    (x - (a + 1)).toNat = if x = a then 2 ^ 64 - 1 else (x - a).toNat - 1 := by
  split
  · subst_vars
    bv_omega
  · bv_omega

/-- The first byte that is stored is not one that is still to be read. -/
theorem Forward.notMem (h : Forward dest src (n + 1)) (hn : n + 1 ≤ 2 ^ 64) : dest ∉ (⟨src + 1, n⟩ : Region 64) := by
  rw [Region.mem_def, toNat_sub_add_one]
  dsimp only
  rcases h with rfl | h
  · rw [if_pos rfl]
    omega
  · split
    · omega
    · omega

theorem Forward.tail (h : Forward dest src (n + 1)) : Forward (dest + 1) (src + 1) n := by
  rcases h with rfl | h
  · exact .inl rfl
  · refine .inr ?_
    have hsub : dest + 1 - (src + 1) = dest - src := by ring
    rw [hsub]
    omega

theorem memcpy_eq (mem : GuestMem) (h : Forward dest src n) (hn : n ≤ 2 ^ 64) :
    memcpy mem dest src n = mem.write dest (mem.read src n) := by
  induction n generalizing mem dest src with
  | zero => rfl
  | succ n ih =>
    have hkeep : (mem.write dest [mem src]).read (src + 1) n = mem.read (src + 1) n := by
      refine Mem.read_congr fun x hx => Mem.write_of_notMem fun hd => ?_
      have hlt : (x - dest).toNat < 1 := hd
      have hx0 : x = dest := by bv_omega
      exact h.notMem hn (hx0 ▸ hx)
    have hcons := mem.write_cons dest (mem src) (mem.read (src + 1) n) (by rwa [Mem.length_read])
    rw [memcpy, ih _ h.tail (by omega), hkeep, Mem.read_succ, hcons]

theorem memcpy_add (mem : GuestMem) (dest src : Addr) (k n : Nat) :
    memcpy mem dest src (k + n) =
      memcpy (memcpy mem dest src k) (dest + BitVec.ofNat 64 k) (src + BitVec.ofNat 64 k) n := by
  induction k generalizing mem dest src with
  | zero => simp [memcpy]
  | succ k ih =>
    have hnext (a : Addr) : a + 1 + BitVec.ofNat 64 k = a + BitVec.ofNat 64 (k + 1) := by
      rw [Nat.add_comm, BitVec.ofNat_add, ← BitVec.add_assoc]
      rfl
    rw [Nat.add_right_comm, memcpy, ih, memcpy, hnext, hnext]

/-- Nothing else is changed. -/
theorem memcpy_of_notMem (mem : GuestMem) (h : x ∉ (⟨dest, n⟩ : Region 64)) (hn : n ≤ 2 ^ 64) :
    memcpy mem dest src n x = mem x := by
  induction n generalizing mem dest src with
  | zero => rfl
  | succ n ih =>
    rw [Region.mem_def] at h
    dsimp only at h
    have htail : x ∉ (⟨dest + 1, n⟩ : Region 64) := by
      rw [Region.mem_def, toNat_sub_add_one]
      dsimp only
      split
      · omega
      · omega
    have hhead : x ∉ (⟨dest, 1⟩ : Region 64) := by
      rw [Region.mem_def]
      dsimp only
      omega
    rw [memcpy, ih _ htail (by omega)]
    exact Mem.write_of_notMem hhead

/-- Where the destination begins inside the source, the first byte comes again where the first
overwritten one should be. -/
theorem memcpy_overlap (mem : GuestMem) (hne : dest ≠ src) (h : (dest - src).toNat < n) (hn : n ≤ 2 ^ 64) :
    memcpy mem dest src n (dest + (dest - src)) = mem src := by
  have hpos : 0 < (dest - src).toNat := by bv_omega
  have hdist : BitVec.ofNat 64 (dest - src).toNat = dest - src := by rw [BitVec.ofNat_toNat, BitVec.setWidth_eq]
  have hsrc : src + (dest - src) = dest := by ring
  generalize hk : (dest - src).toNat = k at h hpos hdist
  obtain ⟨rest, rfl⟩ : ∃ rest, n = k + (rest + 1) := ⟨n - k - 1, by omega⟩
  -- The first `k` bytes are copied exactly, and the next to be read is the first of them.
  have hbyte : memcpy mem dest src k dest = mem src := by
    obtain ⟨j, rfl⟩ : ∃ j, k = j + 1 := ⟨k - 1, by omega⟩
    rw [memcpy_eq mem (.inr hk.ge) (by omega), Mem.read_succ, Mem.write, BitVec.sub_self]
    rfl
  have hout : dest + (dest - src) ∉ (⟨dest + (dest - src) + 1, rest⟩ : Region 64) := by
    rw [Region.mem_def, toNat_sub_add_one, if_pos rfl]
    dsimp only
    omega
  rw [memcpy_add, hdist, hsrc, memcpy, memcpy_of_notMem _ hout (by omega), hbyte, Mem.write, BitVec.sub_self]
  rfl

/-- `memcpy` copies every memory exactly, if and only if the destination does not begin inside the
source, behind its first byte. -/
theorem memcpy_exact_iff (dest src : Addr) (n : BitVec 64) :
    (∀ mem, memcpy mem dest src n.toNat = mem.write dest (mem.read src n.toNat)) ↔ Forward dest src n.toNat := by
  have hn := n.isLt
  refine ⟨fun h => ?_, fun h mem => memcpy_eq mem h (by omega)⟩
  by_contra hf
  obtain ⟨hne, hlt⟩ := not_or.mp hf
  rw [Nat.not_le] at hlt
  -- a memory that tells the first byte of the source from all others
  have hbyte := congrFun (h fun x => if x = src then 0 else 1) (dest + (dest - src))
  have hoff : dest + (dest - src) - dest = dest - src := by ring
  have hsrc : src + BitVec.ofNat 64 (dest - src).toNat = dest := by
    rw [BitVec.ofNat_toNat, BitVec.setWidth_eq]
    ring
  rw [memcpy_overlap _ hne hlt (by omega), Mem.write, hoff, List.getD_eq_getElem?_getD,
    List.getElem?_eq_getElem (by rwa [Mem.length_read]), Option.getD_some] at hbyte
  simp only [Mem.read, List.getElem_map, List.getElem_range, hsrc, if_pos, if_neg hne] at hbyte
  cases hbyte

/-! ## Comparisons -/

/-- `memcmp` is 0 for equal bytes, and negative for the smaller ones in lexicographic order. -/
theorem memcmp_order (mem : GuestMem) (s1 s2 : Addr) (n : Nat) :
    (memcmp mem s1 s2 n = 0 ↔ mem.read s1 n = mem.read s2 n) ∧
      (memcmp mem s1 s2 n < 0 ↔ mem.read s1 n < mem.read s2 n) := by
  induction n generalizing s1 s2 with
  | zero => exact ⟨iff_of_true rfl rfl, iff_of_false (lt_irrefl (0 : Int)) (by simp [Mem.read])⟩
  | succ n ih =>
    rw [memcmp, Mem.read_succ, Mem.read_succ, List.cons.injEq, List.cons_lt_cons_iff]
    by_cases heq : mem s1 = mem s2
    · rw [if_neg (not_not.mpr heq), heq]
      simpa using ih (s1 + 1) (s2 + 1)
    · have hne : (mem s1).toNat ≠ (mem s2).toNat := fun h => heq (BitVec.eq_of_toNat_eq h)
      rw [if_pos heq, BitVec.lt_def]
      refine ⟨iff_of_false (by omega) fun h => heq h.1, ?_⟩
      simp only [heq, false_and, or_false]
      omega

end SmartEth.Libc
