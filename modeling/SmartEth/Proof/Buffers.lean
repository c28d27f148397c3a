import SmartEth.Impl.DescRing

/-!
# Receive buffers

The buffers in use overlap neither a given range (`Clear`) nor one another
(`Apart`), and what the NIC owns is as it was (`Held`): each is kept by a write
outside the ring and, under a condition on the new descriptor, by a write to one
of its entries.
-/

namespace SmartEth.DescRing

section

variable (base : Addr) (n : Nat)

/-- The buffers in use do not overlap `r`. -/
def Clear (m : GuestMem) (r : Region 64) : Prop :=
  ∀ i < n, InUse (entry base m i) → (bufRegion (entry base m i)).Disjoint r

/-- The buffers in use do not overlap one another. -/
def Apart (m : GuestMem) : Prop :=
  ∀ i < n, ∀ j < n, i ≠ j → InUse (entry base m i) → InUse (entry base m j) →
    (bufRegion (entry base m i)).Disjoint (bufRegion (entry base m j))

/-- The descriptors that the NIC owns, and their buffers, are in `m'` as in `m`. -/
structure Held (m m' : GuestMem) : Prop where
  entry : ∀ i < n, (entry base m i).own = true → entry base m' i = entry base m i
  buf : ∀ i < n, (DescRing.entry base m i).own = true → ∀ k ≤ (DescRing.entry base m i).length.toNat,
    m'.read (DescRing.entry base m i).addr k = m.read (DescRing.entry base m i).addr k

end

variable {base : Addr} {n : Nat} {m m' : GuestMem} {r : Region 64}

theorem Clear.outside (h : Clear base n m r) {a : Addr} {bs : List Byte}
    (hw : (⟨a, bs.length⟩ : Region 64).Disjoint (ringRegion base n)) : Clear base n (m.write a bs) r := by
  intro i hi
  rw [entry_write_outside hi hw]
  exact h i hi

theorem Apart.outside (h : Apart base n m) {a : Addr} {bs : List Byte}
    (hw : (⟨a, bs.length⟩ : Region 64).Disjoint (ringRegion base n)) : Apart base n (m.write a bs) := by
  intro i hi j hj
  rw [entry_write_outside hi hw, entry_write_outside hj hw]
  exact h i hi j hj

theorem Clear.desc (h : Clear base n m r) (hn : n < 2 ^ 32) {i : Nat} (hi : i < n) {d : SmartEthDesc}
    (hd : InUse d → (bufRegion d).Disjoint r) : Clear base n (m.write (entryAddr base i) d.toBytes) r := by
  intro j hj hu
  by_cases hji : j = i
  · subst hji
    rw [entry_write_self] at hu ⊢
    exact hd hu
  · rw [entry_write_ne hn hj hi hji] at hu ⊢
    exact h j hj hu

theorem Apart.desc (h : Apart base n m) (hn : n < 2 ^ 32) {i : Nat} (hi : i < n) {d : SmartEthDesc}
    (hd : InUse d → ∀ j < n, j ≠ i → InUse (entry base m j) →
      (bufRegion d).Disjoint (bufRegion (entry base m j))) :
    Apart base n (m.write (entryAddr base i) d.toBytes) := by
  intro j hj k hk hjk hu hu'
  by_cases hji : j = i
  · subst hji
    rw [entry_write_ne hn hk hi (Ne.symm hjk)] at hu' ⊢
    rw [entry_write_self] at hu ⊢
    exact hd hu k hk (Ne.symm hjk) hu'
  · rw [entry_write_ne hn hj hi hji] at hu ⊢
    by_cases hki : k = i
    · subst hki
      rw [entry_write_self] at hu' ⊢
      exact (hd hu' j hj hji hu).symm
    · rw [entry_write_ne hn hk hi hki] at hu' ⊢
      exact h j hj k hk hjk hu hu'

/-- A descriptor in use is replaced by one for a part of its buffer. -/
theorem Clear.shrink (h : Clear base n m r) (hn : n < 2 ^ 32) {i : Nat} (hi : i < n) {d : SmartEthDesc}
    (hu : InUse (entry base m i)) (hd : ∀ x ∈ bufRegion d, x ∈ bufRegion (entry base m i)) :
    Clear base n (m.write (entryAddr base i) d.toBytes) r :=
  h.desc hn hi fun _ => (h i hi hu).sub_left hd

theorem Apart.shrink (h : Apart base n m) (hn : n < 2 ^ 32) {i : Nat} (hi : i < n) {d : SmartEthDesc}
    (hu : InUse (entry base m i)) (hd : ∀ x ∈ bufRegion d, x ∈ bufRegion (entry base m i)) :
    Apart base n (m.write (entryAddr base i) d.toBytes) :=
  h.desc hn hi fun _ j hj hji hu' => (h i hi j hj (Ne.symm hji) hu hu').sub_left hd

namespace Held

theorem refl (m : GuestMem) : Held base n m m :=
  ⟨fun _ _ _ => rfl, fun _ _ _ _ _ => rfl⟩

theorem trans {m'' : GuestMem} (h : Held base n m m') (h' : Held base n m' m'') : Held base n m m'' := by
  refine ⟨fun i hi ho => ?_, fun i hi ho k hk => ?_⟩
  · have he := h.entry i hi ho
    rw [h'.entry i hi (by rw [he]; exact ho), he]
  · have he := h.entry i hi ho
    have h1 := h'.buf i hi (by rw [he]; exact ho)
    rw [he] at h1
    rw [h1 k hk, h.buf i hi ho k hk]

/-- A write outside the ring and the buffers the NIC owns. -/
theorem outside {a : Addr} {bs : List Byte}
    (hr : (⟨a, bs.length⟩ : Region 64).Disjoint (ringRegion base n))
    (hb : ∀ i < n, (DescRing.entry base m i).own = true →
      (⟨a, bs.length⟩ : Region 64).Disjoint (bufRegion (DescRing.entry base m i))) :
    Held base n m (m.write a bs) :=
  ⟨fun _ hi _ => entry_write_outside hi hr, fun i hi ho _ hk =>
    Mem.read_write_disjoint ((hb i hi ho).symm.sub_left (Region.mem_of_le hk))⟩

/-- A write to an entry that the NIC does not own. -/
theorem desc (hc : Clear base n m (ringRegion base n)) (hn : n < 2 ^ 32) {i : Nat} (hi : i < n)
    (ho : (DescRing.entry base m i).own = false) (d : SmartEthDesc) :
    Held base n m (m.write (entryAddr base i) d.toBytes) := by
  refine ⟨fun j hj hoj => entry_write_ne hn hj hi fun e => ?_, fun j hj hoj k hk => ?_⟩
  · rw [e, ho] at hoj; cases hoj
  · refine Mem.read_write_disjoint ?_
    rw [d.length_toBytes]
    exact ((hc j hj (.inl hoj)).sub_left (Region.mem_of_le hk)).sub_right (slot_sub_table hi)

end Held

end SmartEth.DescRing
