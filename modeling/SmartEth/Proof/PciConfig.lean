import SmartEth.System.PciConfig

/-!
# One half of a config word

A 16-bit write is a read-modify-write of the word: the other half is written back as it was
read, which clears the write-1-to-clear bits that are set there. The write changes its own half
only if and only if there are none (`onlyHalf_iff`), and the scan, which enables the device it
finds in COMMAND, leaves Status alone if and only if no such bit is set there
(`status_scan_iff`).
-/

namespace SmartEth

namespace PciConfig

/-! ## Addresses -/

section Addresses

theorem or_eq_add_of_lt {a b k : Nat} (ha : 2 ^ k ∣ a) (hb : b < 2 ^ k) : a ||| b = a + b := by
  obtain ⟨m, rfl⟩ := ha
  have h := Nat.shiftLeft_add_eq_or_of_lt hb m
  rwa [Nat.shiftLeft_eq, Nat.mul_comm, eq_comm] at h

theorem toNat_and_not_three (x : Word) : (x &&& ~~~(3 : Word)).toNat = x.toNat / 4 * 4 := by
  have hx : x &&& ~~~(3 : Word) = x >>> 2 <<< 2 := by
    ext i hi
    have h3 : (3 : Word)[i] = decide (i < 2) := by
      rw [← BitVec.getLsbD_eq_getElem, BitVec.getLsbD, show BitVec.toNat (3 : Word) = 2 ^ 2 - 1 from rfl,
        Nat.testBit_two_pow_sub_one]
    simp only [BitVec.getElem_and, BitVec.getElem_not, h3, BitVec.getElem_shiftLeft]
    by_cases h2 : i < 2
    · simp [h2]
    · simp [h2, show 2 + (i - 2) = i by omega, BitVec.getLsbD_eq_getElem hi]
  rw [hx, BitVec.toNat_shiftLeft, BitVec.toNat_ushiftRight, Nat.shiftLeft_eq, Nat.shiftRight_eq_div_pow]
  have := x.isLt
  omega

/-- The parts of an address do not overlap. -/
theorem toNat_ecamAddr (p : Place) : (ecamAddr p.bus p.dev p.func p.offset).toNat =
    p.bus.toNat % 2 ^ 12 * 2 ^ 20 + p.dev.toNat * 2 ^ 15 + p.func.toNat * 2 ^ 12 + p.offset.toNat / 4 * 4 := by
  have hd : p.dev.toNat < 32 := p.dev_lt
  have hf : p.func.toNat < 8 := p.func_lt
  have ho : p.offset.toNat < 4096 := p.offset_lt
  have hbus : p.bus.toNat * 2 ^ 20 % 2 ^ 32 = p.bus.toNat % 2 ^ 12 * 2 ^ 20 := by
    rw [show 2 ^ 32 = 2 ^ 12 * 2 ^ 20 from rfl, Nat.mul_mod_mul_right]
  rw [ecamAddr, BitVec.toNat_or, BitVec.toNat_or, BitVec.toNat_or, BitVec.toNat_shiftLeft, BitVec.toNat_shiftLeft,
    BitVec.toNat_shiftLeft, toNat_and_not_three, PCIE_ECAM_BUS_SHIFT, PCIE_ECAM_DEV_SHIFT, PCIE_ECAM_FUNC_SHIFT,
    Nat.shiftLeft_eq, Nat.shiftLeft_eq, Nat.shiftLeft_eq, hbus,
    Nat.mod_eq_of_lt (a := p.dev.toNat * 2 ^ 15) (by omega), Nat.mod_eq_of_lt (a := p.func.toNat * 2 ^ 12) (by omega)]
  have h20 := or_eq_add_of_lt (a := p.bus.toNat % 2 ^ 12 * 2 ^ 20) (b := p.dev.toNat * 2 ^ 15) (k := 20)
    (by omega) (by omega)
  have h15 := or_eq_add_of_lt (a := p.bus.toNat % 2 ^ 12 * 2 ^ 20 + p.dev.toNat * 2 ^ 15)
    (b := p.func.toNat * 2 ^ 12) (k := 15) (by omega) (by omega)
  rw [h20, h15, or_eq_add_of_lt (k := 12) (by omega) (by omega)]

end Addresses

namespace Place

variable (p q : Place)

theorem toNat_index : p.index.toNat =
    p.bus.toNat % 2 ^ 12 * 2 ^ 18 + p.dev.toNat * 2 ^ 13 + p.func.toNat * 2 ^ 10 + p.offset.toNat / 4 := by
  rw [index, BitVec.toNat_ushiftRight, Nat.shiftRight_eq_div_pow, toNat_ecamAddr]
  omega

theorem upper_eq : p.upper = decide (p.offset.toNat / 2 % 2 = 1) := by
  have h2 : p.offset &&& 2 ≠ 0 ↔ p.offset.getLsbD 1 = true := by
    rw [show (2 : Word) = BitVec.twoPow 32 1 from rfl, BitVec.and_twoPow]
    split
    · rename_i h
      exact iff_of_true (by decide) h
    · rename_i h
      exact iff_of_false (not_not.mpr rfl) h
  rw [upper, decide_eq_decide, h2, ← BitVec.testBit_toNat, Nat.testBit_eq_decide_div_mod_eq, decide_eq_true_eq]

/-- Two bytes of one word and one side of it are of one half. -/
theorem sameHalf_iff : p.SameHalf q ↔ p.index = q.index ∧ p.upper = q.upper := by
  have hd : p.dev.toNat < 32 ∧ q.dev.toNat < 32 := ⟨p.dev_lt, q.dev_lt⟩
  have hf : p.func.toNat < 8 ∧ q.func.toNat < 8 := ⟨p.func_lt, q.func_lt⟩
  have ho : p.offset.toNat < 4096 ∧ q.offset.toNat < 4096 := ⟨p.offset_lt, q.offset_lt⟩
  rw [SameHalf, upper_eq, upper_eq, decide_eq_decide]
  simp only [← BitVec.toNat_inj, toNat_index, BitVec.toNat_setWidth, BitVec.toNat_ushiftRight,
    Nat.shiftRight_eq_div_pow]
  omega

end Place

/-! ## Halves -/

section Halves

variable (upper : Bool) (a b m o v : Word)

theorem half_and : half upper (a &&& b) = half upper a &&& half upper b := by
  cases upper <;> simp [half, BitVec.ushiftRight_and_distrib, BitVec.setWidth_and]

theorem half_or : half upper (a ||| b) = half upper a ||| half upper b := by
  cases upper <;> simp [half, BitVec.ushiftRight_or_distrib, BitVec.setWidth_or]

theorem half_not : half upper (~~~a) = ~~~half upper a := by
  cases upper <;> ext i hi <;> simp [half, show i < 32 by omega, show 16 + i < 32 by omega]

theorem half_store : half upper (store m o v) = store (half upper m) (half upper o) (half upper v) := by
  simp only [store, half_or, half_and, half_not]

/-- A half of a word, shifted to its place. -/
theorem half_lane (sel : Bool) (val : BitVec 16) :
    half upper (val.setWidth 32 <<< (if sel = true then 16 else 0)) = if upper = sel then val else 0 := by
  cases upper <;> cases sel <;> ext i hi <;>
    simp [half, hi, show i < 32 by omega, show 16 + i < 32 by omega]

theorem store_self {w : Nat} (m o : BitVec w) : store m o o = o &&& ~~~m := by
  rw [store, BitVec.and_not_self]
  simp

/-- The plain bits of a word that was written. -/
theorem store_and_not {w : Nat} (m o v : BitVec w) : store m o v &&& ~~~m = v &&& ~~~m := by
  ext i hi
  simp only [store, BitVec.getElem_and, BitVec.getElem_or, BitVec.getElem_not]
  cases m[i] <;> simp

end Halves

/-! ## Reads -/

variable (c : PciConfig) (p q : Place)

theorem ecamAddr_aligned (bus dev func offset : Word) :
    ecamAddr bus dev func (offset &&& ~~~3) = ecamAddr bus dev func offset := by
  rw [ecamAddr, ecamAddr, BitVec.and_assoc, BitVec.and_self]

theorem read32_aligned (bus dev func offset : Word) :
    c.read32 bus dev func (offset &&& ~~~3) = c.read32 bus dev func offset := by
  rw [read32, read32, ecamAddr_aligned]

theorem read16At_eq : c.read16At p = half p.upper (c.words p.index) := by
  rw [read16At, read16, read32_aligned, half, Place.upper]
  simp only [decide_eq_true_eq]
  split
  · rfl
  · rw [BitVec.setWidth_and]
    exact BitVec.and_allOnes

/-- A byte is one of its half's two. -/
theorem read8At_eq : c.read8At p =
    (half p.upper (c.words p.index) >>> (8 * (p.offset.toNat % 2))).setWidth 8 := by
  have hlo : (p.offset &&& 3).toNat = p.offset.toNat % 4 := by
    rw [BitVec.toNat_and, show BitVec.toNat (3 : Word) = 2 ^ 2 - 1 from rfl, Nat.and_two_pow_sub_one_eq_mod]
  have hshift : ((p.offset &&& 3) * 8).toNat = p.offset.toNat % 4 * 8 := by
    rw [BitVec.toNat_mul, hlo, show BitVec.toNat (8 : Word) = 8 from rfl]
    omega
  have hmask : ∀ x : Word, (x &&& 0xFF).setWidth 8 = x.setWidth 8 := by
    intro x
    rw [BitVec.setWidth_and]
    exact BitVec.and_allOnes
  rw [read8At, read8, read32_aligned, hshift, hmask, half, p.upper_eq]
  change BitVec.setWidth 8 (c.words p.index >>> _) = _
  -- the four bytes of a word
  have hm : p.offset.toNat % 4 < 4 := Nat.mod_lt _ (by decide)
  have h2 : p.offset.toNat / 2 % 2 = p.offset.toNat % 4 / 2 ∧ p.offset.toNat % 2 = p.offset.toNat % 4 % 2 := by omega
  rw [h2.1, h2.2]
  generalize p.offset.toNat % 4 = k at hm
  generalize c.words p.index = w
  apply BitVec.eq_of_toNat_eq
  have hw := w.isLt
  rcases (by omega : k = 0 ∨ k = 1 ∨ k = 2 ∨ k = 3) with rfl | rfl | rfl | rfl <;>
    simp [BitVec.toNat_setWidth, BitVec.toNat_ushiftRight, Nat.shiftRight_eq_div_pow] <;> omega

/-! ## Writes -/

/-- What the write leaves in its word. -/
theorem half_words_write16At (val : BitVec 16) (upper : Bool) :
    half upper ((c.write16At p val).words p.index) =
      store (half upper (c.w1c p.index)) (half upper (c.words p.index))
        (if upper = p.upper then val else half upper (c.words p.index)) := by
  have hw : (c.write16At p val).words p.index = store (c.w1c p.index) (c.words p.index)
      ((c.words p.index &&& ~~~((0xFFFF : Word) <<< (if p.offset &&& 2 ≠ 0 then 16 else 0))) |||
        val.setWidth 32 <<< (if p.offset &&& 2 ≠ 0 then 16 else 0)) := by
    rw [write16At, write16, read32_aligned]
    dsimp only [write32]
    rw [ecamAddr_aligned]
    exact if_pos rfl
  rw [hw, half_store, half_or, half_and, half_not]
  congr 1
  have hsel : (if p.offset &&& 2 ≠ 0 then 16 else 0) = if p.upper = true then 16 else 0 :=
    ite_congr (propext decide_eq_true_iff.symm) (fun _ => rfl) fun _ => rfl
  rw [hsel, half_lane, show (0xFFFF : Word) = (BitVec.allOnes 16).setWidth 32 from rfl, half_lane]
  by_cases hu : upper = p.upper
  · rw [if_pos hu, if_pos hu, if_pos hu, BitVec.not_allOnes, BitVec.and_zero, BitVec.zero_or]
  · rw [if_neg hu, if_neg hu, if_neg hu]
    exact (BitVec.or_zero).trans (BitVec.and_allOnes)

theorem words_write16At_ne (val : BitVec 16) {i : Word} (h : i ≠ p.index) :
    (c.write16At p val).words i = c.words i := by
  rw [write16At, write16]
  dsimp only [write32]
  rw [ecamAddr_aligned]
  exact if_neg h

/-- The word is read, and the other half written back. -/
theorem other_write16At (val : BitVec 16) :
    half (!p.upper) ((c.write16At p val).words p.index) =
      half (!p.upper) (c.words p.index) &&& ~~~half (!p.upper) (c.w1c p.index) := by
  rw [half_words_write16At, if_neg (Bool.not_ne_self _), store_self]

/-- A 16-bit write changes its half only if and only if no write-1-to-clear bit is set in
the other one. -/
theorem onlyHalf_iff (val : BitVec 16) : c.OnlyHalf p val ↔ c.OtherClear p := by
  have hother := c.other_write16At p val
  rw [OtherClear, half_and, ← and_not_eq_self]
  constructor
  · intro h
    exact hother.symm.trans h.other
  intro h
  -- another half of the words is what it was
  have hkept : ∀ q : Place, ¬ p.SameHalf q →
      half q.upper ((c.write16At p val).words q.index) = half q.upper (c.words q.index) := by
    intro q hq
    rw [Place.sameHalf_iff] at hq
    by_cases hi : q.index = p.index
    · have hu : q.upper = !p.upper := Bool.eq_not.mpr fun hu => hq ⟨hi.symm, hu.symm⟩
      rw [hi, hu]
      exact hother.trans h
    · rw [c.words_write16At_ne p val hi]
  refine ⟨fun i hi => c.words_write16At_ne p val hi, hother.trans h, ?_, fun q hq => ?_, fun q hq => ?_⟩
  · rw [read16At_eq, half_words_write16At, if_pos rfl]
    exact store_and_not _ _ _
  · rw [read8At_eq, read8At_eq, hkept q hq]
  · rw [read16At_eq, read16At_eq, hkept q hq]

/-! ## The scan -/

/-- The scan enables the device it finds. -/
theorem scanFrom_eq (devs : List Word) :
    c.scanFrom devs = match devs.find? fun dev => c.read16 0 dev 0 PCI_VENDOR_ID = SMARTETH_VENDOR_ID ∧
        c.read16 0 dev 0 PCI_DEVICE_ID = SMARTETH_DEVICE_ID with
      | some dev => c.enable dev
      | none => (c, 0) := by
  induction devs with
  | nil => rfl
  | cons dev devs ih =>
    rw [scanFrom, List.find?_cons]
    by_cases hv : c.read16 0 dev 0 PCI_VENDOR_ID = 0xFFFF ∨ c.read16 0 dev 0 PCI_VENDOR_ID = 0x0000
    · have hne : c.read16 0 dev 0 PCI_VENDOR_ID ≠ SMARTETH_VENDOR_ID := by
        rcases hv with hv | hv <;> rw [hv] <;> decide
      rw [if_pos hv, decide_eq_false fun h => hne h.1]
      exact ih
    rw [if_neg hv]
    by_cases hd : c.read16 0 dev 0 PCI_VENDOR_ID = SMARTETH_VENDOR_ID ∧
        c.read16 0 dev 0 PCI_DEVICE_ID = SMARTETH_DEVICE_ID
    · rw [if_pos hd, decide_eq_true hd]
    · rw [if_neg hd, decide_eq_false hd]
      exact ih

theorem lt_of_foundDev {dev : Word} (h : c.foundDev = some dev) : dev < 32 := by
  obtain ⟨i, hi, rfl⟩ := List.mem_map.mp (List.mem_of_find?_eq_some h)
  have h32 : i < 32 := List.mem_range.mp hi
  show i % 2 ^ 32 < 32
  omega

/-- A register of a device on bus 0. -/
def devPlace (dev offset : Word) (h : dev < 32) (ho : offset < 4096) : Place :=
  ⟨0, dev, 0, offset, h, by decide, ho⟩

theorem index_devPlace_inj {dev o₁ o₂ : Word} {h : dev < 32} {h₁ : o₁ < 4096} {h₂ : o₂ < 4096} :
    (devPlace dev o₁ h h₁).index = (devPlace dev o₂ h h₂).index ↔ o₁.toNat / 4 = o₂.toNat / 4 := by
  rw [← BitVec.toNat_inj, Place.toNat_index, Place.toNat_index]
  exact Nat.add_right_inj

/-- Enabling a device clears the write-1-to-clear bits set in its Status. -/
theorem status_enable {dev : Word} (h : dev < 32) :
    (c.enable dev).1.read16 0 dev 0 PCI_STATUS =
      c.read16 0 dev 0 PCI_STATUS &&& ~~~half true (c.w1c (ecamAddr 0 dev 0 PCI_STATUS >>> 2)) := by
  let cmdPlace := devPlace dev PCI_COMMAND h (by decide)
  let stsPlace := devPlace dev PCI_STATUS h (by decide)
  -- COMMAND and Status are the halves of one word, and BAR0 is in another
  have hsts : cmdPlace.index = stsPlace.index := index_devPlace_inj.mpr rfl
  have hbar : cmdPlace.index ≠ ecamAddr 0 dev 0 PCI_BAR0 >>> 2 := fun he =>
    absurd (index_devPlace_inj.mp (he.trans (rfl : _ = (devPlace dev PCI_BAR0 h (by decide)).index)))
      (by decide)
  obtain ⟨c₁, cmd, hw, hm, he⟩ : ∃ (c₁ : PciConfig) (cmd : BitVec 16),
      c₁.words cmdPlace.index = c.words cmdPlace.index ∧ c₁.w1c = c.w1c ∧
        (c.enable dev).1 = c₁.write16At cmdPlace cmd := by
    by_cases hb : c.read32 0 dev 0 PCI_BAR0 &&& ~~~0xF = 0
    · refine ⟨c.write32 0 dev 0 PCI_BAR0 0x40000000,
        (c.write32 0 dev 0 PCI_BAR0 0x40000000).read16 0 dev 0 PCI_COMMAND ||| 0x0006, if_neg hbar, rfl, ?_⟩
      rw [enable, if_pos hb]
      rfl
    · refine ⟨c, c.read16 0 dev 0 PCI_COMMAND ||| 0x0006, rfl, rfl, ?_⟩
      rw [enable, if_neg hb]
      rfl
  have hcu : (!cmdPlace.upper) = true := show (!decide (PCI_COMMAND &&& 2 ≠ 0)) = true by decide
  have hsu : stsPlace.upper = true := show decide (PCI_STATUS &&& 2 ≠ 0) = true by decide
  have hother := c₁.other_write16At cmdPlace cmd
  rw [hcu, hw, hm, hsts, ← he, ← hsu, ← read16At_eq, ← read16At_eq, hsu] at hother
  exact hother

/-- The scan leaves the Status of the device it enables as it was if and only if no
write-1-to-clear bit is set there. -/
theorem status_scan_iff {dev : Word} (h : c.foundDev = some dev) :
    c.smartethPciScan.1.read16 0 dev 0 PCI_STATUS = c.read16 0 dev 0 PCI_STATUS ↔ c.statusSet dev = 0 := by
  have hscan : c.smartethPciScan = c.enable dev := by
    rw [smartethPciScan, scanFrom_eq, show List.find? _ scanDevs = some dev from h]
  rw [hscan, c.status_enable (c.lt_of_foundDev h)]
  exact and_not_eq_self

/-- For every config space, a 16-bit write touches its half only, and the COMMAND update of
the scan leaves Status alone, exactly when no write-1-to-clear bit is set in the other half. -/
theorem write16_iff_otherClear (c : PciConfig) :
    (∀ (p : Place) (val : BitVec 16), p.Even → (c.OnlyHalf p val ↔ c.OtherClear p)) ∧
      ∀ dev, c.foundDev = some dev →
        (c.smartethPciScan.1.read16 0 dev 0 PCI_STATUS = c.read16 0 dev 0 PCI_STATUS ↔ c.statusSet dev = 0) :=
  ⟨fun p val _ => c.onlyHalf_iff p val, fun _ h => c.status_scan_iff h⟩

/-- Device 1 of bus 0 is a SmartEth device, with Received Master Abort set in its Status. -/
def abortedSpace : PciConfig where
  words i :=
    if i = ecamAddr 0 1 0 PCI_VENDOR_ID >>> 2 then 0x00011efd
    else if i = ecamAddr 0 1 0 PCI_COMMAND >>> 2 then 0x20000000
    else 0
  w1c i := if i = ecamAddr 0 1 0 PCI_COMMAND >>> 2 then 0xf9000000 else 0

/-- The same device, with none of the bits set that Status clears by writing a one. -/
def clearSpace : PciConfig :=
  { abortedSpace with words := fun i => if i = ecamAddr 0 1 0 PCI_VENDOR_ID >>> 2 then 0x00011efd else 0 }

theorem write16_iff_otherClear_command : clearSpace.w1c (ecamAddr 0 1 0 PCI_COMMAND >>> 2) = 0xf9000000 ∧
    clearSpace.OnlyHalf (devPlace 1 PCI_COMMAND (by decide) (by decide)) 0x0006 ∧
    clearSpace.smartethPciScan.1.read16 0 1 0 PCI_STATUS = clearSpace.read16 0 1 0 PCI_STATUS := by
  obtain ⟨hwrite, hscan⟩ := write16_iff_otherClear clearSpace
  refine ⟨by decide, (hwrite (devPlace 1 PCI_COMMAND (by decide) (by decide)) 0x0006 ?_).mpr ?_, ?_⟩
  · show PCI_COMMAND &&& 1 = 0
    decide
  · show half _ _ = 0
    decide
  · exact (hscan 1 (by decide)).mpr (by decide)

/-- The scan clears it, and so does any 16-bit write to COMMAND. -/
theorem command_update_clears_status :
    abortedSpace.foundDev = some 1 ∧
      abortedSpace.smartethPciScan.1.read16 0 1 0 PCI_STATUS ≠ abortedSpace.read16 0 1 0 PCI_STATUS ∧
      ¬ abortedSpace.OnlyHalf (devPlace 1 PCI_COMMAND (by decide) (by decide)) 0x0006 := by
  refine ⟨by decide, by decide, fun h => ?_⟩
  exact absurd h.other (by decide)

end PciConfig

end SmartEth
