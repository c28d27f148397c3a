import Mathlib.Data.List.Find
import SmartEth.System.SelfTest
import SmartEth.Proof.PciConfig

/-!
# The scan of the self-test

Every access of the scan reaches the word of config space that it is for (`target_ecamPtr`). So
among whatever the device does, the program comes to what `PciConfig.smartethPciScan` gives
(`scan_leads`): a programmed BAR0 and an enabled device where there is one (`enabled`), and
nothing else (`smartethPciScan_spec`).
-/

namespace SmartEth.PciTest

open PciConfig (PCI_BAR0 PCI_COMMAND PCI_VENDOR_ID PCI_DEVICE_ID PCI_STATUS devPlace ecamAddr half)

/-! ## Accesses to config space -/

section Accesses

variable {dev offset : Word}

theorem aligned_lt (ho : offset < 4096) : offset &&& ~~~3 < 4096 := by
  have ho' : offset.toNat < 4096 := ho
  show (offset &&& ~~~3).toNat < 4096
  rw [PciConfig.toNat_and_not_three]
  omega

theorem toNat_index_lt (hd : dev < 32) (ho : offset < 4096) : (ecamAddr 0 dev 0 offset >>> 2).toNat < 2 ^ 18 := by
  have hi : (devPlace dev offset hd ho).index.toNat = _ := PciConfig.Place.toNat_index _
  have hd' : dev.toNat < 32 := hd
  have ho' : offset.toNat < 4096 := ho
  rw [show ecamAddr 0 dev 0 offset >>> 2 = (devPlace dev offset hd ho).index from rfl, hi]
  dsimp only [devPlace]
  rw [show BitVec.toNat (0 : Word) = 0 from rfl]
  omega

/-- A 32-bit index, as the distance of an element of four bytes. -/
theorem toNat_scaled {idx : Word} : (idx.setWidth 64 * 4).toNat = idx.toNat * 4 := by
  have hidx := idx.isLt
  rw [BitVec.toNat_mul, BitVec.toNat_setWidth, Nat.mod_eq_of_lt (a := idx.toNat) (by omega)]
  exact Nat.mod_eq_of_lt (show idx.toNat * 4 < 2 ^ 64 by omega)

/-- An access to a device on bus 0 goes to its word. -/
theorem target_ecamPtr (hd : dev < 32) (ho : offset < 4096) (size : Nat) (slot : Word) (c : PciConfig) :
    target size slot c (ecamPtr 0 dev 0 offset) = .config (ecamAddr 0 dev 0 offset >>> 2) := by
  have hlt := toNat_index_lt hd ho
  unfold ecamPtr
  generalize ecamAddr 0 dev 0 offset >>> 2 = idx at hlt
  have hsub : PCIE_ECAM_BASE + idx.setWidth 64 * 4 - PCIE_ECAM_BASE = idx.setWidth 64 * 4 := by
    rw [BitVec.add_comm, BitVec.add_sub_cancel]
  have hin : PCIE_ECAM_BASE + idx.setWidth 64 * 4 ∈ ecam := by
    rw [Region.mem_def]
    show (PCIE_ECAM_BASE + idx.setWidth 64 * 4 - PCIE_ECAM_BASE).toNat < 2 ^ 28
    rw [hsub, toNat_scaled]
    omega
  rw [target, if_pos hin, hsub]
  refine congrArg Target.config (BitVec.eq_of_toNat_eq ?_)
  rw [BitVec.toNat_setWidth, BitVec.toNat_ushiftRight, toNat_scaled, Nat.shiftRight_eq_div_pow]
  omega

end Accesses

/-! ## The scan among the steps of the device -/

section Scan

variable {ν ε : Type} {D : BarDevice ν ε} {slot : Word} {c : PciConfig} {P : ν → Prop} {b : Board ν ε}

/-- The device's own steps keep it. -/
def Keeps (D : BarDevice ν ε) (P : ν → Prop) : Prop := ∀ s mem e t, P s → D.step s mem e = some t → P t.1

/-- Config space is `c`, and the device meets `P`. -/
structure On (c : PciConfig) (P : ν → Prop) (b : Board ν ε) : Prop where
  cfg : b.cfg = c
  dev : P b.dev

theorem Keeps.stable (hP : Keeps D P) (c : PciConfig) : (Board.world D slot).Stable (On c P) := by
  intro b e t h he
  obtain ⟨x, hx, rfl⟩ := Option.map_eq_some_iff.mp he
  exact ⟨h.cfg, hP _ _ _ _ h.dev hx⟩

/-- An operation, in a state that the device's steps keep in `K`. -/
theorem op_leads {K : Board ν ε → Prop} {α : Type} {Q : α → Board ν ε → Prop} {e : FirmwareOp} {f : e.Res → FirmwareM α}
    (hK : (Board.world D slot).Stable K) (h : K b)
    (hf : ∀ b, K b → (Board.world D slot).Leads (f (b.perform D slot e).1) Q ((b.perform D slot e).2.log (.inr e))) :
    (Board.world D slot).Leads (Prog.call e >>= f) Q b := by
  refine .call hK h fun s _ r t hs ha => ?_
  obtain ⟨rfl, rfl⟩ := Prod.mk.inj (Option.some.inj ha)
  exact hf s hs

/-- One operation, by what it makes of a state with `K`. -/
theorem call_leads {K : Board ν ε → Prop} {e : FirmwareOp} {Q : e.Res → Board ν ε → Prop}
    (hK : (Board.world D slot).Stable K) (h : K b) (hQ : ∀ r, (Board.world D slot).Stable (Q r))
    (hf : ∀ b, K b → Q (b.perform D slot e).1 ((b.perform D slot e).2.log (.inr e))) :
    (Board.world D slot).Leads (Prog.call e) Q b :=
  op_leads (f := .ret) hK h fun b hb => .ret (hQ _) (hf b hb) fun _ h => h

theorem pure_leads {K : Board ν ε → Prop} {α : Type} {a : α} (hK : (Board.world D slot).Stable K) (h : K b) :
    (Board.world D slot).Leads (pure a : FirmwareM α) (fun x b => x = a ∧ K b) b :=
  .ret hK h fun _ hs => ⟨rfl, hs⟩

/-- A stable condition, and a fact that is none of the board's. -/
theorem stable_and {K : Board ν ε → Prop} (hK : (Board.world D slot).Stable K) (p : Prop) :
    (Board.world D slot).Stable fun b => p ∧ K b := fun s e t h he => ⟨h.1, hK s e t h.2 he⟩

section

variable (hP : Keeps D P) (h : On c P b)
include hP h

theorem puts_on (text : String) : (Board.world D slot).Leads (uartPuts text) (fun _ => On c P) b :=
  call_leads (hP.stable c) h (fun _ => hP.stable c) fun _ hb => ⟨hb.cfg, hb.dev⟩

variable {dev offset : Word} (hd : dev < 32)
include hd

theorem read32_on (ho : offset < 4096) : (Board.world D slot).Leads (pciConfigRead32 0 dev 0 offset)
    (fun v b => v = c.read32 0 dev 0 offset ∧ On c P b) b := by
  refine call_leads (hP.stable c) h (fun v => stable_and (hP.stable c) _) fun b hb => ?_
  simp only [Board.perform, target_ecamPtr hd ho]
  exact ⟨hb.cfg ▸ rfl, hb.cfg, hb.dev⟩

theorem write32_on (ho : offset < 4096) (val : Word) :
    (Board.world D slot).Leads (pciConfigWrite32 0 dev 0 offset val) (fun _ => On (c.write32 0 dev 0 offset val) P) b := by
  refine call_leads (hP.stable c) h (fun _ => hP.stable _) fun b hb => ?_
  simp only [Board.perform, target_ecamPtr hd ho]
  exact ⟨by rw [← hb.cfg]; rfl, hb.dev⟩

theorem read16_on (ho : offset < 4096) : (Board.world D slot).Leads (pciConfigRead16 0 dev 0 offset)
    (fun v b => v = c.read16 0 dev 0 offset ∧ On c P b) b := by
  refine (read32_on hP h hd (aligned_lt ho)).seq ?_
  rintro v b ⟨rfl, hb⟩
  exact pure_leads (hP.stable c) hb

theorem read8_on (ho : offset < 4096) : (Board.world D slot).Leads (pciConfigRead8 0 dev 0 offset)
    (fun v b => v = c.read8 0 dev 0 offset ∧ On c P b) b := by
  refine (read32_on hP h hd (aligned_lt ho)).seq ?_
  rintro v b ⟨rfl, hb⟩
  exact pure_leads (hP.stable c) hb

theorem write16_on (ho : offset < 4096) (val : BitVec 16) :
    (Board.world D slot).Leads (pciConfigWrite16 0 dev 0 offset val) (fun _ => On (c.write16 0 dev 0 offset val) P) b := by
  refine (read32_on hP h hd (aligned_lt ho)).seq ?_
  rintro v b ⟨rfl, hb⟩
  exact write32_on hP hb hd (aligned_lt ho) _

/-- The address after the scan, and config space. -/
abbrev Found (x : PciConfig × BitVec 64) (P : ν → Prop) (a : BitVec 64) (b : Board ν ε) : Prop := a = x.2 ∧ On x.1 P b

theorem programBar0_on : (Board.world D slot).Leads (programBar0 dev) (fun _ => On
    (if c.read32 0 dev 0 PCI_BAR0 &&& ~~~0xF = 0 then c.write32 0 dev 0 PCI_BAR0 0x40000000 else c) P) b := by
  refine (read32_on hP h hd (by decide)).seq ?_
  rintro v b ⟨rfl, hb⟩
  refine (puts_on hP hb _).seq fun _ b hb => ?_
  split
  · exact (puts_on hP hb _).seq fun _ b hb => write32_on hP hb hd (by decide) _
  · exact .ret (hP.stable c) hb fun _ h => h

theorem enableDev_on : (Board.world D slot).Leads (enableDev dev) (Found (c.enable dev) P) b := by
  unfold PciConfig.enable
  refine (puts_on hP h _).seq fun _ b hb => ?_
  refine (programBar0_on hP hb hd).seq fun _ b hb => ?_
  dsimp only
  generalize (if c.read32 0 dev 0 PCI_BAR0 &&& ~~~0xF = 0 then c.write32 0 dev 0 PCI_BAR0 0x40000000 else c) = c₁
    at hb ⊢
  refine (read16_on hP hb hd (by decide)).seq ?_
  rintro v b ⟨rfl, hb⟩
  refine (write16_on hP hb hd (by decide) _).seq fun _ b hb => ?_
  refine (puts_on hP hb _).seq fun _ b hb => ?_
  refine (read32_on hP hb hd (by decide)).seq ?_
  rintro v b ⟨rfl, hb⟩
  refine (puts_on hP hb _).seq fun _ b hb => ?_
  split
  · exact (puts_on hP hb _).seq fun _ b hb => pure_leads (hP.stable _) hb
  · exact (puts_on hP hb _).seq fun _ b hb => pure_leads (hP.stable _) hb

omit hd in
/-- The loop, whatever is left of it. -/
theorem scanDevices_on (devs : List Word) (hdevs : ∀ dev ∈ devs, dev < 32) :
    (Board.world D slot).Leads (scanDevices devs) (Found (c.scanFrom devs) P) b := by
  induction devs generalizing b with
  | nil => exact (puts_on hP h _).seq fun _ b hb => pure_leads (hP.stable c) hb
  | cons dev devs ih =>
    have hd : dev < 32 := hdevs dev List.mem_cons_self
    have hrest := fun b hb => ih (b := b) hb fun d hmem => hdevs d (List.mem_cons_of_mem dev hmem)
    rw [scanDevices, PciConfig.scanFrom]
    refine (read16_on hP h hd (by decide)).seq ?_
    rintro v b ⟨rfl, hb⟩
    split
    · exact hrest b hb
    refine (read16_on hP hb hd (by decide)).seq ?_
    rintro v b ⟨rfl, hb⟩
    refine (read8_on hP hb hd (by decide)).seq ?_
    rintro v b ⟨rfl, hb⟩
    refine (puts_on hP hb _).seq fun _ b hb => ?_
    split
    · exact enableDev_on hP hb hd
    · exact hrest b hb

omit hd in
/-- Among the device's steps, `smarteth_pci_scan` comes to what the scan of config space gives. -/
theorem scan_leads : (Board.world D slot).Leads smartethPciScan (Found c.smartethPciScan P) b := by
  refine (puts_on hP h _).seq fun _ b hb => scanDevices_on hP hb _ fun dev hmem => ?_
  obtain ⟨i, hi, rfl⟩ := List.mem_map.mp hmem
  have h32 : i < 32 := List.mem_range.mp hi
  show i % 2 ^ 32 < 32
  omega

end

end Scan

/-! ## What the scan does to config space -/

theorem mask_setWidth (x : Word) : (x &&& ~~~0xF).setWidth 64 &&& ~~~(0xF : BitVec 64) = (x &&& ~~~0xF).setWidth 64 := by
  rw [BitVec.setWidth_and, BitVec.and_assoc]
  rfl

theorem store_zero {w : Nat} (old val : BitVec w) : PciConfig.store 0 old val = val := by
  simp [PciConfig.store]

section Enable

variable {slot : Word} {c : PciConfig}

theorem bar0Of_eq_zero : bar0Of c slot = 0 ↔ c.read32 0 slot 0 PCI_BAR0 &&& ~~~0xF = 0 := by
  rw [bar0Of, ← BitVec.toNat_inj, ← BitVec.toNat_inj, BitVec.toNat_setWidth_of_le (by decide)]
  rfl

theorem bar0Of_ne_zero {d : PciConfig} (h : bar0Of d slot = if bar0Of c slot = 0 then 0x40000000 else bar0Of c slot) :
    bar0Of d slot ≠ 0 := by
  rw [h]
  split
  · decide
  · assumption

/-- Two registers of a device that are in different words. -/
theorem index_ne (o₁ o₂ : Word) (hs : slot < 32) (h₁ : o₁ < 4096) (h₂ : o₂ < 4096) (hne : o₁.toNat / 4 ≠ o₂.toNat / 4) :
    ecamAddr 0 slot 0 o₁ >>> 2 ≠ ecamAddr 0 slot 0 o₂ >>> 2 := by
  have hindex : (devPlace slot o₁ hs h₁).index = (devPlace slot o₂ hs h₂).index ↔ _ := PciConfig.index_devPlace_inj
  exact fun he => hne (hindex.mp he)

/-- BAR0 has an address: the one it had, or the one of the PCI window. -/
structure Programmed (slot : Word) (c d : PciConfig) : Prop where
  bar0 : bar0Of d slot = if bar0Of c slot = 0 then 0x40000000 else bar0Of c slot
  others : ∀ i, i ≠ ecamAddr 0 slot 0 PCI_BAR0 >>> 2 → d.words i = c.words i
  w1c : d.w1c = c.w1c

theorem programmed (hp : PlainRegs c slot) : Programmed slot c
    (if c.read32 0 slot 0 PCI_BAR0 &&& ~~~0xF = 0 then c.write32 0 slot 0 PCI_BAR0 0x40000000 else c) := by
  by_cases hz : c.read32 0 slot 0 PCI_BAR0 &&& ~~~0xF = 0
  · have hval : (c.write32 0 slot 0 PCI_BAR0 0x40000000).read32 0 slot 0 PCI_BAR0 = 0x40000000 := by
      refine (if_pos rfl).trans ?_
      rw [hp.bar0, store_zero]
    rw [if_pos hz]
    refine ⟨?_, fun i hi => if_neg hi, rfl⟩
    rw [if_pos (bar0Of_eq_zero.mpr hz), bar0Of, hval]
    rfl
  · rw [if_neg hz]
    refine ⟨?_, fun _ _ => rfl, rfl⟩
    rw [if_neg fun h => hz (bar0Of_eq_zero.mp h)]

/-- BAR0 has an address, the device is enabled, and nothing else is changed. -/
structure Enabled (slot : Word) (c d : PciConfig) : Prop where
  bar0 : bar0Of d slot = if bar0Of c slot = 0 then 0x40000000 else bar0Of c slot
  command : d.read16 0 slot 0 PCI_COMMAND = c.read16 0 slot 0 PCI_COMMAND ||| 0x0006
  status : d.read16 0 slot 0 PCI_STATUS =
    c.read16 0 slot 0 PCI_STATUS &&& ~~~half true (c.w1c (ecamAddr 0 slot 0 PCI_STATUS >>> 2))
  others : ∀ i, i ≠ ecamAddr 0 slot 0 PCI_BAR0 >>> 2 → i ≠ ecamAddr 0 slot 0 PCI_COMMAND >>> 2 → d.words i = c.words i
  w1c : d.w1c = c.w1c

theorem enabled (hs : slot < 32) (hp : PlainRegs c slot) :
    Enabled slot c (c.enable slot).1 ∧ (c.enable slot).2 = bar0Of (c.enable slot).1 slot := by
  have hbar := index_ne PCI_BAR0 PCI_COMMAND hs (by decide) (by decide) (by decide)
  have hstatus := c.status_enable hs
  have hprog := programmed hp
  unfold PciConfig.enable at hstatus ⊢
  dsimp only at hstatus ⊢
  generalize (if c.read32 0 slot 0 PCI_BAR0 &&& ~~~0xF = 0 then c.write32 0 slot 0 PCI_BAR0 0x40000000 else c) = c₁
    at hprog hstatus ⊢
  -- COMMAND, one half of its word
  let p := devPlace slot PCI_COMMAND hs (by decide)
  have hup : p.upper = false := show decide (PCI_COMMAND &&& 2 ≠ 0) = false by decide
  have hread : c₁.read16 0 slot 0 PCI_COMMAND = c.read16 0 slot 0 PCI_COMMAND := by
    have h₁ : c₁.read16At p = half p.upper (c₁.words p.index) := c₁.read16At_eq p
    have h₂ : c.read16At p = half p.upper (c.words p.index) := c.read16At_eq p
    exact h₁.trans ((congrArg (half p.upper) (hprog.others _ hbar.symm)).trans h₂.symm)
  generalize hcmd : c₁.read16 0 slot 0 PCI_COMMAND ||| 0x0006 = cmd at hstatus ⊢
  have hwords : ∀ i, i ≠ p.index → (c₁.write16 0 slot 0 PCI_COMMAND cmd).words i = c₁.words i := fun i hi =>
    c₁.words_write16At_ne p cmd hi
  have hbar0 : bar0Of (c₁.write16 0 slot 0 PCI_COMMAND cmd) slot = bar0Of c₁ slot := by
    rw [bar0Of, bar0Of, PciConfig.read32, PciConfig.read32, hwords _ hbar]
  refine ⟨⟨hbar0.trans hprog.bar0, ?_, hstatus, fun i hi hi' => ?_, hprog.w1c⟩, ?_⟩
  · have hhalf := c₁.half_words_write16At p cmd p.upper
    have hplain : half p.upper (c₁.w1c p.index) = 0 := by
      rw [hprog.w1c, hup]
      exact hp.command
    rw [if_pos rfl, hplain, store_zero] at hhalf
    rw [← hread, hcmd]
    exact ((c₁.write16At p cmd).read16At_eq p).trans hhalf
  · rw [hwords i hi']
    exact hprog.others i hi
  · have hmask : bar0Of (c₁.write16 0 slot 0 PCI_COMMAND cmd) slot &&& ~~~0xF ≠ 0 := by
      rw [bar0Of, mask_setWidth]
      exact hbar0.trans_ne (bar0Of_ne_zero hprog.bar0)
    exact if_pos hmask

theorem scan_eq_enable (hfound : c.foundDev = some slot) : c.smartethPciScan = c.enable slot := by
  rw [PciConfig.smartethPciScan, PciConfig.scanFrom_eq, show List.find? _ PciConfig.scanDevs = some slot from hfound]

theorem scan_eq_none (hfound : c.foundDev = none) : c.smartethPciScan = (c, 0) := by
  rw [PciConfig.smartethPciScan, PciConfig.scanFrom_eq, show List.find? _ PciConfig.scanDevs = none from hfound]

end Enable

section Spec

variable {slot : Word} {c d : PciConfig}

/-- The IDs of a device are where they were. -/
theorem Enabled.id {dev offset : Word} (h : Enabled slot c d) (hs : slot < 32) (hd : dev < 32) (ho : offset < 4) :
    d.read16 0 dev 0 offset = c.read16 0 dev 0 offset := by
  have ho' : offset < 4096 := BitVec.lt_trans ho (by decide)
  have hne : ∀ reg (hr : reg < 4096), 0 < reg.toNat / 4 →
      ecamAddr 0 dev 0 offset >>> 2 ≠ ecamAddr 0 slot 0 reg >>> 2 := by
    intro reg hr h4 he
    have hi₁ : (devPlace dev offset hd ho').index.toNat = _ := PciConfig.Place.toNat_index _
    have hi₂ : (devPlace slot reg hs hr).index.toNat = _ := PciConfig.Place.toNat_index _
    have he' : (devPlace dev offset hd ho').index = (devPlace slot reg hs hr).index := he
    rw [he', hi₂] at hi₁
    dsimp only [devPlace] at hi₁
    have hr' : reg.toNat < 4096 := hr
    have ho4 : offset.toNat < 4 := ho
    omega
  have hw := h.others _ (hne PCI_BAR0 (by decide) (by decide)) (hne PCI_COMMAND (by decide) (by decide))
  have h₁ : d.read16At (devPlace dev offset hd ho') = _ := d.read16At_eq _
  have h₂ : c.read16At (devPlace dev offset hd ho') = _ := c.read16At_eq _
  exact h₁.trans ((congrArg (half _) hw).trans h₂.symm)

theorem Enabled.foundDev (h : Enabled slot c d) (hs : slot < 32) : d.foundDev = c.foundDev := by
  refine List.find?_congr fun dev hmem => ?_
  obtain ⟨i, hi, rfl⟩ := List.mem_map.mp hmem
  have hd : BitVec.ofNat 32 i < 32 := by
    have h32 : i < 32 := List.mem_range.mp hi
    show i % 2 ^ 32 < 32
    omega
  rw [h.id hs hd (by decide), h.id hs hd (by decide)]

/-- A second scan finds the device where it is. -/
theorem Enabled.rescan (h : Enabled slot c d) (hfound : c.foundDev = some slot) (hp : PlainRegs c slot) :
    d.smartethPciScan.2 = bar0Of d slot := by
  have hs := c.lt_of_foundDev hfound
  have hp' : PlainRegs d slot := ⟨h.w1c ▸ hp.bar0, h.w1c ▸ hp.command⟩
  obtain ⟨hen, heq⟩ := enabled hs hp'
  rw [scan_eq_enable ((h.foundDev hs).trans hfound), heq, hen.bar0, if_neg (bar0Of_ne_zero h.bar0)]

variable {ν ε : Type} {D : BarDevice ν ε} {b t : Board ν ε}

/-- Whatever the device does meanwhile: without a SmartEth device the scan returns 0 and writes nothing; the one
it finds it gives an address, which it returns, and enables, and changes nothing else; it is found there again. -/
theorem smartethPciScan_spec {es : List (ε ⊕ Unit)} {a : BitVec 64}
    (hrun : run (Board.world D slot).go (b, smartethPciScan) es = some (t, .ret a)) :
    (b.cfg.foundDev = none → a = 0 ∧ t.cfg = b.cfg) ∧
      ∀ dev, b.cfg.foundDev = some dev → PlainRegs b.cfg dev →
        a ≠ 0 ∧ a = bar0Of t.cfg dev ∧ Enabled dev b.cfg t.cfg ∧ t.cfg.foundDev = some dev ∧
          t.cfg.smartethPciScan.2 = a := by
  have hP : Keeps D fun _ => True := fun _ _ _ _ _ _ => trivial
  have hscan : (Board.world D slot).Leads smartethPciScan (Found b.cfg.smartethPciScan fun _ => True) b :=
    scan_leads hP ⟨rfl, trivial⟩
  obtain ⟨rfl, ht⟩ := hscan.run hrun
  refine ⟨fun hnone => ?_, fun dev hfound hp => ?_⟩
  · rw [ht.cfg, scan_eq_none hnone]
    exact ⟨rfl, rfl⟩
  · have hs := b.cfg.lt_of_foundDev hfound
    obtain ⟨hen, heq⟩ := enabled hs hp
    rw [ht.cfg, scan_eq_enable hfound]
    exact ⟨heq.trans_ne (bar0Of_ne_zero hen.bar0), heq, hen, (hen.foundDev hs).trans hfound,
      (hen.rescan hfound hp).trans heq.symm⟩

end Spec

/-- The firmware always goes on. -/
theorem Board.ends {ν ε α : Type} (D : BarDevice ν ε) (slot : Word) (p : FirmwareM α) (b : Board ν ε) :
    ∃ es t a, run (Board.world D slot).go (b, p) es = some (t, .ret a) :=
  World.ends (fun _ _ => ⟨(), _, rfl⟩) p b

/-- A board whose only device has not been touched since power-on, but for an abort. -/
def abortedBoard : Board SmartEthPci Unit := ⟨PciConfig.abortedSpace, .new false false, fun _ => 0, []⟩

theorem smartethPciScan_spec_aborted : ∃ es t a,
    run (Board.world pciDevice 1).go (abortedBoard, smartethPciScan) es = some (t, .ret a) ∧
      a = bar0Of t.cfg 1 ∧ Enabled 1 abortedBoard.cfg t.cfg := by
  obtain ⟨es, t, a, hrun⟩ := Board.ends pciDevice 1 smartethPciScan abortedBoard
  have hspec := (smartethPciScan_spec hrun).2 1 (show PciConfig.abortedSpace.foundDev = some 1 by decide) ⟨by decide, by decide⟩
  exact ⟨es, t, a, hrun, hspec.2.1, hspec.2.2.1⟩

end SmartEth.PciTest
