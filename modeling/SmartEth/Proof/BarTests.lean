import SmartEth.Proof.SelfTest

/-!
# The tests of a device behind BAR0

What the tests ask of a device (`Answers`, `Interrupts`), whatever steps it takes in between. They
are run in a condition that the device's steps and the operations of the tests keep (`Steady`), so
that what the DMA test has found is still so when the others are done.
-/

namespace SmartEth.PciTest

/-! ## Accesses to registers -/

/-- The offset of a register in BAR0. -/
def regOffset (reg : Word) : Addr := (reg >>> 2).setWidth 64 * 4

/-- The device at `slot` is enabled, with BAR0 at `bar0`, in the PCI window. -/
structure Mapped (size : Nat) (slot : Word) (c : PciConfig) (bar0 : BitVec 64) : Prop where
  addr : bar0Of c slot = bar0
  enabled : MemEnabled c slot
  lo : 0x40000000 ≤ bar0.toNat
  hi : bar0.toNat + size ≤ 0x80000000

namespace Mapped

variable {size : Nat} {slot : Word} {c : PciConfig} {bar0 : BitVec 64} (h : Mapped size slot c bar0)
include h

omit h in
theorem notMem_ecam {addr : BitVec 64} (ha : 0x40000000 ≤ addr.toNat) : addr ∉ ecam := by
  have hlt := addr.isLt
  intro hm
  have hm' : (addr - PCIE_ECAM_BASE).toNat < 2 ^ 28 := hm
  rw [BitVec.toNat_sub, show PCIE_ECAM_BASE.toNat = 0x30000000 from rfl] at hm'
  omega

theorem target_reg {reg : Word} (hr : (regOffset reg).toNat < size) :
    target size slot c (regAddr bar0 reg) = .device (regOffset reg) := by
  have hlo := h.lo
  have hhi := h.hi
  have hadd : regAddr bar0 reg = bar0 + regOffset reg := rfl
  have hsub : regAddr bar0 reg - bar0 = regOffset reg := by
    rw [hadd, BitVec.add_comm, BitVec.add_sub_cancel]
  have hnat : (regAddr bar0 reg).toNat = bar0.toNat + (regOffset reg).toNat := by
    rw [hadd, BitVec.toNat_add]
    omega
  have hin : regAddr bar0 reg ∈ (⟨bar0, size⟩ : Region 64) := by
    rw [Region.mem_def]
    show (regAddr bar0 reg - bar0).toNat < size
    rw [hsub]
    exact hr
  rw [target, if_neg (notMem_ecam (by omega)), h.addr, if_pos ⟨h.enabled, hin⟩, hsub]

theorem target_ram {addr : BitVec 64} (ha : 0x80000000 ≤ addr.toNat) : target size slot c addr = .memory := by
  have hhi := h.hi
  have hlt := addr.isLt
  have hout : addr ∉ (⟨bar0, size⟩ : Region 64) := by
    intro hm
    have hm' : (addr - bar0).toNat < size := hm
    rw [BitVec.toNat_sub] at hm'
    omega
  rw [target, if_neg (notMem_ecam (by omega)), h.addr, if_neg fun hin => hout hin.2]

end Mapped

/-- Registers in different words are at different addresses. -/
theorem regAddr_ne {bar0 : BitVec 64} {r r' : Word} (h : regOffset r ≠ regOffset r') : regAddr bar0 r ≠ regAddr bar0 r' :=
  fun he => h (BitVec.add_right_inj bar0 |>.mp he)

section Tests

variable {ν ε : Type} {D : BarDevice ν ε} {slot : Word} {c : PciConfig} {bar0 : BitVec 64} {b : Board ν ε}

/-- The board after an operation. -/
def Board.after (D : BarDevice ν ε) (slot : Word) (b : Board ν ε) (e : FirmwareOp) : Board ν ε :=
  (b.perform D slot e).2.log (.inr e)

theorem trace_after (e : FirmwareOp) : (b.after D slot e).trace = b.trace ++ [.inr e] := by
  cases e with
  | load addr | store addr val =>
    simp only [Board.after, Board.perform, Board.log]
    split <;> rfl
  | puts text | delay ms => rfl

theorem perform_read (h : Mapped D.size slot b.cfg bar0) {reg : Word} (hr : (regOffset reg).toNat < D.size) :
    b.perform D slot (.load (regAddr bar0 reg)) =
      ((D.read b.dev (regOffset reg)).1, { b with dev := (D.read b.dev (regOffset reg)).2 }) := by
  simp only [Board.perform, h.target_reg hr]

theorem perform_write (h : Mapped D.size slot b.cfg bar0) {reg : Word} (hr : (regOffset reg).toNat < D.size) (val : Word) :
    b.perform D slot (.store (regAddr bar0 reg) val) = ((), { b with dev := D.write b.dev (regOffset reg) val }) := by
  simp only [Board.perform, h.target_reg hr]

/-! ## What the tests rely on -/

def scratchRegs : List Word := [0x020, 0x024, 0x028, 0x02C]

theorem scratchReg_mem (i : Nat) : scratchReg i ∈ scratchRegs := by
  have hlt : i % 4 < 4 := Nat.mod_lt _ (by decide)
  rw [scratchReg]
  generalize i % 4 = k at hlt
  obtain rfl | rfl | rfl | rfl : k = 0 ∨ k = 1 ∨ k = 2 ∨ k = 3 := by omega
  all_goals decide

/-- The registers that the tests other than `test_dma` write. -/
def testedRegs : List Word := REG_CTRL :: REG_IRQ_STS :: REG_IRQ_TEST :: scratchRegs

/-- The registers that they read. -/
def polledRegs : List Word := REG_DEV_ID :: REG_STATUS :: REG_MAC_LO :: REG_MAC_HI :: REG_IRQ_STS :: scratchRegs

/-- The operations of the tests other than `test_dma`. -/
inductive Tests (bar0 : BitVec 64) : FirmwareOp → Prop
  | puts (text : String) : Tests bar0 (.puts text)
  | read {reg : Word} (h : reg ∈ polledRegs) : Tests bar0 (.load (regAddr bar0 reg))
  | write {reg : Word} (h : reg ∈ testedRegs) (val : Word) : Tests bar0 (.store (regAddr bar0 reg) val)

theorem stable_true {K : Board ν ε → Prop} (hK : (Board.world D slot).Stable K) :
    (Board.world D slot).Stable fun b => K b ∧ True := fun b e t h he => ⟨hK b e t h.1 he, trivial⟩

/-- What `test_device_id`, `test_status`, `test_scratch_regs` and `test_ctrl_reset` ask of a device. -/
structure Answers (D : BarDevice ν ε) (I : ν → Prop) : Prop where
  size : 0x400 ≤ D.size
  devId : ∀ s, I s → (D.read s (regOffset REG_DEV_ID)).1 = 0x52414D53
  status : ∀ s, I s → (D.read s (regOffset REG_STATUS)).1 &&& STATUS_READY ≠ 0
  readBack : ∀ s reg val, reg ∈ scratchRegs → I s → (D.read (D.write s (regOffset reg) val) (regOffset reg)).1 = val
  scratch : ∀ s mem e t reg, reg ∈ scratchRegs → I s → D.step s mem e = some t →
    (D.read t.1 (regOffset reg)).1 = (D.read s (regOffset reg)).1
  reset : ∀ s, I s → (D.read (D.write s (regOffset REG_CTRL) CTRL_RESET) (regOffset REG_SCRATCH0)).1 = 0

/-- What `test_interrupt` asks of it. -/
structure Interrupts (D : BarDevice ν ε) (I : ν → Prop) : Prop where
  raise : ∀ s, I s → (D.read (D.write s (regOffset REG_IRQ_TEST) 1) (regOffset REG_IRQ_STS)).1 &&& IRQ_TEST ≠ 0
  keep : ∀ s mem e t, I s → D.step s mem e = some t → (D.read s (regOffset REG_IRQ_STS)).1 &&& IRQ_TEST ≠ 0 →
    (D.read t.1 (regOffset REG_IRQ_STS)).1 &&& IRQ_TEST ≠ 0

/-- What holds on a board with the device mapped, and that the tests leave so. -/
structure Steady (D : BarDevice ν ε) (slot : Word) (c : PciConfig) (bar0 : BitVec 64) (I : ν → Prop)
    (K : Board ν ε → Prop) : Prop where
  mapped : Mapped D.size slot c bar0
  stable : (Board.world D slot).Stable K
  cfg : ∀ b, K b → b.cfg = c
  dev : ∀ b, K b → I b.dev
  ops : ∀ b e, Tests bar0 e → K b → K (b.after D slot e)

variable {I : ν → Prop} {K : Board ν ε → Prop}

theorem regOffset_lt {reg : Word} (h : reg < 0x400) : (regOffset reg).toNat < 0x400 := by
  have hlt : reg.toNat < 0x400 := h
  rw [regOffset, toNat_scaled, BitVec.toNat_ushiftRight, Nat.shiftRight_eq_div_pow]
  omega

theorem polled_lt {reg : Word} (h : reg ∈ polledRegs) : reg < 0x400 := by
  simp only [polledRegs, scratchRegs, List.mem_cons, List.not_mem_nil, or_false] at h
  rcases h with rfl | rfl | rfl | rfl | rfl | rfl | rfl | rfl | rfl
  all_goals decide

theorem tested_lt {reg : Word} (h : reg ∈ testedRegs) : reg < 0x400 := by
  simp only [testedRegs, scratchRegs, List.mem_cons, List.not_mem_nil, or_false] at h
  rcases h with rfl | rfl | rfl | rfl | rfl | rfl | rfl
  all_goals decide

theorem polled_ne {reg : Word} (h : reg ∈ polledRegs) : regOffset reg ≠ regOffset REG_DMA_STS := by
  simp only [polledRegs, scratchRegs, List.mem_cons, List.not_mem_nil, or_false] at h
  rcases h with rfl | rfl | rfl | rfl | rfl | rfl | rfl | rfl | rfl
  all_goals decide

theorem tested_ne {reg : Word} (h : reg ∈ testedRegs) : regOffset reg ≠ regOffset REG_DMA_CTRL := by
  simp only [testedRegs, scratchRegs, List.mem_cons, List.not_mem_nil, or_false] at h
  rcases h with rfl | rfl | rfl | rfl | rfl | rfl | rfl
  all_goals decide

namespace Steady

variable (hS : Steady D slot c bar0 I K) (hA : Answers D I) (h : K b)
include hS h

theorem mappedAt : Mapped D.size slot b.cfg bar0 := (hS.cfg b h).symm ▸ hS.mapped

theorem puts (text : String) : (Board.world D slot).Leads (uartPuts text) (fun _ => K) b :=
  call_leads hS.stable h (fun _ => hS.stable) fun b hb => hS.ops b _ (.puts text) hb

include hA

/-- A read, in a condition on top of `K` that the device's steps keep. -/
theorem readIn (L : ν → Prop) {reg : Word} (hr : reg ∈ polledRegs)
    (hL : (Board.world D slot).Stable fun b => K b ∧ L b.dev) (hb : L b.dev) (p : Word → Prop)
    (hp : ∀ b, K b → L b.dev → p (D.read b.dev (regOffset reg)).1) :
    (Board.world D slot).Leads (smartethRegRead bar0 reg) (fun v b => p v ∧ K b) b := by
  refine call_leads hL ⟨h, hb⟩ (fun v => stable_and hS.stable _) fun b hb => ?_
  have hlt := Nat.lt_of_lt_of_le (regOffset_lt (polled_lt hr)) hA.size
  have hread := perform_read (hS.mappedAt hb.1) hlt
  refine ⟨?_, hS.ops b _ (.read hr) hb.1⟩
  rw [hread]
  exact hp b hb.1 hb.2

/-- A write, and what it makes of the device. -/
theorem writeTo (L : ν → Prop) {reg val : Word} (hr : reg ∈ testedRegs)
    (hL : (Board.world D slot).Stable fun b => K b ∧ L b.dev) (hw : ∀ s, I s → L (D.write s (regOffset reg) val)) :
    (Board.world D slot).Leads (smartethRegWrite bar0 reg val) (fun _ b => K b ∧ L b.dev) b := by
  refine call_leads hS.stable h (fun _ => hL) fun b hb => ?_
  have hlt := Nat.lt_of_lt_of_le (regOffset_lt (tested_lt hr)) hA.size
  have hwrite := perform_write (hS.mappedAt hb) hlt val
  refine ⟨hS.ops b _ (.write hr val) hb, ?_⟩
  rw [hwrite]
  exact hw b.dev (hS.dev b hb)

/-- A read of what `I` tells. -/
theorem read {reg : Word} (hr : reg ∈ polledRegs) (p : Word → Prop)
    (hp : ∀ s, I s → p (D.read s (regOffset reg)).1) :
    (Board.world D slot).Leads (smartethRegRead bar0 reg) (fun v b => p v ∧ K b) b :=
  hS.readIn hA h I hr (fun b e t hb he => ⟨hS.stable b e t hb.1 he, hS.dev t (hS.stable b e t hb.1 he)⟩) (hS.dev b h) p
    fun b _ hI => hp b.dev hI

theorem write {reg : Word} (hr : reg ∈ testedRegs) (val : Word) :
    (Board.world D slot).Leads (smartethRegWrite bar0 reg val) (fun _ => K) b :=
  (hS.writeTo hA h (fun _ => True) hr (fun b e t hb he => ⟨hS.stable b e t hb.1 he, trivial⟩) fun _ _ => trivial).mono
    fun _ _ hb => hb.1

omit hA h in
/-- A condition on the device that its steps keep where `I` holds. -/
theorem stable_on (L : ν → Prop) (hL : ∀ s mem e t, I s → L s → D.step s mem e = some t → L t.1) :
    (Board.world D slot).Stable fun b => K b ∧ L b.dev := by
  intro b e t hb he
  refine ⟨hS.stable b e t hb.1 he, ?_⟩
  obtain ⟨x, hx, rfl⟩ := Option.map_eq_some_iff.mp he
  exact hL _ _ _ _ (hS.dev b hb.1) hb.2 hx

end Steady

/-- A test passes, and `K` still holds. -/
abbrev Passes (D : BarDevice ν ε) (slot : Word) (K : Board ν ε → Prop) (p : FirmwareM PciTestResult) (b : Board ν ε) :
    Prop := (Board.world D slot).Leads p (fun r b => r = .pass ∧ K b) b

namespace Steady

variable (hS : Steady D slot c bar0 I K) (hA : Answers D I) (h : K b)
include hS h

/-- The end of a test that passes. -/
theorem passes (text : String) : Passes D slot K (do uartPuts text; pure .pass) b :=
  (hS.puts h text).seq fun _ _ hb => pure_leads hS.stable hb

include hA

theorem testDeviceId : Passes D slot K (testDeviceId bar0) b := by
  refine (hS.read hA h (by decide) (fun v => v = 0x52414D53) hA.devId).seq ?_
  rintro devId b ⟨rfl, hb⟩
  refine (hS.puts hb _).seq fun _ b hb => ?_
  rw [if_pos rfl]
  exact hS.passes hb _

theorem testStatus : Passes D slot K (testStatus bar0) b := by
  refine (hS.read hA h (by decide) (fun v => v &&& STATUS_READY ≠ 0) hA.status).seq fun status b hb => ?_
  refine (hS.puts hb.2 _).seq fun _ b hb' => ?_
  rw [if_pos hb.1]
  exact hS.passes hb' _

theorem testScratchFrom (i : Nat) (patterns : List Word) : Passes D slot K (testScratchFrom bar0 i patterns .pass) b := by
  induction patterns generalizing b i with
  | nil => exact pure_leads hS.stable h
  | cons pattern patterns ih =>
    have hreg := scratchReg_mem i
    -- from the write to the read, the register holds the pattern
    let L : ν → Prop := fun s => (D.read s (regOffset (scratchReg i))).1 = pattern
    have hL := hS.stable_on L fun s mem e t hI hs he => (hA.scratch s mem e t _ hreg hI he).trans hs
    have htested : scratchReg i ∈ testedRegs := List.mem_append_right [REG_CTRL, REG_IRQ_STS, REG_IRQ_TEST] hreg
    have hpolled : scratchReg i ∈ polledRegs :=
      List.mem_append_right [REG_DEV_ID, REG_STATUS, REG_MAC_LO, REG_MAC_HI, REG_IRQ_STS] hreg
    rw [PciTest.testScratchFrom]
    refine (hS.writeTo hA h L htested hL fun s hI => hA.readBack s _ pattern hreg hI).seq fun _ b hb => ?_
    refine (hS.readIn hA hb.1 L hpolled hL hb.2 (fun v => v = pattern) fun b _ hv => hv).seq ?_
    rintro v b ⟨hv, hb⟩
    rw [if_pos hv]
    exact (hS.puts hb _).seq fun _ b hb => ih hb (i + 1)

theorem testCtrlReset : Passes D slot K (testCtrlReset bar0) b := by
  let L : ν → Prop := fun s => (D.read s (regOffset REG_SCRATCH0)).1 = 0
  have hL := hS.stable_on L fun s mem e t hI hs he => (hA.scratch s mem e t _ (by decide) hI he).trans hs
  refine (hS.write hA h (by decide) _).seq fun _ b hb => ?_
  refine (hS.writeTo hA hb L (by decide) hL hA.reset).seq fun _ b hb => ?_
  refine (hS.readIn hA hb.1 L (by decide) hL hb.2 (fun v => v = 0) fun b _ hv => hv).seq ?_
  rintro v b ⟨rfl, hb⟩
  refine (hS.puts hb _).seq fun _ b hb => ?_
  rw [if_pos rfl]
  exact hS.passes hb _

theorem testMacAddr : Passes D slot K (testMacAddr bar0) b := by
  refine (hS.read hA h (by decide) (fun _ => True) fun _ _ => trivial).seq fun _ b hb => ?_
  refine (hS.read hA hb.2 (by decide) (fun _ => True) fun _ _ => trivial).seq fun _ b hb => ?_
  refine (hS.puts hb.2 _).seq fun _ b hb => ?_
  exact hS.passes hb _

theorem testInterrupt (hI : Interrupts D I) : Passes D slot K (testInterrupt bar0) b := by
  let L : ν → Prop := fun s => (D.read s (regOffset REG_IRQ_STS)).1 &&& IRQ_TEST ≠ 0
  have hL := hS.stable_on L fun s mem e t hs hl he => hI.keep s mem e t hs he hl
  refine (hS.puts h _).seq fun _ b hb => ?_
  refine (hS.write hA hb (by decide) _).seq fun _ b hb => ?_
  refine (hS.writeTo hA hb L (by decide) hL hI.raise).seq fun _ b hb => ?_
  refine (hS.readIn hA hb.1 L (by decide) hL hb.2 (fun v => v &&& IRQ_TEST ≠ 0) fun b _ hv => hv).seq fun v b hb => ?_
  refine (hS.puts hb.2 _).seq fun _ b hb' => ?_
  rw [if_pos hb.1]
  refine (hS.puts hb' _).seq fun _ b hb => ?_
  exact (hS.write hA hb (by decide) _).seq fun _ b hb => pure_leads hS.stable hb

/-- All tests: what the DMA test and the interrupt test come to. -/
theorem runAll {K' : PciTestResult → Board ν ε → Prop} {K'' : PciTestResult → Board ν ε → Prop}
    (hK : ∀ r, (Board.world D slot).Stable (K'' r)) (hdma : ∀ b, K b → (Board.world D slot).Leads (testDma bar0) K' b)
    (hirq : ∀ r b, K' r b → (Board.world D slot).Leads (PciTest.testInterrupt bar0) (fun r' => K'' (r.or r')) b) :
    (Board.world D slot).Leads (runAll bar0 [PciTest.testDeviceId, PciTest.testStatus, testScratchRegs,
      PciTest.testCtrlReset, PciTest.testMacAddr, testDma, PciTest.testInterrupt] .pass) K'' b := by
  refine (hS.testDeviceId hA h).seq ?_
  rintro _ b ⟨rfl, hb⟩
  refine (hS.testStatus hA hb).seq ?_
  rintro _ b ⟨rfl, hb⟩
  refine (hS.testScratchFrom hA hb 0 _).seq ?_
  rintro _ b ⟨rfl, hb⟩
  refine (hS.testCtrlReset hA hb).seq ?_
  rintro _ b ⟨rfl, hb⟩
  refine (hS.testMacAddr hA hb).seq ?_
  rintro _ b ⟨rfl, hb⟩
  refine (hdma b hb).seq fun r b hb => ?_
  refine (hirq r b hb).seq fun r' b hb => ?_
  exact .ret (hK _) hb fun _ h => h

end Steady

/-! ## What is in the trace -/

theorem lastTransfer_snoc (trace : List (ε ⊕ FirmwareOp)) (x : ε ⊕ FirmwareOp) :
    lastTransfer bar0 (trace ++ [x]) = watch bar0 (lastTransfer bar0 trace) x := by
  rw [lastTransfer, List.foldl_append]
  rfl

/-- They show nothing of a transfer. -/
theorem watch_tests {e : FirmwareOp} (h : Tests bar0 e) (w : Option Transfer) : watch (ε := ε) bar0 w (.inr e) = w := by
  cases h with
  | puts text => rfl
  | read hr => exact if_neg (regAddr_ne (polled_ne hr))
  | write hr val => exact if_neg (regAddr_ne (tested_ne hr))

theorem watch_dmaSts (w : Option Transfer) : watch (ε := ε) bar0 w (.inr (.load (regAddr bar0 REG_DMA_STS))) =
    w.map fun t => { t with polls := t.polls + 1 } := if_pos rfl

theorem watch_dmaCtrl (w : Option Transfer) (val : Word) :
    watch (ε := ε) bar0 w (.inr (.store (regAddr bar0 REG_DMA_CTRL) val)) = some ⟨0, none⟩ := if_pos rfl


/-! ## A device that is never busy -/

/-- Whatever is done to the device keeps it. -/
structure Closed (D : BarDevice ν ε) (I : ν → Prop) : Prop where
  size : 0x400 ≤ D.size
  step : Keeps D I
  read : ∀ s a, I s → I (D.read s a).2
  write : ∀ s a val, I s → I (D.write s a val)

/-- `DMA_STS` has been read `n` times since the transfer was started. -/
structure Polled (c : PciConfig) (bar0 : BitVec 64) (I : ν → Prop) (n : Nat) (b : Board ν ε) : Prop where
  on : On c I b
  polls : ∃ w, lastTransfer bar0 b.trace = some w ∧ w.polls = n

namespace Closed

variable (hC : Closed D I) (hm : Mapped D.size slot c bar0)
include hC

theorem mapped_lt {reg : Word} (hr : reg < 0x400) : (regOffset reg).toNat < D.size :=
  Nat.lt_of_lt_of_le (regOffset_lt hr) hC.size

include hm

theorem after_read (h : On c I b) {reg : Word} (hr : reg < 0x400) :
    On c I (b.after D slot (.load (regAddr bar0 reg))) := by
  rw [Board.after, perform_read (h.cfg.symm ▸ hm) (hC.mapped_lt hr)]
  exact ⟨h.cfg, hC.read _ _ h.dev⟩

theorem after_write (h : On c I b) {reg : Word} (hr : reg < 0x400) (val : Word) :
    On c I (b.after D slot (.store (regAddr bar0 reg) val)) := by
  rw [Board.after, perform_write (h.cfg.symm ▸ hm) (hC.mapped_lt hr)]
  exact ⟨h.cfg, hC.write _ _ _ h.dev⟩

theorem after_tests (h : On c I b) {e : FirmwareOp} (he : Tests bar0 e) : On c I (b.after D slot e) := by
  cases he with
  | puts text => exact ⟨h.cfg, h.dev⟩
  | read hr => exact hC.after_read hm h (polled_lt hr)
  | write hr val => exact hC.after_write hm h (tested_lt hr) val

theorem steady : Steady D slot c bar0 I (On c I) :=
  ⟨hm, hC.step.stable c, fun _ h => h.cfg, fun _ h => h.dev, fun _ _ he h => hC.after_tests hm h he⟩

omit hm in
theorem polled_stable (n : Nat) : (Board.world D slot).Stable (Polled c bar0 I n) := by
  intro b e t h he
  refine ⟨hC.step.stable c b e t h.on he, ?_⟩
  obtain ⟨x, -, rfl⟩ := Option.map_eq_some_iff.mp he
  obtain ⟨w, hw, hn⟩ := h.polls
  refine ⟨{ w with done := w.done.or (some w.polls) }, ?_, hn⟩
  refine (lastTransfer_snoc _ _).trans ?_
  rw [hw]
  rfl

theorem polled_steady (n : Nat) : Steady D slot c bar0 I (Polled c bar0 I n) := by
  refine ⟨hm, hC.polled_stable n, fun _ h => h.on.cfg, fun _ h => h.on.dev, fun b e he h => ?_⟩
  refine ⟨hC.after_tests hm h.on he, ?_⟩
  obtain ⟨w, hw, hn⟩ := h.polls
  refine ⟨w, ?_, hn⟩
  rw [trace_after, lastTransfer_snoc, watch_tests he]
  exact hw

theorem regWrite (h : On c I b) {reg : Word} (hr : reg < 0x400) (val : Word) :
    (Board.world D slot).Leads (smartethRegWrite bar0 reg val) (fun _ => On c I) b :=
  call_leads (hC.step.stable c) h (fun _ => hC.step.stable c) fun _ hb => hC.after_write hm hb hr val

/-- The buffer is filled. -/
theorem fillPattern (h : On c I b) {n : Nat} (hn : n ≤ 64) :
    (Board.world D slot).Leads (fillPattern n) (fun _ => On c I) b := by
  induction n generalizing b with
  | zero => exact .ret (hC.step.stable c) h fun _ h => h
  | succ n ih =>
    refine op_leads (hC.step.stable c) h fun b hb => ih ?_ (by omega)
    have ha : 0x80000000 ≤ (DMA_BUF + BitVec.ofNat 64 (4 * (64 - (n + 1)))).toNat := by
      rw [BitVec.toNat_add, BitVec.toNat_ofNat, show DMA_BUF.toNat = 0x8F000000 from rfl]
      omega
    have ht := (hb.cfg.symm ▸ hm : Mapped D.size slot b.cfg bar0).target_ram ha
    simp only [Board.perform, ht]
    exact ⟨hb.cfg, hb.dev⟩

/-- The buffer is filled, and the transfer started. -/
theorem startDma (L : ν → Prop) (hL : (Board.world D slot).Stable fun b => Polled c bar0 I 0 b ∧ L b.dev)
    (hstart : ∀ s, I s → L (D.write s (regOffset REG_DMA_CTRL) (DMA_START ||| IRQ_DMA_DONE))) (h : On c I b)
    {α : Type} {Q : α → Board ν ε → Prop} {f : FirmwareM α}
    (hf : ∀ b, Polled c bar0 I 0 b ∧ L b.dev → (Board.world D slot).Leads f Q b) :
    (Board.world D slot).Leads (do
      PciTest.fillPattern 64
      smartethRegWrite bar0 REG_DMA_SRC (DMA_BUF.setWidth 32)
      smartethRegWrite bar0 REG_DMA_DST 0
      smartethRegWrite bar0 REG_DMA_LEN 256
      smartethRegWrite bar0 REG_DMA_CTRL (DMA_START ||| IRQ_DMA_DONE)
      f) Q b := by
  refine (hC.fillPattern hm h le_rfl).seq fun _ b hb => ?_
  refine (hC.regWrite hm hb (by decide) _).seq fun _ b hb => ?_
  refine (hC.regWrite hm hb (by decide) _).seq fun _ b hb => ?_
  refine (hC.regWrite hm hb (by decide) _).seq fun _ b hb => ?_
  refine (call_leads (hC.step.stable c) hb (fun _ => hL) fun b hb => ?_).seq fun _ => hf
  have hw := perform_write (hb.cfg.symm ▸ hm) (hC.mapped_lt (show REG_DMA_CTRL < 0x400 by decide))
    (DMA_START ||| IRQ_DMA_DONE)
  refine ⟨⟨hC.after_write hm hb (by decide) _, _, (lastTransfer_snoc _ _).trans (watch_dmaCtrl _ _), rfl⟩, ?_⟩
  rw [hw]
  exact hstart _ hb.dev

/-- A read of `DMA_STS`. -/
theorem after_poll {n : Nat} (h : Polled c bar0 I n b) :
    Polled c bar0 I (n + 1) (b.after D slot (.load (regAddr bar0 REG_DMA_STS))) := by
  refine ⟨hC.after_read hm h.on (by decide), ?_⟩
  obtain ⟨w, hw, hn⟩ := h.polls
  refine ⟨{ w with polls := w.polls + 1 }, ?_, congrArg (· + 1) hn⟩
  rw [trace_after, lastTransfer_snoc, watch_dmaSts, hw]
  rfl

/-- The first read of `DMA_STS` ends the DMA test. -/
theorem testDma_idle (hidle : ∀ s, I s → (D.read s (regOffset REG_DMA_STS)).1 &&& STATUS_DMA_BSY = 0) (h : On c I b) :
    (Board.world D slot).Leads (testDma bar0) (fun r b => r = .pass ∧ Polled c bar0 I 1 b) b := by
  have hstable : (Board.world D slot).Stable (Polled c bar0 I 0) := hC.polled_stable 0
  have hL := stable_true hstable
  have hpoll : ∀ b, Polled c bar0 I 0 b →
      (Board.world D slot).Leads (pollDma bar0 500) (fun timeout b => timeout = 499 ∧ Polled c bar0 I 1 b) b := by
    intro b hb
    refine op_leads (hC.polled_stable 0) hb fun b hb => ?_
    have hread := perform_read (hb.on.cfg.symm ▸ hm) (hC.mapped_lt (show REG_DMA_STS < 0x400 by decide))
    have hval : (b.perform D slot (.load (regAddr bar0 REG_DMA_STS))).1 &&& STATUS_DMA_BSY = 0 := by
      rw [hread]
      exact hidle _ hb.on.dev
    rw [if_pos hval]
    exact pure_leads (hC.polled_stable 1) (hC.after_poll hm hb)
  refine hC.startDma hm (fun _ => True) hL (fun _ _ => trivial) h fun b hb => ?_
  refine ((hC.polled_steady hm 0).puts hb.1 _).seq fun _ b hb => ?_
  refine (hpoll b hb).seq ?_
  rintro _ b ⟨rfl, hb⟩
  rw [if_neg (by decide)]
  exact (hC.polled_steady hm 1).passes hb _

/-- A device that never shows the transfer as over. -/
theorem pollDma_busy (L : ν → Prop) (hL : ∀ n, (Board.world D slot).Stable fun b => Polled c bar0 I n b ∧ L b.dev)
    (hread : ∀ s a, L s → L (D.read s a).2)
    (hbusy : ∀ s, I s → L s → (D.read s (regOffset REG_DMA_STS)).1 &&& STATUS_DMA_BSY ≠ 0) {k n : Nat}
    (h : Polled c bar0 I k b ∧ L b.dev) :
    (Board.world D slot).Leads (pollDma bar0 n) (fun timeout b => timeout = -1 ∧ Polled c bar0 I (k + n) b) b := by
  induction n generalizing k b with
  | zero => exact .ret (hL k) h fun _ h => ⟨rfl, h.1⟩
  | succ n ih =>
    rw [pollDma]
    refine op_leads (hL k) h fun b hb => ?_
    have hperform := perform_read (hb.1.on.cfg.symm ▸ hm) (hC.mapped_lt (show REG_DMA_STS < 0x400 by decide))
    have hval : ¬ (b.perform D slot (.load (regAddr bar0 REG_DMA_STS))).1 &&& STATUS_DMA_BSY = 0 := by
      rw [hperform]
      exact hbusy _ hb.1.on.dev hb.2
    have hdev : L (b.after D slot (.load (regAddr bar0 REG_DMA_STS))).dev := by
      rw [Board.after, hperform]
      exact hread _ _ hb.2
    rw [if_neg hval]
    refine op_leads (hL (k + 1)) ⟨hC.after_poll hm hb.1, hdev⟩ fun b hb => ?_
    rw [← Nat.add_assoc, Nat.add_right_comm]
    refine ih ⟨⟨⟨hb.1.on.cfg, hb.1.on.dev⟩, ?_⟩, hb.2⟩
    obtain ⟨w, hw, hn⟩ := hb.1.polls
    exact ⟨w, (lastTransfer_snoc _ _).trans hw, hn⟩

end Closed

/-! ## What is on the console -/

/-- The text has been written to the console. -/
abbrev Shows (text : String) (b : Board ν ε) : Prop := text ∈ console b.trace

theorem Shows.stable (text : String) : (Board.world D slot).Stable (Shows text) := by
  intro b e t h he
  obtain ⟨x, -, rfl⟩ := Option.map_eq_some_iff.mp he
  show text ∈ console (b.trace ++ [.inl e])
  rw [console, List.filterMap_append]
  exact List.mem_append_left _ h

theorem Shows.act (text : String) (b : Board ν ε) (e : FirmwareOp) (u : Unit) (r : e.Res) (t : Board ν ε) (h : Shows text b)
    (ha : (Board.world D slot).act b e u = some (r, t)) : Shows text t := by
  obtain ⟨-, rfl⟩ := Prod.mk.inj (Option.some.inj ha)
  show text ∈ console (b.after D slot e).trace
  rw [trace_after, console, List.filterMap_append]
  exact List.mem_append_left _ h

/-- A text that has been written stays. -/
theorem Shows.leads {text : String} {α : Type} {p : FirmwareM α} {Q : α → Board ν ε → Prop}
    (hp : (Board.world D slot).Leads p Q b) (h : Shows text b) :
    (Board.world D slot).Leads p (fun a b => Q a b ∧ Shows text b) b :=
  hp.frame (Shows.stable text) (Shows.act text) h

theorem Shows.after {text : String} (h : Shows text b) (e : FirmwareOp) : Shows text (b.after D slot e) :=
  Shows.act text b e () _ _ h rfl

theorem Steady.show (hS : Steady D slot c bar0 I K) (h : K b) (text : String) :
    (Board.world D slot).Leads (uartPuts text) (fun _ b => K b ∧ Shows text b) b := by
  refine call_leads hS.stable h (fun _ => hS.stable.and (Shows.stable text)) fun b hb => ?_
  refine ⟨hS.ops b _ (.puts text) hb, ?_⟩
  show text ∈ console (b.trace ++ [.inr (.puts text)])
  rw [console, List.filterMap_append]
  exact List.mem_append_right _ (List.mem_singleton.mpr rfl)

/-- On such a device the DMA test runs into its timeout. -/
theorem Closed.testDma_busy (hC : Closed D I) (hm : Mapped D.size slot c bar0) (L : ν → Prop)
    (hL : ∀ n, (Board.world D slot).Stable fun b => Polled c bar0 I n b ∧ L b.dev) (hread : ∀ s a, L s → L (D.read s a).2)
    (hstart : ∀ s, I s → L (D.write s (regOffset REG_DMA_CTRL) (DMA_START ||| IRQ_DMA_DONE)))
    (hbusy : ∀ s, I s → L s → (D.read s (regOffset REG_DMA_STS)).1 &&& STATUS_DMA_BSY ≠ 0) (h : On c I b) :
    (Board.world D slot).Leads (testDma bar0)
      (fun r b => r = .fail ∧ Polled c bar0 I 500 b ∧ Shows "[TEST] DMA  TIMEOUT  FAIL\n" b) b := by
  refine hC.startDma hm L (hL 0) hstart h fun b hb => ?_
  refine (call_leads (hL 0) hb (fun _ => hL 0) fun b hb => ?_).seq fun _ b hb => ?_
  · refine ⟨(hC.polled_steady hm 0).ops b _ (.puts _) hb.1, hb.2⟩
  refine (hC.pollDma_busy hm L hL hread hbusy hb).seq ?_
  rintro _ b ⟨rfl, hb⟩
  rw [if_pos (by decide)]
  have hS := hC.polled_steady hm (0 + 500)
  refine (hS.show hb _).seq fun _ b hb => ?_
  exact .ret (hS.stable.and (Shows.stable _)) hb fun _ h => ⟨rfl, h⟩

/-- `K`, and these are the last texts on the console. -/
structure Said (K : Board ν ε → Prop) (texts : List String) (b : Board ν ε) : Prop where
  holds : K b
  texts : texts <:+ console b.trace

theorem console_inl (trace : List (ε ⊕ FirmwareOp)) (e : ε) : console (trace ++ [.inl e]) = console trace := by
  simp [console]

theorem console_puts (trace : List (ε ⊕ FirmwareOp)) (text : String) :
    console (trace ++ [.inr (.puts text)]) = console trace ++ [text] := by
  simp [console]

theorem Said.stable (hK : (Board.world D slot).Stable K) (texts : List String) :
    (Board.world D slot).Stable (Said K texts) := by
  intro b e t h he
  refine ⟨hK b e t h.holds he, ?_⟩
  obtain ⟨x, -, rfl⟩ := Option.map_eq_some_iff.mp he
  exact (console_inl b.trace e).symm ▸ h.texts

theorem Steady.say (hS : Steady D slot c bar0 I K) {texts : List String} (h : Said K texts b) (text : String) :
    (Board.world D slot).Leads (uartPuts text) (fun _ => Said K (texts ++ [text])) b := by
  refine call_leads (Said.stable hS.stable texts) h (fun _ => Said.stable hS.stable _) fun b hb => ?_
  refine ⟨hS.ops b _ (.puts text) hb.holds, ?_⟩
  have hc : console (b.trace ++ [.inr (.puts text)]) = console b.trace ++ [text] := console_puts b.trace text
  obtain ⟨pre, hpre⟩ := hb.texts
  refine ⟨pre, ?_⟩
  rw [← List.append_assoc, hpre]
  exact hc.symm

/-- The tests, and the report of what they have come to. -/
theorem run_leads {K : PciTestResult → Board ν ε → Prop} (hS : ∀ r, Steady D slot c bar0 I (K r))
    {K₀ : Board ν ε → Prop} (h₀ : Steady D slot c bar0 I K₀) (h : K₀ b)
    (htests : ∀ b, K₀ b → (Board.world D slot).Leads (runAll bar0 [testDeviceId, testStatus, testScratchRegs,
      testCtrlReset, testMacAddr, testDma, testInterrupt] .pass) K b) :
    (Board.world D slot).Leads (smartethRunTests bar0)
      (fun r => Said (K r) ["====== Tests ", r.text, " ======\n\n"]) b := by
  refine (h₀.puts h _).seq fun _ b hb => ?_
  refine (htests b hb).seq fun r b hb => ?_
  refine ((hS r).say (show Said (K r) [] b from ⟨hb, List.nil_suffix⟩) _).seq fun _ b hb => ?_
  refine ((hS r).say hb _).seq fun _ b hb => ?_
  refine ((hS r).say hb _).seq fun _ b hb => ?_
  exact .ret (Said.stable (hS r).stable _) hb fun _ h => h

/-! ## The task -/

/-- After a scan that finds the device, BAR0 is in the PCI window. -/
theorem mapped_of_enabled {d : PciConfig} {size : Nat} (hsize : size ≤ 0x40000000) (hfits : BarFits size c slot)
    (h : Enabled slot c d) : Mapped size slot d (bar0Of d slot) := by
  refine ⟨rfl, ?_, ?_, ?_⟩
  · rw [MemEnabled, h.command, BitVec.and_or_distrib_right]
    exact fun hz => absurd (BitVec.or_eq_zero_iff.mp hz).2 (by decide)
  · rw [h.bar0]
    split
    · decide
    · exact (hfits.resolve_left ‹_›).1
  · rw [h.bar0]
    split
    · rw [show BitVec.toNat (0x40000000 : BitVec 64) = 0x40000000 from rfl]
      omega
    · exact (hfits.resolve_left ‹_›).2

/-- `vTaskPciTest` on a board with the device at `slot`. -/
theorem task_leads {P : ν → Prop} (hP : Keeps D P) (hfound : c.foundDev = some slot) (hplain : PlainRegs c slot)
    (h : On c P b) {K : PciTestResult → Board ν ε → Prop}
    (hS : ∀ r, Steady D slot (c.enable slot).1 (bar0Of (c.enable slot).1 slot) I (K r))
    (htests : ∀ b, On (c.enable slot).1 P b →
      (Board.world D slot).Leads (smartethRunTests (bar0Of (c.enable slot).1 slot))
        (fun r => Said (K r) ["====== Tests ", r.text, " ======\n\n"]) b) :
    (Board.world D slot).Leads vTaskPciTest (fun _ b => ∃ r, K r b ∧ report r <:+ console b.trace) b := by
  obtain ⟨hen, heq⟩ := enabled (c.lt_of_foundDev hfound) hplain
  refine (call_leads (e := .delay 1000) (hP.stable c) h (fun _ => hP.stable c)
    fun b hb => ⟨hb.cfg, hb.dev⟩).seq fun _ b hb => ?_
  refine (puts_on hP hb _).seq fun _ b hb => ?_
  refine (puts_on hP hb _).seq fun _ b hb => ?_
  refine (puts_on hP hb _).seq fun _ b hb => ?_
  refine (puts_on hP hb _).seq fun _ b hb => ?_
  refine (scan_leads hP hb).seq ?_
  rw [scan_eq_enable hfound]
  rintro a b ⟨rfl, hb⟩
  have hrun : (Board.world D slot).Leads (smartethRunTests (c.enable slot).2 >>= fun _ => pure ())
      (fun _ b => ∃ r, Said (K r) ["====== Tests ", r.text, " ======\n\n"] b) b := by
    rw [heq]
    refine (htests b hb).seq fun r b hb => ?_
    exact .ret (Said.stable (hS r).stable _) hb fun _ h => ⟨r, h⟩
  rw [if_pos (heq.trans_ne (bar0Of_ne_zero hen.bar0))]
  refine hrun.seq ?_
  rintro _ b ⟨r, hb⟩
  exact ((hS r).say hb _).mono fun _ b hb => ⟨r, hb.holds, hb.texts⟩

end Tests

end SmartEth.PciTest
