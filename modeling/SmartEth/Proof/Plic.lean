import SmartEth.Framework.Task
import SmartEth.System.Plic

/-!
# What the PLIC driver sets, and what it serves

The handler completes the interrupt that it has claimed, and changes no other register
(`interrupt_eq`). So a call does its one write wherever it is interrupted (`call_wp`), and this does to
the settings what the call says (`settings_written`): at every moment they are what the first of the
calls say, and every interrupt that is claimed is completed, in the same order (`calls_settle`).
-/

namespace SmartEth.Plic

/-! ## Bits -/

/-- A register of enable bits, with the bit of an interrupt set, or cleared. -/
def setBit (val : BitVec 32) (irq : Nat) : BitVec 32 := (val.setWidth 64 ||| irqBit irq).setWidth 32

def clearBit (val : BitVec 32) (irq : Nat) : BitVec 32 := (val.setWidth 64 &&& ~~~irqBit irq).setWidth 32

theorem getLsbD_irqBit (irq j : Nat) : (irqBit irq).getLsbD j = decide (j = irq % 32) := by
  unfold irqBit
  rw [BitVec.getLsbD_shiftLeft]
  by_cases h : j = irq % 32
  · subst h
    have := Nat.mod_lt irq (by decide : 32 > 0)
    simp
    omega
  · rw [decide_eq_false h]
    by_cases hlt : j < irq % 32
    · simp [hlt]
    · have hpos : 0 < j - irq % 32 := by omega
      simp [hlt, Nat.pos_iff_ne_zero.mp hpos]

theorem getLsbD_setBit (e : BitVec 32) (irq : Nat) {j : Nat} (hj : j < 32) :
    (setBit e irq).getLsbD j = (e.getLsbD j || decide (j = irq % 32)) := by
  rw [setBit, BitVec.getLsbD_setWidth, BitVec.getLsbD_or, BitVec.getLsbD_setWidth, getLsbD_irqBit, decide_eq_true hj,
    decide_eq_true (show j < 64 by omega), Bool.true_and, Bool.true_and]

theorem getLsbD_clearBit (e : BitVec 32) (irq : Nat) {j : Nat} (hj : j < 32) :
    (clearBit e irq).getLsbD j = (e.getLsbD j && !decide (j = irq % 32)) := by
  rw [clearBit, BitVec.getLsbD_setWidth, BitVec.getLsbD_and, BitVec.getLsbD_setWidth, BitVec.getLsbD_not,
    getLsbD_irqBit, decide_eq_true hj, decide_eq_true (show j < 64 by omega), Bool.true_and, Bool.true_and,
    Bool.true_and]

/-! ## Interrupts -/

variable {s t : Board} {regs : Nat → BitVec 32}

/-- An interrupt is claimed and completed; a claim that gives none is not. -/
theorem interrupt_eq (s : Board) (n : BitVec 32) : s.interrupt n =
    { s with claimed := s.claimed ++ [n], completed := s.completed ++ if n.toInt > 0 then [n] else [] } := by
  let claimed : Board := { s with claimed := s.claimed ++ [n] }
  have hbody : s.interrupt n = ((if n.toInt > 0 then
      if n.toInt = 10 then plicComplete n.toInt
      else Prog.call (PlicOp.print (Printf.text "[IRQ] unhandled irq=%d\n" [BitVec.ofInt 32 n.toInt])) >>= fun _ =>
        plicComplete n.toInt
    else pure () : PlicM Unit).exec (fun s e => s.access n e) claimed).2 := rfl
  have hcomplete : ((plicComplete n.toInt).exec (fun s e => s.access n e) claimed).2 =
      { claimed with completed := s.completed ++ [n] } := by
    unfold plicComplete
    rw [BitVec.ofInt_toInt]
    rfl
  rw [hbody]
  by_cases hpos : n.toInt > 0
  · rw [if_pos hpos, if_pos hpos]
    by_cases huart : n.toInt = 10
    · rw [if_pos huart]
      exact hcomplete
    · rw [if_neg huart]
      exact hcomplete
  · rw [if_neg hpos, if_neg hpos, List.append_nil]
    rfl

/-- Every interrupt that has been claimed has been completed, in the same order. -/
def Served (s : Board) : Prop := s.completed = s.claimed.filter fun n => decide (n.toInt > 0)

/-- The registers are these, and every interrupt is served. -/
def At (regs : Nat → BitVec 32) (s : Board) : Prop := s.regs = regs ∧ Served s

theorem at_stable : Board.world.Stable (At regs) := by
  intro s n t h ht
  obtain rfl : s.interrupt n = t := Option.some.inj ht
  rw [interrupt_eq]
  refine ⟨h.1, ?_⟩
  have hserved : s.completed = s.claimed.filter fun n => decide (n.toInt > 0) := h.2
  show s.completed ++ _ = (s.claimed ++ [n]).filter _
  rw [List.filter_append, ← hserved, List.filter_singleton, Bool.cond_decide]

/-! ## Calls -/

/-- What a call writes, and to which register. -/
def Call.written (regs : Nat → BitVec 32) : Call → Option (Nat × BitVec 32)
  | init => some (PLIC_THRESHOLD_REG, 0)
  | enable irq =>
    if irq < 0 ∨ irq > PLIC_MAX_IRQ then none
    else some (enableReg irq.toNat, setBit (regs (enableReg irq.toNat)) irq.toNat)
  | disable irq =>
    if irq < 0 ∨ irq > PLIC_MAX_IRQ then none
    else some (enableReg irq.toNat, clearBit (regs (enableReg irq.toNat)) irq.toNat)
  | setPriority irq priority =>
    if irq < 0 ∨ irq > PLIC_MAX_IRQ ∨ priority > 7 then none else some (priorityReg irq.toNat, priority)
  | setThreshold threshold => some (PLIC_THRESHOLD_REG, threshold)

section

variable {irq : Int} {priority : BitVec 32}

theorem written_enable_none (h : irq < 0 ∨ irq > PLIC_MAX_IRQ) : (Call.enable irq).written regs = none := if_pos h

theorem written_enable (h : ¬ (irq < 0 ∨ irq > PLIC_MAX_IRQ)) : (Call.enable irq).written regs =
    some (enableReg irq.toNat, setBit (regs (enableReg irq.toNat)) irq.toNat) := if_neg h

theorem written_disable_none (h : irq < 0 ∨ irq > PLIC_MAX_IRQ) : (Call.disable irq).written regs = none := if_pos h

theorem written_disable (h : ¬ (irq < 0 ∨ irq > PLIC_MAX_IRQ)) : (Call.disable irq).written regs =
    some (enableReg irq.toNat, clearBit (regs (enableReg irq.toNat)) irq.toNat) := if_neg h

theorem written_setPriority_none (h : irq < 0 ∨ irq > PLIC_MAX_IRQ ∨ priority > 7) :
    (Call.setPriority irq priority).written regs = none := if_pos h

theorem written_setPriority (h : ¬ (irq < 0 ∨ irq > PLIC_MAX_IRQ ∨ priority > 7)) :
    (Call.setPriority irq priority).written regs = some (priorityReg irq.toNat, priority) := if_neg h

end

/-- The registers after a write. -/
def stored (regs : Nat → BitVec 32) : Option (Nat × BitVec 32) → Nat → BitVec 32
  | none => regs
  | some (addr, val) => fun a => if a = addr then val else regs a

theorem enableReg_lt {irq : Int} (h : ¬ (irq < 0 ∨ irq > PLIC_MAX_IRQ)) : enableReg irq.toNat < 0x2010 := by
  unfold enableReg
  unfold PLIC_MAX_IRQ at h
  omega

theorem priorityReg_lt {irq : Int} (h : ¬ (irq < 0 ∨ irq > PLIC_MAX_IRQ)) : priorityReg irq.toNat < 0x200 := by
  unfold priorityReg
  unfold PLIC_MAX_IRQ at h
  omega

section

variable {I : Board → Prop}

theorem write_wp {addr : Nat} {val : BitVec 32} (h : At regs s) (ha : addr ≠ PLIC_CLAIM_REG)
    (hI : ∀ t, At (stored regs (some (addr, val))) t → I t) :
    Board.world.WP I (writeReg addr val) (fun _ => At (stored regs (some (addr, val)))) s := by
  refine World.WP.op at_stable h fun u c r t hu ht => ?_
  obtain ⟨rfl, rfl⟩ := Prod.mk.inj (Option.some.inj ht)
  rw [if_neg ha]
  have hat : At (stored regs (some (addr, val))) (u.setReg addr val) := ⟨by rw [← hu.1]; rfl, hu.2⟩
  exact ⟨hI _ hat, World.WP.ret at_stable hat fun _ h => h⟩

/-- A read of a register, and a write to it of what is made of its value. -/
theorem update_wp {addr : Nat} {f : BitVec 32 → BitVec 32} (h : At regs s) (ha : addr ≠ PLIC_CLAIM_REG)
    (hpre : ∀ t, At regs t → I t) (hpost : ∀ t, At (stored regs (some (addr, f (regs addr)))) t → I t) :
    Board.world.WP I (readReg addr >>= fun val => writeReg addr (f val))
      (fun _ => At (stored regs (some (addr, f (regs addr))))) s := by
  refine World.WP.op at_stable h fun u c r t hu ht => ?_
  have hread : u.access 0 (.read addr) = (u.regs addr, u) := if_neg ha
  obtain ⟨rfl, rfl⟩ := Prod.mk.inj ((Option.some.inj ht).symm.trans hread)
  refine ⟨hpre _ hu, ?_⟩
  rw [hu.1]
  exact write_wp hu ha hpost

theorem skip_wp (h : At regs s) : Board.world.WP I (pure ()) (fun _ => At regs) s :=
  World.WP.ret at_stable h fun _ h => h

/-- A call does its write, wherever it is interrupted, and nothing else. -/
theorem call_wp (c : Call) (h : At regs s) (hpre : ∀ t, At regs t → I t)
    (hpost : ∀ t, At (stored regs (c.written regs)) t → I t) :
    Board.world.WP I c.prog (fun _ => At (stored regs (c.written regs))) s := by
  cases c with
  | init => exact write_wp h (by decide) hpost
  | setThreshold threshold => exact write_wp h (by decide) hpost
  | setPriority irq priority =>
    by_cases hirq : irq < 0 ∨ irq > PLIC_MAX_IRQ ∨ priority > 7
    · have hprog : (Call.setPriority irq priority).prog = pure () := if_pos hirq
      rw [hprog, written_setPriority_none hirq]
      exact skip_wp h
    · have hprog : (Call.setPriority irq priority).prog = writeReg (priorityReg irq.toNat) priority := if_neg hirq
      have hlt := priorityReg_lt fun hout : irq < 0 ∨ irq > PLIC_MAX_IRQ => hirq (hout.imp_right .inl)
      rw [written_setPriority hirq] at hpost
      rw [hprog, written_setPriority hirq]
      exact write_wp h (by unfold PLIC_CLAIM_REG; omega) hpost
  | enable irq =>
    by_cases hirq : irq < 0 ∨ irq > PLIC_MAX_IRQ
    · have hprog : (Call.enable irq).prog = pure () := if_pos hirq
      rw [hprog, written_enable_none hirq]
      exact skip_wp h
    · have hprog : (Call.enable irq).prog = (readReg (enableReg irq.toNat) >>= fun val =>
          writeReg (enableReg irq.toNat) (setBit val irq.toNat)) := if_neg hirq
      have hlt := enableReg_lt hirq
      rw [written_enable hirq] at hpost
      rw [hprog, written_enable hirq]
      exact update_wp h (by unfold PLIC_CLAIM_REG; omega) hpre hpost
  | disable irq =>
    by_cases hirq : irq < 0 ∨ irq > PLIC_MAX_IRQ
    · have hprog : (Call.disable irq).prog = pure () := if_pos hirq
      rw [hprog, written_disable_none hirq]
      exact skip_wp h
    · have hprog : (Call.disable irq).prog = (readReg (enableReg irq.toNat) >>= fun val =>
          writeReg (enableReg irq.toNat) (clearBit val irq.toNat)) := if_neg hirq
      have hlt := enableReg_lt hirq
      rw [written_disable hirq] at hpost
      rw [hprog, written_disable hirq]
      exact update_wp h (by unfold PLIC_CLAIM_REG; omega) hpre hpost

end

/-! ## Settings -/

theorem stored_self (addr : Nat) (val : BitVec 32) : stored regs (some (addr, val)) addr = val := if_pos rfl

theorem stored_ne {addr a : Nat} (val : BitVec 32) (h : a ≠ addr) : stored regs (some (addr, val)) a = regs a :=
  if_neg h

theorem settings_enable {irq : Nat} (hirq : irq ≤ 127) (val : BitVec 32) :
    settingsOf (stored regs (some (enableReg irq, val))) =
      { settingsOf regs with
        enabled := fun i =>
          if i.1 / 32 = irq / 32 then val.getLsbD (i.1 % 32) else (settingsOf regs).enabled i } := by
  refine Settings.ext (funext fun i => ?_) (funext fun i => ?_) ?_
  · show (stored regs (some (enableReg irq, val)) (enableReg i.1)).getLsbD (i.1 % 32) =
      if i.1 / 32 = irq / 32 then val.getLsbD (i.1 % 32) else (settingsOf regs).enabled i
    by_cases h : i.1 / 32 = irq / 32
    · have hreg : enableReg i.1 = enableReg irq := congrArg (fun k => 0x2000 + 4 * k) h
      rw [if_pos h, hreg, stored_self]
    · rw [if_neg h, stored_ne _ (by unfold enableReg; omega)]
      rfl
  · have hi := i.2
    exact stored_ne _ (by unfold priorityReg enableReg; omega)
  · exact stored_ne _ (by unfold PLIC_THRESHOLD_REG enableReg; omega)

theorem settings_priority {irq : Nat} (hirq : irq ≤ 127) (val : BitVec 32) :
    settingsOf (stored regs (some (priorityReg irq, val))) =
      { settingsOf regs with priority := fun i => if i.1 = irq then val else (settingsOf regs).priority i } := by
  refine Settings.ext (funext fun i => ?_) (funext fun i => ?_) ?_
  · show (stored regs _ (enableReg i.1)).getLsbD (i.1 % 32) = _
    rw [stored_ne _ (by unfold priorityReg enableReg; omega)]
    rfl
  · show stored regs (some (priorityReg irq, val)) (priorityReg i.1) =
      if i.1 = irq then val else (settingsOf regs).priority i
    by_cases h : i.1 = irq
    · rw [if_pos h, h]
      exact stored_self _ _
    · rw [if_neg h]
      exact stored_ne _ (by unfold priorityReg; omega)
  · exact stored_ne _ (by unfold PLIC_THRESHOLD_REG priorityReg; omega)

theorem settings_threshold (val : BitVec 32) :
    settingsOf (stored regs (some (PLIC_THRESHOLD_REG, val))) = { settingsOf regs with threshold := val } := by
  refine Settings.ext (funext fun i => ?_) (funext fun i => ?_) ?_
  · have hi := i.2
    show (stored regs _ (enableReg i.1)).getLsbD (i.1 % 32) = _
    rw [stored_ne _ (by unfold PLIC_THRESHOLD_REG enableReg; omega)]
    rfl
  · have hi := i.2
    exact stored_ne _ (by unfold PLIC_THRESHOLD_REG priorityReg; omega)
  · show stored regs (some (PLIC_THRESHOLD_REG, val)) PLIC_THRESHOLD_REG = val
    exact stored_self _ _

/-- An update of one bit: `g` is what it does to the bit of an interrupt, which may be the one meant. -/
theorem settings_bit {f : BitVec 32 → Nat → BitVec 32} {g : Bool → Bool → Bool}
    (hf : ∀ e irq j, j < 32 → (f e irq).getLsbD j = g (e.getLsbD j) (decide (j = irq % 32)))
    (hg : ∀ b, g b false = b) {irq : Int} (hirq : ¬ (irq < 0 ∨ irq > PLIC_MAX_IRQ)) :
    settingsOf (stored regs (some (enableReg irq.toNat, f (regs (enableReg irq.toNat)) irq.toNat))) =
      { settingsOf regs with
        enabled := fun i => g ((settingsOf regs).enabled i) (decide ((i.1 : Int) = irq)) } := by
  have hnat : irq.toNat ≤ 127 ∧ 0 ≤ irq := by
    unfold PLIC_MAX_IRQ at hirq
    omega
  rw [settings_enable hnat.1]
  refine Settings.ext (funext fun i => ?_) rfl rfl
  dsimp only
  by_cases hreg : i.1 / 32 = irq.toNat / 32
  · have hsame : i.1 % 32 = irq.toNat % 32 ↔ (i.1 : Int) = irq := by omega
    have hword : enableReg i.1 = enableReg irq.toNat := congrArg (fun k => 0x2000 + 4 * k) hreg
    rw [if_pos hreg, hf _ _ _ (Nat.mod_lt _ (by decide)), decide_eq_decide.mpr hsame, ← hword]
    rfl
  · have hne : (i.1 : Int) ≠ irq := by omega
    rw [if_neg hreg, decide_eq_false hne, hg]

theorem irq_ne {irq : Int} (h : irq < 0 ∨ irq > PLIC_MAX_IRQ) (i : Irq) : (i.1 : Int) ≠ irq := by
  have hi := i.2
  unfold PLIC_MAX_IRQ at h
  omega

theorem settings_written (c : Call) (regs : Nat → BitVec 32) :
    settingsOf (stored regs (c.written regs)) = (settingsOf regs).after c := by
  cases c with
  | init => exact settings_threshold 0
  | setThreshold threshold => exact settings_threshold threshold
  | setPriority irq priority =>
    by_cases hirq : irq < 0 ∨ irq > PLIC_MAX_IRQ ∨ priority > 7
    · rw [written_setPriority_none hirq]
      refine Settings.ext rfl (funext fun i => (if_neg fun h => ?_).symm) rfl
      rcases hirq with hout | hout | hout
      · exact irq_ne (.inl hout) i h.1
      · exact irq_ne (.inr hout) i h.1
      · exact absurd h.2 (BitVec.not_le.mpr hout)
    · have hnat : irq.toNat ≤ 127 ∧ 0 ≤ irq := by
        unfold PLIC_MAX_IRQ at hirq
        omega
      have hprio : priority ≤ 7 := BitVec.not_lt.mp fun h => hirq (.inr (.inr h))
      rw [written_setPriority hirq, settings_priority hnat.1]
      refine Settings.ext rfl (funext fun i => ?_) rfl
      exact if_congr ⟨fun h => ⟨by omega, hprio⟩, fun h => by omega⟩ rfl rfl
  | enable irq =>
    by_cases hirq : irq < 0 ∨ irq > PLIC_MAX_IRQ
    · rw [written_enable_none hirq]
      refine Settings.ext (funext fun i => ?_) rfl rfl
      show _ = ((settingsOf regs).enabled i || decide _)
      rw [decide_eq_false (irq_ne hirq i), Bool.or_false]
      rfl
    · rw [written_enable hirq]
      exact settings_bit (fun e irq j => getLsbD_setBit e irq) Bool.or_false hirq
  | disable irq =>
    by_cases hirq : irq < 0 ∨ irq > PLIC_MAX_IRQ
    · rw [written_disable_none hirq]
      refine Settings.ext (funext fun i => ?_) rfl rfl
      show _ = ((settingsOf regs).enabled i && !decide _)
      rw [decide_eq_false (irq_ne hirq i), Bool.not_false, Bool.and_true]
      rfl
    · rw [written_disable hirq]
      exact settings_bit (g := fun b x => b && !x) (fun e irq j => getLsbD_clearBit e irq) Bool.and_true hirq

/-- A call writes only to registers of the settings. -/
theorem used_written (c : Call) (regs : Nat → BitVec 32) : ∀ w, c.written regs = some w → Used w.1 := by
  intro w hw
  cases c with
  | init | setThreshold threshold =>
    obtain rfl := Option.some.inj hw
    exact .inr (.inr rfl)
  | setPriority irq priority =>
    by_cases hirq : irq < 0 ∨ irq > PLIC_MAX_IRQ ∨ priority > 7
    · rw [written_setPriority_none hirq] at hw
      cases hw
    · rw [written_setPriority hirq] at hw
      obtain rfl := Option.some.inj hw
      exact .inl (priorityReg_lt fun hout : irq < 0 ∨ irq > PLIC_MAX_IRQ => hirq (hout.imp_right .inl))
  | enable irq =>
    by_cases hirq : irq < 0 ∨ irq > PLIC_MAX_IRQ
    · rw [written_enable_none hirq] at hw
      cases hw
    · rw [written_enable hirq] at hw
      obtain rfl := Option.some.inj hw
      exact .inr (.inl ⟨Nat.le_add_right _ _, enableReg_lt hirq⟩)
  | disable irq =>
    by_cases hirq : irq < 0 ∨ irq > PLIC_MAX_IRQ
    · rw [written_disable_none hirq] at hw
      cases hw
    · rw [written_disable hirq] at hw
      obtain rfl := Option.some.inj hw
      exact .inr (.inl ⟨Nat.le_add_right _ _, enableReg_lt hirq⟩)

/-! ## Runs -/

/-- The registers after the calls. -/
def storedAll (regs : Nat → BitVec 32) (calls : List Call) : Nat → BitVec 32 :=
  calls.foldl (fun regs c => stored regs (c.written regs)) regs

/-- The first of the calls have been made, and nothing else. -/
def Partly (regs : Nat → BitVec 32) (calls : List Call) (t : Board) : Prop :=
  ∃ made, made <+: calls ∧ At (storedAll regs made) t

theorem partly_stable (regs : Nat → BitVec 32) (calls : List Call) : Board.world.Stable (Partly regs calls) :=
  fun s n t ⟨made, hmade, h⟩ ht => ⟨made, hmade, at_stable s n t h ht⟩

theorem calling_wp {calls made rest : List Call} (hcalls : made ++ rest = calls) (h : At (storedAll regs made) s) :
    Board.world.WP (Partly regs calls) (calling rest) (fun _ => At (storedAll regs calls)) s := by
  induction rest generalizing made s with
  | nil =>
    rw [List.append_nil] at hcalls
    subst hcalls
    exact skip_wp h
  | cons c rest ih =>
    have hnext : storedAll regs (made ++ [c]) = stored (storedAll regs made) (c.written (storedAll regs made)) := by
      rw [storedAll, List.foldl_append]
      rfl
    have hrest : (made ++ [c]) ++ rest = calls := by rw [← hcalls, List.append_assoc, List.singleton_append]
    have hcall := call_wp (I := Partly regs calls) c h (fun t ht => ⟨made, ⟨_, hcalls⟩, ht⟩)
      fun t ht => ⟨made ++ [c], ⟨_, hrest⟩, by rw [hnext]; exact ht⟩
    refine World.WP.bind (hcall.mono fun _ u hu => ih hrest ?_)
    rw [hnext]
    exact hu

theorem settings_storedAll (calls : List Call) (regs : Nat → BitVec 32) :
    settingsOf (storedAll regs calls) = calls.foldl Settings.after (settingsOf regs) := by
  induction calls generalizing regs with
  | nil => rfl
  | cons c calls ih =>
    rw [List.foldl_cons, ← settings_written]
    exact ih _

theorem storedAll_frame (calls : List Call) (regs : Nat → BitVec 32) {a : Nat} (ha : ¬ Used a) :
    storedAll regs calls a = regs a := by
  induction calls generalizing regs with
  | nil => rfl
  | cons c calls ih =>
    refine (ih _).trans ?_
    show stored regs (c.written regs) a = regs a
    cases hw : c.written regs with
    | none => rfl
    | some w =>
      have hused := used_written c regs w hw
      exact stored_ne _ fun h => ha (by rw [h]; exact hused)

/-- However the calls are interrupted, in every state that is reached: the settings are what the first
of the calls say one after another, all of them in the end; no other register has changed; and every
interrupt that has been claimed has been completed, in the same order. -/
theorem calls_settle {calls : List Call} {es : List (BitVec 32 ⊕ Unit)} {p : PlicM Unit}
    (h : s.completed = s.claimed.filter fun n => decide (n.toInt > 0))
    (hrun : run Board.world.go (s, calling calls) es = some (t, p)) :
    ∃ made, made <+: calls ∧ (p = .ret () → made = calls) ∧
      settingsOf t.regs = made.foldl Settings.after (settingsOf s.regs) ∧
      (∀ a, ¬ Used a → t.regs a = s.regs a) ∧
      t.completed = t.claimed.filter fun n => decide (n.toInt > 0) := by
  have hat : At (storedAll s.regs []) s := ⟨rfl, h⟩
  obtain ⟨hwp, hpart⟩ := (calling_wp (List.nil_append calls) hat).run (partly_stable _ _)
    ⟨[], List.nil_prefix, hat⟩ hrun
  obtain ⟨made, hmade, hend, hregs, hserved⟩ : ∃ made, made <+: calls ∧ (p = .ret () → made = calls) ∧
      At (storedAll s.regs made) t := by
    cases p with
    | ret a => exact ⟨calls, List.prefix_rfl, fun _ => rfl, hwp t .refl⟩
    | op e k =>
      obtain ⟨made, hmade, hat⟩ := hpart
      exact ⟨made, hmade, (fun hp => by cases hp), hat⟩
  rw [hregs]
  exact ⟨made, hmade, hend, settings_storedAll made s.regs, fun a ha => storedAll_frame made s.regs ha, hserved⟩

/-- `plic_enable_irq(33)`, where interrupt 10 comes between the read and the write. -/
theorem calls_settle_between : ∃ t : Board,
    run Board.world.go (⟨fun _ => 0, [], []⟩, calling [.enable 33]) [.inr (), .inl 10, .inr ()] = some (t, .ret ()) ∧
    settingsOf t.regs = (settingsOf fun _ => 0).after (.enable 33) ∧
    t.completed = t.claimed.filter fun n => decide (n.toInt > 0) := by
  obtain ⟨t, ht⟩ : ∃ t : Board, run Board.world.go (⟨fun _ => 0, [], []⟩, calling [.enable 33])
      [.inr (), .inl 10, .inr ()] = some (t, .ret ()) := ⟨_, rfl⟩
  obtain ⟨made, -, hend, hsettings, -, hserved⟩ := calls_settle (s := ⟨fun _ => 0, [], []⟩) rfl ht
  obtain rfl := hend rfl
  exact ⟨t, ht, hsettings, hserved⟩

end SmartEth.Plic
