import SmartEth.System.Driver
import SmartEth.Proof.PlainRegs

/-!
# The driver and the NIC

What a step of the NIC's side does, and what a write to a plain register does.
-/

namespace SmartEth

/-- A write to a plain register does nothing else. -/
theorem Plain.onMmioWrite {addr : Addr} (h : Plain addr) (nic : SmartNic) (val : Word) :
    (nic.onMmioWrite addr val).1 = nic.setReg addr val := by
  have ht : addr < SC_REG_COUNT ∧ addr ≠ SC_REG_STATUS ∧ addr ≠ SC_REG_DEV_ID :=
    ⟨h.2.1, h.ne (by decide), h.ne (by decide)⟩
  have hregs : (nic.regs.write addr val).1 = nic.regs.setReg (addr >>> 2) val := by
    rw [RegBlock.write_of_not_reset _ fun hr => h.ne (by decide) hr.1, if_neg (not_not.mpr ht),
      if_neg (h.ne (by decide)), if_neg (h.ne (by decide))]
  rw [SmartNic.onMmioWrite_fst, hregs]
  dsimp only
  rw [if_neg fun hd => h.ne (by decide) hd.1, decide_eq_false fun hd => h.ne (by decide) hd.1, Bool.or_false]
  rfl

theorem Plain.ordinary {w : Addr × Word} (h : Plain w.1) : Ordinary w := ⟨h.1, fun hr => h.ne (by decide) hr.1⟩

namespace DriverNic

open SmartEthMain

variable {s t : DriverNic}

theorem settled_handle {addr : Addr} (h : Plain addr) {w : Addr × Word} {rest : List (Addr × Word)}
    (hp : s.posted = w :: rest) (hw : Ordinary w) :
    settled { s with nic := (s.nic.onMmioWrite w.1 w.2).1, posted := rest } addr = s.settled addr := by
  rw [settled, settled, hp, getD_lastWritten_cons]
  exact congrArg _ (h.reg_onMmioWrite s.nic hw)

/-- A register that no write on its way is for. -/
theorem settled_of_ne {addr : Addr} (h : ∀ w ∈ s.posted, w.1 ≠ addr) : s.settled addr = s.nic.reg addr := by
  have hnone : lastWritten addr s.posted = none := by
    refine Option.map_eq_none_iff.mpr (List.find?_eq_none.mpr fun w hw => ?_)
    exact decide_eq_true_iff.not.mpr (h w (List.mem_reverse.mp hw))
  rw [settled, hnone, Option.getD_none]

theorem env_handle (h : s.env .handle = some t) : s.sect = none ∧ ∃ w rest, s.posted = w :: rest ∧
    t = { s with nic := (s.nic.onMmioWrite w.1 w.2).1, posted := rest } := by
  simp only [env] at h
  split at h
  · rename_i w rest hs hp
    exact ⟨hs, w, rest, hp, (Option.some.inj h).symm⟩
  · simp at h

theorem enter_eq {th : NicThread} {p : NicM (SmartNic × Bool)} (h : s.enter th p = some t) :
    s.sect = none ∧ t = { s with sect := some ⟨th, p⟩ } := by
  simp only [enter] at h
  split at h
  · rename_i hs
    exact ⟨hs, (Option.some.inj h).symm⟩
  · simp at h

theorem env_nicOp {r : DmaEnd} (h : s.env (.nicOp r) = some t) : ∃ th e k, s.sect = some ⟨th, .op e k⟩ ∧
    t = { s with
      mem := (dmaAnswer s.mem r e).2
      sect := some ⟨th, k (dmaAnswer s.mem r e).1⟩
      confined := s.confined && decide (∀ r ∈ e.region, Within s.mapped r) } := by
  simp only [env] at h
  split at h
  · rename_i th e k hs
    exact ⟨th, e, k, hs, (Option.some.inj h).symm⟩
  · simp at h

theorem env_nicEnd (h : s.env .nicEnd = some t) : ∃ th nic again, s.sect = some ⟨th, .ret (nic, again)⟩ ∧
    t = { s with nic := nic, sect := none, txLoc := txAfter s.txLoc th again } := by
  simp only [env] at h
  split at h
  · rename_i th nic again hs
    exact ⟨th, nic, again, hs, (Option.some.inj h).symm⟩
  · simp at h

theorem start_probe {p : DriverM CallEnd} (h : s.start .probe = some (t, p)) : s.adapter = none ∧
    t = { s with call := some .probe, completions := 0 } ∧ p = probe >>= fun a => pure (.probed a) := by
  simp only [start] at h
  split at h
  · rename_i ha
    cases h
    exact ⟨ha, rfl, rfl⟩
  · cases h

/-- The NIC's side does not touch what belongs to the driver. -/
theorem env_frame {e : DriverEvent} (h : s.env e = some t) :
    t.adapter = s.adapter ∧ t.mapped = s.mapped ∧ t.call = s.call := by
  have henter : ∀ {u : DriverNic} {th p}, u.enter th p = some t →
      u.adapter = s.adapter → u.mapped = s.mapped → u.call = s.call →
      t.adapter = s.adapter ∧ t.mapped = s.mapped ∧ t.call = s.call := by
    intro u th p hu h1 h2 h3
    obtain ⟨-, rfl⟩ := enter_eq hu
    exact ⟨h1, h2, h3⟩
  cases e with
  | handle =>
    obtain ⟨-, w, rest, -, rfl⟩ := env_handle h
    exact ⟨rfl, rfl, rfl⟩
  | nicOp r =>
    obtain ⟨th, e, k, -, rfl⟩ := env_nicOp h
    exact ⟨rfl, rfl, rfl⟩
  | nicEnd =>
    obtain ⟨th, nic, again, -, rfl⟩ := env_nicEnd h
    exact ⟨rfl, rfl, rfl⟩
  | signal =>
    cases h
    exact ⟨rfl, rfl, rfl⟩
  | packet data => exact henter h rfl rfl rfl
  | dmaCheck | txWake =>
    simp only [env, Option.ite_none_right_eq_some, Option.some.injEq] at h
    obtain ⟨-, rfl⟩ := h
    exact ⟨rfl, rfl, rfl⟩
  | processDma | txIteration | txDone =>
    simp only [env, Option.ite_none_right_eq_some] at h
    exact henter h.2 rfl rfl rfl

/-! ## Rules for the driver's operations -/

section Rules

variable {okE : DriverNic → DriverEvent → Prop} {okA : DriverNic → DriverOp → DriverChoice → Prop}
  {okS : DriverNic → DriverCall → Prop} {I K : DriverNic → Prop} {α : Type} {Q : α → DriverNic → Prop}

/-- The NIC's side keeps `K`, in steps with `okE`. -/
def Stable (okE : DriverNic → DriverEvent → Prop) (K : DriverNic → Prop) : Prop :=
  ∀ s e t, K s → okE s e → s.env e = some t → K t

/-- A program of the driver among the NIC's steps. -/
abbrev wp (okE : DriverNic → DriverEvent → Prop) (okA : DriverNic → DriverOp → DriverChoice → Prop)
    (okS : DriverNic → DriverCall → Prop) (I : DriverNic → Prop) (p : DriverM α) (Q : α → DriverNic → Prop)
    (s : DriverNic) : Prop := (machine.guard okE okA okS).WP I p Q s

theorem wp_ret {a : α} (hK : Stable okE K) (h : K s) (hQ : ∀ s, K s → Q a s) :
    wp okE okA okS I (pure a : DriverM α) Q s :=
  World.WP.ret (fun s e t hs he => hK s e t hs (Machine.guard_env.mp he).1 (Machine.guard_env.mp he).2) h hQ

theorem wp_call {e : DriverOp} {f : e.Res → DriverM α} (hK : Stable okE K) (h : K s)
    (hf : ∀ s c r t, K s → okA s e c → s.act e c = some (r, t) → I t ∧ wp okE okA okS I (f r) Q t) :
    wp okE okA okS I (Prog.call e >>= f) Q s :=
  World.WP.op (fun s e t hs he => hK s e t hs (Machine.guard_env.mp he).1 (Machine.guard_env.mp he).2) h
    fun s c r t hs ha => hf s c r t hs (Machine.guard_act.mp ha).1 (Machine.guard_act.mp ha).2

theorem wp_readReg {reg : Addr} {f : Word → DriverM α} (hK : Stable okE K) (h : K s) (hI : ∀ s, K s → I s)
    (hf : ∀ s, K s → s.posted = [] → s.sect = none → wp okE okA okS I (f (s.nic.onMmioRead reg)) Q s) :
    wp okE okA okS I (readReg reg >>= f) Q s := by
  refine wp_call hK h fun s c r t hs _ ha => ?_
  simp only [act, Option.ite_none_right_eq_some, Option.some.injEq, Prod.mk.injEq] at ha
  obtain ⟨⟨hp, hn⟩, rfl, rfl⟩ := ha
  exact ⟨hI _ hs, hf _ hs hp (Option.isNone_iff_eq_none.mp hn)⟩

theorem wp_writeReg {reg : Addr} {val : Word} {f : Unit → DriverM α} (hK : Stable okE K) (h : K s)
    (hf : ∀ s, K s → I { s with posted := s.posted ++ [(reg, val)] } ∧
      wp okE okA okS I (f ()) Q { s with posted := s.posted ++ [(reg, val)] }) :
    wp okE okA okS I (writeReg reg val >>= f) Q s := by
  refine wp_call hK h fun s c r t hs _ ha => ?_
  cases ha
  exact hf s hs

theorem wp_mapBuf {len : Nat} {f : Option Addr → DriverM α} (hK : Stable okE K) (h : K s) (hI : ∀ s, K s → I s)
    (hfail : ∀ s, K s → wp okE okA okS I (f none) Q s)
    (hf : ∀ s addr, K s → Free s.mapped ⟨addr, len⟩ → I { s with mapped := ⟨addr, len⟩ :: s.mapped } ∧
      wp okE okA okS I (f (some addr)) Q { s with mapped := ⟨addr, len⟩ :: s.mapped }) :
    wp okE okA okS I (mapBuf len >>= f) Q s := by
  refine wp_call hK h fun s c r t hs _ ha => ?_
  cases c with
  | mapped addr =>
    simp only [act, Option.ite_none_right_eq_some, Option.some.injEq, Prod.mk.injEq] at ha
    obtain ⟨hfree, rfl, rfl⟩ := ha
    exact hf s addr hs hfree
  | fails =>
    cases ha
    exact ⟨hI s hs, hfail s hs⟩
  | done => cases ha

theorem wp_unmap {dma : Addr} {len : Nat} {f : Unit → DriverM α} (hK : Stable okE K) (h : K s)
    (hf : ∀ s c, K s → okA s (.unmap dma len) c → I { s with mapped := s.mapped.erase ⟨dma, len⟩ } ∧
      wp okE okA okS I (f ()) Q { s with mapped := s.mapped.erase ⟨dma, len⟩ }) :
    wp okE okA okS I (unmap dma len >>= f) Q s := by
  refine wp_call hK h fun s c r t hs hok ha => ?_
  cases ha
  exact hf s c hs hok

theorem wp_store {dma : Addr} {data : List Byte} {f : Unit → DriverM α} (hK : Stable okE K) (h : K s)
    (hf : ∀ s, K s → I { s with mem := s.mem.write dma data } ∧
      wp okE okA okS I (f ()) Q { s with mem := s.mem.write dma data }) :
    wp okE okA okS I (store dma data >>= f) Q s := by
  refine wp_call hK h fun s c r t hs _ ha => ?_
  cases ha
  exact hf s hs

theorem wp_setTxHead {head : Word} {f : Unit → DriverM α} (hK : Stable okE K) (h : K s)
    (hf : ∀ s, K s → I { s with adapter := s.adapter.map fun a => { a with txHead := head } } ∧
      wp okE okA okS I (f ()) Q { s with adapter := s.adapter.map fun a => { a with txHead := head } }) :
    wp okE okA okS I (setTxHead head >>= f) Q s := by
  refine wp_call hK h fun s c r t hs _ ha => ?_
  cases ha
  exact hf s hs

theorem wp_wait {f : Bool → DriverM α} (hK : Stable okE K) (h : K s)
    (hf : ∀ s c r n, K s → okA s .wait c → (r = true → s.completions ≠ 0) → I { s with completions := n } ∧
      wp okE okA okS I (f r) Q { s with completions := n }) :
    wp okE okA okS I (wait >>= f) Q s := by
  refine wp_call hK h fun s c r t hs hok ha => ?_
  cases c with
  | done =>
    simp only [act] at ha
    split at ha
    · simp at ha
    · rename_i hn
      cases ha
      exact hf s _ true _ hs hok fun _ => hn
  | fails =>
    cases ha
    exact hf s _ false s.completions hs hok (by simp)
  | mapped addr => cases ha

end Rules

/-! ## What a call knows -/

/-- What a call of the driver knows between two of its operations. -/
structure View where
  cfg : List (Addr × Word)
  mem : GuestMem
  adapter : Option Adapter
  mapped : List (Region 64)
  /-- Whether it knows that no register write is on its way. -/
  quiet : Prop

namespace View

variable (v : View)

def map (r : Region 64) : View := { v with mapped := r :: v.mapped }
def unmap (r : Region 64) : View := { v with mapped := v.mapped.filter (· ≠ r) }
def store (dma : Addr) (data : List Byte) : View := { v with mem := v.mem.write dma data }
def post (ws : List (Addr × Word)) : View := { v with cfg := ws.reverse ++ v.cfg, quiet := False }
def read : View := { v with quiet := True }
def setTxHead (head : Word) : View := { v with adapter := v.adapter.map fun a => { a with txHead := head } }

theorem post_cons (w : Addr × Word) (ws : List (Addr × Word)) : v.post (w :: ws) = (v.post [w]).post ws := by
  rw [post, List.reverse_cons, List.append_assoc]
  rfl

end View

end DriverNic

end SmartEth
