import SmartEth.Framework.Ring
import SmartEth.System.TxRing

/-!
# Transmission in ring order

`Ok` is what guest memory holds at any time: entry `i` holds the last frame
posted to it, given back if it was completed, and the NIC has changed nothing
else. Each of the host's steps keeps it (`Ok.env`), and so does the write-back
of the frame at the tail (`Ok.complete`). A pass of `process_tx` completes at
most the frame at the tail (`iteration_ok`), and between passes the tail and the
frames sent agree with the frames completed (`Idle`); `tx_in_order` reads them off.
-/

namespace SmartEth.TxRing

open SmartNic DescRing

variable {base : Addr} {n : Nat} {driver : Bool}

/-! ## Guest memory -/

structure Ok (base : Addr) (n : Nat) (s : TxRing) : Prop where
  le : s.completed ≤ s.posted.length
  room : s.posted.length ≤ s.completed + n
  own : ∀ f ∈ s.posted, f.desc.own = true
  len : ∀ f ∈ s.posted, f.bytes.length = f.desc.length.toNat
  empty : ∀ i < n, lastIn n s.posted.length i = none → (entry base s.mem i).own = false
  entry : ∀ i < n, ∀ j f, lastIn n s.posted.length i = some j → s.posted[j]? = some f →
    entry base s.mem i = if j < s.completed then f.desc.complete else f.desc
  buf : ∀ j f, s.completed ≤ j → s.posted[j]? = some f →
    (bufRegion f.desc).Disjoint (ringRegion base n) ∧
      s.mem.read f.desc.addr f.desc.length.toNat = f.bytes
  frame : ∀ x, s.mem x ≠ s.hostMem x → ∃ i < n, ∃ j, lastIn n s.posted.length i = some j ∧
    j < s.completed ∧ x ∈ entryRegion base i

namespace Ok

variable {s : TxRing}

/-- `Ok` is about guest memory and the frames in it. -/
theorem of_eq {t : TxRing} (h : Ok base n s) (hm : t.mem = s.mem) (hh : t.hostMem = s.hostMem)
    (hp : t.posted = s.posted) (hc : t.completed = s.completed) : Ok base n t := by
  constructor <;> rw [hp] <;> try rw [hc]
  · exact h.le
  · exact h.room
  · exact h.own
  · exact h.len
  · rw [hm]; exact h.empty
  · rw [hm]; exact h.entry
  · rw [hm]; exact h.buf
  · rw [hm, hh]; exact h.frame

/-- The frame at the tail, if one is outstanding, is the last in its entry. -/
theorem lastIn_tail (h : Ok base n s) (hc : s.completed < s.posted.length) :
    lastIn n s.posted.length (s.completed % n) = some s.completed :=
  lastIn_of_lt hc h.room

/-- The entry at the tail while a frame is outstanding. -/
theorem entry_tail (h : Ok base n s) (hn : 0 < n) {f : TxFrame} (hf : s.posted[s.completed]? = some f) :
    DescRing.entry base s.mem (s.completed % n) = f.desc := by
  have hc : s.completed < s.posted.length := (List.getElem?_eq_some_iff.mp hf).1
  rw [h.entry _ (Nat.mod_lt _ hn) _ f (h.lastIn_tail hc) hf, if_neg (Nat.lt_irrefl _)]

/-- The host owns the entry at the tail once all frames are completed. -/
theorem own_tail (h : Ok base n s) (hn : 0 < n) (hc : s.completed = s.posted.length) :
    (DescRing.entry base s.mem (s.completed % n)).own = false := by
  have hi := Nat.mod_lt s.completed hn
  cases hl : lastIn n s.posted.length (s.completed % n) with
  | none => exact h.empty _ hi hl
  | some j =>
    have hj : j < s.posted.length := (lastIn_lt hl).1
    rw [h.entry _ hi j _ hl (List.getElem?_eq_getElem hj), if_pos (by omega),
      SmartEthDesc.own_complete]

/-- The host finds room for a frame only if fewer than `n` are outstanding. -/
theorem room_of_own (h : Ok base n s) (hn : 0 < n)
    (ho : (DescRing.entry base s.mem (s.posted.length % n)).own = false) :
    s.posted.length < s.completed + n := by
  refine lt_of_le_of_ne h.room fun e => ?_
  have hlt : s.completed < s.posted.length := by omega
  have hm : s.posted.length % n = s.completed % n := by rw [e, Nat.add_mod_right]
  rw [hm, h.entry_tail hn (List.getElem?_eq_getElem hlt), h.own _ (List.getElem_mem hlt)] at ho
  cases ho

theorem post (h : Ok base n s) (hn : 0 < n) (hn' : n < 2 ^ 32) {d : SmartEthDesc} (hd : d.own = true)
    (ho : (DescRing.entry base s.mem (s.posted.length % n)).own = false)
    (hb : (bufRegion d).Disjoint (ringRegion base n)) :
    Ok base n { s.hostStore (entryAddr base (s.posted.length % n)) d.toBytes with
      posted := s.posted ++ [⟨d, s.mem.read d.addr d.length.toNat⟩] } := by
  have hi := Nat.mod_lt s.posted.length hn
  have hroom := h.room_of_own hn ho
  have hle := h.le
  -- an entry other than the new frame's, and the frame in it
  have hlast : ∀ {i j}, i ≠ s.posted.length % n → (lastIn n (s.posted.length + 1) i = j ↔
      lastIn n s.posted.length i = j) := fun hne => by rw [lastIn_succ_ne (Ne.symm hne)]
  have hget : ∀ {j f}, j < s.posted.length →
      (s.posted ++ [⟨d, s.mem.read d.addr d.length.toNat⟩])[j]? = some f → s.posted[j]? = some f :=
    fun hj hf => by rwa [List.getElem?_append_left hj] at hf
  constructor <;> simp only [hostStore, List.length_append, List.length_singleton]
  · omega
  · omega
  · intro f hf
    rcases List.mem_append.mp hf with hf | hf
    · exact h.own f hf
    · rw [List.mem_singleton.mp hf]; exact hd
  · intro f hf
    rcases List.mem_append.mp hf with hf | hf
    · exact h.len f hf
    · rw [List.mem_singleton.mp hf]; exact Mem.length_read _ _ _
  · intro i hin hl
    have hne : i ≠ s.posted.length % n := fun e => by
      rw [e, lastIn_succ_self] at hl; cases hl
    rw [entry_write_ne hn' hin hi hne]
    exact h.empty i hin ((hlast hne).mp hl)
  · intro i hin j f hl hf
    by_cases hne : i = s.posted.length % n
    · rw [hne, lastIn_succ_self, Option.some.injEq] at hl
      rw [← hl, List.getElem?_concat_length, Option.some.injEq] at hf
      rw [hne, entry_write_self, ← hf, ← hl]
      exact (if_neg (Nat.not_lt.mpr hle)).symm
    · rw [entry_write_ne hn' hin hi hne]
      have hl' := (hlast hne).mp hl
      exact h.entry i hin j f hl' (hget (lastIn_lt hl').1 hf)
  · intro j f hj hf
    by_cases he : j < s.posted.length
    · obtain ⟨h1, h2⟩ := h.buf j f hj (hget he hf)
      exact ⟨h1, by rw [buf_write_entry hi h1, h2]⟩
    · have hlen := (List.getElem?_eq_some_iff.mp hf).1
      rw [List.length_append, List.length_singleton] at hlen
      obtain rfl : j = s.posted.length := by omega
      rw [List.getElem?_concat_length, Option.some.injEq] at hf
      subst hf
      exact ⟨hb, buf_write_entry hi hb⟩
  · intro x hx
    have hnm : x ∉ (⟨entryAddr base (s.posted.length % n), d.toBytes.length⟩ : Region 64) :=
      fun hm => hx (Mem.write_of_mem hm)
    rw [Mem.write_of_notMem hnm, Mem.write_of_notMem hnm] at hx
    obtain ⟨i, hin, j, hl, hj, hxi⟩ := h.frame x hx
    have hne : i ≠ s.posted.length % n := fun e => hnm (by rw [d.length_toBytes, ← e]; exact hxi)
    exact ⟨i, hin, j, (hlast hne).mpr hl, hj, hxi⟩

theorem hostWrite (h : Ok base n s) (hn : 0 < n) {a : Addr} {bs : List Byte}
    (hr : (⟨a, bs.length⟩ : Region 64).Disjoint (ringRegion base n))
    (hb : ∀ i < n, (DescRing.entry base s.mem i).own →
      (⟨a, bs.length⟩ : Region 64).Disjoint (bufRegion (DescRing.entry base s.mem i))) :
    Ok base n (s.hostStore a bs) := by
  constructor <;> simp only [hostStore]
  · exact h.le
  · exact h.room
  · exact h.own
  · exact h.len
  · intro i hi hl
    rw [entry_write_outside hi hr]; exact h.empty i hi hl
  · intro i hi j f hl hf
    rw [entry_write_outside hi hr]; exact h.entry i hi j f hl hf
  · intro j f hj hf
    obtain ⟨h1, h2⟩ := h.buf j f hj hf
    obtain ⟨hlt, hfj⟩ := List.getElem?_eq_some_iff.mp hf
    have hroom := h.room
    -- the frame is outstanding, so its entry still names its buffer
    have he := h.entry _ (Nat.mod_lt j hn) j f (lastIn_of_lt hlt (by omega)) hf
    rw [if_neg (by omega)] at he
    have hd := hb _ (Nat.mod_lt j hn) (by rw [he]; exact h.own f (hfj ▸ List.getElem_mem hlt))
    rw [he] at hd
    exact ⟨h1, by rw [Mem.read_write_disjoint hd.symm, h2]⟩
  · intro x hx
    have hnm : x ∉ (⟨a, bs.length⟩ : Region 64) := fun hm => hx (Mem.write_of_mem hm)
    rw [Mem.write_of_notMem hnm, Mem.write_of_notMem hnm] at hx
    exact h.frame x hx

/-- The write-back of the frame at the tail. -/
theorem complete (h : Ok base n s) (hn : 0 < n) (hn' : n < 2 ^ 32) {f : TxFrame}
    (hf : s.posted[s.completed]? = some f) :
    Ok base n { s with
      mem := s.mem.write (entryAddr base (s.completed % n)) f.desc.complete.toBytes
      completed := s.completed + 1 } := by
  have hi := Nat.mod_lt s.completed hn
  have hlt : s.completed < s.posted.length := (List.getElem?_eq_some_iff.mp hf).1
  have hroom := h.room
  have htail := h.lastIn_tail hlt
  constructor <;> dsimp only
  · omega
  · omega
  · exact h.own
  · exact h.len
  · intro i hin hl
    have hne : i ≠ s.completed % n := fun e => by rw [e, htail] at hl; cases hl
    rw [entry_write_ne hn' hin hi hne]; exact h.empty i hin hl
  · intro i hin j f' hl hf'
    by_cases hne : i = s.completed % n
    · rw [hne, htail, Option.some.injEq] at hl
      subst hl
      rw [hf, Option.some.injEq] at hf'
      rw [hne, entry_write_self, ← hf', if_pos (Nat.lt_succ_self _)]
    · rw [entry_write_ne hn' hin hi hne, h.entry i hin j f' hl hf']
      have : j ≠ s.completed := fun e => hne (by rw [← (lastIn_lt hl).2, e])
      by_cases hj : j < s.completed
      · rw [if_pos hj, if_pos (by omega)]
      · rw [if_neg hj, if_neg (by omega)]
  · intro j f' hj hf'
    obtain ⟨h1, h2⟩ := h.buf j f' (by omega) hf'
    exact ⟨h1, by rw [buf_write_entry hi h1, h2]⟩
  · intro x hx
    by_cases hm : x ∈ entryRegion base (s.completed % n)
    · exact ⟨_, hi, _, htail, Nat.lt_succ_self _, hm⟩
    · rw [Mem.write_of_notMem (by rw [SmartEthDesc.length_toBytes]; exact hm)] at hx
      obtain ⟨i, hin, j, hl, hj, hxi⟩ := h.frame x hx
      exact ⟨i, hin, j, hl, by omega, hxi⟩

/-- What the host does keeps guest memory in order. -/
theorem env (hn : 0 < n) (hn' : n < 2 ^ 32) {e : TxHost} {t : TxRing} (h : Ok base n s)
    (he : TxRing.env base n driver s e = some t) : Ok base n t := by
  cases e with
  | post d =>
    simp only [TxRing.env, Option.ite_none_right_eq_some, Option.some.injEq] at he
    obtain ⟨⟨hd, ho, hb⟩, rfl⟩ := he
    exact h.post hn hn' hd (by simpa using ho) hb
  | write a bs =>
    simp only [TxRing.env, Option.ite_none_right_eq_some, Option.some.injEq] at he
    obtain ⟨⟨hr, hb⟩, rfl⟩ := he
    exact h.hostWrite hn hr hb
  | ring v =>
    have ht : t = { s with rung := s.rung ++ [v] } := by
      simp only [TxRing.env] at he
      split at he <;> simp only [Option.ite_none_right_eq_some, Option.some.injEq] at he <;>
        exact he.2.symm
    subst ht
    exact h.of_eq rfl rfl rfl rfl

end Ok

/-! ## A pass of `process_tx` -/

/-- What the host leaves alone: `t` has the NIC's part of `s`, and at least its
frames. -/
structure Kept (s t : TxRing) : Prop where
  nic : t.nic = s.nic
  completed : t.completed = s.completed
  sent : t.sent = s.sent
  handled : t.handled = s.handled
  merged : t.merged = s.merged
  loc : t.loc = s.loc
  notified : t.notified = s.notified
  posted : s.posted <+: t.posted

theorem Kept.refl (s : TxRing) : Kept s s := ⟨rfl, rfl, rfl, rfl, rfl, rfl, rfl, List.prefix_refl _⟩

theorem Kept.trans {s t u : TxRing} (h : Kept s t) (h' : Kept t u) : Kept s u :=
  ⟨h'.nic.trans h.nic, h'.completed.trans h.completed, h'.sent.trans h.sent,
    h'.handled.trans h.handled, h'.merged.trans h.merged, h'.loc.trans h.loc, h'.notified.trans h.notified,
    h.posted.trans h'.posted⟩

theorem Kept.env {s t : TxRing} {e : TxHost} (h : TxRing.env base n driver s e = some t) : Kept s t := by
  cases e with
  | post d =>
    simp only [TxRing.env, Option.ite_none_right_eq_some, Option.some.injEq] at h
    obtain ⟨-, rfl⟩ := h
    exact ⟨rfl, rfl, rfl, rfl, rfl, rfl, rfl, List.prefix_append _ _⟩
  | write a bs =>
    simp only [TxRing.env, Option.ite_none_right_eq_some, Option.some.injEq] at h
    obtain ⟨-, rfl⟩ := h
    exact ⟨rfl, rfl, rfl, rfl, rfl, rfl, rfl, List.prefix_refl _⟩
  | ring v =>
    simp only [TxRing.env] at h
    split at h <;> simp only [Option.ite_none_right_eq_some, Option.some.injEq] at h <;>
      obtain ⟨-, rfl⟩ := h <;> exact ⟨rfl, rfl, rfl, rfl, rfl, rfl, rfl, List.prefix_refl _⟩

theorem take_initial {l l' : List TxFrame} {c : Nat} (h : l <+: l') (hc : c ≤ l.length) :
    l'.take c = l.take c := by
  obtain ⟨r, hr⟩ := h
  rw [← hr, List.take_append_of_le_length hc]

/-- The frames sent are the first `c` of those posted. -/
def Sent (c : Nat) (s : TxRing) : Prop := s.sent = (s.posted.take c).map TxFrame.bytes

theorem Sent.initial {c : Nat} {s : TxRing} (h : Sent c s) : s.sent <+: s.posted.map TxFrame.bytes := by
  rw [h]
  exact (List.take_prefix _ _).map _

theorem Kept.sent_initial {s t : TxRing} (h : Kept s t) (hs : s.sent <+: s.posted.map TxFrame.bytes) :
    t.sent <+: t.posted.map TxFrame.bytes := by
  rw [h.sent]
  exact hs.trans (h.posted.map _)

theorem Sent.of_kept {c : Nat} {s t : TxRing} (h : Sent c s) (hc : c ≤ s.posted.length) (hk : Kept s t) : Sent c t := by
  rw [Sent, hk.sent, h, take_initial hk.posted hc]

/-- One more frame is sent. -/
theorem Sent.succ {c : Nat} {s : TxRing} {f : TxFrame} (h : Sent c s) (hf : s.posted[c]? = some f) :
    Sent (c + 1) { s with sent := s.sent ++ [f.bytes] } := by
  dsimp only [Sent]
  rw [h, List.take_add_one, List.map_append, hf]
  rfl

theorem Kept.getElem? {s t : TxRing} (h : Kept s t) {j : Nat} {f : TxFrame} (hf : s.posted[j]? = some f) :
    t.posted[j]? = some f := by
  obtain ⟨r, hr⟩ := h.posted
  obtain ⟨hj, -⟩ := List.getElem?_eq_some_iff.mp hf
  rw [← hr, List.getElem?_append_left hj, hf]

/-- The address of the descriptor at the tail. -/
theorem txDescAddr_eq {nic : SmartNic} {c : Nat} (hc : Configured base n nic)
    (ht : (nic.reg SC_REG_TX_TAIL).toNat = c % n) : nic.txDescAddr = entryAddr base (c % n) := by
  rw [txDescAddr, hc.base, descAddr_eq, ht]

/-- What a pass leaves: the frame at the tail is completed and the ring moved
on; or nothing is, because nothing is pending, the doorbell is 0, or every
frame was completed. -/
inductive IterationPost (s : TxRing) (r : SmartNic × Option Nat) (t : TxRing) : Prop where
  | completed (f : TxFrame) (hf : t.posted[s.completed]? = some f) (pending : s.nic.txPending = true)
      (doorbell : s.nic.reg SC_REG_TX_DOORBELL ≠ 0) (nic : r.1 = s.nic.txAdvance)
      (wait : r.2.isSome = true)
      (kept : Kept { s with completed := s.completed + 1, sent := s.sent ++ [f.bytes] } t)
  | idle (pending : s.nic.txPending = false) (nic : r = (s.nic, none)) (kept : Kept s t)
  | stopped (nic : r = ({ s.nic with txPending := false }, none)) (kept : Kept s t)
      (why : s.nic.reg SC_REG_TX_DOORBELL = 0 ∨ s.posted.length ≤ s.completed)

/-- A pass, in which a read may have failed if `fails`: then nothing has come of it. -/
def Passed (fails : Prop) (s : TxRing) (r : SmartNic × Option Nat) (t : TxRing) : Prop :=
  IterationPost s r t ∨ (fails ∧ r = (s.nic, none) ∧ Kept s t)

/-- The host's steps, and exact operations, except that if `fails`, reads may fail. -/
structure Runs {κ : Type} (base : Addr) (n : Nat) (driver : Bool) (fails : Prop)
    (W : World TxRing TxHost κ NicOp NicOp.Res) : Prop where
  env : ∀ {s e t}, W.env s e = some t → TxRing.env base n driver s e = some t
  read : ∀ {s addr len c x}, W.act s (.dmaRead addr len) c = some x →
    x = (some (s.mem.read addr len.toNat), s) ∨ (fails ∧ x = (none, s))
  write : ∀ {s addr data c x}, W.act s (.dmaWrite addr data) c = some x →
    x = (true, { s with mem := s.mem.write addr data, completed := s.completed + 1 })
  sendIrq : ∀ {s vector c x}, W.act s (.sendIrq vector) c = some x → x = ((), s)
  transmit : ∀ {s data c x}, W.act s (.transmit data) c = some x → x = ((), { s with sent := s.sent ++ [data] })

theorem Runs.exact : Runs base n driver False (world base n driver) where
  env := id
  read := fun h => .inl (Option.some.inj h).symm
  write := fun h => (Option.some.inj h).symm
  sendIrq := fun h => (Option.some.inj h).symm
  transmit := fun h => (Option.some.inj h).symm

/-- In the middle of a pass: guest memory is in order, and the frames sent are the first of those posted. -/
def Mid (base : Addr) (n : Nat) (s : TxRing) : Prop := Ok base n s ∧ s.sent <+: s.posted.map TxFrame.bytes

section

variable {κ : Type} {fails : Prop} {W : World TxRing TxHost κ NicOp NicOp.Res} (hW : Runs base n driver fails W)
include hW

/-- Guest memory in order and the NIC's part of `s` outlast the host's steps. -/
theorem kept_env (hn : 0 < n) (hn' : n < 2 ^ 32) {s : TxRing} : ∀ u e u', Ok base n u ∧ Kept s u →
    W.env u e = some u' → Ok base n u' ∧ Kept s u' :=
  fun _ _ _ hu he => ⟨hu.1.env hn hn' (hW.env he), hu.2.trans (.env (hW.env he))⟩

variable {s : TxRing}

/-- The rest of a pass, from a frame read for a descriptor: it is handed to the
network, and the descriptor given back. -/
theorem txSend_ok (hn : 0 < n) (hn' : n < 2 ^ 32) (hc : Configured base n s.nic)
    (ht : (s.nic.reg SC_REG_TX_TAIL).toNat = s.completed % n) (hp : s.nic.txPending = true)
    (hd : s.nic.reg SC_REG_TX_DOORBELL ≠ 0) {f : TxFrame} {t : TxRing} (hok : Ok base n t)
    (hk : Kept s t) (hs : Sent s.completed t) (hf : t.posted[s.completed]? = some f) :
    W.WP (Mid base n)
      (s.nic.txSend s.nic.txDescAddr f.desc (overlay (List.replicate f.desc.length.toNat 0) f.bytes))
      (fun r t => Ok base n t ∧ Passed fails s r t) t := by
  have hbytes : f.bytes.length = f.desc.length.toNat := hok.len f (List.mem_of_getElem? hf)
  rw [overlay_eq (by rw [List.length_replicate, hbytes]), txSend]
  simp only [hc.netif, ite_true, Prog.call_bind, dmaWriteBridge_bind hc.bridge]
  refine World.WP.op (kept_env hW hn hn') ⟨hok, Kept.refl t⟩ ?_
  intro u _ r u' ⟨hu, hku⟩ ha
  obtain ⟨rfl, rfl⟩ := Prod.mk.inj (hW.transmit ha)
  have hu' : Ok base n { u with sent := u.sent ++ [f.bytes] } := hu.of_eq rfl rfl rfl rfl
  have hks := hk.trans hku
  have hks' : Kept { s with sent := s.sent ++ [f.bytes] } { u with sent := u.sent ++ [f.bytes] } :=
    ⟨hks.nic, hks.completed, by rw [hks.sent], hks.handled, hks.merged, hks.loc, hks.notified, hks.posted⟩
  have hlt : s.completed < t.posted.length := (List.getElem?_eq_some_iff.mp hf).1
  have hsent := (hs.of_kept (Nat.le_of_lt hlt) hku).succ (hku.getElem? hf)
  have hltu : s.completed + 1 ≤ u.posted.length := (List.getElem?_eq_some_iff.mp (hku.getElem? hf)).1
  refine ⟨⟨hu', hsent.initial⟩, ?_⟩
  refine World.WP.op (kept_env hW hn hn') ⟨hu', Kept.refl _⟩ ?_
  intro v _ r v' ⟨hv, hkv⟩ ha
  obtain ⟨rfl, rfl⟩ := Prod.mk.inj (hW.write ha)
  have hksv := hks'.trans hkv
  have hfv : v.posted[v.completed]? = some f := by
    rw [hksv.completed]
    exact hkv.getElem? (hku.getElem? hf)
  have haddr : s.nic.txDescAddr = entryAddr base (v.completed % n) := by
    rw [txDescAddr_eq hc ht, hksv.completed]
  rw [haddr]
  have hv' := hv.complete hn hn' hfv
  refine ⟨⟨hv', (hsent.of_kept hltu hkv).initial⟩, ?_⟩
  simp only [ite_true]
  refine World.WP.ret (kept_env hW hn hn') ⟨hv', Kept.refl _⟩ ?_
  intro w ⟨hw, hkw⟩
  refine ⟨hw, .inl (.completed f ?_ hp hd rfl rfl ?_)⟩
  · exact hkw.getElem? (hksv.completed ▸ hfv)
  · refine ⟨hkw.nic.trans hksv.nic, ?_, hkw.sent.trans hksv.sent, hkw.handled.trans hksv.handled,
      hkw.merged.trans hksv.merged,
      hkw.loc.trans hksv.loc, hkw.notified.trans hksv.notified, hksv.posted.trans hkw.posted⟩
    rw [hkw.completed]; exact congrArg (· + 1) hksv.completed

/-- A read that has failed. -/
theorem failed_ok (hn : 0 < n) (hn' : n < 2 ^ 32) (hfail : fails) {t : TxRing} (hok : Ok base n t) (hk : Kept s t) :
    W.WP (Mid base n) (pure (s.nic, none) : NicM (SmartNic × Option Nat))
      (fun r t => Ok base n t ∧ Passed fails s r t) t :=
  World.WP.ret (kept_env hW hn hn') ⟨hok, Kept.refl t⟩ fun _ hu =>
    ⟨hu.1, .inr ⟨hfail, rfl, hk.trans hu.2⟩⟩

/-- The rest of a pass, from the descriptor at the tail. -/
theorem txFetch_ok (hn : 0 < n) (hn' : n < 2 ^ 32) (hc : Configured base n s.nic)
    (ht : (s.nic.reg SC_REG_TX_TAIL).toNat = s.completed % n) (hp : s.nic.txPending = true)
    (hd : s.nic.reg SC_REG_TX_DOORBELL ≠ 0) {t : TxRing} (hok : Ok base n t) (hk : Kept s t)
    (hs : Sent s.completed t) :
    W.WP (Mid base n)
      (s.nic.txFetch s.nic.txDescAddr (DescRing.entry base t.mem (s.completed % n)))
      (fun r t => Ok base n t ∧ Passed fails s r t) t := by
  have hle := hok.le
  rw [hk.completed] at hle
  rcases Nat.lt_or_eq_of_le hle with hlt | heq
  · -- a frame is outstanding: its buffer is read
    obtain ⟨f, hf⟩ : ∃ f, t.posted[s.completed]? = some f := ⟨_, List.getElem?_eq_getElem hlt⟩
    have he : DescRing.entry base t.mem (s.completed % n) = f.desc := by
      rw [← hk.completed] at hf ⊢; exact hok.entry_tail hn hf
    rw [txFetch, he, hok.own f (List.mem_of_getElem? hf)]
    simp only [Bool.not_true, Bool.false_eq_true, ite_false, dmaReadBridge_bind hc.bridge]
    refine World.WP.op (kept_env hW hn hn') ⟨hok, Kept.refl t⟩ ?_
    intro u _ r u' ⟨hu, hku⟩ ha
    rcases hW.read ha with hx | ⟨hfail, hx⟩
    · obtain ⟨rfl, rfl⟩ := Prod.mk.inj hx
      refine ⟨⟨hu, (hs.of_kept hle hku).initial⟩, ?_⟩
      have hfu := hku.getElem? hf
      rw [(hu.buf _ f (by rw [hku.completed, hk.completed]) hfu).2]
      exact txSend_ok hW hn hn' hc ht hp hd hu (hk.trans hku) (hs.of_kept hle hku) hfu
    · obtain ⟨rfl, rfl⟩ := Prod.mk.inj hx
      exact ⟨⟨hu, (hs.of_kept hle hku).initial⟩, failed_ok hW hn hn' hfail hu (hk.trans hku)⟩
  · have ho := hok.own_tail hn (hk.completed.trans heq)
    rw [hk.completed] at ho
    rw [txFetch, ho]
    simp only [Bool.not_false, ite_true, Prog.pure_eq]
    refine World.WP.ret (kept_env hW hn hn') ⟨hok, Kept.refl t⟩ ?_
    intro u ⟨hu, hku⟩
    refine ⟨hu, .inl (.stopped rfl (hk.trans hku) (.inr ?_))⟩
    exact hk.posted.length_le.trans (Nat.le_of_eq heq.symm)

/-- A pass of the inner loop. -/
theorem iteration_ok (hb : base ≠ 0) (hn : 0 < n) (hn' : n < 2 ^ 32) (hc : Configured base n s.nic)
    (ht : (s.nic.reg SC_REG_TX_TAIL).toNat = s.completed % n) (hok : Ok base n s)
    (hs : Sent s.completed s) :
    W.WP (Mid base n) s.nic.processTxIteration (fun r t => Ok base n t ∧ Passed fails s r t) s := by
  have hsz : s.nic.reg SC_REG_TX_RING_SIZE ≠ 0 := fun e => by
    have := hc.size
    rw [e] at this
    exact absurd this (Nat.ne_of_lt hn)
  rw [processTxIteration]
  cases hp : s.nic.txPending with
  | false =>
    simp only [Bool.not_false, ite_true, Prog.pure_eq]
    exact World.WP.ret (kept_env hW hn hn') ⟨hok, Kept.refl s⟩ fun u ⟨hu, hku⟩ => ⟨hu, .inl (.idle hp rfl hku)⟩
  | true =>
    simp only [Bool.not_true, Bool.false_eq_true, ite_false, hsz, hc.base, hb, false_or, or_false]
    by_cases hd : s.nic.reg SC_REG_TX_DOORBELL = 0
    · rw [if_pos hd, Prog.pure_eq]
      exact World.WP.ret (kept_env hW hn hn') ⟨hok, Kept.refl s⟩ fun u ⟨hu, hku⟩ =>
        ⟨hu, .inl (.stopped rfl hku (.inl hd))⟩
    · rw [if_neg hd, readDesc_bind hc.bridge]
      refine World.WP.op (kept_env hW hn hn') ⟨hok, Kept.refl s⟩ ?_
      intro u _ r u' ⟨hu, hku⟩ ha
      rcases hW.read ha with hx | ⟨hfail, hx⟩
      · obtain ⟨rfl, rfl⟩ := Prod.mk.inj hx
        refine ⟨⟨hu, (hs.of_kept hok.le hku).initial⟩, ?_⟩
        rw [Option.map_some, txDescAddr_eq hc ht]
        simp only [BitVec.toNat_ofNat, SmartEthDesc.size, Nat.reducePow, Nat.reduceMod]
        rw [ofBytes_read_entry, ← txDescAddr_eq hc ht]
        exact txFetch_ok hW hn hn' hc ht hp hd hu hku (hs.of_kept hok.le hku)
      · obtain ⟨rfl, rfl⟩ := Prod.mk.inj hx
        exact ⟨⟨hu, (hs.of_kept hok.le hku).initial⟩, failed_ok hW hn hn' hfail hu hku⟩

end

variable {s : TxRing}

/-! ## The ring's registers -/

/-- The registers that configure the ring. -/
def confRegs : List Addr := [SC_REG_TX_RING_BASE_LO, SC_REG_TX_RING_BASE_HI, SC_REG_TX_RING_SIZE]

theorem confRegs_ne {a : Addr} (ha : a ∈ confRegs) :
    a >>> 2 ≠ SC_REG_TX_DOORBELL >>> 2 ∧ a >>> 2 ≠ SC_REG_TX_TAIL >>> 2 ∧
      a >>> 2 ≠ SC_REG_IRQ_STS >>> 2 := by
  simp only [confRegs, List.mem_cons, List.not_mem_nil, or_false] at ha
  obtain rfl | rfl | rfl := ha <;> decide

theorem Configured.of_eq {nic nic' : SmartNic} (h : Configured base n nic) (hb : nic'.bridge = nic.bridge)
    (hf : nic'.netif = nic.netif)
    (hr : ∀ a ∈ confRegs, nic'.reg a = nic.reg a) : Configured base n nic' := by
  simp only [confRegs, List.mem_cons, List.not_mem_nil, or_false, forall_eq_or_imp, forall_eq] at hr
  exact ⟨hb.trans h.bridge, hf.trans h.netif, by rw [← h.base, txRingBase, txRingBase, hr.1, hr.2.1],
    by rw [← h.size, hr.2.2]⟩

theorem onMmioWrite_doorbell (nic : SmartNic) (val : Word) :
    nic.onMmioWrite SC_REG_TX_DOORBELL val =
      ({ nic.setReg SC_REG_TX_DOORBELL val with txPending := nic.txPending || val ≠ 0 },
        if val = 0 then [] else [.notifyTx]) := by
  have h : nic.regs.write SC_REG_TX_DOORBELL val = (nic.regs.setReg (SC_REG_TX_DOORBELL >>> 2) val, false) :=
    rfl
  rw [onMmioWrite, h]
  by_cases hv : val = 0#32 <;> simp [hv, setReg, SC_REG_TX_DOORBELL, SC_REG_DMA_CTRL]

/-- What the interrupt after the loop changes. -/
theorem processTxDone_ok {κ : Type} {fails : Prop} {W : World TxRing TxHost κ NicOp NicOp.Res}
    (hW : Runs base n driver fails W) (hc : s.nic.bridge = true) (hn : 0 < n) (hn' : n < 2 ^ 32) (hok : Ok base n s)
    (hs : s.sent <+: s.posted.map TxFrame.bytes) :
    W.WP (Mid base n)
      (do pure (← s.nic.processTxDone, none) : NicM (SmartNic × Option Nat))
      (fun r t => Ok base n t ∧ Kept s t ∧
        (r.1 = s.nic ∨ ∃ v, r.1 = s.nic.setReg SC_REG_IRQ_STS v)) s := by
  rw [processTxDone]
  by_cases hi : s.nic.reg SC_REG_IRQ_EN &&& SC_IRQ_TX_DONE ≠ 0
  · have hbr : (s.nic.setReg SC_REG_IRQ_STS (s.nic.regs.irqStatus ||| SC_IRQ_TX_DONE)).bridge = true := hc
    simp only [if_pos hi, raiseIrq, hbr, ite_true, Prog.call_bind, Prog.pure_eq, Prog.op_bind,
      Prog.ret_bind]
    refine World.WP.op (kept_env hW hn hn') ⟨hok, Kept.refl s⟩ ?_
    intro u _ r u' hu ha
    obtain ⟨rfl, rfl⟩ := Prod.mk.inj (hW.sendIrq ha)
    exact ⟨⟨hu.1, hu.2.sent_initial hs⟩, World.WP.ret (kept_env hW hn hn') hu fun w ⟨hw, hkw⟩ => ⟨hw, hkw, .inr ⟨_, rfl⟩⟩⟩
  · simp only [if_neg hi, Prog.pure_eq, Prog.ret_bind]
    exact World.WP.ret (kept_env hW hn hn') ⟨hok, Kept.refl s⟩ fun u ⟨hu, hku⟩ => ⟨hu, hku, .inl rfl⟩

/-! ## Between passes -/

/-- The tail, and the frames sent, are those of the frames completed. -/
structure Idle (base : Addr) (n : Nat) (s : TxRing) : Prop where
  ok : Ok base n s
  conf : Configured base n s.nic
  tail : (s.nic.reg SC_REG_TX_TAIL).toNat = s.completed % n
  sent : s.sent = (s.posted.take s.completed).map TxFrame.bytes

namespace Idle

theorem mid (h : Idle base n s) : Mid base n s := ⟨h.ok, Sent.initial h.sent⟩

theorem start (h : Start base n s) : Idle base n s := by
  have hempty : ∀ i, lastIn n s.posted.length i = none := fun i => by rw [h.posted]; rfl
  refine ⟨?_, h.conf, ?_, ?_⟩
  · constructor
    · rw [h.completed]; exact Nat.zero_le _
    · rw [h.posted]; exact Nat.zero_le _
    · rw [h.posted]; exact fun f hf => nomatch hf
    · rw [h.posted]; exact fun f hf => nomatch hf
    · exact fun i hi _ => h.own i hi
    · exact fun i _ j f hl _ => by rw [hempty] at hl; cases hl
    · exact fun j f _ hf => by rw [h.posted] at hf; cases hf
    · exact fun x hx => absurd (congrFun h.hostMem x).symm hx
  · rw [h.tail, h.completed]; exact (Nat.zero_mod n).symm
  · rw [h.sent, h.posted, h.completed]; rfl

theorem of_kept {t : TxRing} (h : Idle base n s) (hok : Ok base n t) (hk : Kept s t) : Idle base n t := by
  refine ⟨hok, hk.nic ▸ h.conf, ?_, ?_⟩
  · rw [hk.nic, hk.completed]; exact h.tail
  · rw [hk.sent, hk.completed, take_initial hk.posted h.ok.le]; exact h.sent

theorem env (hn : 0 < n) (hn' : n < 2 ^ 32) {e : TxHost} {t : TxRing} (h : Idle base n s)
    (he : TxRing.env base n driver s e = some t) : Idle base n t :=
  h.of_kept (h.ok.env hn hn' he) (.env he)

/-- The NIC's part may change, but for the ring's registers. -/
theorem of_regs {t : TxRing} (h : Idle base n s) (hok : Ok base n t) (hb : t.nic.bridge = s.nic.bridge)
    (hf : t.nic.netif = s.nic.netif)
    (hr : ∀ a ∈ confRegs, t.nic.reg a = s.nic.reg a)
    (ht : t.nic.reg SC_REG_TX_TAIL = s.nic.reg SC_REG_TX_TAIL)
    (hp : t.posted = s.posted) (hc : t.completed = s.completed) (hs : t.sent = s.sent) :
    Idle base n t := by
  refine ⟨hok, h.conf.of_eq hb hf hr, ?_, ?_⟩
  · rw [ht, hc]; exact h.tail
  · rw [hs, hp, hc]; exact h.sent

theorem idle {e : TxIdle} {t : TxRing} (h : Idle base n s) (he : TxRing.idle s e = some t) :
    Idle base n t := by
  cases e with
  | doorbell =>
    rcases hr : s.rung with _ | ⟨val, rest⟩
    · simp only [TxRing.idle, hr] at he; cases he
    · simp only [TxRing.idle, hr, onMmioWrite_doorbell, Option.some.injEq] at he
      subst he
      refine h.of_regs (h.ok.of_eq rfl rfl rfl rfl) rfl rfl ?_ ?_ rfl rfl rfl
      · exact fun a ha => reg_setReg_ne (confRegs_ne ha).1
      · exact reg_setReg_ne (by decide)
  | wake =>
    simp only [TxRing.idle, Option.ite_none_right_eq_some, Option.some.injEq] at he
    obtain ⟨-, rfl⟩ := he
    exact h.of_regs (h.ok.of_eq rfl rfl rfl rfl) rfl rfl (fun _ _ => rfl) rfl rfl rfl rfl

/-- After a pass. -/
theorem finish {r : SmartNic × Option Nat} {t : TxRing} (hn : 0 < n) (h : Idle base n s) (hok : Ok base n t)
    (hp : IterationPost s r t) : Idle base n (TxRing.finish t r) := by
  have hok' : Ok base n (TxRing.finish t r) := hok.of_eq rfl rfl rfl rfl
  cases hp with
  | completed f hf _ _ hnic _ hk =>
    have hreg : ∀ {a : Addr}, a >>> 2 ≠ SC_REG_TX_DOORBELL >>> 2 → a >>> 2 ≠ SC_REG_TX_TAIL >>> 2 →
        r.1.reg a = s.nic.reg a := fun h1 h2 => by
      rw [hnic, txAdvance, reg_setReg_ne h1, reg_setReg_ne h2]
    refine ⟨hok', h.conf.of_eq (by rw [TxRing.finish, hnic]; rfl) (by rw [TxRing.finish, hnic]; rfl)
      (fun a ha => hreg (confRegs_ne ha).1 (confRegs_ne ha).2.1), ?_, ?_⟩
    · dsimp only [TxRing.finish]
      rw [hnic, txAdvance, reg_setReg_ne (by decide), reg_setReg_self,
        nextTail_toNat hn h.tail h.conf.size, hk.completed]
    · dsimp only [TxRing.finish]
      rw [hk.sent, hk.completed, h.sent, List.take_add_one, List.map_append, hf]
      rw [take_initial hk.posted h.ok.le]
      rfl
  | idle _ hnic hk | stopped hnic hk _ =>
    subst hnic
    have h' := h.of_kept hok hk
    exact h'.of_regs hok' (by rw [hk.nic]; rfl) (by rw [hk.nic]; rfl) (fun _ _ => by rw [hk.nic]; rfl)
      (by rw [hk.nic]; rfl) rfl rfl rfl

/-- After the interrupt. -/
theorem finish_done {r : SmartNic × Option Nat} {t : TxRing} (h : Idle base n s) (hok : Ok base n t)
    (hk : Kept s t) (hr : r.1 = s.nic ∨ ∃ v, r.1 = s.nic.setReg SC_REG_IRQ_STS v) :
    Idle base n (TxRing.finish t r) := by
  have h' := h.of_kept hok hk
  have hok' : Ok base n (TxRing.finish t r) := hok.of_eq rfl rfl rfl rfl
  obtain hr | ⟨v, hr⟩ := hr
  · exact h'.of_regs hok' (by rw [hk.nic, ← hr]; rfl) (by rw [hk.nic, ← hr]; rfl)
      (fun _ _ => by rw [hk.nic, ← hr]; rfl) (by rw [hk.nic, ← hr]; rfl) rfl rfl rfl
  · refine h'.of_regs hok' ?_ ?_ ?_ ?_ rfl rfl rfl <;> rw [hk.nic, TxRing.finish, hr]
    · rfl
    · rfl
    · exact fun a ha => reg_setReg_ne (confRegs_ne ha).2.2
    · exact reg_setReg_ne (by decide)

theorem passed {fails : Prop} {r : SmartNic × Option Nat} {t : TxRing} (hn : 0 < n) (h : Idle base n s)
    (hok : Ok base n t) (hp : Passed fails s r t) : Idle base n (TxRing.finish t r) := by
  rcases hp with hp | ⟨-, rfl, hk⟩
  · exact h.finish hn hok hp
  · exact h.finish_done hok hk (.inl rfl)

/-- What a part of `process_tx` that is started leads to. -/
theorem start_part {κ : Type} {fails : Prop} {W : World TxRing TxHost κ NicOp NicOp.Res}
    (hW : Runs base n driver fails W) (hb : base ≠ 0) (hn : 0 < n) (hn' : n < 2 ^ 32) {e : TxPart} {t : TxRing}
    {p : NicM (SmartNic × Option Nat)} (h : Idle base n s) (he : TxRing.start driver s e = some (t, p)) :
    Mid base n t ∧ W.WP (Mid base n) p (fun r u => Idle base n (TxRing.finish u r)) t := by
  cases e with
  | iteration =>
    simp only [TxRing.start, Option.ite_none_left_eq_some, Option.some.injEq, Prod.mk.injEq] at he
    obtain ⟨-, rfl, rfl⟩ := he
    have h' : Idle base n { s with loc := .loop } :=
      h.of_regs (h.ok.of_eq rfl rfl rfl rfl) rfl rfl (fun _ _ => rfl) rfl rfl rfl rfl
    exact ⟨h'.mid, (iteration_ok hW hb hn hn' h'.conf h'.tail h'.ok h'.sent).mono
      fun r u ⟨hu, hp⟩ => h'.passed hn hu hp⟩
  | done =>
    simp only [TxRing.start, Option.ite_none_left_eq_some, Option.some.injEq, Prod.mk.injEq] at he
    obtain ⟨-, rfl, rfl⟩ := he
    have h' : Idle base n { s with loc := .done } :=
      h.of_regs (h.ok.of_eq rfl rfl rfl rfl) rfl rfl (fun _ _ => rfl) rfl rfl rfl rfl
    exact ⟨h'.mid, (processTxDone_ok (s := { s with loc := .done }) hW h'.conf.bridge hn hn' h'.ok h'.mid.2).mono
      fun r u ⟨hu, hk, hr⟩ => h'.finish_done hu hk hr⟩

end Idle

/-- What holds throughout every run of a machine with the parts of `process_tx`. -/
theorem run_mid {κ : Type} {fails : Prop}
    {M : Machine TxRing TxHost κ NicOp NicOp.Res TxIdle TxPart (SmartNic × Option Nat)}
    (hW : Runs base n driver fails M.toWorld) (hidle : M.idle = idle)
    (hstart : ∀ {s e x}, M.start s e = some x → TxRing.start driver s e = some x) (hfinish : M.finish = finish)
    (hb : base ≠ 0) (hn : 0 < n) {s : TxRing} {t : Machine.State NicOp NicOp.Res _ TxRing}
    {es : List (Machine.Event TxHost κ TxIdle TxPart)} (h0 : Start base n s)
    (h : run M.step ⟨s, none⟩ es = some t) : M.Inv (Mid base n) (Idle base n) t := by
  have hn' : n < 2 ^ 32 := h0.conf.size ▸ BitVec.isLt _
  refine Machine.inv (fun _ h => h.mid) (fun _ _ _ h he => ?_) (fun _ _ _ h he => h.env hn hn' (hW.env he))
    (fun _ e _ h he => h.idle (e := e) (hidle ▸ he)) (fun _ _ _ _ h he => ?_) (.start h0) h
  · exact ⟨h.1.env hn hn' (hW.env he), (Kept.env (hW.env he)).sent_initial h.2⟩
  · rw [hfinish]
    exact h.start_part hW hb hn hn' (hstart he)

/-- What holds throughout every run. -/
theorem run_ok (hb : base ≠ 0) (hn : 0 < n) {s : TxRing} {t : Machine.State NicOp NicOp.Res _ TxRing}
    {es : List (Machine.Event TxHost Unit TxIdle TxPart)} (h0 : Start base n s)
    (h : run (machine base n driver).step ⟨s, none⟩ es = some t) :
    (machine base n driver).Inv (Mid base n) (Idle base n) t :=
  run_mid Runs.exact rfl id rfl hb hn h0 h

/-- In every state between passes, whatever was posted, rung and run before: the
frames sent are the first of those posted, the tail is their number modulo `n`,
their descriptors are given back with address and length as posted, as long as
nothing was posted to their entries again, and no other memory has changed. -/
theorem tx_in_order (hb : base ≠ 0) (hn : 0 < n) {s : TxRing}
    {t : Machine.State NicOp NicOp.Res (SmartNic × Option Nat) TxRing}
    {es : List (Machine.Event TxHost Unit TxIdle TxPart)} (h0 : Start base n s)
    (h : run (machine base n false).step ⟨s, none⟩ es = some t) (hcur : t.cur = none) :
    t.st.sent <+: t.st.posted.map TxFrame.bytes ∧
    (∀ f ∈ t.st.posted, f.bytes.length = f.desc.length.toNat) ∧
    (t.st.nic.reg SC_REG_TX_TAIL).toNat = t.st.sent.length % n ∧
    (∀ j f, j < t.st.sent.length → t.st.posted.length ≤ j + n → t.st.posted[j]? = some f →
      (entry base t.st.mem (j % n)).own = false ∧ (entry base t.st.mem (j % n)).done = true ∧
      (entry base t.st.mem (j % n)).addr = f.desc.addr ∧
      (entry base t.st.mem (j % n)).length = f.desc.length) ∧
    ∀ x, t.st.mem x ≠ t.st.hostMem x → ∃ j < t.st.sent.length, t.st.posted.length ≤ j + n ∧
      x ∈ entryRegion base (j % n) := by
  have hi := (run_ok hb hn h0 h).idle hcur
  have hlen : t.st.sent.length = t.st.completed := by
    rw [hi.sent, List.length_map, List.length_take, Nat.min_eq_left hi.ok.le]
  refine ⟨?_, hi.ok.len, ?_, fun j f hj hroom hf => ?_, fun x hx => ?_⟩
  · rw [hi.sent]
    exact (List.take_prefix _ _).map _
  · rw [hlen]; exact hi.tail
  · have hlast := lastIn_of_lt (List.getElem?_eq_some_iff.mp hf).1 hroom
    have he := hi.ok.entry _ (Nat.mod_lt j hn) j f hlast hf
    rw [if_pos (hlen ▸ hj)] at he
    rw [he]
    exact ⟨SmartEthDesc.own_complete _, SmartEthDesc.done_complete _, rfl, rfl⟩
  · obtain ⟨i, -, j, hl, hj, hxi⟩ := hi.ok.frame x hx
    obtain ⟨-, rfl⟩ := lastIn_lt hl
    exact ⟨j, hlen ▸ hj, lastIn_room hn hl, hxi⟩

/-- A ring of two at `0x1000`. -/
def exampleRing : TxRing where
  nic := { ((SmartNic.new.setReg SC_REG_TX_RING_BASE_LO 0x1000).setReg SC_REG_TX_RING_SIZE 2) with
    bridge := true, netif := true }
  mem := fun _ => 0
  hostMem := fun _ => 0
  posted := []
  completed := 0
  sent := []
  rung := []
  handled := 0
  merged := 0
  loc := .wait
  notified := false

theorem exampleRing_start : Start 0x1000 2 exampleRing :=
  ⟨⟨rfl, rfl, by decide, by decide⟩, by decide, rfl, rfl, rfl, rfl, by decide⟩

/-- The host posts a frame, and a pass sends it. -/
def examplePass (data : List Byte) : List (Machine.Event TxHost Unit TxIdle TxPart) :=
  [.env (.write 0x2000 data), .env (.post ⟨0x2000, 4, SMARTETH_DESC_FLAG_OWN⟩), .env (.ring 1), .idle .doorbell,
    .idle .wake, .start .iteration, .act (), .act (), .act (), .act (), .finish, .start .iteration, .finish,
    .start .done, .finish]

/-- Three frames go through a ring of two. -/
def exampleThree : List (Machine.Event TxHost Unit TxIdle TxPart) :=
  examplePass [1, 2, 3, 4] ++ examplePass [5, 6, 7, 8] ++ examplePass [9, 10, 11, 12]

theorem tx_in_order_three : ∃ t, run (machine 0x1000 2 false).step ⟨exampleRing, none⟩ exampleThree = some t ∧
    t.st.sent = [[1, 2, 3, 4], [5, 6, 7, 8], [9, 10, 11, 12]] ∧ t.st.sent <+: t.st.posted.map TxFrame.bytes ∧
    (t.st.nic.reg SC_REG_TX_TAIL).toNat = 3 % 2 := by
  have hr : ((run (machine 0x1000 2 false).step ⟨exampleRing, none⟩ exampleThree).map fun t =>
      (t.cur.isNone, t.st.sent)) = some (true, [[1, 2, 3, 4], [5, 6, 7, 8], [9, 10, 11, 12]]) := by decide +kernel
  obtain ⟨t, ht, he⟩ := Option.map_eq_some_iff.mp hr
  rw [Prod.mk.injEq, Option.isNone_iff_eq_none] at he
  have h := tx_in_order (by decide) (by decide) exampleRing_start ht he.1
  refine ⟨t, ht, he.2, h.1, ?_⟩
  rw [h.2.2.1, he.2]; rfl

end SmartEth.TxRing
