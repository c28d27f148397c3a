import SmartEth.Proof.Buffers
import SmartEth.System.Publish

/-!
# Guest memory under the writes on their way

`MemOk` is what holds of guest memory at any time: buffers in use overlap nothing
they should not, and what `live` says of a write-back is so (`Stands`). `Batch`
is what the writes on their way can be: at most one frame's bytes and the
write-back after them, or one write-back of the transmit ring. The host keeps
both, and so does QEMU when it does the first of the writes (`Batch.store`).
-/

namespace SmartEth

def PubMsg.isWrite : PubMsg → Bool
  | .write _ _ _ => true
  | _ => false

namespace Publish

open SmartNic DescRing

/-- The rings fit the address space, and do not overlap. -/
structure Fits (L : Layout) : Prop where
  rx : L.rxSize < 2 ^ 32
  tx : L.txSize < 2 ^ 32
  rings : (rxRing L).Disjoint (txRing L)

/-! ## Write-backs -/

/-- An entry of one of the rings. -/
def Slot (L : Layout) (a : Addr) : Prop :=
  (∃ i < L.rxSize, a = entryAddr L.rxBase i) ∨ ∃ j < L.txSize, a = entryAddr L.txBase j

variable {L : Layout}

/-- The range of an entry lies in a ring; a range outside both rings misses it. -/
theorem Slot.outside {a : Addr} {r : Region 64} (h : Slot L a) (hr : r.Disjoint (rxRing L))
    (ht : r.Disjoint (txRing L)) : r.Disjoint ⟨a, SmartEthDesc.size⟩ := by
  rcases h with ⟨i, hi, rfl⟩ | ⟨j, hj, rfl⟩
  · exact hr.sub_right (slot_sub_table hi)
  · exact ht.sub_right (slot_sub_table hj)

theorem Slot.disjoint (hL : Fits L) {a b : Addr} (ha : Slot L a) (hb : Slot L b) (h : a ≠ b) :
    (⟨a, SmartEthDesc.size⟩ : Region 64).Disjoint ⟨b, SmartEthDesc.size⟩ := by
  rcases ha with ⟨i, hi, rfl⟩ | ⟨i, hi, rfl⟩ <;> rcases hb with ⟨j, hj, rfl⟩ | ⟨j, hj, rfl⟩
  · exact slot_disjoint (size_le hL.rx) hi hj fun e => h (e ▸ rfl)
  · exact (hL.rings.sub_left (slot_sub_table hi)).sub_right (slot_sub_table hj)
  · exact (hL.rings.symm.sub_left (slot_sub_table hi)).sub_right (slot_sub_table hj)
  · exact slot_disjoint (size_le hL.tx) hi hj fun e => h (e ▸ rfl)

/-- A write-back of a received frame: the descriptor is the host's and done, and
the bytes are in its buffer. -/
structure Frame (L : Layout) (m : GuestMem) (a : Addr) (d : SmartEthDesc) (bs : List Byte) : Prop where
  slot : ∃ i < L.rxSize, a = entryAddr L.rxBase i
  own : d.own = false
  done : d.done = true
  length : d.length.toNat = bs.length
  buf : m.read d.addr bs.length = bs

/-- A write-back as it was done. -/
structure Stands (L : Layout) (m : GuestMem) (a : Addr) (b : Back) : Prop where
  slot : Slot L a
  desc : descAt m a = b.desc
  frame : ∀ bs, b.frame = some bs → Frame L m a b.desc bs

/-- A write that misses the descriptor and the frame's bytes. -/
theorem Stands.write {m : GuestMem} {a w : Addr} {b : Back} {data : List Byte} (h : Stands L m a b)
    (hd : (⟨a, SmartEthDesc.size⟩ : Region 64).Disjoint ⟨w, data.length⟩)
    (hf : b.frame.isSome → (bufRegion b.desc).Disjoint ⟨w, data.length⟩) :
    Stands L (m.write w data) a b := by
  refine ⟨h.slot, by rw [descAt_write_disjoint hd, h.desc], fun bs hbs => ?_⟩
  have hfr := h.frame bs hbs
  refine ⟨hfr.slot, hfr.own, hfr.done, hfr.length, ?_⟩
  have hb := hf (by rw [hbs]; rfl)
  rw [bufRegion, hfr.length] at hb
  rw [Mem.read_write_disjoint hb, hfr.buf]

structure MemOk (L : Layout) (m : GuestMem) (live : Addr → Option Back) : Prop where
  rx : Clear L.rxBase L.rxSize m (rxRing L)
  tx : Clear L.rxBase L.rxSize m (txRing L)
  bufs : Apart L.rxBase L.rxSize m
  live : ∀ a b, live a = some b → Stands L m a b

namespace MemOk

variable {m : GuestMem} {live : Addr → Option Back}

/-- The entry of a frame that stands. -/
theorem frame_entry (h : MemOk L m live) {a : Addr} {b : Back} (hl : live a = some b)
    (hf : b.frame.isSome) : ∃ i < L.rxSize, entry L.rxBase m i = b.desc ∧ b.desc.own = false ∧ b.desc.done := by
  obtain ⟨bs, hbs⟩ := Option.isSome_iff_exists.mp hf
  have hs := h.live a b hl
  obtain ⟨⟨i, hi, rfl⟩, ho, hd, -, -⟩ := hs.frame bs hbs
  exact ⟨i, hi, hs.desc, ho, hd⟩

/-- A descriptor is written to an entry, and what stands there is `x`. -/
theorem live_slot (h : MemOk L m live) (hL : Fits L) {w : Addr} (hw : Slot L w) (d : SmartEthDesc)
    {x : Option Back} (hx : ∀ b, x = some b → Stands L (m.write w d.toBytes) w b) :
    ∀ a b, (if a = w then x else live a) = some b → Stands L (m.write w d.toBytes) a b := by
  intro a b hl
  by_cases e : a = w
  · rw [if_pos e] at hl
    rw [e]; exact hx b hl
  · rw [if_neg e] at hl
    have hs := h.live a b hl
    refine hs.write ?_ fun hf => ?_ <;> rw [d.length_toBytes]
    · exact hs.slot.disjoint hL hw e
    · obtain ⟨i, hi, he, -, hdone⟩ := h.frame_entry hl hf
      have hu : InUse (entry L.rxBase m i) := .inr (he ▸ hdone)
      rw [← he]
      exact hw.outside (h.rx i hi hu) (h.tx i hi hu)

/-- An entry of the receive ring changes. -/
theorem rxSlot (h : MemOk L m live) (hL : Fits L) {i : Nat} (hi : i < L.rxSize) {d : SmartEthDesc}
    {x : Option Back}
    (hd : InUse d → (bufRegion d).Disjoint (rxRing L) ∧ (bufRegion d).Disjoint (txRing L) ∧
      ∀ j < L.rxSize, j ≠ i → InUse (entry L.rxBase m j) →
        (bufRegion d).Disjoint (bufRegion (entry L.rxBase m j)))
    (hx : ∀ b, x = some b → Stands L (m.write (entryAddr L.rxBase i) d.toBytes) (entryAddr L.rxBase i) b) :
    MemOk L (m.write (entryAddr L.rxBase i) d.toBytes)
      fun a => if a = entryAddr L.rxBase i then x else live a :=
  ⟨h.rx.desc hL.rx hi fun hu => (hd hu).1, h.tx.desc hL.rx hi fun hu => (hd hu).2.1,
    h.bufs.desc hL.rx hi fun hu => (hd hu).2.2, h.live_slot hL (.inl ⟨i, hi, rfl⟩) d hx⟩

/-- An entry of the transmit ring is outside the receive ring. -/
theorem txSlot_outside (hL : Fits L) {j : Nat} (hj : j < L.txSize) (d : SmartEthDesc) :
    (⟨entryAddr L.txBase j, d.toBytes.length⟩ : Region 64).Disjoint (rxRing L) := by
  rw [d.length_toBytes]
  exact hL.rings.symm.sub_left (slot_sub_table hj)

/-- An entry of the transmit ring changes. -/
theorem txSlot (h : MemOk L m live) (hL : Fits L) {j : Nat} (hj : j < L.txSize) {d : SmartEthDesc}
    {x : Option Back}
    (hx : ∀ b, x = some b → Stands L (m.write (entryAddr L.txBase j) d.toBytes) (entryAddr L.txBase j) b) :
    MemOk L (m.write (entryAddr L.txBase j) d.toBytes)
        (fun a => if a = entryAddr L.txBase j then x else live a) ∧
      Held L.rxBase L.rxSize m (m.write (entryAddr L.txBase j) d.toBytes) := by
  have ho := txSlot_outside hL hj d
  refine ⟨⟨h.rx.outside ho, h.tx.outside ho, h.bufs.outside ho, h.live_slot hL (.inr ⟨j, hj, rfl⟩) d hx⟩,
    .outside ho fun i hi hown => ?_⟩
  rw [d.length_toBytes]
  exact ((h.tx i hi (.inl hown)).sub_right (slot_sub_table hj)).symm

/-- A write outside the rings, after which only frames it misses stand. -/
theorem outside (h : MemOk L m live) {w : Addr} {data : List Byte} {live' : Addr → Option Back}
    (hr : (⟨w, data.length⟩ : Region 64).Disjoint (rxRing L))
    (ht : (⟨w, data.length⟩ : Region 64).Disjoint (txRing L))
    (hl : ∀ a b, live' a = some b → live a = some b ∧
      (b.frame.isSome → (bufRegion b.desc).Disjoint ⟨w, data.length⟩)) :
    MemOk L (m.write w data) live' := by
  refine ⟨h.rx.outside hr, h.tx.outside hr, h.bufs.outside hr, fun a b hb => ?_⟩
  obtain ⟨hb, hf⟩ := hl a b hb
  have hs := h.live a b hb
  exact hs.write (hs.slot.outside hr ht).symm hf

end MemOk

/-! ## The writes on their way -/

/-- The write-back of a frame received: descriptor `d` in entry `i`, with `bs` in its buffer. -/
def rxBack (L : Layout) (i : Nat) (d : SmartEthDesc) (bs : List Byte) (act : Act) : PubMsg :=
  .write (entryAddr L.rxBase i) (rxComplete d bs.length).toBytes
    (some ⟨act, entryAddr L.rxBase i, rxComplete d bs.length, some bs⟩)

def txBack (L : Layout) (j : Nat) (d : SmartEthDesc) (act : Act) : PubMsg :=
  .write (entryAddr L.txBase j) d.toBytes (some ⟨act, entryAddr L.txBase j, d, none⟩)

/-- A write to an entry gives a descriptor back. -/
theorem gives_back {a : Addr} (ha : a ∈ rxRing L ∨ a ∈ txRing L) (d : SmartEthDesc) :
    d.toBytes ≠ [] ∧ (a ∈ rxRing L ∨ a ∈ txRing L) :=
  ⟨List.ne_nil_of_length_pos (by rw [d.length_toBytes]; decide), ha⟩

theorem write_rxBack {s : Publish} {i : Nat} (hi : i < L.rxSize) {c : Nat} (hnow : s.now = .rx c)
    {d : SmartEthDesc} {bs : List Byte} (hlen : bs.length ≤ d.length.toNat)
    (hf : s.frame.take bs.length = bs) :
    PubMsg.write (entryAddr L.rxBase i) (rxComplete d bs.length).toBytes
      (s.backOf L (entryAddr L.rxBase i) (rxComplete d bs.length).toBytes) = rxBack L i d bs (.rx c) := by
  rw [backOf, if_pos (gives_back (.inl (entryAddr_mem hi)) _), hnow]
  dsimp only
  rw [SmartEthDesc.ofBytes_toBytes, length_rxComplete hlen, hf, rxBack]

theorem write_txBack {s : Publish} {j : Nat} (hj : j < L.txSize) {c : Nat} (hnow : s.now = .tx c)
    (d : SmartEthDesc) : PubMsg.write (entryAddr L.txBase j) d.toBytes
      (s.backOf L (entryAddr L.txBase j) d.toBytes) = txBack L j d (.tx c) := by
  rw [backOf, if_pos (gives_back (.inr (entryAddr_mem hj)) _), hnow]
  dsimp only
  rw [SmartEthDesc.ofBytes_toBytes, txBack]

/-- The NIC owns descriptor `d`, and has sent `bs` for its buffer, then `rest`:
either they are all on their way, or `bs` is there and `rest` is. -/
structure Filling (L : Layout) (m : GuestMem) (i : Nat) (d : SmartEthDesc) (bs : List Byte)
    (rest ws : List PubMsg) : Prop where
  lt : i < L.rxSize
  entry : entry L.rxBase m i = d
  own : d.own = true
  len : bs.length ≤ d.length.toNat
  max : bs.length ≤ DMA_BUF_SIZE
  ws : ws = .write d.addr bs none :: rest ∨ ws = rest ∧ m.read d.addr bs.length = bs

inductive Batch (L : Layout) (m : GuestMem) : List PubMsg → Prop where
  | none : Batch L m []
  | fill {i d bs ws} (h : Filling L m i d bs [] ws) : Batch L m ws
  | rx {i d bs act ws} (h : Filling L m i d bs [rxBack L i d bs act] ws) : Batch L m ws
  | tx {j d act} (hj : j < L.txSize) : Batch L m [txBack L j d act]

variable {m m' : GuestMem} {live : Addr → Option Back} {i : Nat} {d : SmartEthDesc} {bs : List Byte}
  {ws rest : List PubMsg}

theorem Filling.held (h : Filling L m i d bs rest ws) (hm : Held L.rxBase L.rxSize m m') :
    Filling L m' i d bs rest ws := by
  have ho : (DescRing.entry L.rxBase m i).own = true := h.entry ▸ h.own
  have hb := hm.buf i h.lt ho bs.length (by rw [h.entry]; exact h.len)
  rw [h.entry] at hb
  refine ⟨h.lt, (hm.entry i h.lt ho).trans h.entry, h.own, h.len, h.max, ?_⟩
  rw [hb]
  exact h.ws

/-- Another message is sent. -/
theorem Filling.snoc (h : Filling L m i d bs rest ws) (x : PubMsg) :
    Filling L m i d bs (rest ++ [x]) (ws ++ [x]) := by
  refine ⟨h.lt, h.entry, h.own, h.len, h.max, ?_⟩
  rcases h.ws with e | ⟨e, hr⟩
  · exact .inl (by rw [e]; rfl)
  · exact .inr ⟨by rw [e], hr⟩

theorem Batch.held (h : Batch L m ws) (hm : Held L.rxBase L.rxSize m m') : Batch L m' ws := by
  cases h with
  | none => exact .none
  | fill h => exact .fill (h.held hm)
  | rx h => exact .rx (h.held hm)
  | tx hj => exact .tx hj

/-- The buffer that is being filled is outside the rings. -/
theorem Filling.outside (h : Filling L m i d bs rest ws) (hm : MemOk L m live) :
    (⟨d.addr, bs.length⟩ : Region 64).Disjoint (rxRing L) ∧
      (⟨d.addr, bs.length⟩ : Region 64).Disjoint (txRing L) := by
  have hu : InUse (DescRing.entry L.rxBase m i) := .inl (h.entry ▸ h.own)
  have h1 := hm.rx i h.lt hu
  have h2 := hm.tx i h.lt hu
  rw [h.entry] at h1 h2
  exact ⟨h1.sub_left (Region.mem_of_le h.len), h2.sub_left (Region.mem_of_le h.len)⟩

/-- The bytes of a frame give no descriptor back. -/
theorem Filling.backOf (h : Filling L m i d bs rest ws) (hm : MemOk L m live) (s : Publish) :
    s.backOf L d.addr bs = none := by
  obtain ⟨hr, ht⟩ := h.outside hm
  refine if_neg fun hin => ?_
  obtain ⟨hne, hmem⟩ := hin
  have ha : d.addr ∈ (⟨d.addr, bs.length⟩ : Region 64) := by
    rw [Region.mem_def, BitVec.sub_self]
    exact List.length_pos_of_ne_nil hne
  exact hmem.elim (hr _ ha) (ht _ ha)

/-- The bytes are stored. -/
theorem Filling.store (h : Filling L m i d bs rest (.write d.addr bs none :: rest)) (hm : MemOk L m live) :
    Filling L (m.write d.addr bs) i d bs rest rest ∧ MemOk L (m.write d.addr bs) live := by
  obtain ⟨hr, ht⟩ := h.outside hm
  have hmax := d.length.isLt
  have hlen := h.len
  refine ⟨⟨h.lt, (entry_write_outside h.lt hr).trans h.entry, h.own, h.len, h.max,
    .inr ⟨rfl, Mem.read_write_self _ _ _ (by omega)⟩⟩, hm.outside hr ht fun a b hb => ⟨hb, fun hf => ?_⟩⟩
  -- a frame that stands is in another buffer
  obtain ⟨k, hk, he, ho, hd⟩ := hm.frame_entry hb hf
  have hki : k ≠ i := fun e => by
    have := h.own
    rw [← h.entry, ← e, he, ho] at this; cases this
  have hdis := hm.bufs k hk i h.lt hki (.inr (he ▸ hd)) (.inl (h.entry ▸ h.own))
  rw [he, h.entry] at hdis
  exact hdis.sub_right (Region.mem_of_le h.len)

/-- The write-back is stored. -/
theorem Filling.back (h : Filling L m i d bs rest rest) (hL : Fits L) (hm : MemOk L m live)
    (hbuf : m.read d.addr bs.length = bs) (act : Act) :
    MemOk L (m.write (entryAddr L.rxBase i) (rxComplete d bs.length).toBytes) fun a =>
      if a = entryAddr L.rxBase i then
        some ⟨act, entryAddr L.rxBase i, rxComplete d bs.length, some bs⟩ else live a := by
  have hlen := length_rxComplete h.len
  -- the new buffer is part of the old one
  have hsub : ∀ x ∈ bufRegion (rxComplete d bs.length), x ∈ bufRegion (DescRing.entry L.rxBase m i) := by
    rw [h.entry, bufRegion, bufRegion, hlen]
    exact Region.mem_of_le h.len
  have hu : InUse (DescRing.entry L.rxBase m i) := .inl (h.entry ▸ h.own)
  refine hm.rxSlot hL h.lt (fun _ => ⟨(hm.rx i h.lt hu).sub_left hsub, (hm.tx i h.lt hu).sub_left hsub,
    fun j hj hji hj' => (hm.bufs i h.lt j hj (Ne.symm hji) hu hj').sub_left hsub⟩) fun b hb => ?_
  rw [Option.some.injEq] at hb
  subst hb
  refine ⟨.inl ⟨i, h.lt, rfl⟩, entry_write_self _ _ _, fun bs' hbs' => ?_⟩
  rw [Option.some.injEq] at hbs'
  subst hbs'
  refine ⟨⟨i, h.lt, rfl⟩, SmartEthDesc.own_complete d, SmartEthDesc.done_complete d, hlen, ?_⟩
  have hb := @buf_write_entry _ _ m _ (rxComplete d bs.length) i h.lt ((hm.rx i h.lt hu).sub_left hsub)
  rw [hlen] at hb
  exact hb.trans hbuf

/-- What stands once a message has been handled. -/
def liveAfter (live : Addr → Option Back) : Option Back → Addr → Option Back
  | some b => fun a => if a = b.addr then some b else live a
  | none => live

/-- The first of the writes is done. -/
theorem Batch.store {w : Addr} {data : List Byte} {back : Option Back}
    (h : Batch L m (.write w data back :: ws)) (hL : Fits L) (hm : MemOk L m live) :
    data.length ≤ DMA_BUF_SIZE ∧ Batch L (m.write w data) ws ∧ MemOk L (m.write w data) (liveAfter live back) := by
  have hsize : ∀ d : SmartEthDesc, d.toBytes.length ≤ DMA_BUF_SIZE := fun d => by
    rw [d.length_toBytes]; decide
  generalize hws : PubMsg.write w data back :: ws = ws' at h
  cases h with
  | none => cases hws
  | fill h =>
    rcases h.ws with e | ⟨e, -⟩
    · obtain ⟨⟨rfl, rfl, rfl⟩, rfl⟩ : (w = _ ∧ data = _ ∧ back = _) ∧ ws = _ := by simpa using hws.trans e
      subst e
      exact ⟨h.max, .fill (h.store hm).1, (h.store hm).2⟩
    · rw [e] at hws; cases hws
  | @rx i d bs act _ h =>
    rcases h.ws with e | ⟨e, hb⟩
    · obtain ⟨⟨rfl, rfl, rfl⟩, rfl⟩ : (w = _ ∧ data = _ ∧ back = _) ∧ ws = _ := by simpa using hws.trans e
      subst e
      exact ⟨h.max, .rx (h.store hm).1, (h.store hm).2⟩
    · obtain ⟨⟨rfl, rfl, rfl⟩, rfl⟩ : (w = _ ∧ data = _ ∧ back = _) ∧ ws = _ := by
        simpa [rxBack] using hws.trans e
      subst e
      exact ⟨hsize _, .none, h.back hL hm hb act⟩
  | @tx j d act hj =>
    obtain ⟨⟨rfl, rfl, rfl⟩, rfl⟩ : (w = _ ∧ data = _ ∧ back = _) ∧ ws = _ := by simpa [txBack] using hws
    refine ⟨hsize _, .none, (hm.txSlot hL hj fun b hb => ?_).1⟩
    rw [Option.some.injEq] at hb
    subst hb
    exact ⟨.inr ⟨j, hj, rfl⟩, descAt_write_self _ _ _, fun _ hf => by cases hf⟩

end Publish

end SmartEth
