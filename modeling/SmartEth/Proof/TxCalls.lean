import SmartEth.System.TxCalls
import SmartEth.Proof.TxPosition

/-!
# TX tests and any NIC

A descriptor is the NIC's exactly while the frame posted last in its entry has not been given
back (`Owned`), and `tx_head` is the entry of the next frame. A call, which never looks at OWN,
then overwrites a descriptor of the NIC exactly if the frame of a whole ring before is still out
(`clear_iff_room`).
-/

namespace SmartEth

open SmartEthMain

/-! ## Parts of a descriptor -/

namespace DescRing

variable {base : Addr}

theorem flags_entry (m : GuestMem) (i : Nat) :
    (entry base m i).flags = ofLeBytes 32 (m.read (entryAddr base i + 12) 4) := by
  have hdrop : (m.read (entryAddr base i) SmartEthDesc.size).drop 12 = m.read (entryAddr base i + 12) 4 := by
    simp [Mem.read, SmartEthDesc.size, List.range_succ, BitVec.add_assoc]
  rw [entry, descAt, SmartEthDesc.ofBytes, hdrop]

/-- A store that leaves the flags alone. -/
theorem own_write_of_disjoint {m : GuestMem} {a : Addr} {bs : List Byte} {i : Nat}
    (h : (⟨entryAddr base i + 12, 4⟩ : Region 64).Disjoint ⟨a, bs.length⟩) :
    (entry base (m.write a bs) i).own = (entry base m i).own := by
  rw [SmartEthDesc.own, SmartEthDesc.own, flags_entry, flags_entry, Mem.read_write_disjoint h]

theorem own_write_flags (m : GuestMem) (i : Nat) (flags : Word) :
    (entry base (m.write (entryAddr base i + 12) (leBytes flags)) i).own =
      (flags &&& SMARTETH_DESC_FLAG_OWN != 0) := by
  have h := Mem.read_write_self m (entryAddr base i + 12) (leBytes flags) (by rw [length_leBytes]; decide)
  rw [length_leBytes] at h
  rw [SmartEthDesc.own, flags_entry, h]
  have hl := ofLeBytes_leBytes (w := 32) (by decide) flags []
  rw [List.append_nil] at hl
  rw [hl]

/-- A part of an entry. -/
theorem part_sub_entry {a : Addr} {k len : Nat} (h : k + len ≤ SmartEthDesc.size) :
    ∀ x ∈ (⟨a + BitVec.ofNat 64 k, len⟩ : Region 64), x ∈ (⟨a, SmartEthDesc.size⟩ : Region 64) := by
  intro x hx
  rw [Region.mem_def] at hx ⊢
  have hk : SmartEthDesc.size = 16 := rfl
  have he : x - a = x - (a + BitVec.ofNat 64 k) + BitVec.ofNat 64 k := by
    ring
  rw [he, BitVec.toNat_add, BitVec.toNat_ofNat]
  dsimp only at hx ⊢
  omega

/-- Two parts, one after the other. -/
theorem parts_disjoint {a : Addr} {k l k' l' : Nat} (h : k + l ≤ k') (h' : k' + l' ≤ SmartEthDesc.size) :
    (⟨a + BitVec.ofNat 64 k', l'⟩ : Region 64).Disjoint ⟨a + BitVec.ofNat 64 k, l⟩ := by
  intro x hx hx'
  rw [Region.mem_def] at hx hx'
  have hs : SmartEthDesc.size = 16 := rfl
  have he : x - (a + BitVec.ofNat 64 k) = x - (a + BitVec.ofNat 64 k') + BitVec.ofNat 64 (k' - k) := by
    rw [show BitVec.ofNat 64 k' = BitVec.ofNat 64 k + BitVec.ofNat 64 (k' - k) by
      rw [← BitVec.ofNat_add, Nat.add_sub_cancel' (by omega)]]
    ring
  rw [he, BitVec.toNat_add, BitVec.toNat_ofNat] at hx'
  dsimp only at hx hx'
  omega

/-- The flags of an entry, and a part of another. -/
theorem flags_disjoint_part {i j k len : Nat} (hi : i < SMARTETH_RING_SIZE) (hj : j < SMARTETH_RING_SIZE) (hne : i ≠ j)
    (hk : k + len ≤ SmartEthDesc.size) :
    (⟨entryAddr base i + 12, 4⟩ : Region 64).Disjoint ⟨entryAddr base j + BitVec.ofNat 64 k, len⟩ :=
  ((slot_disjoint (size_le (n := SMARTETH_RING_SIZE) (by decide)) hi hj hne).sub_left
    (part_sub_entry (k := 12) (by decide))).sub_right (part_sub_entry hk)

end DescRing

namespace TxCalls

variable {s t : TxCalls}

/-! ## What is the NIC's -/

/-- A descriptor is the NIC's exactly while the last frame in its entry has not been given back. -/
structure Owned (s : TxCalls) : Prop where
  own : ∀ i < SMARTETH_RING_SIZE, ((s.desc i).own = true ↔
    ∃ j, lastIn SMARTETH_RING_SIZE s.posted i = some j ∧ s.given j = false)
  lt : ∀ j, s.given j = true → j < s.posted

theorem owned_start (ring : Addr) (mem : GuestMem) : Owned (start ring mem) := by
  refine ⟨fun i hi => ?_, fun j hj => by cases hj⟩
  rw [desc, start, DriverNic.NoneOwn.zeros mem ring i hi]
  refine iff_of_false (by decide) ?_
  rintro ⟨j, hj, -⟩
  cases hj

/-- The entry of the next frame. -/
theorem Owned.next_iff (h : Owned s) : (s.desc (s.posted % SMARTETH_RING_SIZE)).own = true ↔
    ¬ (SMARTETH_RING_SIZE ≤ s.posted → s.given (s.posted - SMARTETH_RING_SIZE) = true) := by
  rw [h.own _ (Nat.mod_lt _ (by decide)), lastIn_mod (by decide)]
  by_cases hle : SMARTETH_RING_SIZE ≤ s.posted
  · simp [hle]
  · simp [hle]

/-- A store outside the ring, or to a part of it that is not of the flags. -/
theorem Owned.write {addr : Addr} {data : List Byte} (h : Owned s)
    (hd : ∀ i < SMARTETH_RING_SIZE, (⟨DescRing.entryAddr s.adapter.txRing i + 12, 4⟩ : Region 64).Disjoint
      ⟨addr, data.length⟩) : Owned { s with mem := s.mem.write addr data } := by
  refine ⟨fun i hi => ?_, h.lt⟩
  rw [← h.own i hi]
  exact iff_of_eq (congrArg (· = true) (DescRing.own_write_of_disjoint (hd i hi)))

/-- The address or the length of a descriptor is stored. -/
theorem Owned.writePart {ring : Addr} {i n : Nat} {data : List Byte} (h : Owned s) (ha : s.adapter.txRing = ring)
    (hi : i < SMARTETH_RING_SIZE) (hn : n + data.length ≤ 12) :
    Owned { s with mem := s.mem.write (entry ring i + BitVec.ofNat 64 n) data } := by
  refine h.write fun j hj => ?_
  rw [ha]
  by_cases hji : j = i
  · have hend : 12 + 4 ≤ SmartEthDesc.size := by decide
    rw [hji]
    exact DescRing.parts_disjoint hn hend
  · exact DescRing.flags_disjoint_part hj hi hji (le_trans hn (by decide))

/-- The flags of the next descriptor are stored: its entry holds the new frame, which is out. -/
theorem Owned.post {ring : Addr} {i : Nat} (h : Owned s) (ha : s.adapter.txRing = ring)
    (hi : i = s.posted % SMARTETH_RING_SIZE) :
    Owned { s with mem := s.mem.write (entry ring i + 12) (leBytes DESC_FLAG_OWN), posted := s.posted + 1 } := by
  have hlt : i < SMARTETH_RING_SIZE := hi ▸ Nat.mod_lt _ (by decide)
  refine ⟨fun k hk => ?_, fun j hj => Nat.lt_succ_of_lt (h.lt j hj)⟩
  dsimp only
  rw [desc]
  dsimp only
  rw [ha]
  by_cases hki : k = i
  · have hown : (DescRing.entry ring (s.mem.write (DescRing.entryAddr ring k + 12) (leBytes DESC_FLAG_OWN))
        k).own = true := by
      rw [DescRing.own_write_flags]
      decide
    have hout : s.given s.posted = false := by
      by_contra hg
      exact absurd (h.lt _ (by simpa using hg)) (lt_irrefl _)
    have hlast : lastIn SMARTETH_RING_SIZE (s.posted + 1) k = some s.posted := by
      rw [hki, hi]
      exact lastIn_succ_self _ _
    subst hki
    exact iff_of_true hown ⟨s.posted, hlast, hout⟩
  · have hkeep : (DescRing.entry ring (s.mem.write (entry ring i + 12) (leBytes DESC_FLAG_OWN)) k).own =
        (s.desc k).own := by
      rw [desc, ha]
      exact DescRing.own_write_of_disjoint (DescRing.flags_disjoint_part (k := 12) hk hlt hki (by decide))
    have hlast : lastIn SMARTETH_RING_SIZE (s.posted + 1) k = lastIn SMARTETH_RING_SIZE s.posted k :=
      lastIn_succ_ne fun he => hki (he.symm.trans hi.symm)
    rw [hkeep, hlast]
    exact h.own k hk

theorem flags_disjoint {ring addr : Addr} {len i : Nat} (hi : i < SMARTETH_RING_SIZE)
    (h : (⟨addr, len⟩ : Region 64).Disjoint (DescRing.ringRegion ring SMARTETH_RING_SIZE)) :
    (⟨DescRing.entryAddr ring i + 12, 4⟩ : Region 64).Disjoint ⟨addr, len⟩ :=
  h.symm.sub_left fun x hx => slot_sub_table hi x (DescRing.part_sub_entry (k := 12) (by decide) x hx)

theorem Owned.env {e : TxNicEvent} (h : Owned s) (he : s.env e = some t) :
    Owned t ∧ t.adapter = s.adapter ∧ t.posted = s.posted ∧ t.clear = s.clear ∧ t.room = s.room := by
  cases e with
  | write addr data =>
    simp only [TxCalls.env, Option.ite_none_right_eq_some, Option.some.injEq] at he
    obtain ⟨hd, rfl⟩ := he
    exact ⟨h.write fun i hi => flags_disjoint hi hd, rfl, rfl, rfl, rfl⟩
  | serve i d =>
    simp only [TxCalls.env, Option.ite_none_right_eq_some, Option.some.injEq] at he
    obtain ⟨⟨hi, ho⟩, rfl⟩ := he
    refine ⟨⟨fun k hk => ?_, fun j hj => ?_⟩, rfl, rfl, rfl, rfl⟩
    · obtain ⟨j, hj, hg⟩ := (h.own i hi).mp ho
      by_cases hki : k = i
      · -- its frame is given back if OWN is clear
        rw [hki, desc, DescRing.entry_write_self]
        constructor
        · intro hd
          exact ⟨j, hj, by simp [hg, hd]⟩
        · rintro ⟨j', hj', hg'⟩
          obtain rfl := Option.some.inj (hj.symm.trans hj')
          simpa [hg, hj] using hg'
      · have hne : ∀ j', lastIn SMARTETH_RING_SIZE s.posted k = some j' →
            lastIn SMARTETH_RING_SIZE s.posted i ≠ some j' :=
          fun j' hk' hi' => hki ((lastIn_lt hk').2.symm.trans (lastIn_lt hi').2)
        rw [desc, DescRing.entry_write_ne (by decide) hk hi hki]
        refine (h.own k hk).trans (exists_congr fun j' => and_congr_right fun hk' => ?_)
        simp [hne j' hk']
    · dsimp only at hj
      simp only [Bool.or_eq_true, Bool.and_eq_true, decide_eq_true_eq] at hj
      rcases hj with hj | ⟨-, hj⟩
      · exact h.lt j hj
      · exact (lastIn_lt hj).1

/-! ## A store into the ring -/

theorem touches_iff {a : Addr} {i k : Nat} {data : List Byte} (ha : a = DescRing.entryAddr s.adapter.txRing i)
    (hi : i < SMARTETH_RING_SIZE) (hd : data ≠ []) (hk : k + data.length ≤ SmartEthDesc.size) {j : Nat}
    (hj : j < SMARTETH_RING_SIZE) : s.Touches (a + BitVec.ofNat 64 k) data j ↔ j = i := by
  have hlen := List.length_pos_iff.mpr hd
  have hsub := DescRing.part_sub_entry (a := a) hk
  rw [Touches]
  constructor
  · intro h
    by_contra hji
    refine h (Region.Disjoint.sub_left ?_ hsub)
    rw [ha]
    exact slot_disjoint (DescRing.size_le (n := SMARTETH_RING_SIZE) (by decide)) hi hj (Ne.symm hji)
  · rintro rfl hdis
    have hm : a + BitVec.ofNat 64 k ∈ (⟨a + BitVec.ofNat 64 k, data.length⟩ : Region 64) := by
      rw [Region.mem_def, BitVec.sub_self]
      exact hlen
    exact hdis _ hm (ha ▸ hsub _ hm)

/-- A store into the entry of the next frame overwrites a descriptor of the NIC exactly if there is no room. -/
theorem Owned.overwrites_iff {a : Addr} {k : Nat} {data : List Byte} (h : Owned s)
    (ha : a = DescRing.entryAddr s.adapter.txRing (s.posted % SMARTETH_RING_SIZE)) (hd : data ≠ [])
    (hk : k + data.length ≤ SmartEthDesc.size) :
    s.Overwrites (.store (a + BitVec.ofNat 64 k) data) ↔ ¬ s.Room (.store (a + BitVec.ofNat 64 k) data) := by
  have hlt : s.posted % SMARTETH_RING_SIZE < SMARTETH_RING_SIZE := Nat.mod_lt _ (by decide)
  have ht : ∀ j < SMARTETH_RING_SIZE, (s.Touches (a + BitVec.ofNat 64 k) data j ↔ j = _) :=
    fun j hj => touches_iff ha hlt hd hk hj
  have hex : ∃ j < SMARTETH_RING_SIZE, s.Touches (a + BitVec.ofNat 64 k) data j := ⟨_, hlt, (ht _ hlt).mpr rfl⟩
  rw [Room, forall_prop_of_true hex, ← h.next_iff, Overwrites]
  constructor
  · rintro ⟨j, hj, htj, ho⟩
    rwa [(ht j hj).mp htj] at ho
  · intro ho
    exact ⟨_, hlt, (ht _ hlt).mpr rfl, ho⟩

/-! ## A call -/

/-- The last operation has overwritten a descriptor of the NIC exactly if it found no room. -/
def Balanced (s : TxCalls) : Prop := s.clear = s.room

/-- Between two calls. -/
structure Ready (s : TxCalls) : Prop where
  owned : Owned s
  head : s.adapter.txHead.toNat = s.posted % SMARTETH_RING_SIZE
  balanced : Balanced s

/-- What a call knows: the adapter, and how many frames have been posted. -/
structure Knows (a : Adapter) (p : Nat) (s : TxCalls) : Prop where
  owned : Owned s
  adapter : s.adapter = a
  posted : s.posted = p
  balanced : Balanced s

theorem Knows.env {a : Adapter} {p : Nat} (s : TxCalls) (e : TxNicEvent) (t : TxCalls) (h : Knows a p s)
    (he : machine.env s e = some t) : Knows a p t := by
  obtain ⟨ho, ha, hp, hc, hr⟩ := h.owned.env he
  exact ⟨ho, ha.trans h.adapter, hp.trans h.posted, hc.trans (h.balanced.trans hr.symm)⟩

/-- Every operation of the program is `Balanced`, and it leads to a state between calls. -/
abbrev Leads (p : DriverM Bool) (s : TxCalls) : Prop := machine.WP Balanced p (fun _ t => Ready t) s

/-- The state after an operation, from what it has done. -/
def after (s : TxCalls) (e : DriverOp) (u : TxCalls) : TxCalls :=
  { u with clear := ¬ s.Overwrites e, room := s.Room e }

variable {a : Adapter} {p : Nat}

theorem Knows.op {e : DriverOp} {k : e.Res → DriverM Bool} (h : Knows a p s)
    (hk : ∀ u c r v, Knows a p u → u.effect e c = some (r, v) → Balanced (u.after e v) ∧ Leads (k r) (u.after e v)) :
    Leads (.op e k) s := by
  refine World.WP.op Knows.env h fun u c r t hu ha => ?_
  obtain ⟨⟨r', v⟩, hv, hx⟩ := Option.map_eq_some_iff.mp ha
  obtain ⟨rfl, rfl⟩ := Prod.mk.inj hx
  exact hk u c r' v hu hv

theorem Knows.after {u v : TxCalls} {e : DriverOp} (hv : Owned v) (ha : v.adapter = a) (hp : v.posted = p)
    (hb : Balanced (u.after e v)) : Knows a p (u.after e v) := ⟨⟨hv.own, hv.lt⟩, ha, hp, hb⟩

theorem balanced_after {u v : TxCalls} {e : DriverOp} (h : u.Overwrites e ↔ ¬ u.Room e) :
    Balanced (u.after e v) := by
  show (decide (¬ u.Overwrites e)) = decide (u.Room e)
  rw [decide_eq_decide, h, not_not]

/-- An operation that neither stores nor moves `tx_head`. -/
def Quiet : DriverOp → Prop
  | .store _ _ | .setTxHead _ => False
  | _ => True

theorem quiet_eq {e : DriverOp} {c : TxChoice} {r : e.Res} (hq : Quiet e) (h : s.effect e c = some (r, t)) :
    t = s ∧ ¬ s.Overwrites e ∧ s.Room e := by
  cases e with
  | store _ _ | setTxHead _ => exact hq.elim
  | map len =>
    rw [effect] at h
    split at h
    · obtain ⟨-, h⟩ := Option.ite_none_right_eq_some.mp h
      cases h
      exact ⟨rfl, id, trivial⟩
    · cases h
      exact ⟨rfl, id, trivial⟩
  | readReg _ | writeReg _ _ | unmap _ _ | wait | complete =>
    cases h
    exact ⟨rfl, id, trivial⟩

theorem Knows.quiet {e : DriverOp} {k : e.Res → DriverM Bool} (h : Knows a p s) (hq : Quiet e)
    (hk : ∀ u c r, Knows a p u → u.effect e c = some (r, u) → ∀ s, Knows a p s → Leads (k r) s) :
    Leads (.op e k) s := by
  refine h.op fun u c r v hu hv => ?_
  obtain ⟨rfl, ho, hr⟩ := quiet_eq hq hv
  have hb : Balanced (v.after e v) := balanced_after (iff_of_false ho (not_not.mpr hr))
  exact ⟨hb, hk v c r hu hv _ (.after hu.owned hu.adapter hu.posted hb)⟩

/-- A buffer is filled. -/
theorem Knows.storeOutside {dma : Addr} {data : List Byte} {k : Unit → DriverM Bool} (h : Knows a p s)
    (hpos : data ≠ [])
    (hd : (⟨dma, data.length⟩ : Region 64).Disjoint (DescRing.ringRegion a.txRing SMARTETH_RING_SIZE))
    (hlt : a.txHead.toNat < SMARTETH_RING_SIZE) (hk : ∀ s, Knows a p s → Leads (k ()) s) :
    Leads (.op (.store dma data) k) s := by
  refine h.op fun u c r v hu hv => ?_
  have ht : ∀ i < SMARTETH_RING_SIZE, ¬ u.Touches dma data i :=
    fun i hi ht => ht (hd.sub_right (hu.adapter ▸ slot_sub_table hi))
  have hb : Balanced (u.after (.store dma data) v) :=
    balanced_after (iff_of_false (fun ⟨i, hi, hti, _⟩ => ht i hi hti)
      (not_not.mpr fun ⟨i, hi, hti⟩ => absurd hti (ht i hi)))
  have hne : dma ≠ u.flagsAddr := by
    intro he
    have hm : dma ∈ (⟨dma, data.length⟩ : Region 64) := by
      rw [Region.mem_def, BitVec.sub_self]
      exact List.length_pos_iff.mpr hpos
    refine flags_disjoint hlt hd dma ?_ hm
    rw [he, flagsAddr, hu.adapter, Region.mem_def]
    show (_ - _ : Addr).toNat < 4
    rw [DescRing.entryAddr, SmartEthMain.entry, BitVec.sub_self]
    decide
  rw [effect, if_neg hne] at hv
  obtain ⟨-, rfl⟩ := Prod.mk.inj (Option.some.inj hv)
  have how : Owned { u with mem := u.mem.write dma data } :=
    hu.owned.write fun i hi => flags_disjoint hi (hu.adapter ▸ hd)
  exact ⟨hb, hk _ (.after how hu.adapter hu.posted hb)⟩

/-- The entry of the next frame. -/
theorem Knows.entry_eq (h : Knows a p s) (hh : a.txHead.toNat = p % SMARTETH_RING_SIZE) :
    entry a.txRing a.txHead.toNat = DescRing.entryAddr s.adapter.txRing (s.posted % SMARTETH_RING_SIZE) := by
  rw [h.adapter, h.posted, ← hh]
  rfl

/-- The address or the length of the next descriptor is stored. -/
theorem Knows.storePart {addr : Addr} {n : Nat} {data : List Byte} {k : Unit → DriverM Bool} (h : Knows a p s)
    (ha : addr = entry a.txRing a.txHead.toNat + BitVec.ofNat 64 n) (hd : data ≠ []) (hn : n + data.length ≤ 12)
    (hh : a.txHead.toNat = p % SMARTETH_RING_SIZE) (hk : ∀ s, Knows a p s → Leads (k ()) s) :
    Leads (.op (.store addr data) k) s := by
  subst ha
  have hpos := List.length_pos_iff.mpr hd
  have hs : n + data.length ≤ SmartEthDesc.size := le_trans hn (by decide)
  refine h.op fun u c r v hu hv => ?_
  have hlt : a.txHead.toNat < SMARTETH_RING_SIZE := hh ▸ Nat.mod_lt _ (by decide)
  have hb := balanced_after (v := v) (hu.owned.overwrites_iff (hu.entry_eq hh) hd hs)
  have hne : entry a.txRing a.txHead.toNat + BitVec.ofNat 64 n ≠ u.flagsAddr := by
    rw [flagsAddr, hu.adapter]
    intro he
    have := congrArg BitVec.toNat (add_left_cancel he)
    rw [BitVec.toNat_ofNat] at this
    change n % 2 ^ 64 = 12 at this
    omega
  rw [effect, if_neg hne] at hv
  obtain ⟨-, rfl⟩ := Prod.mk.inj (Option.some.inj hv)
  have how := hu.owned.writePart (congrArg Adapter.txRing hu.adapter) hlt hn
  exact ⟨hb, hk _ (.after how hu.adapter hu.posted hb)⟩

/-- The flags of the next descriptor are stored: the frame is posted. -/
theorem Knows.storeFlags {k : Unit → DriverM Bool} (h : Knows a p s) (hh : a.txHead.toNat = p % SMARTETH_RING_SIZE)
    (hk : ∀ s, Knows a (p + 1) s → Leads (k ()) s) :
    Leads (.op (.store (entry a.txRing a.txHead.toNat + 12) (leBytes DESC_FLAG_OWN)) k) s := by
  refine h.op fun u c r v hu hv => ?_
  have hb : Balanced
      (u.after (.store (entry a.txRing a.txHead.toNat + BitVec.ofNat 64 12) (leBytes DESC_FLAG_OWN)) v) :=
    balanced_after (hu.owned.overwrites_iff (hu.entry_eq hh) (by decide) (by decide))
  rw [effect, if_pos (by rw [flagsAddr, hu.adapter])] at hv
  obtain ⟨-, rfl⟩ := Prod.mk.inj (Option.some.inj hv)
  have how := hu.owned.post (congrArg Adapter.txRing hu.adapter)
    (hh.trans (congrArg (· % SMARTETH_RING_SIZE) hu.posted).symm)
  exact ⟨hb, hk _ (.after how hu.adapter (congrArg (· + 1) hu.posted) hb)⟩

theorem Knows.setTxHead {head : Word} {k : Unit → DriverM Bool} (h : Knows a p s)
    (hk : ∀ s, Knows { a with txHead := head } p s → Leads (k ()) s) : Leads (.op (.setTxHead head) k) s := by
  refine h.op fun u c r v hu hv => ?_
  obtain ⟨-, rfl⟩ := Prod.mk.inj (Option.some.inj hv)
  have hb : Balanced (u.after (.setTxHead head) { u with adapter := { u.adapter with txHead := head } }) :=
    balanced_after (iff_of_false id (not_not.mpr trivial))
  exact ⟨hb, hk _ (.after ⟨hu.owned.own, hu.owned.lt⟩ (congrArg (fun b => { b with txHead := head }) hu.adapter)
    hu.posted hb)⟩

theorem Knows.ret {done : Bool} (h : Knows a p s) (hh : a.txHead.toNat = p % SMARTETH_RING_SIZE) :
    Leads (.ret done) s :=
  World.WP.ret Knows.env h fun t ht => ⟨ht.owned, by rw [ht.adapter, ht.posted, hh], ht.balanced⟩

theorem toNat_next {head : Word} {p : Nat} (h : head.toNat = p % SMARTETH_RING_SIZE) :
    ((head + 1) % BitVec.ofNat 32 SMARTETH_RING_SIZE).toNat = (p + 1) % SMARTETH_RING_SIZE := by
  have hsize : (BitVec.ofNat 32 64).toNat = 64 := rfl
  have hone : (1 : Word).toNat = 1 := rfl
  rw [SMARTETH_RING_SIZE] at h ⊢
  rw [BitVec.toNat_umod, BitVec.toNat_add, hsize, hone]
  omega

theorem Ready.leads (h : Ready s) : Leads (testTx s.adapter) s := by
  have hh := h.head
  have hlt : s.adapter.txHead.toNat < SMARTETH_RING_SIZE := hh ▸ Nat.mod_lt _ (by decide)
  have hk : Knows s.adapter s.posted s := ⟨h.owned, rfl, rfl, h.balanced⟩
  refine hk.quiet (e := .map 256) trivial fun u c r hu hr s₁ h₁ => ?_
  cases r with
  | none => exact h₁.ret hh
  | some dma =>
    have hd : (⟨dma, 256⟩ : Region 64).Disjoint (DescRing.ringRegion s.adapter.txRing SMARTETH_RING_SIZE) := by
      rw [effect] at hr
      split at hr
      · obtain ⟨hd, hr⟩ := Option.ite_none_right_eq_some.mp hr
        obtain rfl := Option.some.inj (Prod.mk.inj (Option.some.inj hr)).1
        exact hu.adapter ▸ hd
      · cases hr
    refine h₁.storeOutside (List.cons_ne_nil _ _) ?_ hlt fun s₂ h₂ => ?_
    · rw [List.length_replicate]
      exact hd
    refine h₂.quiet (e := .readReg REG_TX_TAIL) trivial fun _ _ _ _ _ s₃ h₃ => ?_
    refine h₃.storePart (n := 0) (BitVec.add_zero _).symm (List.ne_nil_of_length_pos ?_) ?_ hh fun s₄ h₄ => ?_
    · rw [length_leBytes]
      decide
    · rw [length_leBytes]
      decide
    refine h₄.storePart (n := 8) rfl (by decide) (by decide) hh fun s₅ h₅ => ?_
    refine h₅.storeFlags hh fun s₆ h₆ => ?_
    refine h₆.setTxHead fun s₇ h₇ => ?_
    refine h₇.quiet (e := .writeReg REG_TX_DOORBELL 1) trivial fun _ _ _ _ _ s₈ h₈ => ?_
    refine h₈.quiet (e := .wait) trivial fun _ _ done _ _ s₉ h₉ => ?_
    refine h₉.quiet (e := .readReg REG_TX_TAIL) trivial fun _ _ _ _ _ s₁₀ h₁₀ => ?_
    refine h₁₀.quiet (e := .unmap dma 256) trivial fun _ _ _ _ _ s₁₁ h₁₁ => ?_
    exact h₁₁.ret (toNat_next hh)

theorem Ready.env {e : TxNicEvent} (h : Ready s) (he : s.env e = some t) : Ready t := by
  obtain ⟨ho, ha, hp, hc, hr⟩ := h.owned.env he
  exact ⟨ho, by rw [ha, hp, h.head], hc.trans (h.balanced.trans hr.symm)⟩

theorem ready_start (ring : Addr) (mem : GuestMem) : Ready (start ring mem) := ⟨owned_start ring mem, rfl, rfl⟩

/-- If frames are given back in order, there is room exactly while fewer than a whole ring are out. -/
theorem room_iff_of_inOrder {c : Nat} (h : ∀ j, s.given j = true ↔ j < c) (hc : c ≤ s.posted) {dma : Addr}
    {data : List Byte} (ht : ∃ i < SMARTETH_RING_SIZE, s.Touches dma data i) :
    s.Room (.store dma data) ↔ s.posted - c < SMARTETH_RING_SIZE := by
  have hpos : 0 < SMARTETH_RING_SIZE := by decide
  rw [Room, forall_prop_of_true ht, h]
  omega

/-! ## Runs -/

abbrev State := Machine.State DriverOp DriverOp.Res Bool TxCalls

abbrev Event := Machine.Event TxNicEvent TxChoice Empty Unit

theorem inv_step (s : State) (e : Event) (t : State) (h : machine.Inv Balanced Ready s)
    (hs : machine.step s e = some t) : machine.Inv Balanced Ready t := by
  refine h.step (fun _ hr => hr.balanced) (fun u e v hu he => ?_) (fun _ _ _ hr he => hr.env he)
    (fun _ e => e.elim) (fun u _ v p hr he => ?_) hs
  · -- the others change neither flag
    cases e with
    | serve i d =>
      obtain ⟨-, rfl⟩ := by simpa only [machine, env, Option.ite_none_right_eq_some, Option.some.injEq] using he
      exact hu
    | write addr data =>
      obtain ⟨-, rfl⟩ := by simpa only [machine, env, Option.ite_none_right_eq_some, Option.some.injEq] using he
      exact hu
  · obtain ⟨rfl, rfl⟩ := Prod.mk.inj (Option.some.inj he)
    exact ⟨hr.balanced, hr.leads⟩

theorem inv_start (ring : Addr) (mem : GuestMem) : machine.Inv Balanced Ready ⟨start ring mem, none⟩ :=
  ⟨rfl, fun _ => ready_start ring mem, nofun⟩

/-- One operation of a call. -/
theorem clear_step {s t : State} {e : Event} (h : machine.Inv Balanced Ready s) (he : IsAct e)
    (hs : machine.step s e = some t) : Clear t ↔ HasRoom s e := by
  have hb := (inv_step s e t h hs).st
  cases e with
  | act c =>
    obtain ⟨u, cur⟩ := s
    rcases cur with _ | ⟨r | ⟨e, k⟩⟩
    · cases hs
    · cases hs
    · obtain ⟨⟨r, v⟩, hv, rfl⟩ := Option.map_eq_some_iff.mp hs
      obtain ⟨⟨r', w⟩, -, hx⟩ := Option.map_eq_some_iff.mp hv
      obtain ⟨rfl, rfl⟩ := Prod.mk.inj hx
      rw [Clear, hb]
      refine decide_eq_true_iff.trans ⟨fun hr e' k' he' => ?_, fun hr => hr e k rfl⟩
      cases he'
      exact hr
  | _ => exact he.elim

/-- In every run, the calls overwrite no descriptor of the NIC if and only if none of them
stores into the ring without room. -/
theorem clear_iff_room (ring : Addr) (mem : GuestMem) {es : List Event}
    (h : (run machine.step ⟨start ring mem, none⟩ es).isSome) :
    AfterEach machine.step IsAct Clear ⟨start ring mem, none⟩ es ↔
      Along machine.step HasRoom ⟨start ring mem, none⟩ es := by
  have hclear : ∀ s e t, machine.Inv Balanced Ready s → IsAct e → machine.step s e = some t →
      (Clear t ↔ HasRoom s e) := fun s e t hi he hs => clear_step hi he hs
  have hroom : ∀ s e, ¬ IsAct e → HasRoom s e := by
    intro s e he
    cases e with
    | act c => exact absurd trivial he
    | env _ | start _ | idle _ | finish => trivial
  exact afterEach_iff_along (fun s e t hi _ hs => inv_step s e t hi hs) hclear hroom (inv_start ring mem) h

/-! ## A NIC that has stopped -/

/-- The counterexample's choices: buffers are mapped at 0x8000, and no wait is signalled. -/
def exampleChoice : TxChoice := ⟨0, some 0x8000, false⟩

/-- Up to the store of the address, and the rest of the call. -/
def exampleFill : List Event := [.start (), .act exampleChoice, .act exampleChoice, .act exampleChoice]

def exampleRest : List Event := List.replicate 8 (.act exampleChoice) ++ [.finish]

theorem le_posted (q : Prop) [Decidable q] (n : Nat) : n ≤ if q then n + 1 else n := by
  split <;> omega

theorem act_map {u : TxCalls} (hr : u.adapter.txRing = 0x1000) :
    u.act (.map 256) exampleChoice = some (some 0x8000, u.after (.map 256) u) := by
  rw [act, effect]
  dsimp only [exampleChoice]
  rw [hr, if_pos (by decide)]
  rfl

/-- A call up to where it fills its descriptor. -/
theorem run_fill {u : TxCalls} (hr : u.adapter.txRing = 0x1000) :
    ∃ v k, run machine.step ⟨u, none⟩ exampleFill =
        some ⟨v, some (.op (.store (entry u.adapter.txRing u.adapter.txHead.toNat) (leBytes (0x8000 : Addr))) k)⟩ ∧
      v.adapter = u.adapter ∧ v.given = u.given ∧ u.posted ≤ v.posted := by
  refine ⟨_, _, run_cons_some.mpr ⟨⟨u, some (testTx u.adapter)⟩, rfl, run_cons_some.mpr
    ⟨_, Option.map_eq_some_iff.mpr ⟨_, act_map hr, rfl⟩, rfl⟩⟩, rfl, rfl, ?_⟩
  exact le_posted _ _

/-- A call posts a frame. -/
theorem run_call {u : TxCalls} (hr : u.adapter.txRing = 0x1000) :
    ∃ t, run machine.step ⟨u, none⟩ (exampleFill ++ exampleRest) = some ⟨t, none⟩ ∧
      t.adapter.txRing = 0x1000 ∧ t.given = u.given ∧ u.posted < t.posted := by
  refine ⟨_, run_cons_some.mpr ⟨⟨u, some (testTx u.adapter)⟩, rfl, run_cons_some.mpr
    ⟨_, Option.map_eq_some_iff.mpr ⟨_, act_map hr, rfl⟩, rfl⟩⟩, hr, rfl, ?_⟩
  -- the store of the flags posts it
  refine lt_of_lt_of_eq (Nat.lt_succ_of_le ?_) (if_pos rfl).symm
  exact (le_trans (le_trans (le_posted _ _) (le_posted _ _)) (le_posted _ _))

/-- Two calls. -/
def exampleCalls : List Event := (exampleFill ++ exampleRest) ++ (exampleFill ++ exampleRest)

theorem clear_iff_room_calls : (∃ t, run machine.step ⟨start 0x1000 fun _ => 0, none⟩ exampleCalls = some ⟨t, none⟩ ∧
      2 ≤ t.posted) ∧
    (AfterEach machine.step IsAct Clear ⟨start 0x1000 fun _ => 0, none⟩ exampleCalls ↔
      Along machine.step HasRoom ⟨start 0x1000 fun _ => 0, none⟩ exampleCalls) := by
  obtain ⟨u, hu, hr, -, hpu⟩ := run_call (u := start 0x1000 fun _ => 0) rfl
  obtain ⟨t, ht, -, -, hpt⟩ := run_call hr
  have hrun : run machine.step ⟨start 0x1000 fun _ => 0, none⟩ exampleCalls = some ⟨t, none⟩ := run_append_some hu ht
  exact ⟨⟨t, hrun, by omega⟩, clear_iff_room 0x1000 (fun _ => 0) (hrun ▸ rfl)⟩

/-- Any number of calls. -/
theorem run_calls (n : Nat) {u : TxCalls} (hr : u.adapter.txRing = 0x1000) :
    ∃ es t, run machine.step ⟨u, none⟩ es = some ⟨t, none⟩ ∧ t.adapter.txRing = 0x1000 ∧ t.given = u.given ∧
      u.posted + n ≤ t.posted := by
  induction n generalizing u with
  | zero => exact ⟨[], u, rfl, hr, rfl, le_rfl⟩
  | succ n ih =>
    obtain ⟨v, hv, hrv, hgv, hpv⟩ := run_call hr
    obtain ⟨es, t, ht, hrt, hgt, hpt⟩ := ih hrv
    exact ⟨_, t, run_append_some hv ht, hrt, hgt.trans hgv, by omega⟩

/-- After 64 calls, a NIC that has served none of them finds the descriptor of the first
overwritten by the next. -/
theorem full_ring_overwritten : ¬ ∀ (ring : Addr) (mem : GuestMem) (es : List Event),
    (run machine.step ⟨start ring mem, none⟩ es).isSome →
      AfterEach machine.step IsAct Clear ⟨start ring mem, none⟩ es := by
  intro h
  obtain ⟨es, u, hu, hr, hg, hp⟩ := run_calls SMARTETH_RING_SIZE (u := start 0x1000 fun _ => 0) rfl
  obtain ⟨v, k, hv, ha, hgv, hpv⟩ := run_fill hr
  have hrun := run_append_some hu hv
  have hinv := run_inv inv_step (inv_start 0x1000 fun _ => 0) hrun
  obtain ⟨t, ht⟩ : ∃ t, machine.step ⟨v, some (.op (.store (entry u.adapter.txRing u.adapter.txHead.toNat)
      (leBytes (0x8000 : Addr))) k)⟩ (.act exampleChoice) = some t := ⟨_, rfl⟩
  have hact : IsAct (.act exampleChoice) := trivial
  have hfull : run machine.step ⟨start 0x1000 fun _ => 0, none⟩ ((es ++ exampleFill) ++ [.act exampleChoice]) =
      some t := run_append_some hrun (run_cons_some.mpr ⟨t, ht, rfl⟩)
  have hclear : Clear t := h 0x1000 (fun _ => 0) _ (by rw [hfull]; rfl) _ _ (List.prefix_refl _) hact t hfull
  -- the descriptor is in the ring, and its last frame is out
  have hready : Ready u := (run_inv inv_step (inv_start 0x1000 fun _ => 0) hu).idle rfl
  have hlt : u.adapter.txHead.toNat < SMARTETH_RING_SIZE := hready.head ▸ Nat.mod_lt _ (by decide)
  have hlen : (leBytes (0x8000 : Addr)).length = 8 := length_leBytes _
  have htouch : v.Touches (entry u.adapter.txRing u.adapter.txHead.toNat + BitVec.ofNat 64 0)
      (leBytes (0x8000 : Addr)) u.adapter.txHead.toNat := by
    refine (touches_iff (congrArg (fun a => DescRing.entryAddr a.txRing _) ha.symm) hlt ?_ ?_ hlt).mpr rfl
    · exact List.ne_nil_of_length_pos (by rw [hlen]; decide)
    · rw [hlen]
      decide
  rw [BitVec.add_zero] at htouch
  have hle : SMARTETH_RING_SIZE ≤ v.posted := by omega
  have hgiven := (clear_step hinv hact ht).mp hclear _ _ rfl ⟨_, hlt, htouch⟩ hle
  rw [hgv, hg] at hgiven
  cases hgiven

end TxCalls

end SmartEth
