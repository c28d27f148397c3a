import SmartEth.System.LossyReaders
import SmartEth.Proof.Readers

/-!
# Abandoned readers

As long as no thread comes to need a reply that is not to come (`Safe`), the
replies still to come are enough for all that need one (`Inv.covered`), so that a
thread asleep can be signalled (`not_abandoned`). When the I/O thread leaves its
loop, it clears nothing and signals no one (`abandoned_on_exit`).
-/

namespace SmartEth.LossyReaders

variable {n : Nat} {s t : LossyReaders}

/-! ## Counting threads -/

/-- One thread moves. -/
def moved (pc : Nat → ReaderPc) (u : Nat) (x : ReaderPc) (v : Nat) : ReaderPc := if v = u then x else pc v

@[simp] theorem moved_self (pc : Nat → ReaderPc) (u : Nat) (x : ReaderPc) : moved pc u x u = x := if_pos rfl

theorem moved_of_ne {pc : Nat → ReaderPc} {u v : Nat} {x : ReaderPc} (h : v ≠ u) : moved pc u x v = pc v := if_neg h

theorem count_moved (p : ReaderPc → Bool) (pc : Nat → ReaderPc) {u : Nat} (hu : u < n) (x : ReaderPc) :
    count n p (moved pc u x) + (p (pc u)).toNat = count n p pc + (p x).toNat := by
  have hsum : ∀ pc : Nat → ReaderPc, count n p pc =
      (p (pc u)).toNat + (((Finset.range n).erase u).filter fun t => p (pc t)).card := fun pc => by
    have hins : Finset.range n = insert u ((Finset.range n).erase u) :=
      (Finset.insert_erase (Finset.mem_range.mpr hu)).symm
    rw [count, hins, Finset.filter_insert, Finset.erase_insert (Finset.notMem_erase u _)]
    cases p (pc u)
    · simp
    · rw [if_pos rfl, Finset.card_insert_of_notMem (by simp)]
      simp [Nat.add_comm]
  have hrest : (((Finset.range n).erase u).filter fun t => p (moved pc u x t)) =
      ((Finset.range n).erase u).filter fun t => p (pc t) :=
    Finset.filter_congr fun t ht => by rw [moved_of_ne (Finset.ne_of_mem_erase ht)]
  rw [hsum, hsum, hrest, moved_self]
  omega

/-- Threads of a list, each once, are at most those counted. -/
theorem length_le_count {p : ReaderPc → Bool} {pc : Nat → ReaderPc} {l : List Nat} (hd : l.Nodup)
    (hl : ∀ u ∈ l, u < n ∧ p (pc u) = true) : l.length ≤ count n p pc := by
  rw [← List.toFinset_card_of_nodup hd]
  refine Finset.card_le_card fun u hu => ?_
  obtain ⟨h₁, h₂⟩ := hl u (List.mem_toFinset.mp hu)
  exact Finset.mem_filter.mpr ⟨Finset.mem_range.mpr h₁, h₂⟩

/-! ## The invariant -/

/-- Who is asleep, and what is on its way. -/
structure Inv (n : Nat) (s : LossyReaders) : Prop where
  within : ∀ u, s.readers.pc u ≠ .idle → u < n
  nodup : s.readers.sleepers.Nodup
  mem : ∀ u, u ∈ s.readers.sleepers ↔ ∃ addr num, s.readers.pc u = .asleep addr num
  replies : ∀ x ∈ s.readers.fromPeer, ∃ data, x.2 = mmioReadResp data
  gone : s.ioRunning = false → s.readers.toPeer = [] ∧ s.readers.fromPeer = []
  covered : s.needy n ≤ s.toCome n

theorem Inv.lt (h : Inv n s) {u : Nat} {x : ReaderPc} (hu : s.readers.pc u = x) (hx : x ≠ .idle) : u < n :=
  h.within u (hu ▸ hx)

/-- The threads asleep are in flight. -/
theorem Inv.sleepers_le (h : Inv n s) : s.readers.sleepers.length ≤ s.inFlight n :=
  length_le_count h.nodup fun u hu => by
    obtain ⟨addr, num, hpc⟩ := (h.mem u).mp hu
    exact ⟨h.lt hpc (by simp), by rw [hpc]; rfl⟩

theorem Start.inv (h0 : Start s) : Inv n s := by
  have hin : s.inFlight n = 0 := by
    simp [inFlight, count, h0.pc, ReaderPc.inFlight]
  refine ⟨fun u hu => absurd (h0.pc u) hu, h0.sleepers ▸ List.nodup_nil, fun u => ?_, ?_, ?_, ?_⟩
  · rw [h0.sleepers, h0.pc u]
    simp
  · rw [h0.fromPeer]
    intro x hx
    cases hx
  · rw [h0.ioRunning]
    intro h
    cases h
  · rw [needy, hin, h0.sleepers]
    split <;> exact Nat.zero_le _

/-- A thread moves that is not asleep, and does not fall asleep. -/
theorem Inv.move {r : Readers} {u : Nat} {x : ReaderPc} (h : Inv n s) (hu : u < n)
    (hpc : r.pc = moved s.readers.pc u x) (ha : ∀ addr num, s.readers.pc u ≠ .asleep addr num)
    (hx : ∀ addr num, x ≠ .asleep addr num)
    (hsl : r.sleepers = s.readers.sleepers) (hto : s.ioRunning = false → r.toPeer = s.readers.toPeer)
    (hfrom : r.fromPeer = s.readers.fromPeer)
    (hc : (if r.bridge.mmioPending then count n ReaderPc.inFlight (moved s.readers.pc u x)
        else s.readers.sleepers.length) ≤
      if s.ioRunning then r.toPeer.length + s.readers.fromPeer.length + count n isPending (moved s.readers.pc u x)
      else 0) : Inv n ⟨r, s.ioRunning⟩ := by
  refine ⟨fun v hv => ?_, hsl ▸ h.nodup, fun v => ?_, hfrom ▸ h.replies, fun hg => ?_, ?_⟩
  · by_cases hvu : v = u
    · exact hvu ▸ hu
    · rw [hpc, moved_of_ne hvu] at hv
      exact h.within v hv
  · rw [hsl, h.mem v, hpc]
    by_cases hvu : v = u
    · subst hvu
      rw [moved_self]
      constructor
      · rintro ⟨addr, num, he⟩
        exact absurd he (ha addr num)
      · rintro ⟨addr, num, he⟩
        exact absurd he (hx addr num)
    · rw [moved_of_ne hvu]
  · exact ⟨(hto hg).trans (h.gone hg).1, hfrom.trans (h.gone hg).2⟩
  · rw [← hpc, ← hsl, ← hfrom] at hc
    exact hc

/-- What a move changes in the counts. -/
theorem counts_moved (s : LossyReaders) {u : Nat} (hu : u < n) {x y : ReaderPc} (hy : s.readers.pc u = y) :
    count n ReaderPc.inFlight (moved s.readers.pc u x) + y.inFlight.toNat = s.inFlight n + x.inFlight.toNat ∧
      count n isPending (moved s.readers.pc u x) + (isPending y).toNat =
        count n isPending s.readers.pc + (isPending x).toNat := by
  rw [← hy]
  exact ⟨count_moved _ _ hu x, count_moved _ _ hu x⟩

theorem Inv.covered' (h : Inv n s) :
    (if s.readers.bridge.mmioPending then s.inFlight n else s.readers.sleepers.length) ≤
      if s.ioRunning then s.readers.toPeer.length + s.readers.fromPeer.length + count n isPending s.readers.pc
      else 0 :=
  h.covered

/-- No more threads need a reply, and no fewer replies are to come. -/
theorem cover_le {pending io : Bool} {fl fl' sl sl' k k' : Nat}
    (h : (if pending then fl else sl) ≤ if io then k else 0) (hf : fl' ≤ fl) (hs : sl' ≤ sl)
    (hk : io = true → k ≤ k') : (if pending then fl' else sl') ≤ if io then k' else 0 := by
  cases pending <;> cases io <;> simp only [if_true, if_false, Bool.false_eq_true] at h ⊢
  · omega
  · have := hk rfl
    omega
  · omega
  · have := hk rfl
    omega

/-- A thread moves, to where it needs a reply no more than before. -/
theorem Inv.shift {r : Readers} {u : Nat} {x y : ReaderPc} (h : Inv n s) (hu : u < n) (hy : s.readers.pc u = y)
    (hpc : r.pc = moved s.readers.pc u x) (hf : x.inFlight.toNat ≤ y.inFlight.toNat) (hp : isPending x = isPending y)
    (ha : ∀ addr num, y ≠ .asleep addr num ∧ x ≠ .asleep addr num) (hsl : r.sleepers = s.readers.sleepers)
    (hto : r.toPeer = s.readers.toPeer) (hfrom : r.fromPeer = s.readers.fromPeer)
    (hm : r.bridge.mmioPending = s.readers.bridge.mmioPending) : Inv n ⟨r, s.ioRunning⟩ := by
  obtain ⟨c₁, c₂⟩ := counts_moved s hu (x := x) hy
  rw [hp] at c₂
  refine h.move hu hpc (fun addr num => hy ▸ (ha addr num).1) (fun addr num => (ha addr num).2) hsl (fun _ => hto)
    hfrom ?_
  rw [hm, hto]
  exact cover_le h.covered' (by omega) le_rfl fun _ => by omega

/-- A thread falls asleep while `mmio_pending` is set. -/
theorem Inv.sleep {u num : Nat} {addr : Addr} (h : Inv n s) (hu : u < n) (hpc : s.readers.pc u = .waiting addr num)
    (hpend : s.readers.bridge.mmioPending = true) :
    Inv n ⟨{ s.readers.setPc u (.asleep addr num) with sleepers := s.readers.sleepers ++ [u] }, s.ioRunning⟩ := by
  have hnot : u ∉ s.readers.sleepers := fun hm => by
    obtain ⟨a, k, ha⟩ := (h.mem u).mp hm
    cases hpc.symm.trans ha
  obtain ⟨c₁, c₂⟩ := counts_moved s hu (x := .asleep addr num) hpc
  simp only [ReaderPc.inFlight, isPending] at c₁ c₂
  refine ⟨fun v hv => ?_, ?_, fun v => ?_, h.replies, h.gone, ?_⟩
  · by_cases hvu : v = u
    · exact hvu ▸ hu
    · exact h.within v (by simpa [Readers.setPc, hvu] using hv)
  · exact List.nodup_append.mpr ⟨h.nodup, List.nodup_singleton u, by
      rintro a ha b hb rfl
      exact hnot (List.mem_singleton.mp hb ▸ ha)⟩
  · rw [List.mem_append, List.mem_singleton, h.mem v]
    by_cases hvu : v = u
    · simp [Readers.setPc, hvu]
    · simp [Readers.setPc, hvu]
  · have hc := h.covered
    rw [needy, if_pos hpend] at hc
    calc
      _ = count n ReaderPc.inFlight (moved s.readers.pc u (.asleep addr num)) := if_pos hpend
      _ = s.inFlight n := Nat.add_right_cancel c₁
      _ ≤ s.toCome n := hc
      _ = _ := by
        rw [toCome, toCome, ← Nat.add_right_cancel c₂]
        rfl

/-- The threads asleep have replies to come. -/
theorem Inv.sleepers_le_toCome (h : Inv n s) : s.readers.sleepers.length ≤ s.toCome n := by
  have hc := h.covered
  unfold needy at hc
  split at hc
  · exact le_trans h.sleepers_le hc
  · exact hc

theorem rouse_eq {u num : Nat} {addr : Addr} {r : Readers} (hpc : r.pc u = .asleep addr num) :
    r.rouse u = { r.setPc u (.waiting addr num) with sleepers := r.sleepers.erase u } := by
  rw [Readers.rouse, hpc]

theorem rouse_with (r : Readers) (b : ScBridge) (q : List (Nat × Msg)) (u : Nat) :
    ({ r with bridge := b, fromPeer := q } : Readers).rouse u = { r.rouse u with bridge := b, fromPeer := q } := by
  unfold Readers.rouse
  cases r.pc u <;> rfl

/-- A thread wakes up. -/
theorem Inv.rouse {u : Nat} (h : Inv n s) (hu : u ∈ s.readers.sleepers) : Inv n ⟨s.readers.rouse u, s.ioRunning⟩ ∧
    toCome n ⟨s.readers.rouse u, s.ioRunning⟩ = s.toCome n := by
  obtain ⟨addr, num, hpc⟩ := (h.mem u).mp hu
  have hlt : u < n := h.lt hpc (by simp)
  obtain ⟨c₁, c₂⟩ := counts_moved s hlt (x := .waiting addr num) hpc
  have e₁ := Nat.add_right_cancel c₁
  have e₂ := Nat.add_right_cancel c₂
  have hto : toCome n ⟨s.readers.rouse u, s.ioRunning⟩ = s.toCome n := by
    rw [rouse_eq hpc, toCome, toCome, ← e₂]
    rfl
  refine ⟨?_, hto⟩
  rw [rouse_eq hpc]
  refine ⟨fun v hv => ?_, h.nodup.erase u, fun v => ?_, h.replies, h.gone, ?_⟩
  · by_cases hvu : v = u
    · exact hvu ▸ hlt
    · exact h.within v (by simpa [Readers.setPc, hvu] using hv)
  · rw [h.nodup.mem_erase_iff, h.mem v]
    by_cases hvu : v = u
    · simp [Readers.setPc, hvu]
    · simp [Readers.setPc, hvu]
  · exact cover_le h.covered' (Nat.le_of_eq e₁) List.length_erase_le fun _ =>
      Nat.add_le_add_left (Nat.le_of_eq e₂.symm) _

/-- The I/O thread handles a reply: `mmio_pending` is clear, and one reply less is to
come. -/
theorem Inv.handled {x : Nat × Msg} {rest : List (Nat × Msg)} {b : ScBridge} (h : Inv n s)
    (hfrom : s.readers.fromPeer = x :: rest) (hb : b.mmioPending = false)
    (hlt : s.readers.sleepers = [] ∨ s.readers.sleepers.length < s.toCome n) :
    Inv n ⟨{ s.readers with bridge := b, fromPeer := rest }, s.ioRunning⟩ := by
  refine ⟨h.within, h.nodup, h.mem, fun y hy => h.replies y (hfrom ▸ List.mem_cons_of_mem x hy), fun hg => ?_, ?_⟩
  · rw [(h.gone hg).2] at hfrom
    cases hfrom
  · have hn : needy n ⟨{ s.readers with bridge := b, fromPeer := rest }, s.ioRunning⟩ =
        s.readers.sleepers.length := by
      rw [needy]
      exact if_neg (by simp [hb])
    rw [hn]
    rcases hlt with hnil | hlt
    · rw [hnil]
      exact Nat.zero_le _
    · have hio : s.ioRunning = true := by
        by_contra hio
        rw [toCome, if_neg hio] at hlt
        cases hlt
      rw [toCome, if_pos hio, hfrom, List.length_cons] at hlt
      rw [toCome, if_pos hio]
      dsimp only
      omega

/-! ## Steps -/

theorem Inv.setPending {r : Readers} {u : Nat} (h : Inv n s) (hio : s.ioRunning = true)
    (hle : s.inFlight n ≤ s.toCome n) (he : s.readers.step (.setPending u) = some r) : Inv n ⟨r, s.ioRunning⟩ := by
  obtain ⟨addr, hpc, rfl⟩ := Readers.step_setPending he
  have hu : u < n := h.lt hpc (by simp)
  obtain ⟨c₁, c₂⟩ := counts_moved s hu (x := .pending addr) hpc
  simp only [ReaderPc.inFlight, isPending, Bool.toNat_true, Bool.toNat_false] at c₁ c₂
  refine h.move hu rfl (by simp [hpc]) (by simp) rfl (fun _ => rfl) rfl ?_
  rw [toCome, if_pos hio] at hle
  rw [if_pos hio]
  show count n ReaderPc.inFlight (moved s.readers.pc u (.pending addr)) ≤
    s.readers.toPeer.length + s.readers.fromPeer.length + count n isPending (moved s.readers.pc u (.pending addr))
  omega

theorem Inv.send {r : Readers} {u : Nat} (h : Inv n s) (hio : s.ioRunning = true)
    (he : s.readers.step (.send u) = some r) : Inv n ⟨r, s.ioRunning⟩ := by
  obtain ⟨addr, hpc, rfl⟩ := Readers.step_send he
  have hu : u < n := h.lt hpc (by simp)
  obtain ⟨c₁, c₂⟩ := counts_moved s hu (x := .sent addr s.readers.count) hpc
  simp only [ReaderPc.inFlight, isPending, Bool.toNat_true, Bool.toNat_false] at c₁ c₂
  refine h.move hu rfl (by simp [hpc]) (by simp) rfl (fun hg => ?_) rfl
    (cover_le h.covered' (by omega) le_rfl fun _ => ?_)
  · simp [hio] at hg
  · simp only [List.length_append, List.length_singleton]
    omega

theorem Inv.check {r : Readers} {u : Nat} (h : Inv n s) (he : s.readers.step (.check u) = some r) :
    Inv n ⟨r, s.ioRunning⟩ := by
  obtain ⟨addr, num, hpc, ⟨hpend, rfl⟩ | ⟨-, rfl⟩⟩ := Readers.step_check he
  · exact h.sleep (h.lt hpc (by simp)) hpc hpend
  · exact h.shift (x := .got addr num _ _) (h.lt hpc (by simp)) hpc rfl (Nat.zero_le _) rfl (by simp) rfl rfl rfl rfl

theorem Inv.peer {r : Readers} {data : Word} (h : Inv n s) (he : s.readers.step (.peer data) = some r) :
    Inv n ⟨r, s.ioRunning⟩ := by
  obtain ⟨num, m, rest, hto, rfl⟩ := Readers.step_peer he
  refine ⟨h.within, h.nodup, h.mem, fun x hx => ?_, fun hg => ?_, ?_⟩
  · rcases List.mem_append.mp hx with hx | hx
    · exact h.replies x hx
    · exact ⟨data, by rw [List.mem_singleton.mp hx]⟩
  · simp [(h.gone hg).1] at hto
  · refine cover_le h.covered' le_rfl le_rfl fun _ => ?_
    simp only [hto, List.length_cons, List.length_append, List.length_nil]
    omega

theorem Inv.io {r : Readers} {woken : Option Nat} (h : Inv n s) (he : s.readers.step (.io woken) = some r) :
    Inv n ⟨r, s.ioRunning⟩ := by
  obtain ⟨num, m, rest, hfrom, he⟩ := Readers.step_io he
  obtain ⟨data, rfl⟩ := h.replies (num, m) (hfrom ▸ List.mem_cons_self)
  simp only [ScBridge.handleMsg_mmioReadResp, true_and, not_not] at he
  obtain ⟨u, hu, -, rfl⟩ | ⟨hnil, rfl⟩ := he
  · obtain ⟨hr, hto⟩ := h.rouse hu
    obtain ⟨addr, k, hpc⟩ := (h.mem u).mp hu
    have hfrom' : (s.readers.rouse u).fromPeer = (num, mmioReadResp data) :: rest := by
      rw [rouse_eq hpc]
      exact hfrom
    have hsl : (s.readers.rouse u).sleepers = s.readers.sleepers.erase u := by rw [rouse_eq hpc]
    rw [rouse_with s.readers _ rest u]
    refine hr.handled hfrom' rfl (.inr ?_)
    rw [hto]
    dsimp only
    rw [hsl]
    have hle := h.sleepers_le_toCome
    have hpos := List.length_pos_of_mem hu
    have hlen := List.length_erase_of_mem hu
    omega
  · exact h.handled hfrom rfl (.inl hnil)

theorem Inv.on {e : ReaderEvent} {r : Readers} (h : Inv n s) (hcan : s.can n e = true)
    (hok : Safe n s (.on e)) (he : s.readers.step e = some r) : Inv n ⟨r, s.ioRunning⟩ := by
  cases e with
  | enter u addr =>
    obtain ⟨hpc, rfl⟩ := Readers.step_enter he
    exact h.shift (x := .entered addr) (by simpa [can] using hcan) hpc rfl le_rfl rfl (by simp) rfl rfl rfl rfl
  | setPending u => exact h.setPending hok.1 hok.2 he
  | send u => exact h.send hcan he
  | unlock u =>
    obtain ⟨addr, num, hpc, rfl⟩ := Readers.step_unlock he
    exact h.shift (x := .waiting addr num) (h.lt hpc (by simp)) hpc rfl le_rfl rfl (by simp) rfl rfl rfl rfl
  | check u => exact h.check he
  | wake u =>
    obtain ⟨hu, rfl⟩ := Readers.step_wake he
    exact (h.rouse hu).1
  | finish u =>
    obtain ⟨addr, num, result, status, hpc, rfl⟩ := Readers.step_finish he
    exact h.shift (x := .idle) (h.lt hpc (by simp)) hpc rfl le_rfl rfl (by simp) rfl rfl rfl
      (ScBridge.mmioPending_mmioReadFinish _ _ _ _)
  | peer data => exact h.peer he
  | io woken => exact h.io he

/-- The request cannot be sent: one reply less is to come. -/
theorem Inv.sendFail {u : Nat} {addr : Addr} (h : Inv n s) (hok : s.ioRunning = true → s.needy n < s.toCome n)
    (hpc : s.readers.pc u = .pending addr) :
    Inv n ⟨{ s.readers.setPc u (.sent addr s.readers.count) with count := s.readers.count + 1 }, s.ioRunning⟩ := by
  have hu : u < n := h.lt hpc (by simp)
  obtain ⟨c₁, c₂⟩ := counts_moved s hu (x := .sent addr s.readers.count) hpc
  simp only [ReaderPc.inFlight, isPending, Bool.toNat_true, Bool.toNat_false] at c₁ c₂
  refine h.move hu rfl (by simp [hpc]) (by simp) rfl (fun _ => rfl) rfl ?_
  rw [Nat.add_right_cancel c₁]
  by_cases hio : s.ioRunning = true
  · have hlt := hok hio
    rw [needy, toCome, if_pos hio] at hlt
    rw [if_pos hio]
    exact Nat.le_of_lt_succ (lt_of_lt_of_le hlt (by dsimp only [Readers.setPc]; omega))
  · have hc := h.covered'
    rw [if_neg hio] at hc ⊢
    exact hc

theorem Inv.step {e : LossyEvent} (h : Inv n s) (hok : Safe n s e) (he : LossyReaders.step n s e = some t) :
    Inv n t := by
  cases e with
  | on e =>
    simp only [LossyReaders.step] at he
    rw [Option.ite_none_right_eq_some] at he
    obtain ⟨hcan, he⟩ := he
    obtain ⟨r, hr, rfl⟩ := Option.map_eq_some_iff.mp he
    exact h.on hcan hok hr
  | sendFail u =>
    simp only [LossyReaders.step] at he
    split at he
    · rename_i addr hpc
      cases he
      exact h.sendFail hok hpc
    · simp at he
  | ioExit =>
    simp only [LossyReaders.step] at he
    rw [Option.ite_none_right_eq_some, Option.some.injEq] at he
    obtain ⟨-, rfl⟩ := he
    refine ⟨h.within, h.nodup, h.mem, fun x hx => (by cases hx), fun _ => ⟨rfl, rfl⟩, ?_⟩
    exact Nat.le_of_eq hok

/-! ## Threads asleep -/

/-- The I/O thread can signal any thread asleep with the next reply. -/
theorem Inv.io_isSome (h : Inv n s) {u : Nat} (hu : u ∈ s.readers.sleepers) (hfrom : s.readers.fromPeer ≠ []) :
    (LossyReaders.step n s (.on (.io (some u)))).isSome = true := by
  cases hq : s.readers.fromPeer with
  | nil => exact absurd hq hfrom
  | cons x rest =>
    obtain ⟨num, m⟩ := x
    obtain ⟨data, rfl⟩ := h.replies (num, m) (hq ▸ List.mem_cons_self)
    simp [LossyReaders.step, can, Readers.step, hq, hu]

/-- A reply to come can be the one that signals a thread. -/
theorem Inv.signalled (h : Inv n s) {u : Nat} (hu : u ∈ s.readers.sleepers) :
    ∃ es v, (∀ e ∈ es, e.isEnter = false) ∧ run (LossyReaders.step n) s es = some v ∧
      (LossyReaders.step n v (.on (.io (some u)))).isSome = true := by
  have hpos : 0 < s.toCome n := lt_of_lt_of_le (List.length_pos_of_mem hu) h.sleepers_le_toCome
  have hio : s.ioRunning = true := by
    by_contra hio
    rw [toCome, if_neg hio] at hpos
    exact absurd hpos (lt_irrefl 0)
  by_cases hfrom : s.readers.fromPeer = []
  · -- the request has still to be answered, or to be sent
    have hpeer : ∀ {s : LossyReaders}, Inv n s → u ∈ s.readers.sleepers → s.readers.toPeer ≠ [] →
        ∃ v, LossyReaders.step n s (.on (.peer 0)) = some v ∧
          (LossyReaders.step n v (.on (.io (some u)))).isSome = true := by
      intro s h hu hto
      cases hq : s.readers.toPeer with
      | nil => exact absurd hq hto
      | cons x rest =>
        obtain ⟨v, hv, hsl, hne⟩ : ∃ v, LossyReaders.step n s (.on (.peer 0)) = some v ∧
            v.readers.sleepers = s.readers.sleepers ∧ v.readers.fromPeer ≠ [] :=
          ⟨{ s with readers := { s.readers with
              toPeer := rest
              fromPeer := s.readers.fromPeer ++ [(x.1, mmioReadResp 0)]
              answers := s.readers.answers ++ [(x.1, 0)] } },
            by simp only [LossyReaders.step, can, if_true, Readers.step, hq, Option.map_some], rfl, by simp⟩
        exact ⟨v, hv, (Inv.step (e := .on (.peer 0)) h trivial hv).io_isSome (hsl ▸ hu) hne⟩
    by_cases hto : s.readers.toPeer = []
    · obtain ⟨w, hw⟩ : ∃ w, isPending (s.readers.pc w) = true := by
        rw [toCome, if_pos hio, hfrom, hto] at hpos
        obtain ⟨w, hw⟩ := Finset.card_pos.mp (by simpa [count] using hpos)
        exact ⟨w, (Finset.mem_filter.mp hw).2⟩
      obtain ⟨addr, hpc⟩ : ∃ addr, s.readers.pc w = .pending addr := by
        cases hpc : s.readers.pc w <;> rw [hpc] at hw <;> first | exact ⟨_, rfl⟩ | cases hw
      obtain ⟨x, hx, hsl, hne⟩ : ∃ x, LossyReaders.step n s (.on (.send w)) = some x ∧
          x.readers.sleepers = s.readers.sleepers ∧ x.readers.toPeer ≠ [] :=
        ⟨{ s with readers := { s.readers.setPc w (.sent addr s.readers.count) with
            toPeer := s.readers.toPeer ++ [(s.readers.count, mmioReadReq addr)]
            count := s.readers.count + 1 } },
          by simp only [LossyReaders.step, can, hio, if_true, Readers.step, hpc, Option.map_some], rfl, by simp⟩
      obtain ⟨v, hv, hs⟩ := hpeer (Inv.step (e := .on (.send w)) h trivial hx) (hsl ▸ hu) hne
      exact ⟨[.on (.send w), .on (.peer 0)], v, by simp [LossyEvent.isEnter],
        run_cons_some.mpr ⟨x, hx, run_cons_some.mpr ⟨v, hv, rfl⟩⟩, hs⟩
    · obtain ⟨v, hv, hs⟩ := hpeer h hu hto
      exact ⟨[.on (.peer 0)], v, by simp [LossyEvent.isEnter], run_cons_some.mpr ⟨v, hv, rfl⟩, hs⟩
  · exact ⟨[], s, by simp, rfl, h.io_isSome hu hfrom⟩

/-- In every state of a run whose steps are all safe, no thread is abandoned. -/
theorem not_abandoned {es : List LossyEvent} (h0 : Start s) (hok : Along (LossyReaders.step n) (Safe n) s es)
    (h : run (LossyReaders.step n) s es = some t) : ∀ u, ¬ Abandoned n t u := by
  intro u ha
  have hi : Inv n t := run_inv_along (fun _ _ _ hi hok he => Inv.step hi hok he) h0.inv hok h
  obtain ⟨addr, num, hpc, -⟩ := ha.asleep
  obtain ⟨es', v, hes, hv, hs⟩ := hi.signalled ((hi.mem u).mpr ⟨addr, num, hpc⟩)
  rw [ha.never es' v hes hv] at hs
  cases hs

/-- Nobody reads. -/
def exampleStart : LossyReaders := ⟨Readers.exampleStart, true⟩

theorem exampleStart_start : Start exampleStart := ⟨rfl, fun _ => rfl, rfl, rfl, rfl⟩

/-- A thread reads `DEV_ID`, and the connection is lost after its answer. -/
def exampleLate : List LossyEvent :=
  [.on (.enter 0 SC_REG_DEV_ID), .on (.setPending 0), .on (.send 0), .on (.unlock 0), .on (.check 0),
    .on (.peer SC_DEV_ID), .on (.io (some 0)), .ioExit, .on (.check 0), .on (.finish 0)]

theorem not_abandoned_late : ∃ t, run (LossyReaders.step 1) exampleStart exampleLate = some t ∧
    t.readers.returned.map (·.result) = [SC_DEV_ID] ∧ ∀ u, ¬ Abandoned 1 t u := by
  have hr : ((run (LossyReaders.step 1) exampleStart exampleLate).map fun t => t.readers.returned.map (·.result)) =
      some [SC_DEV_ID] := by decide +kernel
  obtain ⟨t, ht, he⟩ := Option.map_eq_some_iff.mp hr
  have hok : Along (LossyReaders.step 1) (Safe 1) exampleStart exampleLate := by decide +kernel
  exact ⟨t, ht, he, not_abandoned exampleStart_start hok ht⟩

/-! ## The I/O thread leaves its loop -/

/-- `mmio_pending` is set, nothing is on its way, and the I/O thread is not in its
loop any more. -/
structure Lost (s : LossyReaders) : Prop where
  ioRunning : s.ioRunning = false
  toPeer : s.readers.toPeer = []
  fromPeer : s.readers.fromPeer = []
  pending : s.readers.bridge.mmioPending = true

theorem Lost.io_eq_none (h : Lost s) (w : Option Nat) : LossyReaders.step n s (.on (.io w)) = none := by
  simp [LossyReaders.step, can, Readers.step, h.fromPeer]

/-- Then it stays so. -/
theorem Lost.step {e : LossyEvent} (h : Lost s) (he : LossyReaders.step n s e = some t) : Lost t := by
  obtain ⟨hio, hto, hfrom, hpend⟩ := h
  cases e with
  | on e =>
    simp only [LossyReaders.step] at he
    rw [Option.ite_none_right_eq_some] at he
    obtain ⟨hcan, he⟩ := he
    obtain ⟨r, hr, rfl⟩ := Option.map_eq_some_iff.mp he
    cases e with
    | enter u addr =>
      obtain ⟨-, rfl⟩ := Readers.step_enter hr
      exact ⟨hio, hto, hfrom, hpend⟩
    | setPending u =>
      obtain ⟨addr, -, rfl⟩ := Readers.step_setPending hr
      exact ⟨hio, hto, hfrom, rfl⟩
    | send u => simp [can, hio] at hcan
    | unlock u =>
      obtain ⟨addr, num, -, rfl⟩ := Readers.step_unlock hr
      exact ⟨hio, hto, hfrom, hpend⟩
    | check u =>
      obtain ⟨addr, num, -, ⟨-, rfl⟩ | ⟨-, rfl⟩⟩ := Readers.step_check hr
      · exact ⟨hio, hto, hfrom, hpend⟩
      · exact ⟨hio, hto, hfrom, hpend⟩
    | wake u =>
      obtain ⟨-, rfl⟩ := Readers.step_wake hr
      obtain ⟨pc, l, hrouse⟩ := Readers.rouse_eq (s := s.readers) u
      rw [hrouse]
      exact ⟨hio, hto, hfrom, hpend⟩
    | finish u =>
      obtain ⟨addr, num, result, status, -, rfl⟩ := Readers.step_finish hr
      exact ⟨hio, hto, hfrom, (ScBridge.mmioPending_mmioReadFinish _ _ _ _).trans hpend⟩
    | peer data => simp [Readers.step, hto] at hr
    | io w => simp [Readers.step, hfrom] at hr
  | sendFail u =>
    simp only [LossyReaders.step] at he
    split at he <;> cases he
    exact ⟨hio, hto, hfrom, hpend⟩
  | ioExit =>
    rw [LossyReaders.step, hio] at he
    cases he

theorem Lost.run {es : List LossyEvent} (h : Lost s) (hr : SmartEth.run (LossyReaders.step n) s es = some t) :
    Lost t :=
  run_inv (fun _ _ _ hl he => Lost.step hl he) h hr

/-- A thread waits for `DEV_ID` when the connection is lost. -/
def exampleExit : List LossyEvent :=
  [.on (.enter 0 SC_REG_DEV_ID), .on (.setPending 0), .on (.send 0), .on (.unlock 0), .on (.check 0), .ioExit]

/-- It is abandoned: whatever happens, `mmio_pending` stays set, and the I/O thread
signals no one. -/
theorem abandoned_on_exit : ∃ t, run (LossyReaders.step 1) exampleStart exampleExit = some t ∧ Abandoned 1 t 0 ∧
    ∀ es u, run (LossyReaders.step 1) t es = some u → u.readers.bridge.mmioPending = true ∧
      ∀ w, LossyReaders.step 1 u (.on (.io w)) = none := by
  have hr : ((run (LossyReaders.step 1) exampleStart exampleExit).map fun t => (t.ioRunning,
      t.readers.toPeer.length, t.readers.fromPeer.length, t.readers.bridge.mmioPending, t.readers.pc 0)) =
      some (false, 0, 0, true, .asleep SC_REG_DEV_ID 0) := by rfl
  obtain ⟨t, ht, he⟩ := Option.map_eq_some_iff.mp hr
  simp only [Prod.mk.injEq] at he
  obtain ⟨hio, hto, hfrom, hpend, hpc⟩ := he
  have hl : Lost t := ⟨hio, List.length_eq_zero_iff.mp hto, List.length_eq_zero_iff.mp hfrom, hpend⟩
  refine ⟨t, ht, ⟨⟨SC_REG_DEV_ID, 0, hpc, ?_, ?_⟩, fun es u _ hu => (hl.run hu).io_eq_none (some 0)⟩,
    fun es u hu => ⟨(hl.run hu).pending, (hl.run hu).io_eq_none⟩⟩
  · rw [hl.toPeer]
    simp
  · rw [hl.fromPeer]
    simp

end SmartEth.LossyReaders
