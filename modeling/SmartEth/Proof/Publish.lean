import SmartEth.Proof.PublishMem

/-!
# Completions are published in order

`Ok` is what holds at any time: guest memory and the writes on their way are as
in `MemOk` and `Batch`, and in the stream of messages no write-back comes after an
interrupt of the same call (`Ordered`). What a call knows between two of its
operations is `Stable`: the host, other threads and QEMU keep it. `wp_dmaRead`
and `wp_dmaWrite` are the bridge calls; `publish_order` puts the calls together.
-/

namespace SmartEth

namespace PubMsg

def isRead : PubMsg → Bool
  | .read _ _ => true
  | _ => false

/-- Whose interrupt a message is. -/
def irqAct : PubMsg → Option Act
  | .irq _ a => some a
  | _ => none

/-- Whose write-back a message is. -/
def backAct : PubMsg → Option Act
  | .write _ _ (some b) => some b.act
  | _ => none

end PubMsg

/-- The call has been made. -/
def Act.Before (rx tx : Nat) : Act → Prop
  | .rx n => n < rx
  | .tx n => n < tx

namespace Publish

open SmartNic DescRing

variable {L : Layout} {s t : Publish}

/-! ## The stream of messages -/

/-- No write-back comes after an interrupt of the same call, and a call of
`on_packet_rx` that sends an interrupt has sent a write-back. -/
structure Ordered (xs : List PubMsg) (rx tx : Nat) : Prop where
  late : xs.Pairwise fun x y => ∀ a, y.backAct = some a → x.irqAct ≠ some a
  backed : ∀ n, (∃ x ∈ xs, x.irqAct = some (.rx n)) → ∃ x ∈ xs, x.backAct = some (.rx n)
  before : ∀ x ∈ xs, ∀ a, x.irqAct = some a → a.Before rx tx

theorem Ordered.nil (rx tx : Nat) : Ordered [] rx tx :=
  ⟨.nil, fun _ ⟨_, h, _⟩ => (nomatch h), fun _ h => nomatch h⟩

/-- A message is sent. -/
theorem Ordered.snoc {xs : List PubMsg} {rx tx : Nat} (h : Ordered xs rx tx) (y : PubMsg)
    (hlate : ∀ a, y.backAct = some a → ∀ x ∈ xs, x.irqAct ≠ some a)
    (hback : ∀ n, y.irqAct = some (.rx n) → ∃ x ∈ xs, x.backAct = some (.rx n))
    (hbefore : ∀ a, y.irqAct = some a → a.Before rx tx) : Ordered (xs ++ [y]) rx tx := by
  refine ⟨List.pairwise_append.mpr ⟨h.late, List.pairwise_singleton _ _, fun x hx z hz a ha => ?_⟩,
    fun n ⟨x, hx, hi⟩ => ?_, fun x hx a ha => ?_⟩
  · rw [List.mem_singleton.mp hz] at ha
    exact hlate a ha x hx
  · have hb : ∃ x ∈ xs, x.backAct = some (.rx n) := by
      rcases List.mem_append.mp hx with hx | hx
      · exact h.backed n ⟨x, hx, hi⟩
      · rw [List.mem_singleton.mp hx] at hi
        exact hback n hi
    obtain ⟨z, hz, hzb⟩ := hb
    exact ⟨z, List.mem_append_left _ hz, hzb⟩
  · rcases List.mem_append.mp hx with hx | hx
    · exact h.before x hx a ha
    · rw [List.mem_singleton.mp hx] at ha
      exact hbefore a ha

theorem Ordered.others {rx tx : Nat} (ms : List Msg) {xs : List PubMsg} (h : Ordered xs rx tx) :
    Ordered (xs ++ ms.map .other) rx tx := by
  induction ms generalizing xs with
  | nil => rw [List.map_nil, List.append_nil]; exact h
  | cons m ms ih =>
    have h1 := ih (h.snoc (.other m) nofun nofun nofun)
    rwa [List.append_assoc] at h1

/-- More calls are made. -/
theorem Ordered.mono {xs : List PubMsg} {rx tx rx' tx' : Nat} (h : Ordered xs rx tx) (hr : rx ≤ rx')
    (ht : tx ≤ tx') : Ordered xs rx' tx' := by
  refine ⟨h.late, h.backed, fun x hx a ha => ?_⟩
  have hb := h.before x hx a ha
  cases a with
  | rx n => exact lt_of_lt_of_le hb hr
  | tx n => exact lt_of_lt_of_le hb ht

/-! ## What holds at any time -/

/-- The writes on their way. -/
def writes (q : List PubMsg) : List PubMsg := q.filter PubMsg.isWrite

theorem writes_append (q q' : List PubMsg) : writes (q ++ q') = writes q ++ writes q' :=
  List.filter_append _ _

theorem writes_others (ms : List Msg) : writes (ms.map .other) = [] := by
  induction ms with
  | nil => rfl
  | cons m ms ih => exact ih

theorem writes_cons_of_not {x : PubMsg} {q : List PubMsg} (h : x.isWrite = false) :
    writes (x :: q) = writes q := List.filter_cons_of_neg (by rw [h]; nofun)

structure Ok (L : Layout) (s : Publish) : Prop where
  mem : MemOk L s.mem s.live
  batch : Batch L s.mem (writes s.queue)
  others : ∀ m, .other m ∈ s.queue → m.kind ≠ some .dmaWrite
  order : Ordered (s.handled ++ s.queue) s.rxCalls s.txRuns

/-- What only the calls themselves change. -/
structure Same (s t : Publish) : Prop where
  nic : t.nic = s.nic
  now : t.now = s.now
  frame : t.frame = s.frame
  rxCalls : t.rxCalls = s.rxCalls
  txRuns : t.txRuns = s.txRuns

theorem Same.refl (s : Publish) : Same s s := ⟨rfl, rfl, rfl, rfl, rfl⟩

theorem Same.trans {u : Publish} (h : Same s t) (h' : Same t u) : Same s u :=
  ⟨h'.nic.trans h.nic, h'.now.trans h.now, h'.frame.trans h.frame, h'.rxCalls.trans h.rxCalls,
    h'.txRuns.trans h.txRuns⟩

/-- A step of the host or of another thread. -/
structure Host (L : Layout) (s t : Publish) : Prop where
  same : Same s t
  handled : t.handled = s.handled
  reply : t.reply = s.reply
  queue : ∃ ms : List Msg, t.queue = s.queue ++ ms.map .other ∧ ∀ m ∈ ms, m.kind ≠ some .dmaWrite
  held : Held L.rxBase L.rxSize s.mem t.mem
  mem : MemOk L t.mem t.live

/-- QEMU has handled `x`. -/
structure Handled (s t : Publish) (x : PubMsg) : Prop where
  same : Same s t
  handled : t.handled = s.handled ++ [x]
  queue : s.queue = x :: t.queue
  write : ∀ w data back, x = .write w data back →
    t.mem = s.mem.write w data ∧ t.live = liveAfter s.live back
  other : x.isWrite = false → t.mem = s.mem ∧ t.live = s.live
  read : ∀ a len, x = .read a len → t.reply = some (s.mem.read a (ScBridge.dmaLen len))
  reply : x.isRead = false → t.reply = s.reply

theorem handle_spec (hL : Fits L) (h : Ok L s) (hs : s.handle = some t) : ∃ x, Handled s t x := by
  rw [handle] at hs
  split at hs
  · cases hs
  · rename_i x rest hq
    rw [Option.some.injEq] at hs
    subst hs
    refine ⟨x, ⟨⟨rfl, rfl, rfl, rfl, rfl⟩, rfl, hq, ?_, ?_, ?_, ?_⟩⟩
    · rintro w data back rfl
      have hb := h.batch
      rw [hq] at hb
      have hlen := (hb.store hL h.mem).1
      have hlt : data.length < 2 ^ 32 := lt_of_le_of_lt hlen (by decide)
      dsimp only [PubMsg.msg]
      rw [ScBridge.handleMsg_dmaWriteReq _ _ _ hlt, List.take_of_length_le hlen]
      refine ⟨rfl, ?_⟩
      cases back <;> rfl
    · intro hw
      cases x with
      | read a len => exact ⟨by dsimp only [PubMsg.msg]; rw [ScBridge.handleMsg_dmaReadReq], rfl⟩
      | write w data back => cases hw
      | irq v a => exact ⟨by dsimp only [PubMsg.msg]; rw [ScBridge.handleMsg_msiIrq], rfl⟩
      | other m =>
        have hm := h.others m (by rw [hq]; exact List.mem_cons_self)
        exact ⟨ScBridge.mem_handleMsg _ _ hm, rfl⟩
    · rintro a len rfl
      dsimp only [PubMsg.msg]
      rw [ScBridge.handleMsg_dmaReadReq]
      refine congrArg some ?_
      dsimp only [dmaReadResp]
      rw [payload_makeMsg]
      exact List.drop_left' (length_leBytes _)
    · intro hr
      cases x with
      | read a len => cases hr
      | _ => rfl

theorem env_cases (hL : Fits L) (h : Ok L s) {e : PublishHost} (he : env L s e = some t) :
    Host L s t ∨ ∃ x, Handled s t x := by
  cases e with
  | qemu => exact .inr (handle_spec hL h he)
  | other m =>
    simp only [env, Option.ite_none_right_eq_some, Option.some.injEq] at he
    obtain ⟨⟨-, hm⟩, rfl⟩ := he
    exact .inl ⟨⟨rfl, rfl, rfl, rfl, rfl⟩, rfl, rfl, ⟨[m], rfl, by simpa using hm⟩, .refl _, h.mem⟩
  | rxDesc i d =>
    simp only [env, Option.ite_none_right_eq_some, Option.some.injEq] at he
    obtain ⟨⟨hi, ho, hd⟩, rfl⟩ := he
    exact .inl ⟨⟨rfl, rfl, rfl, rfl, rfl⟩, rfl, rfl, ⟨[], (List.append_nil _).symm, nofun⟩,
      .desc h.mem.rx hL.rx hi (by simpa using ho) d, h.mem.rxSlot hL hi hd nofun⟩
  | txDesc j d =>
    simp only [env, Option.ite_none_right_eq_some, Option.some.injEq] at he
    obtain ⟨hj, rfl⟩ := he
    obtain ⟨hm, hh⟩ := h.mem.txSlot hL hj (d := d) (x := none) nofun
    exact .inl ⟨⟨rfl, rfl, rfl, rfl, rfl⟩, rfl, rfl, ⟨[], (List.append_nil _).symm, nofun⟩, hh, hm⟩
  | write w data =>
    simp only [env, Option.ite_none_right_eq_some, Option.some.injEq] at he
    obtain ⟨⟨hr, ht, hb⟩, rfl⟩ := he
    refine .inl ⟨⟨rfl, rfl, rfl, rfl, rfl⟩, rfl, rfl, ⟨[], (List.append_nil _).symm, nofun⟩, .outside hr hb,
      h.mem.outside hr ht fun a b hl => ?_⟩
    rw [Option.filter_eq_some_iff, decide_eq_true_eq] at hl
    refine ⟨hl.1, fun hf => ?_⟩
    rcases hl.2 with hn | hd
    · rw [Option.isNone_iff_eq_none] at hn
      rw [hn] at hf; cases hf
    · exact hd.symm

theorem Host.ok (h : Ok L s) (hs : Host L s t) : Ok L t := by
  obtain ⟨ms, hq, hms⟩ := hs.queue
  refine ⟨hs.mem, ?_, fun m hm => ?_, ?_⟩
  · rw [hq, writes_append, writes_others, List.append_nil]
    exact h.batch.held hs.held
  · rw [hq] at hm
    rcases List.mem_append.mp hm with hm | hm
    · exact h.others m hm
    · obtain ⟨m', hm', e⟩ := List.mem_map.mp hm
      cases e
      exact hms _ hm'
  · rw [hs.handled, hq, hs.same.rxCalls, hs.same.txRuns, ← List.append_assoc]
    exact h.order.others ms

/-- Guest memory and the writes on their way, once `x` has been handled. -/
theorem Handled.mem (hL : Fits L) {x : PubMsg} (h : Ok L s) (hx : Handled s t x) :
    Batch L t.mem (writes t.queue) ∧ MemOk L t.mem t.live := by
  have hb := h.batch
  rw [hx.queue] at hb
  cases hw : x.isWrite with
  | false =>
    obtain ⟨hm, hl⟩ := hx.other hw
    rw [hm, hl]
    rw [writes_cons_of_not hw] at hb
    exact ⟨hb, h.mem⟩
  | true =>
    cases x with
    | write w data back =>
      obtain ⟨hm, hl⟩ := hx.write w data back rfl
      rw [hm, hl]
      exact (hb.store hL h.mem).2
    | _ => cases hw

theorem Handled.ok (hL : Fits L) {x : PubMsg} (h : Ok L s) (hx : Handled s t x) : Ok L t := by
  obtain ⟨hb, hm⟩ := hx.mem hL h
  refine ⟨hm, hb, fun m hm => h.others m (hx.queue ▸ List.mem_cons_of_mem _ hm), ?_⟩
  have e : t.handled ++ t.queue = s.handled ++ s.queue := by
    rw [hx.handled, hx.queue, List.append_assoc, List.singleton_append]
  rw [e, hx.same.rxCalls, hx.same.txRuns]
  exact h.order

theorem Ok.env (hL : Fits L) (h : Ok L s) {e : PublishHost} (he : env L s e = some t) : Ok L t := by
  rcases env_cases hL h he with hs | ⟨x, hx⟩
  · exact hs.ok h
  · exact hx.ok hL h

/-! ## What a call knows -/

/-- `P` is kept by the host, by other threads and by QEMU. -/
def Stable (L : Layout) (P : Publish → Prop) : Prop :=
  ∀ s t, Ok L s → P s → Host L s t ∨ (∃ x, Handled s t x) → P t

theorem Stable.and {P Q : Publish → Prop} (hp : Stable L P) (hq : Stable L Q) :
    Stable L fun s => P s ∧ Q s :=
  fun s t h ⟨h1, h2⟩ hs => ⟨hp s t h h1 hs, hq s t h h2 hs⟩

/-- Only messages of other threads join the stream. -/
theorem env_stream (hs : Host L s t ∨ ∃ x, Handled s t x) :
    Same s t ∧ ∃ ms : List Msg, t.handled ++ t.queue = s.handled ++ s.queue ++ ms.map .other := by
  rcases hs with hs | ⟨x, hx⟩
  · obtain ⟨ms, hq, -⟩ := hs.queue
    exact ⟨hs.same, ms, by rw [hs.handled, hq, List.append_assoc]⟩
  · refine ⟨hx.same, [], ?_⟩
    rw [hx.handled, hx.queue, List.map_nil, List.append_nil, List.append_assoc, List.singleton_append]

/-- The running call has sent no interrupt. -/
def Fresh (s : Publish) : Prop := ∀ x ∈ s.handled ++ s.queue, x.irqAct ≠ some s.now

/-- The running call has sent a write-back. -/
def BackSent (s : Publish) : Prop := ∃ x ∈ s.handled ++ s.queue, x.backAct = some s.now

/-- No read is on its way. -/
def Calm (s : Publish) : Prop := ∀ x ∈ s.queue, x.isRead = false

/-- The writes are done, and what the NIC owned in `m` is as it was. -/
def After (L : Layout) (m : GuestMem) (s : Publish) : Prop :=
  writes s.queue = [] ∧ Held L.rxBase L.rxSize m s.mem

/-- The bytes `bs` for a descriptor that the NIC owns are on their way or there. -/
def Filled (L : Layout) (i : Nat) (d : SmartEthDesc) (bs : List Byte) (s : Publish) : Prop :=
  Filling L s.mem i d bs [] (writes s.queue)

/-- A read is on its way, behind all the writes; or it is answered. -/
def Waiting (L : Layout) (addr : Addr) (len : Word) (s : Publish) : Prop :=
  (s.reply = none ∧ ∃ before after, s.queue = before ++ .read addr len :: after ∧
      (∀ x ∈ before, x.isRead = false) ∧ (∀ x ∈ after, x.isRead = false) ∧ writes after = []) ∨
    (Calm s ∧ ∃ m, s.reply = some (m.read addr (ScBridge.dmaLen len)) ∧ After L m s)

theorem stable_same (s₀ : Publish) : Stable L (Same s₀) :=
  fun _ _ _ h hs => h.trans (env_stream hs).1

theorem stable_fresh : Stable L Fresh := by
  intro s t _ h hs x hx
  obtain ⟨hsame, ms, e⟩ := env_stream hs
  rw [e] at hx
  rw [hsame.now]
  rcases List.mem_append.mp hx with hx | hx
  · exact h x hx
  · obtain ⟨m, -, rfl⟩ := List.mem_map.mp hx
    nofun

theorem stable_backSent : Stable L BackSent := by
  rintro s t - ⟨x, hx, hb⟩ hs
  obtain ⟨hsame, ms, e⟩ := env_stream hs
  refine ⟨x, ?_, hsame.now ▸ hb⟩
  rw [e]
  exact List.mem_append_left _ hx

theorem Host.notRead (hs : Host L s t) : ∃ ys, t.queue = s.queue ++ ys ∧ (∀ x ∈ ys, x.isRead = false) ∧
    writes ys = [] := by
  obtain ⟨ms, hq, -⟩ := hs.queue
  refine ⟨ms.map .other, hq, fun x hx => ?_, writes_others ms⟩
  obtain ⟨m, -, rfl⟩ := List.mem_map.mp hx
  rfl

theorem stable_calm : Stable L Calm := by
  rintro s t - h (hs | ⟨x, hx⟩) y hy
  · obtain ⟨ys, hq, hr, -⟩ := hs.notRead
    rw [hq] at hy
    exact (List.mem_append.mp hy).elim (h y) (hr y)
  · exact h y (hx.queue ▸ List.mem_cons_of_mem _ hy)

/-- Without writes, QEMU changes no memory. -/
theorem Handled.noWrite {x : PubMsg} (hx : Handled s t x) (h : writes s.queue = []) :
    x.isWrite = false ∧ writes t.queue = [] ∧ t.mem = s.mem := by
  have hw : x.isWrite = false := by
    have hm : x ∈ s.queue := hx.queue ▸ List.mem_cons_self
    simpa using List.filter_eq_nil_iff.mp h x hm
  rw [hx.queue, writes_cons_of_not hw] at h
  exact ⟨hw, h, (hx.other hw).1⟩

theorem stable_after (m : GuestMem) : Stable L (After L m) := by
  rintro s t - ⟨hw, hm⟩ (hs | ⟨x, hx⟩)
  · obtain ⟨ys, hq, -, hy⟩ := hs.notRead
    refine ⟨?_, hm.trans hs.held⟩
    rw [hq, writes_append, hw, hy, List.append_nil]
  · obtain ⟨-, hw', he⟩ := hx.noWrite hw
    exact ⟨hw', he ▸ hm⟩

theorem stable_filled (i : Nat) (d : SmartEthDesc) (bs : List Byte) : Stable L (Filled L i d bs) := by
  rintro s t h hf (hs | ⟨x, hx⟩)
  · obtain ⟨ys, hq, -, hy⟩ := hs.notRead
    rw [Filled, hq, writes_append, hy, List.append_nil]
    exact hf.held hs.held
  · rw [Filled, hx.queue] at hf
    cases hw : x.isWrite with
    | false =>
      rw [writes_cons_of_not hw] at hf
      rw [Filled, (hx.other hw).1]
      exact hf
    | true =>
      -- the write handled is that of the bytes
      have e : writes (x :: t.queue) = x :: writes t.queue := List.filter_cons_of_pos hw
      rw [e] at hf
      rcases hf.ws with e | ⟨e, -⟩
      · obtain ⟨rfl, hn⟩ := List.cons_eq_cons.mp e
        rw [hn] at hf
        rw [Filled, hn, (hx.write _ _ _ rfl).1]
        exact (hf.store h.mem).1
      · cases e

theorem stable_waiting (addr : Addr) (len : Word) : Stable L (Waiting L addr len) := by
  rintro s t h (⟨hr, before, after, hq, hb, ha, hw⟩ | ⟨hc, m, hr, hm⟩) hs
  · rcases hs with hs | ⟨x, hx⟩
    · obtain ⟨ys, hq', hy, hyw⟩ := hs.notRead
      refine .inl ⟨hs.reply.trans hr, before, after ++ ys, ?_, hb, fun x hx => ?_, ?_⟩
      · rw [hq', hq, List.append_assoc, List.cons_append]
      · exact (List.mem_append.mp hx).elim (ha x) (hy x)
      · rw [writes_append, hw, hyw, List.append_nil]
    · rw [hx.queue] at hq
      rcases before with _ | ⟨y, before⟩
      · -- the read itself is handled
        obtain ⟨rfl, he⟩ := List.cons_eq_cons.mp hq
        have hm := (hx.other rfl).1
        refine .inr ⟨fun y hy => ha y (he ▸ hy), s.mem, hx.read _ _ rfl, he ▸ hw, ?_⟩
        rw [hm]
        exact .refl _
      · obtain ⟨rfl, he⟩ := List.cons_eq_cons.mp hq
        exact .inl ⟨(hx.reply (hb _ List.mem_cons_self)).trans hr, before, after, he,
          fun y hy => hb y (List.mem_cons_of_mem _ hy), ha, hw⟩
  · refine .inr ⟨stable_calm s t h hc hs, m, ?_, stable_after m s t h hm hs⟩
    rcases hs with hs | ⟨x, hx⟩
    · exact hs.reply.trans hr
    · exact (hx.reply (hc x (hx.queue ▸ List.mem_cons_self))).trans hr

/-! ## The bridge calls -/

/-- A message is sent. -/
theorem Ok.send (h : Ok L s) (x : PubMsg) (hb : Batch L s.mem (writes (s.queue ++ [x])))
    (ho : ∀ m, x ≠ .other m) (hlate : ∀ a, x.backAct = some a → ∀ y ∈ s.handled ++ s.queue, y.irqAct ≠ some a)
    (hback : ∀ n, x.irqAct = some (.rx n) → ∃ y ∈ s.handled ++ s.queue, y.backAct = some (.rx n))
    (hbefore : ∀ a, x.irqAct = some a → a.Before s.rxCalls s.txRuns) : Ok L (s.send x) := by
  refine ⟨h.mem, hb, fun m hm => ?_, ?_⟩
  · rcases List.mem_append.mp hm with hm | hm
    · exact h.others m hm
    · exact absurd (List.mem_singleton.mp hm).symm (ho m)
  · rw [Publish.send, ← List.append_assoc]
    exact h.order.snoc x hlate hback hbefore

/-- A message is sent that is neither an interrupt nor a write-back. -/
theorem Ok.sendPlain (h : Ok L s) (x : PubMsg) (hb : Batch L s.mem (writes (s.queue ++ [x])))
    (ho : ∀ m, x ≠ .other m) (hi : x.irqAct = none) (hk : x.backAct = none) : Ok L (s.send x) := by
  refine h.send x hb ho (fun a ha => ?_) (fun n hn => ?_) (fun a ha => ?_)
  · rw [hk] at ha; cases ha
  · rw [hi] at hn; cases hn
  · rw [hi] at ha; cases ha

/-- A write-back is sent by a call that has sent no interrupt. -/
theorem Ok.sendBack (h : Ok L s) (x : PubMsg) (hb : Batch L s.mem (writes (s.queue ++ [x])))
    (ho : ∀ m, x ≠ .other m) (hi : x.irqAct = none) (hk : x.backAct = some s.now) (hf : Fresh s) :
    Ok L (s.send x) := by
  refine h.send x hb ho (fun a ha => ?_) (fun n hn => ?_) (fun a ha => ?_)
  · rw [hk, Option.some.injEq] at ha
    exact ha ▸ hf
  · rw [hi] at hn; cases hn
  · rw [hi] at ha; cases ha

section WP

variable {Q : SmartNic → Publish → Prop}

theorem wp_op (hL : Fits L) {P : Publish → Prop} (hP : Stable L P) (h : Ok L s) (h0 : P s) {e : LinkOp}
    {k : e.Res → LinkM SmartNic}
    (hk : ∀ t r u, Ok L t → P t → act L t e () = some (r, u) → Ok L u ∧ (world L).WP (Ok L) (k r) Q u) :
    (world L).WP (Ok L) (.op e k) Q s :=
  World.WP.op (K := fun u => Ok L u ∧ P u)
    (fun _ _ _ hu he => ⟨hu.1.env hL he, hP _ _ hu.1 hu.2 (env_cases hL hu.1 he)⟩) ⟨h, h0⟩
    fun t _ r u ht ha => hk t r u ht.1 ht.2 ha

theorem wp_ret (hL : Fits L) {P : Publish → Prop} (hP : Stable L P) (h : Ok L s) (h0 : P s) {nic : SmartNic}
    (hQ : ∀ t, Ok L t → P t → Q nic t) : (world L).WP (Ok L) (.ret nic) Q s :=
  World.WP.ret (K := fun u => Ok L u ∧ P u)
    (fun _ _ _ hu he => ⟨hu.1.env hL he, hP _ _ hu.1 hu.2 (env_cases hL hu.1 he)⟩) ⟨h, h0⟩
    fun t ht => hQ t ht.1 ht.2

/-- A call that has sent no interrupt, between two operations. -/
structure Ctx (s₀ s : Publish) : Prop where
  same : Same s₀ s
  fresh : Fresh s
  calm : Calm s

theorem stable_ctx (s₀ : Publish) : Stable L (Ctx s₀) :=
  fun s t h hc hs => ⟨stable_same s₀ s t h hc.same hs, stable_fresh s t h hc.fresh hs,
    stable_calm s t h hc.calm hs⟩

theorem Fresh.send (h : Fresh s) {x : PubMsg} (hx : x.irqAct = none) : Fresh (s.send x) := by
  intro y hy
  rw [Publish.send, ← List.append_assoc] at hy
  rcases List.mem_append.mp hy with hy | hy
  · exact h y hy
  · rw [List.mem_singleton.mp hy, hx]
    nofun

theorem Calm.send (h : Calm s) {x : PubMsg} (hx : x.isRead = false) : Calm (s.send x) := by
  intro y hy
  rcases List.mem_append.mp hy with hy | hy
  · exact h y hy
  · rw [List.mem_singleton.mp hy, hx]

theorem Ctx.send {s₀ : Publish} (h : Ctx s₀ s) {x : PubMsg} (hi : x.irqAct = none) (hr : x.isRead = false) :
    Ctx s₀ (s.send x) :=
  ⟨h.same.trans ⟨rfl, rfl, rfl, rfl, rfl⟩, h.fresh.send hi, h.calm.send hr⟩

variable {s₀ : Publish}

/-- `dma_read` gives the bytes of memory as it was when all writes were done. -/
theorem wp_dmaRead (hL : Fits L) (h : Ok L s) (hc : Ctx s₀ s) {addr : Addr} {len : Word}
    {k : Option (List Byte) → NicM SmartNic}
    (hk : ∀ m t, Ok L t → Ctx s₀ t → After L m t → (world L).WP (Ok L)
      ((k (some ((m.read addr (ScBridge.dmaLen len)).take len.toNat))).subst bridgeOp) Q t) :
    (world L).WP (Ok L) ((Prog.op (NicOp.dmaRead addr len) k).subst bridgeOp) Q s := by
  refine wp_op (e := .read addr len) hL (stable_ctx s₀) h hc fun t r u ht htc ha => ?_
  simp only [act, Option.some.injEq, Prod.mk.injEq] at ha
  obtain ⟨-, rfl⟩ := ha
  have hw : writes (t.queue ++ [.read addr len]) = writes t.queue := by
    rw [writes_append]; exact List.append_nil _
  have hok := ht.sendPlain (.read addr len) (hw ▸ ht.batch) (by simp) rfl rfl
  have hok' : Ok L { t.send (.read addr len) with reply := none } :=
    ⟨hok.mem, hok.batch, hok.others, hok.order⟩
  refine ⟨hok', ?_⟩
  refine wp_op (e := .await) hL (((stable_same s₀).and stable_fresh).and (stable_waiting addr len)) hok'
    ⟨⟨htc.same.trans ⟨rfl, rfl, rfl, rfl, rfl⟩, htc.fresh.send rfl⟩,
      .inl ⟨rfl, t.queue, [], rfl, htc.calm, nofun, rfl⟩⟩ fun v bs w hv hvw ha => ?_
  obtain ⟨⟨hsame, hfresh⟩, hwait⟩ := hvw
  simp only [act, Option.map_eq_some_iff, Prod.mk.injEq] at ha
  obtain ⟨bs', hbs, rfl, rfl⟩ := ha
  rcases hwait with ⟨hn, -⟩ | ⟨hcalm, m, hr, hm⟩
  · rw [hn] at hbs; cases hbs
  · obtain rfl := Option.some.inj (hbs.symm.trans hr)
    have hv' : Ok L { v with reply := none } := ⟨hv.mem, hv.batch, hv.others, hv.order⟩
    exact ⟨hv', hk m _ hv' ⟨hsame.trans ⟨rfl, rfl, rfl, rfl, rfl⟩, hfresh, hcalm⟩ hm⟩

/-- `dma_write` sends, and does not wait. -/
theorem wp_dmaWrite (hL : Fits L) {P : Publish → Prop} (hP : Stable L P) (h : Ok L s) (h0 : P s)
    {addr : Addr} {data : List Byte} {k : Bool → NicM SmartNic}
    (hk : ∀ t, Ok L t → P t → data.length ≤ DMA_BUF_SIZE →
      Ok L (t.send (.write addr data (t.backOf L addr data))) ∧ (world L).WP (Ok L)
        ((k true).subst bridgeOp) Q (t.send (.write addr data (t.backOf L addr data)))) :
    (world L).WP (Ok L) ((Prog.op (NicOp.dmaWrite addr data) k).subst bridgeOp) Q s := by
  refine wp_op (e := .write addr data) hL hP h h0 fun t r u ht htp ha => ?_
  simp only [act, Option.ite_none_right_eq_some, Option.some.injEq, Prod.mk.injEq] at ha
  obtain ⟨hlen, -, rfl⟩ := ha
  exact hk t ht htp hlen

end WP

/-! ## Registers -/

/-- The registers of the rings, but for the tails. -/
def ringRegs : List Addr := [SC_REG_RX_RING_BASE_LO, SC_REG_RX_RING_BASE_HI, SC_REG_RX_RING_SIZE,
  SC_REG_TX_RING_BASE_LO, SC_REG_TX_RING_BASE_HI, SC_REG_TX_RING_SIZE]

/-- The tails may move, round their rings. -/
theorem Configured.congr {nic nic' : SmartNic} (h : Configured L nic) (hb : nic'.bridge = nic.bridge)
    (hr : ∀ r ∈ ringRegs, nic'.reg r = nic.reg r) (hrx : (nic'.reg SC_REG_RX_TAIL).toNat < L.rxSize)
    (htx : (nic'.reg SC_REG_TX_TAIL).toNat < L.txSize) : Configured L nic' := by
  simp only [ringRegs, List.forall_mem_cons] at hr
  obtain ⟨h1, h2, h3, h4, h5, h6, -⟩ := hr
  refine ⟨hb.trans h.bridge, ?_, ?_, hrx, ?_, ?_, htx⟩
  · rw [← h.rxBase, rxRingBase, rxRingBase, h1, h2]
  · rw [h3, h.rxSize]
  · rw [← h.txBase, txRingBase, txRingBase, h4, h5]
  · rw [h6, h.txSize]

theorem reg_setReg_of_all {nic : SmartNic} {rs : List Addr} {a : Addr} {v : Word}
    (ha : rs.all fun r => r >>> 2 != a >>> 2) : ∀ r ∈ rs, (nic.setReg a v).reg r = nic.reg r :=
  fun r hr => reg_setReg_ne (bne_iff_ne.mp (List.all_eq_true.mp ha r hr))

theorem Configured.setIrqStatus {nic : SmartNic} (h : Configured L nic) (v : Word) :
    Configured L (nic.setReg SC_REG_IRQ_STS v) := by
  refine h.congr rfl (reg_setReg_of_all (by decide)) ?_ ?_ <;> rw [reg_setReg_ne (by decide)]
  · exact h.rxTail
  · exact h.txTail

theorem nextTail_lt {tail size : Word} {n : Nat} (ht : tail.toNat < n) (hs : size.toNat = n) :
    (nextTail tail size).toNat < n := by
  rw [nextTail_toNat (Nat.zero_lt_of_lt ht) (Nat.mod_eq_of_lt ht).symm hs]
  exact Nat.mod_lt _ (Nat.zero_lt_of_lt ht)

theorem Configured.rxNext {nic : SmartNic} (h : Configured L nic) : Configured L (nic.setReg SC_REG_RX_TAIL
    (nextTail (nic.reg SC_REG_RX_TAIL) (nic.reg SC_REG_RX_RING_SIZE))) := by
  refine h.congr rfl (reg_setReg_of_all (by decide)) ?_ ?_
  · rw [reg_setReg_self]; exact nextTail_lt h.rxTail h.rxSize
  · rw [reg_setReg_ne (by decide)]; exact h.txTail

theorem Configured.txAdvance {nic : SmartNic} (h : Configured L nic) : Configured L nic.txAdvance := by
  refine h.congr rfl (fun r hr => ?_) ?_ ?_ <;> rw [SmartNic.txAdvance]
  · rw [reg_setReg_of_all (by decide) r hr, reg_setReg_of_all (by decide) r hr]
  · rw [reg_setReg_ne (by decide), reg_setReg_ne (by decide)]; exact h.rxTail
  · rw [reg_setReg_ne (by decide), reg_setReg_self]; exact nextTail_lt h.txTail h.txSize

/-! ## The calls -/

/-- What ends a call. -/
def Post (L : Layout) (nic : SmartNic) (t : Publish) : Prop := Ok L t ∧ Calm t ∧ Configured L nic

section Calls

variable {s₀ : Publish} {nic : SmartNic}

theorem wp_end (hL : Fits L) (h : Ok L s) (hc : Calm s) (hn : Configured L nic) :
    (world L).WP (Ok L) ((pure nic : NicM SmartNic).subst bridgeOp) (Post L) s :=
  wp_ret hL stable_calm h hc fun _ ht hct => ⟨ht, hct, hn⟩

/-- An interrupt may be sent: a call of `on_packet_rx` has sent its write-back. -/
def MayIrq (s : Publish) : Prop := ∀ n, s.now = .rx n → BackSent s

theorem stable_mayIrq : Stable L MayIrq := fun s t h hm hs n hn =>
  stable_backSent s t h (hm n ((env_stream hs).1.now ▸ hn)) hs

theorem raiseIrq_ok (hL : Fits L) (h : Ok L s) (hs : Same s₀ s) (hc : Calm s) (hm : MayIrq s)
    (hb : s₀.now.Before s₀.rxCalls s₀.txRuns) (hn : Configured L nic) (cause vector : Word) :
    (world L).WP (Ok L) ((nic.raiseIrq cause vector).subst bridgeOp) (Post L) s := by
  have hn' := hn.setIrqStatus (nic.regs.irqStatus ||| cause)
  unfold raiseIrq
  dsimp only
  rw [if_pos hn'.bridge]
  refine wp_op (e := .irq vector) hL (((stable_same s₀).and stable_calm).and stable_mayIrq) h ⟨⟨hs, hc⟩, hm⟩
    fun t r u ht htp ha => ?_
  obtain ⟨⟨hst, hct⟩, hmt⟩ := htp
  simp only [act, Option.some.injEq, Prod.mk.injEq] at ha
  obtain ⟨-, rfl⟩ := ha
  have hw : writes (t.queue ++ [.irq vector t.now]) = writes t.queue := by
    rw [writes_append]; exact List.append_nil _
  have hok : Ok L (t.send (.irq vector t.now)) := by
    refine ht.send _ (hw ▸ ht.batch) nofun nofun (fun n hi => ?_) (fun a ha => ?_)
    · obtain ⟨x, hx, hxb⟩ := hmt n (Option.some.inj hi)
      exact ⟨x, hx, hxb.trans hi⟩
    · obtain rfl : t.now = a := Option.some.inj ha
      rw [hst.now, hst.rxCalls, hst.txRuns]
      exact hb
  exact ⟨hok, wp_end hL hok (hct.send rfl) hn'⟩

/-- A frame for a descriptor that the NIC owns. -/
theorem rxDeliver_ok (hL : Fits L) (h : Ok L s) (hc : Ctx s₀ s) {m : GuestMem} (hm : After L m s) {c : Nat}
    (hnow : s₀.now = .rx c) (hb : c < s₀.rxCalls) (hn : Configured L nic) {i : Nat} (hi : i < L.rxSize)
    {d : SmartEthDesc} (hd : entry L.rxBase m i = d) (ho : d.own = true) :
    (world L).WP (Ok L) ((nic.rxDeliver s₀.frame (entryAddr L.rxBase i) d).subst bridgeOp) (Post L) s := by
  have hdlt := d.length.isLt
  have hlen : (s₀.frame.take (min s₀.frame.length d.length.toNat)).length =
      min s₀.frame.length d.length.toNat := by
    rw [List.length_take]; omega
  unfold rxDeliver
  rw [dmaWriteBridge_bind hn.bridge]
  generalize hbs : s₀.frame.take (min s₀.frame.length d.length.toNat) = bs at hlen
  rw [← hlen]
  refine wp_dmaWrite hL ((stable_ctx s₀).and (stable_after m)) h ⟨hc, hm⟩ fun t ht htp hmax => ?_
  obtain ⟨htc, htm⟩ := htp
  -- the bytes are sent
  have hfill : Filling L t.mem i d bs [] [.write d.addr bs none] :=
    ⟨hi, (htm.2.entry i hi (by rw [hd]; exact ho)).trans hd, ho, by omega, hmax, .inl rfl⟩
  have hw : writes (t.queue ++ [.write d.addr bs none]) = [.write d.addr bs none] := by
    rw [writes_append, htm.1]; rfl
  have hok : Ok L (t.send (.write d.addr bs none)) :=
    ht.sendPlain _ (by rw [hw]; exact .fill hfill) (by simp) rfl rfl
  have hfilled : Filled L i d bs (t.send (.write d.addr bs none)) := by
    unfold Filled
    dsimp only [Publish.send]
    rw [hw]
    exact hfill
  rw [hfill.backOf ht.mem]
  refine ⟨hok, ?_⟩
  simp only [ite_true]
  rw [dmaWriteBridge_bind hn.bridge]
  refine wp_dmaWrite hL ((stable_ctx s₀).and (stable_filled i d bs)) hok
    ⟨htc.send rfl rfl, hfilled⟩ fun u hu hup _ => ?_
  obtain ⟨huc, huf⟩ := hup
  -- the write-back is sent
  have hact : u.now = .rx c := huc.same.now.trans hnow
  have hwu : writes (u.queue ++ [rxBack L i d bs (.rx c)]) = writes u.queue ++ [rxBack L i d bs (.rx c)] := by
    rw [writes_append]; rfl
  have hbatch : Batch L u.mem (writes (u.queue ++ [rxBack L i d bs (.rx c)])) := by
    rw [hwu]
    exact .rx (huf.snoc _)
  rw [write_rxBack hi hact huf.len (by rw [huc.same.frame, hlen, hbs])]
  have hoku : Ok L (u.send (rxBack L i d bs (.rx c))) :=
    hu.sendBack _ hbatch (by simp [rxBack]) rfl (congrArg some hact.symm) huc.fresh
  refine ⟨hoku, ?_⟩
  have hsame : Same s₀ (u.send (rxBack L i d bs (.rx c))) := huc.same.trans ⟨rfl, rfl, rfl, rfl, rfl⟩
  have hcalm := huc.calm.send (x := rxBack L i d bs (.rx c)) rfl
  simp only [ite_true]
  split
  · refine raiseIrq_ok hL hoku hsame hcalm (fun n hnn => ?_) (by rw [hnow]; exact hb) hn.rxNext _ _
    refine ⟨rxBack L i d bs (.rx c), ?_, congrArg some hact.symm⟩
    exact List.mem_append_right _ (List.mem_append_right _ (List.mem_singleton_self _))
  · exact wp_end hL hoku hcalm hn.rxNext

/-- The frame of a call. -/
theorem onPacketRx_ok (hL : Fits L) (h : Ok L s) (hc : Ctx s s) {c : Nat} (hnow : s.now = .rx c)
    (hb : c < s.rxCalls) (hn : Configured L nic) :
    (world L).WP (Ok L) ((nic.onPacketRx s.frame).subst bridgeOp) (Post L) s := by
  rw [onPacketRx]
  generalize hnic : { nic with pkt := (nic.pkt.receive s.frame).1 } = nic'
  replace hn : Configured L nic' := hnic ▸ hn.congr rfl (fun _ _ => rfl) hn.rxTail hn.txTail
  split
  · exact wp_end hL h hc.calm hn
  split
  · exact wp_end hL h hc.calm hn
  have haddr : nic'.rxDescAddr = entryAddr L.rxBase (nic'.reg SC_REG_RX_TAIL).toNat := by
    rw [rxDescAddr, hn.rxBase, descAddr_eq]
  rw [readDesc_bind hn.bridge, haddr]
  refine wp_dmaRead hL h hc fun m t ht htc htm => ?_
  have hsize : ((m.read (entryAddr L.rxBase (nic'.reg SC_REG_RX_TAIL).toNat)
      (ScBridge.dmaLen (BitVec.ofNat 32 SmartEthDesc.size))).take
        (BitVec.ofNat 32 SmartEthDesc.size).toNat) =
      m.read (entryAddr L.rxBase (nic'.reg SC_REG_RX_TAIL).toNat) SmartEthDesc.size :=
    List.take_of_length_le (le_of_eq (Mem.length_read _ _ _))
  simp only [Option.map_some, hsize, ofBytes_read_entry]
  split
  · exact wp_end hL ht htc.calm hn
  · rename_i hown
    rw [Bool.not_eq_true', Bool.not_eq_false] at hown
    exact rxDeliver_ok hL ht htc htm hnow hb hn hn.rxTail rfl hown

/-- A frame handed to the network, whose descriptor is given back. -/
theorem txSend_ok (hL : Fits L) (h : Ok L s) (hc : Ctx s₀ s) {m : GuestMem} (hm : After L m s) {c : Nat}
    (hnow : s₀.now = .tx c) (hn : Configured L nic) {j : Nat} (hj : j < L.txSize) (d : SmartEthDesc)
    (data : List Byte) :
    (world L).WP (Ok L) ((nic.txSend (entryAddr L.txBase j) d data >>= fun r => pure r.1).subst bridgeOp)
      (Post L) s := by
  have hP := (stable_ctx (L := L) s₀).and (stable_after m)
  -- past the network
  have key : ∀ t, Ok L t → Ctx s₀ t → After L m t → (world L).WP (Ok L)
      (((nic.dmaWriteBridge (entryAddr L.txBase j) d.complete.toBytes >>= fun ok =>
        if ok then pure (nic.txAdvance, some (100 + d.length.toNat / 4 * 2)) else pure (nic, none)) >>=
          fun r => pure r.1).subst bridgeOp) (Post L) t := by
    intro t ht htc htm
    rw [dmaWriteBridge_bind hn.bridge, Prog.op_bind]
    refine wp_dmaWrite hL hP ht ⟨htc, htm⟩ fun u hu hup _ => ?_
    obtain ⟨huc, hum⟩ := hup
    have hact : u.now = .tx c := huc.same.now.trans hnow
    have hw : writes (u.queue ++ [txBack L j d.complete (.tx c)]) = [txBack L j d.complete (.tx c)] := by
      rw [writes_append, hum.1]; rfl
    rw [write_txBack hj hact]
    have hok : Ok L (u.send (txBack L j d.complete (.tx c))) :=
      hu.sendBack _ (by rw [hw]; exact .tx hj) (by simp [txBack]) rfl (congrArg some hact.symm) huc.fresh
    refine ⟨hok, ?_⟩
    simp only [ite_true, Prog.pure_eq, Prog.ret_bind]
    exact wp_end hL hok (huc.calm.send rfl) hn.txAdvance
  unfold txSend
  cases nic.netif with
  | false =>
    simp only [Bool.false_eq_true, ite_false, Prog.pure_eq]
    exact key s h hc hm
  | true =>
    simp only [ite_true, Prog.call_bind, Prog.op_bind]
    refine wp_op (e := .transmit data) hL hP h ⟨hc, hm⟩ fun t r u ht htp ha => ?_
    simp only [act, Option.some.injEq, Prod.mk.injEq] at ha
    obtain ⟨-, rfl⟩ := ha
    exact ⟨ht, key t ht htp.1 htp.2⟩

/-- A pass of the inner loop of `process_tx`. -/
theorem processTxIteration_ok (hL : Fits L) (h : Ok L s) (hc : Ctx s s) {c : Nat} (hnow : s.now = .tx c)
    (hn : Configured L nic) :
    (world L).WP (Ok L) ((nic.processTxIteration >>= fun r => pure r.1).subst bridgeOp) (Post L) s := by
  have hn' : Configured L { nic with txPending := false } :=
    hn.congr rfl (fun _ _ => rfl) hn.rxTail hn.txTail
  unfold processTxIteration
  split
  · exact wp_end hL h hc.calm hn
  split
  · exact wp_end hL h hc.calm hn'
  have haddr : nic.txDescAddr = entryAddr L.txBase (nic.reg SC_REG_TX_TAIL).toNat := by
    rw [txDescAddr, hn.txBase, descAddr_eq]
  rw [readDesc_bind hn.bridge, haddr, Prog.op_bind]
  refine wp_dmaRead hL h hc fun m t ht htc htm => ?_
  simp only [Option.map_some]
  generalize SmartEthDesc.ofBytes _ = d
  unfold txFetch
  split
  · exact wp_end hL ht htc.calm hn'
  · rw [dmaReadBridge_bind hn.bridge, Prog.op_bind]
    refine wp_dmaRead hL ht htc fun m' u hu huc hum => ?_
    exact txSend_ok hL hu huc hum hnow hn hn.txTail d _

end Calls

/-! ## Runs -/

/-- Between calls. -/
def Idle (L : Layout) (s : Publish) : Prop := Post L s.nic s

theorem Start.idle (h : Start L s) : Idle L s := by
  refine ⟨⟨⟨h.rx, h.tx, h.bufs, fun a b hb => ?_⟩, ?_, fun m hm => ?_, ?_⟩, fun x hx => ?_, h.conf⟩
  · rw [h.live a] at hb; cases hb
  · rw [h.queue]; exact .none
  · rw [h.queue] at hm; cases hm
  · rw [h.handled, h.queue]; exact .nil _ _
  · rw [h.queue] at hx; cases hx

theorem Idle.env (hL : Fits L) (h : Idle L s) {e : PublishHost} (he : Publish.env L s e = some t) : Idle L t := by
  have hs := env_cases hL h.1 he
  refine ⟨h.1.env hL he, stable_calm s t h.1 h.2.1 hs, ?_⟩
  rw [(env_stream hs).1.nic]
  exact h.2.2

theorem kind_outMsgs {outs : List NicOut} {m : Msg} (h : m ∈ PcieBridge.outMsgs outs) :
    m.kind = some .msiIrq := by
  obtain ⟨o, -, ho⟩ := List.mem_filterMap.mp h
  cases o with
  | notifyTx => cases ho
  | irq v =>
    obtain rfl := Option.some.inj ho
    exact kind_makeMsg _ _

/-- A register write. -/
theorem Idle.mmio (h : Idle L s) {e : Addr × Word} (he : Publish.idle L s e = some t) : Idle L t := by
  simp only [Publish.idle, Option.ite_none_right_eq_some, Option.some.injEq] at he
  obtain ⟨hc, rfl⟩ := he
  generalize hms : PcieBridge.outMsgs (s.nic.onMmioWrite e.1 e.2).2 ++ [statusMsg .mmioWrite] = ms
  have hkind : ∀ m ∈ ms, m.kind ≠ some .dmaWrite := by
    intro m hm
    rw [← hms] at hm
    rcases List.mem_append.mp hm with hm | hm
    · rw [kind_outMsgs hm]; decide
    · rw [List.mem_singleton.mp hm, statusMsg, kind_makeMsg]; decide
  have hhost : Host L s { s with queue := s.queue ++ ms.map .other } :=
    ⟨⟨rfl, rfl, rfl, rfl, rfl⟩, rfl, rfl, ⟨ms, rfl, hkind⟩, .refl _, h.1.mem⟩
  have hok := hhost.ok h.1
  have hcalm := stable_calm s _ h.1 h.2.1 (.inl hhost)
  exact ⟨⟨hok.mem, hok.batch, hok.others, hok.order⟩, hcalm, hc⟩

theorem Idle.call (hL : Fits L) (h : Idle L s) {e : PublishPart} {p : LinkM SmartNic}
    (hs : s.start e = some (t, p)) :
    Ok L t ∧ (world L).WP (Ok L) p (fun nic u => Idle L (u.finish nic)) t := by
  obtain ⟨hok, hcalm, hconf⟩ := h
  have hfin : ∀ nic u, Post L nic u → Idle L (u.finish nic) := fun nic u hu =>
    ⟨⟨hu.1.mem, hu.1.batch, hu.1.others, hu.1.order⟩, hu.2⟩
  cases e with
  | packetRx data =>
    simp only [start, Option.some.injEq, Prod.mk.injEq] at hs
    obtain ⟨rfl, rfl⟩ := hs
    have hok' : Ok L { s with now := .rx s.rxCalls, frame := data, rxCalls := s.rxCalls + 1 } :=
      ⟨hok.mem, hok.batch, hok.others, hok.order.mono (Nat.le_succ _) le_rfl⟩
    have hfresh : Fresh { s with now := .rx s.rxCalls, frame := data, rxCalls := s.rxCalls + 1 } :=
      fun x hx hi => Nat.lt_irrefl _ (hok.order.before x hx _ hi)
    exact ⟨hok', (onPacketRx_ok hL hok' ⟨.refl _, hfresh, hcalm⟩ rfl (Nat.lt_succ_self _) hconf).mono hfin⟩
  | txIteration =>
    simp only [start, Option.some.injEq, Prod.mk.injEq] at hs
    obtain ⟨rfl, rfl⟩ := hs
    have hok' : Ok L { s with now := .tx s.txRuns } := ⟨hok.mem, hok.batch, hok.others, hok.order⟩
    have hfresh : Fresh { s with now := .tx s.txRuns } :=
      fun x hx hi => Nat.lt_irrefl _ (hok.order.before x hx _ hi)
    exact ⟨hok', (processTxIteration_ok hL hok' ⟨.refl _, hfresh, hcalm⟩ rfl hconf).mono hfin⟩
  | txDone =>
    simp only [start, Option.some.injEq, Prod.mk.injEq] at hs
    obtain ⟨rfl, rfl⟩ := hs
    have hok' : Ok L { s with now := .tx s.txRuns, txRuns := s.txRuns + 1 } :=
      ⟨hok.mem, hok.batch, hok.others, hok.order.mono le_rfl (Nat.le_succ _)⟩
    refine ⟨hok', ?_⟩
    unfold processTxDone
    split
    · exact (raiseIrq_ok hL hok' (.refl _) hcalm nofun (Nat.lt_succ_self _) hconf _ _).mono hfin
    · exact (wp_end hL hok' hcalm hconf).mono hfin

theorem Start.fits (h : Start L s) : Fits L :=
  ⟨h.conf.rxSize ▸ BitVec.isLt _, h.conf.txSize ▸ BitVec.isLt _, h.rings⟩

/-- In every state of every run: a write-back that stands in guest memory is the
descriptor there, and if it is of a frame received, the descriptor is done and
the frame's bytes are in its buffer; and once the interrupt of a call has been
handled, all write-backs of the call have been, and a call of `on_packet_rx` that
sent it has one. -/
theorem publish_order {t : Machine.State LinkOp LinkOp.Res SmartNic Publish}
    {es : List (Machine.Event PublishHost Unit (Addr × Word) PublishPart)} (h0 : Start L s)
    (h : run (machine L).step ⟨s, none⟩ es = some t) :
    (∀ a b, t.st.live a = some b → descAt t.st.mem a = b.desc ∧ ∀ bs, b.frame = some bs →
      (∃ i < L.rxSize, a = entryAddr L.rxBase i) ∧ b.desc.done = true ∧ b.desc.own = false ∧
        b.desc.length.toNat = bs.length ∧ t.st.mem.read b.desc.addr bs.length = bs) ∧
    ∀ v a, .irq v a ∈ t.st.handled →
      (∀ w data b, .write w data (some b) ∈ t.st.handled ++ t.st.queue → b.act = a →
        .write w data (some b) ∈ t.st.handled) ∧
      ∀ n, a = .rx n → ∃ w data b, .write w data (some b) ∈ t.st.handled ∧ b.act = a := by
  have hL := h0.fits
  have hinv : (machine L).Inv (Ok L) (Idle L) t :=
    Machine.inv (fun _ h => h.1) (fun _ _ _ h he => h.env hL he) (fun _ _ _ h he => h.env hL he)
      (fun _ _ _ h he => h.mmio he) (fun _ _ _ _ h hs => h.call hL hs) h0.idle h
  have hok := hinv.st
  have hlate := (List.pairwise_append.mp hok.order.late).2.2
  refine ⟨fun a b hb => ⟨(hok.mem.live a b hb).desc, fun bs hbs => ?_⟩, fun v a hi => ?_⟩
  · have hf := (hok.mem.live a b hb).frame bs hbs
    exact ⟨hf.slot, hf.done, hf.own, hf.length, hf.buf⟩
  have hin : ∀ w data b, .write w data (some b) ∈ t.st.handled ++ t.st.queue → b.act = a →
      .write w data (some b) ∈ t.st.handled := fun w data b hx ha =>
    (List.mem_append.mp hx).resolve_right fun hq => hlate _ hi _ hq a (congrArg some ha) rfl
  refine ⟨hin, fun n hn => ?_⟩
  obtain ⟨x, hx, hb⟩ := hok.order.backed n ⟨_, List.mem_append_left _ hi, hn ▸ rfl⟩
  cases x with
  | write w data back =>
    cases back with
    | none => cases hb
    | some b =>
      have ha : b.act = a := (Option.some.inj hb).trans hn.symm
      exact ⟨w, data, b, hin w data b hx ha, ha⟩
  | _ => cases hb

/-- A receive ring of one at `0x1000`, whose descriptor the NIC owns, and a
transmit ring of one at `0x3000`; the receive interrupt is enabled. -/
def exampleLayout : Layout := ⟨0x1000, 1, 0x3000, 1⟩

def exampleState : Publish where
  nic := { (((((SmartNic.new.setReg SC_REG_RX_RING_BASE_LO 0x1000).setReg SC_REG_RX_RING_SIZE 1).setReg
    SC_REG_TX_RING_BASE_LO 0x3000).setReg SC_REG_TX_RING_SIZE 1).setReg SC_REG_IRQ_EN SC_IRQ_RX) with
    bridge := true }
  qemu := ⟨true, true, false, 0, 0, fun _ => 0⟩
  mem := Mem.write (fun _ => 0) 0x1000 (SmartEthDesc.toBytes ⟨0x2000, 16, SMARTETH_DESC_FLAG_OWN⟩)
  handled := []
  queue := []
  reply := none
  live := fun _ => none
  now := .rx 0
  frame := []
  rxCalls := 0
  txRuns := 0

theorem exampleState_start : Start exampleLayout exampleState :=
  ⟨by decide, by decide, rfl, rfl, fun _ => rfl, by decide +kernel, by decide +kernel,
    fun i hi j hj hij => absurd hij (by have : i < 1 := hi; have : j < 1 := hj; omega)⟩

/-- A broadcast frame is received, and QEMU handles all that is sent for it. -/
def exampleRun : List (Machine.Event PublishHost Unit (Addr × Word) PublishPart) :=
  [.start (.packetRx (List.replicate 14 0xff)), .act (), .env .qemu, .act (), .act (), .act (), .act (),
    .finish, .env .qemu, .env .qemu, .env .qemu]

theorem publish_order_one : ∃ t, run (machine exampleLayout).step ⟨exampleState, none⟩ exampleRun = some t ∧
    (descAt t.st.mem 0x1000).done = true ∧
    t.st.mem.read (descAt t.st.mem 0x1000).addr 14 = List.replicate 14 0xff ∧
    (∃ v, .irq v (.rx 0) ∈ t.st.handled) ∧
    ∃ w data b, .write w data (some b) ∈ t.st.handled ∧ b.act = .rx 0 := by
  have hr : ((run (machine exampleLayout).step ⟨exampleState, none⟩ exampleRun).map fun t =>
      ((t.st.live 0x1000).bind Back.frame, t.st.handled.getLast?.bind PubMsg.irqAct)) =
        some (some (List.replicate 14 0xff), some (.rx 0)) := by decide +kernel
  obtain ⟨t, ht, he⟩ := Option.map_eq_some_iff.mp hr
  obtain ⟨hl, hi⟩ := Prod.mk.inj he
  obtain ⟨b, hb, hf⟩ := Option.bind_eq_some_iff.mp hl
  obtain ⟨x, hx, ha⟩ := Option.bind_eq_some_iff.mp hi
  have hmem : x ∈ t.st.handled := List.mem_of_getLast? hx
  obtain ⟨hstands, hirq⟩ := publish_order exampleState_start ht
  obtain ⟨hd, hframe⟩ := hstands 0x1000 b hb
  obtain ⟨-, hdone, -, -, hbuf⟩ := hframe _ hf
  cases x with
  | irq v a =>
    obtain rfl : a = .rx 0 := Option.some.inj ha
    refine ⟨t, ht, ?_, ?_, ⟨v, hmem⟩, (hirq v _ hmem).2 0 rfl⟩ <;> rw [hd]
    · exact hdone
    · exact hbuf
  | _ => cases ha

end Publish

end SmartEth
