import SmartEth.System.PktParse

/-!
# Bytes of earlier frames in the parse

The working buffer is not cleared between frames: its first 64 bytes are always what the
last frame that reached so far has left (`getD_buf`). A frame is parsed like itself alone
exactly if those that are parsed beyond its end are zero (`parsedAfter_eq_iff`).
-/

namespace SmartEth.PktProc

/-! ## The working buffer -/

theorem getD_overlay (buf bs : List Byte) {i : Nat} (hi : i < buf.length) :
    (overlay buf bs).getD i 0 = if i < bs.length then bs.getD i 0 else buf.getD i 0 := by
  simp only [overlay, List.getD_eq_getElem?_getD]
  by_cases h : i < bs.length
  · rw [if_pos h, List.getElem?_append_left (by rw [List.length_take]; omega), List.getElem?_take_of_lt hi]
  · rw [if_neg h, List.getElem?_append_right (by rw [List.length_take]; omega), List.getElem?_drop, List.length_take]
    congr 2
    omega

/-- Growing leaves the bytes that are there, and adds zeros. -/
theorem getD_resize (buf : List Byte) {i n : Nat} (hi : i < n) : (resize buf n).getD i 0 = buf.getD i 0 := by
  simp only [resize, List.getD_eq_getElem?_getD]
  by_cases h : i < buf.length
  · rw [List.getElem?_append_left (by rw [List.length_take]; omega), List.getElem?_take_of_lt hi]
  · rw [List.getElem?_append_right (by rw [List.length_take]; omega), List.getElem?_eq_none (Nat.le_of_not_lt h),
      List.getElem?_replicate, List.length_take]
    split
    · rfl
    · rfl

theorem length_resize (buf : List Byte) (n : Nat) : (resize buf n).length = n := by
  rw [resize, List.length_append, List.length_take, List.length_replicate]
  omega

/-- The working buffer while a frame is parsed. -/
def working (buf frame : List Byte) : List Byte := overlay (resize buf (max frame.length 64)) frame

theorem buf_receive (p : PktProc) (frame : List Byte) : (p.receive frame).1.buf = working p.buf frame := by
  rw [receive, parseEthertype]
  dsimp only
  split
  · rfl
  · rfl

theorem getD_working (buf frame : List Byte) {i : Nat} (hi : i < 64) :
    (working buf frame).getD i 0 = if i < frame.length then frame.getD i 0 else buf.getD i 0 := by
  rw [working, getD_overlay _ _ (by rw [length_resize]; omega), getD_resize _ (by omega)]

theorem receiveAll_append (history : List (List Byte)) (frame : List Byte) :
    receiveAll (history ++ [frame]) = ((receiveAll history).receive frame).1 := List.foldl_concat ..

theorem leftOver_append (history : List (List Byte)) (frame : List Byte) (i : Nat) :
    leftOver (history ++ [frame]) i = if i < frame.length then frame.getD i 0 else leftOver history i := by
  rw [leftOver, List.reverse_append, List.reverse_singleton, List.singleton_append, List.find?_cons]
  by_cases h : i < frame.length
  · rw [if_pos h, decide_eq_true h]
    rfl
  · rw [if_neg h, decide_eq_false h]
    rfl

/-- What an earlier frame has left in the buffer. -/
theorem getD_buf (history : List (List Byte)) {i : Nat} (hi : i < 64) :
    (receiveAll history).buf.getD i 0 = leftOver history i := by
  induction history using List.reverseRecOn with
  | nil =>
    show (List.replicate 2048 (0 : Byte)).getD i 0 = 0
    rw [List.getD_eq_getElem?_getD, List.getElem?_replicate, if_pos (by omega)]
    rfl
  | append_singleton history frame ih =>
    rw [receiveAll_append, buf_receive, getD_working _ _ hi, leftOver_append, ih]

theorem getD_padded (frame : List Byte) (i : Nat) :
    (padded frame).getD i 0 = if i < frame.length then frame.getD i 0 else 0 := by
  simp only [padded, List.getD_eq_getElem?_getD]
  by_cases h : i < frame.length
  · rw [if_pos h, List.getElem?_append_left h]
  · rw [if_neg h, List.getElem?_append_right (Nat.le_of_not_lt h), List.getElem?_replicate]
    split
    · rfl
    · rfl

/-- The buffer and the padded frame agree on a byte that the frame has, or that was left zero. -/
theorem agree_iff (history : List (List Byte)) (frame : List Byte) {i : Nat} (hi : i < 64) :
    (working (receiveAll history).buf frame).getD i 0 = (padded frame).getD i 0 ↔
      (frame.length ≤ i → leftOver history i = 0) := by
  rw [getD_working _ _ hi, getD_padded, getD_buf _ hi]
  by_cases h : i < frame.length
  · rw [if_pos h, if_pos h]
    exact iff_of_true rfl fun h' => absurd h' (by omega)
  · rw [if_neg h, if_neg h]
    exact ⟨fun h' _ => h', fun h' => h' (Nat.le_of_not_lt h)⟩

/-! ## The fields -/

/-- A part of a buffer, byte by byte. -/
theorem take_drop_eq_iff {a b : List Byte} {m n : Nat} (ha : m + n ≤ a.length) (hb : m + n ≤ b.length) :
    (a.drop m).take n = (b.drop m).take n ↔ ∀ i, m ≤ i → i < m + n → a.getD i 0 = b.getD i 0 := by
  constructor
  · intro h i hm hn
    have hi := congrArg (fun l : List Byte => l.getD (i - m) 0) h
    simp only [List.getD_eq_getElem?_getD] at hi ⊢
    rw [List.getElem?_take_of_lt (by omega), List.getElem?_take_of_lt (by omega), List.getElem?_drop,
      List.getElem?_drop, Nat.add_sub_cancel' hm] at hi
    exact hi
  · intro h
    refine List.ext_getElem ?_ fun i h₁ h₂ => ?_
    · simp only [List.length_take, List.length_drop]
      omega
    · simp only [List.length_take, List.length_drop] at h₁
      have hi := h (m + i) (by omega) (by omega)
      simp only [List.getD_eq_getElem?_getD, List.getElem?_eq_getElem (show m + i < a.length by omega),
        List.getElem?_eq_getElem (show m + i < b.length by omega), Option.getD_some] at hi
      simpa only [List.getElem_take, List.getElem_drop] using hi

theorem toNat_field16 (a : List Byte) (i : Nat) :
    (field16 a i).toNat = 256 * (a.getD i 0).toNat + (a.getD (i + 1) 0).toNat := by
  have h := (a.getD i 0).isLt
  have h' := (a.getD (i + 1) 0).isLt
  have hs : (a.getD i 0).toNat <<< 8 < 2 ^ 16 := by
    rw [Nat.shiftLeft_eq]
    omega
  rw [field16, BitVec.toNat_or, BitVec.toNat_shiftLeft, BitVec.toNat_setWidth, BitVec.toNat_setWidth,
    Nat.mod_eq_of_lt (show (a.getD i 0).toNat < 2 ^ 16 by omega), Nat.mod_eq_of_lt hs, Nat.mod_eq_of_lt (by omega),
    ← Nat.shiftLeft_add_eq_or_of_lt h', Nat.shiftLeft_eq]
  omega

theorem field16_eq_iff (a b : List Byte) (i : Nat) :
    field16 a i = field16 b i ↔ a.getD i 0 = b.getD i 0 ∧ a.getD (i + 1) 0 = b.getD (i + 1) 0 := by
  have h := (a.getD (i + 1) 0).isLt
  have h' := (b.getD (i + 1) 0).isLt
  rw [← BitVec.toNat_inj, ← BitVec.toNat_inj, ← BitVec.toNat_inj, toNat_field16, toNat_field16]
  omega

/-- What is parsed of the working buffer. -/
def fields (b : List Byte) : Parsed where
  destMac := b.take 6
  srcMac := (b.drop 6).take 6
  ethertype := if field16 b 12 = 0x8100 then field16 b 16 else field16 b 12
  payloadOffset := if field16 b 12 = 0x8100 then 18 else 14

theorem parsed_receive (p : PktProc) (frame : List Byte) :
    (p.receive frame).1.parsed = fields (working p.buf frame) := by
  rw [receive, parseEthertype, fields]
  by_cases h : field16 (working p.buf frame) 12 = 0x8100
  · rw [if_pos h, if_pos h]
    rw [working] at h
    dsimp only
    rw [if_pos h]
    rfl
  · rw [if_neg h, if_neg h]
    rw [working] at h
    dsimp only
    rw [if_neg h]
    rfl

/-- The two fields that depend on the tag. -/
theorem typed_eq_iff (x y u v t : BitVec 16) :
    ((if x = t then u else x) = (if y = t then v else y) ∧
      (if x = t then (18 : Word) else 14) = (if y = t then 18 else 14)) ↔ x = y ∧ (y = t → u = v) := by
  by_cases hx : x = t
  · by_cases hy : y = t
    · rw [if_pos hx, if_pos hy, if_pos hx, if_pos hy]
      exact ⟨fun h => ⟨hx.trans hy.symm, fun _ => h.1⟩, fun h => ⟨h.2 hy, rfl⟩⟩
    · rw [if_pos hx, if_neg hy, if_pos hx, if_neg hy]
      exact iff_of_false (fun h => absurd h.2 (by decide)) fun h => hy (h.1 ▸ hx)
  · by_cases hy : y = t
    · rw [if_neg hx, if_pos hy, if_neg hx, if_pos hy]
      exact iff_of_false (fun h => absurd h.2 (by decide)) fun h => hx (h.1 ▸ hy)
    · rw [if_neg hx, if_neg hy, if_neg hx, if_neg hy]
      exact ⟨fun h => ⟨h.1, fun h' => absurd h' hy⟩, fun h => ⟨h.1, rfl⟩⟩

theorem fields_eq_iff {a b : List Byte} (ha : 64 ≤ a.length) (hb : 64 ≤ b.length) :
    fields a = fields b ↔
      ∀ i, (i < 14 ∨ field16 b 12 = 0x8100 ∧ 16 ≤ i ∧ i < 18) → a.getD i 0 = b.getD i 0 := by
  have hd := take_drop_eq_iff (m := 0) (n := 6) (a := a) (b := b) (by omega) (by omega)
  have hs := take_drop_eq_iff (m := 6) (n := 6) (a := a) (b := b) (by omega) (by omega)
  rw [List.drop_zero, List.drop_zero] at hd
  rw [fields, fields, Parsed.mk.injEq, hd, hs, typed_eq_iff, field16_eq_iff, field16_eq_iff]
  constructor
  · rintro ⟨h0, h6, ⟨h12, h13⟩, h16⟩ i (hi | ⟨ht, hl, hr⟩)
    · by_cases h : i < 6
      · exact h0 i (Nat.zero_le i) (by omega)
      · by_cases h' : i < 12
        · exact h6 i (by omega) h'
        · obtain rfl | rfl : i = 12 ∨ i = 13 := by omega
          · exact h12
          · exact h13
    · obtain rfl | rfl : i = 16 ∨ i = 17 := by omega
      · exact (h16 ht).1
      · exact (h16 ht).2
  · intro h
    refine ⟨fun i _ hi => h i (.inl (by omega)), fun i _ hi => h i (.inl (by omega)), ⟨h 12 (.inl (by omega)),
      h 13 (.inl (by omega))⟩, fun ht => ⟨h 16 (.inr ⟨ht, by omega⟩), h 17 (.inr ⟨ht, by omega⟩)⟩⟩

/-! ## The parse -/

theorem length_working (buf frame : List Byte) : 64 ≤ (working buf frame).length := by
  rw [working, length_overlay, length_resize]
  omega

theorem length_padded (frame : List Byte) : 64 ≤ (padded frame).length := by
  rw [padded, List.length_append, List.length_replicate]
  omega

theorem reference_eq (frame : List Byte) : reference frame = fields (padded frame) := rfl

/-- A frame is parsed like itself alone exactly if no header byte beyond its end was left by another. -/
theorem parsedAfter_eq_iff (history : List (List Byte)) (frame : List Byte) :
    parsedAfter history frame = reference frame ↔ Clean history frame := by
  rw [parsedAfter, parsed_receive, reference_eq, fields_eq_iff (length_working _ _) (length_padded _)]
  refine forall_congr' fun i => ?_
  constructor
  · intro h hi
    exact (agree_iff history frame (by omega)).mp (h hi)
  · intro h hi
    exact (agree_iff history frame (by omega)).mpr (h hi)

/-- After any two histories, a frame is parsed like itself alone and so alike, exactly if neither has left a byte
that is parsed beyond its end. -/
theorem parsed_alike_iff (history history' : List (List Byte)) (frame : List Byte) :
    (parsedAfter history frame = reference frame ∧ parsedAfter history' frame = reference frame ∧
      parsedAfter history frame = parsedAfter history' frame) ↔ Clean history frame ∧ Clean history' frame := by
  rw [← parsedAfter_eq_iff, ← parsedAfter_eq_iff]
  constructor
  · rintro ⟨h, h', -⟩
    exact ⟨h, h'⟩
  · rintro ⟨h, h'⟩
    exact ⟨h, h', h.trans h'.symm⟩

/-- A frame of one byte after a longer one: its addresses are those of the other. -/
theorem stale_bytes_parsed : ¬ ∀ (history : List (List Byte)) (frame : List Byte), 1 ≤ frame.length →
    frame.length ≤ 16384 → parsedAfter history frame = reference frame := by
  intro h
  have hp := h [List.replicate 14 0xFF] [0x52] (by decide) (by decide)
  exact absurd ((parsedAfter_eq_iff _ _).mp hp 1 (.inl (by decide)) (by decide)) (by decide)

end SmartEth.PktProc
