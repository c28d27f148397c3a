import SmartEth.Proof.UartText

/-!
# The buffer and the format of `uart_printf`

Until the buffer is full the loop follows the directives of the format (`reached_iff`,
`follows_after`). So every store is within the buffer just when the text of every directive
that is reached, but a string, fits into it (`inBuffer_iff_fits`), and nothing after the
terminator is read just when no directive that is reached is cut off by it
(`inString_iff_complete`).
-/

namespace SmartEth

namespace Printf

variable (fmt : Nat → Byte) (args : Nat → VarArg)

/-! ## Passes -/

theorem goesOn_iff (s : Printf) : GoesOn fmt s ↔ fmt s.pos ≠ 0 ∧ s.len < 255 := Iff.rfl

variable {fmt args} {n m : Nat}

theorem after_succ (h : GoesOn fmt (after fmt args n)) : after fmt args (n + 1) = pass fmt args (after fmt args n) :=
  if_pos h

theorem after_stop (h : ¬ GoesOn fmt (after fmt args n)) : after fmt args (n + 1) = after fmt args n := if_neg h

theorem goesOn_of_succ (h : GoesOn fmt (after fmt args (n + 1))) : GoesOn fmt (after fmt args n) := by
  by_contra hstop
  rw [after_stop hstop] at h
  exact hstop h

/-! ## The directives -/

theorem cursor_succ {c : Cursor} {i : Item} (hc : cursor fmt args n = c) (hi : c.item fmt args = i) :
    cursor fmt args (n + 1) = ⟨c.pos + i.width, c.arg + i.args, c.start + i.text.length⟩ := by
  rw [cursor, hc, hi]

/-- The loop is at the start of a directive, and its text is stored up to there, or the buffer is full. -/
structure Follows (c : Cursor) (s : Printf) : Prop where
  pos : s.pos = c.pos
  arg : s.arg = c.arg
  len : s.len = c.start ∨ 255 ≤ s.len ∧ 255 ≤ c.start

theorem Follows.lt_iff {c : Cursor} {s : Printf} (h : Follows c s) : s.len < 255 ↔ c.start < 255 := by
  have := h.len
  omega

theorem Follows.len_eq {c : Cursor} {s : Printf} (h : Follows c s) (hlt : c.start < 255) : s.len = c.start := by
  have := h.len
  omega

theorem length_shown (i : Item) (len : Nat) :
    (i.shown len).length = if i.isString then min (255 - len) i.text.length else i.text.length := by
  rw [Item.shown, apply_ite List.length, List.length_take]
  rfl

theorem Follows.pass {n : Nat} {s : Printf} (h : Follows (cursor fmt args n) s) (hlt : s.len < 255) :
    Follows (cursor fmt args (n + 1)) (pass fmt args s) := by
  obtain ⟨reads, -, hpass⟩ := pass_eq s fmt args
  have hlen := h.len_eq (h.lt_iff.mp hlt)
  rw [hpass, h.pos, h.arg, hlen]
  refine ⟨rfl, rfl, ?_⟩
  rw [cursor, Cursor.item]
  dsimp only
  rw [length_shown]
  split
  · omega
  · exact .inl rfl

theorem follows_after (h : GoesOn fmt (after fmt args n)) : Follows (cursor fmt args n) (after fmt args n) := by
  induction n with
  | zero => exact ⟨rfl, rfl, .inl rfl⟩
  | succ n ih =>
    have hn := goesOn_of_succ h
    rw [after_succ hn]
    exact (ih hn).pass hn.2

theorem Reached.of_succ (h : Reached fmt args (n + 1)) : Reached fmt args n := by
  refine ⟨fun j hj => h.1 j (by omega), lt_of_le_of_lt ?_ h.2⟩
  rw [cursor]
  exact Nat.le_add_right _ _

/-- The passes there are, are those over the directives that are reached. -/
theorem reached_iff : Reached fmt args n ↔ GoesOn fmt (after fmt args n) := by
  induction n with
  | zero => exact ⟨fun h => ⟨h.1 0 le_rfl, h.2⟩, fun h => ⟨fun j hj => Nat.le_zero.mp hj ▸ h.1, h.2⟩⟩
  | succ n ih =>
    constructor
    · intro h
      have hn := ih.mp h.of_succ
      have hf := (follows_after hn).pass hn.2
      rw [← after_succ hn] at hf
      exact ⟨hf.pos ▸ h.1 (n + 1) le_rfl, hf.lt_iff.mpr h.2⟩
    · intro h
      have hf := follows_after h
      refine ⟨fun j hj => ?_, hf.lt_iff.mp h.2⟩
      rcases Nat.lt_or_eq_of_le hj with hj | rfl
      · exact (ih.mpr (goesOn_of_succ h)).1 j (by omega)
      · exact hf.pos ▸ h.1

/-- A pass over a directive that is reached. -/
theorem after_reached (h : Reached fmt args n) : ∃ reads : List Nat,
    (∀ p ∈ reads, p < (cursor fmt args (n + 1)).pos) ∧
    after fmt args (n + 1) =
      ⟨(cursor fmt args (n + 1)).pos, (cursor fmt args (n + 1)).arg,
        (cursor fmt args n).start + (((cursor fmt args n).item fmt args).shown (cursor fmt args n).start).length,
        (after fmt args n).stores ++
          placed (cursor fmt args n).start (((cursor fmt args n).item fmt args).shown (cursor fmt args n).start),
        (after fmt args n).reads ++ reads⟩ := by
  have hgo := reached_iff.mp h
  have hf := follows_after hgo
  obtain ⟨reads, hreads, hpass⟩ := pass_eq (after fmt args n) fmt args
  rw [hf.pos, hf.arg, hf.len_eq h.2] at hpass
  rw [hf.pos, hf.arg] at hreads
  exact ⟨reads, hreads, (after_succ hgo).trans hpass⟩

/-! ## The buffer -/

theorem lt_of_mem_placed {len : Nat} {cs : List Byte} : ∀ x ∈ placed len cs, x.1 < len + cs.length := by
  induction cs generalizing len with
  | nil => exact nofun
  | cons c cs ih =>
    intro x hx
    rw [placed, List.mem_cons] at hx
    rw [List.length_cons]
    rcases hx with rfl | hx
    · dsimp only
      omega
    · have := ih x hx
      omega

theorem shown_le (hfits : Fits fmt args) (h : Reached fmt args n) :
    (cursor fmt args n).start +
      (((cursor fmt args n).item fmt args).shown (cursor fmt args n).start).length ≤ 255 := by
  have hlt := h.2
  rw [length_shown]
  split
  · omega
  · rename_i hs
    exact hfits n h (Bool.eq_false_iff.mpr hs)

/-- What is stored so far is within the buffer, with room for the terminator. -/
theorem Fits.after (hfits : Fits fmt args) (n : Nat) :
    (after fmt args n).len ≤ 255 ∧ ∀ x ∈ (after fmt args n).stores, x.1 < 255 := by
  induction n with
  | zero => exact ⟨Nat.zero_le _, nofun⟩
  | succ n ih =>
    by_cases hgo : GoesOn fmt (Printf.after fmt args n)
    · have hreach := reached_iff.mpr hgo
      have hle := shown_le hfits hreach
      obtain ⟨reads, -, hafter⟩ := after_reached hreach
      rw [hafter]
      refine ⟨hle, fun x hx => ?_⟩
      rcases List.mem_append.mp hx with hx | hx
      · exact ih.2 x hx
      · exact lt_of_lt_of_le (lt_of_mem_placed x hx) hle
    · rw [after_stop hgo]
      exact ih

/-- After the pass over a text that does not fit the loop ends, with the terminator outside the buffer. -/
theorem fits_of_inBuffer (h : InBuffer fmt args) : Fits fmt args := by
  intro n hreach hs
  by_contra hle
  obtain ⟨reads, -, hafter⟩ := after_reached hreach
  have hlen := congrArg len hafter
  dsimp only at hlen
  rw [length_shown, hs, if_neg Bool.false_ne_true] at hlen
  have hstop : ¬ GoesOn fmt (after fmt args (n + 1)) := fun hgo => by
    have := hgo.2
    rw [BUF_SIZE] at this
    omega
  have := (h (n + 1)).2 hstop
  omega

/-- Every store is within the buffer just when the text of every directive that is reached, but a
string, ends before character 255. -/
theorem inBuffer_iff_fits (fmt : Nat → Byte) (args : Nat → VarArg) : InBuffer fmt args ↔ Fits fmt args :=
  ⟨fits_of_inBuffer, fun hfits n =>
    ⟨fun x hx => Nat.le_of_lt ((hfits.after n).2 x hx), fun _ => (hfits.after n).1⟩⟩

/-- The arguments of `uart_printf("%s%d", s, INT_MIN)` with 250 characters in `s`. -/
def longArgs : Nat → VarArg
  | 0 => ⟨0, List.replicate 250 (ch 'a'), fun c hc => by rw [List.eq_of_mem_replicate hc]; decide⟩
  | _ + 1 => intArg (BitVec.ofNat 64 (2 ^ 31))

theorem cursor_longArgs : cursor (literal "%s%d") longArgs 1 = ⟨2, 1, 250⟩ := by
  have hitem : Cursor.item (literal "%s%d") longArgs ⟨0, 0, 0⟩ = ⟨2, List.replicate 250 (ch 'a'), 1, true⟩ := rfl
  have hnext := cursor_succ (n := 0) rfl hitem
  dsimp only at hnext
  rw [List.length_replicate] at hnext
  exact hnext

/-- The text of `INT_MIN` has 11 characters. -/
theorem inBuffer_counterexample : ¬ ∀ fmt args, InBuffer fmt args := by
  intro h
  have hfits := fits_of_inBuffer (h (literal "%s%d") longArgs) 1
  rw [Cursor.item, cursor_longArgs] at hfits
  refine absurd (hfits ⟨fun j hj => ?_, ?_⟩ rfl) (by decide)
  · interval_cases j
    · decide
    · rw [cursor_longArgs]
      decide
  · rw [cursor_longArgs]
    decide

/-! ## The format -/

/-- A directive that is not cut off ends before the terminator does. -/
theorem cursor_le (hend : fmt m = 0) (hcut : ¬ CutOff fmt (cursor fmt args n).pos)
    (hpos : fmt (cursor fmt args n).pos ≠ 0) (hle : (cursor fmt args n).pos ≤ m) :
    (cursor fmt args (n + 1)).pos ≤ m := by
  have hne : ∀ i, fmt i ≠ 0 → i ≠ m := fun i hi hm => hi (hm ▸ hend)
  have h0 := hne _ hpos
  rw [cursor]
  dsimp only
  rw [Cursor.item, item]
  by_cases hp : fmt (cursor fmt args n).pos = ch '%'
  · have h1 := hne _ fun h => hcut ⟨hp, .inl h⟩
    rw [if_pos hp, width_percentItem]
    split
    · rename_i hl
      have h2 := hne _ fun h => hcut ⟨hp, .inr ⟨hl, h⟩⟩
      omega
    · omega
  · rw [if_neg hp]
    dsimp only
    omega

/-- A directive that is cut off ends after the terminator. -/
theorem lt_cursor (hne : ∀ i < m, fmt i ≠ 0) (hcut : CutOff fmt (cursor fmt args n).pos) :
    m < (cursor fmt args (n + 1)).pos := by
  have hge : ∀ i, fmt i = 0 → m ≤ i := fun i hi => Nat.le_of_not_lt fun hlt => hne i hlt hi
  obtain ⟨hp, hcut⟩ := hcut
  rw [cursor]
  dsimp only
  rw [Cursor.item, item, if_pos hp, width_percentItem]
  rcases hcut with h1 | ⟨hl, h2⟩
  · have := hge _ h1
    split <;> omega
  · have := hge _ h2
    rw [if_pos hl]
    omega

theorem Complete.after (hend : fmt m = 0) (hc : Complete fmt args) (n : Nat) :
    (after fmt args n).pos ≤ m ∧ ∀ p ∈ (after fmt args n).reads, p ≤ m := by
  induction n with
  | zero => exact ⟨Nat.zero_le _, nofun⟩
  | succ n ih =>
    by_cases hgo : GoesOn fmt (Printf.after fmt args n)
    · have hreach := reached_iff.mpr hgo
      have hle := cursor_le hend (hc n hreach) (hreach.1 n le_rfl) ((follows_after hgo).pos ▸ ih.1)
      obtain ⟨reads, hreads, hafter⟩ := after_reached hreach
      rw [hafter]
      refine ⟨hle, fun p hp => ?_⟩
      rcases List.mem_append.mp hp with hp | hp
      · exact ih.2 p hp
      · exact le_trans (Nat.le_of_lt (hreads p hp)) hle
    · rw [after_stop hgo]
      exact ih

theorem width_pos (pos arg : Nat) : 0 < (item fmt args pos arg).width := by
  rw [item]
  split
  · rw [width_percentItem]
    split <;> decide
  · exact Nat.one_pos

/-- A pass moves on by a character or more. -/
theorem le_pos (h : GoesOn fmt (after fmt args n)) : n ≤ (after fmt args n).pos := by
  induction n with
  | zero => exact Nat.zero_le _
  | succ n ih =>
    have hn := goesOn_of_succ h
    have := ih hn
    have hw : 0 < (item fmt args (after fmt args n).pos (after fmt args n).arg).width := width_pos _ _
    obtain ⟨reads, -, hpass⟩ := pass_eq (after fmt args n) fmt args
    rw [after_succ hn, hpass]
    dsimp only
    omega

theorem complete_of_inString (hne : ∀ i < m, fmt i ≠ 0) (h : InString fmt args m) : Complete fmt args := by
  intro n hreach hcut
  obtain ⟨reads, -, hafter⟩ := after_reached hreach
  have hpos := congrArg pos hafter
  have hle := (h.1 (n + 1)).1
  have hlt := lt_cursor hne hcut
  dsimp only at hpos
  omega

/-- Nothing after the terminator is read, and the loop ends within as many passes as there are
characters, just when no directive that is reached is cut off. -/
theorem inString_iff_complete (fmt : Nat → Byte) (args : Nat → VarArg) (m : Nat) (hend : fmt m = 0)
    (hne : ∀ i < m, fmt i ≠ 0) : InString fmt args m ↔ Complete fmt args := by
  refine ⟨complete_of_inString hne, fun hc => ⟨hc.after hend, m, le_rfl, fun hgo => ?_⟩⟩
  have hle := (hc.after hend m).1
  rw [goesOn_iff, le_antisymm hle (le_pos hgo)] at hgo
  exact hgo.1 hend

/-- `uart_printf("%ld", 5)`. -/
theorem inString_iff_complete_long : InString (literal "%ld") (fun _ => intArg 5) 3 := by
  have hnext : cursor (literal "%ld") (fun _ => intArg 5) 1 = ⟨3, 1, 1⟩ := rfl
  refine (inString_iff_complete _ _ 3 (by decide) (by decide)).mpr fun n hreach => ?_
  cases n with
  | zero => exact (by decide : ¬ CutOff (literal "%ld") 0)
  | succ n =>
    have hpos := hreach.1 1 (by omega)
    rw [hnext] at hpos
    exact absurd (by decide) hpos

/-- `uart_printf("%")`: the head of the loop reads the character after the terminator. -/
theorem inString_counterexample : ¬ ∀ (fmt : Nat → Byte) (args : Nat → VarArg) (m : Nat), fmt m = 0 →
    (∀ i < m, fmt i ≠ 0) → InString fmt args m := by
  intro h
  have hin := h (literal "%") (fun _ => intArg 0) 1 (by decide) (by decide)
  exact complete_of_inString (by decide) hin 0 ⟨fun j hj => Nat.le_zero.mp hj ▸ by decide, by decide⟩
    ⟨by decide, .inl (by decide)⟩

end Printf

end SmartEth
