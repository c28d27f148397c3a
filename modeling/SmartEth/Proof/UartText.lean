import SmartEth.System.Uart

/-!
# The conversions of `uart_printf`

The digit loops come to the canonical digits of their argument (`putHex_eq`, `putUnsigned_eq`,
`putSigned_eq`). A pass of the loop then appends the text of its directive, of a string as
much as there is room for (`pass_eq`), and the text of an integer conversion is the canonical
one of its argument (`conversion_canonical`).
-/

namespace SmartEth

namespace Printf

variable (s : Printf)

/-! ## Stores -/

/-- A text is appended, and `k` arguments are taken. -/
def emit (k : Nat) (text : List Byte) : Printf :=
  { s with arg := s.arg + k, len := s.len + text.length, stores := s.stores ++ placed s.len text }

theorem putAll_eq (cs : List Byte) : s.putAll cs = s.emit 0 cs := by
  induction cs generalizing s with
  | nil => simp [putAll, emit, placed]
  | cons c cs ih =>
    rw [putAll, List.foldl_cons, ← putAll, ih]
    simp only [emit, putc, placed, List.length_cons, List.append_assoc, List.singleton_append, Nat.add_zero,
      Nat.add_assoc, Nat.add_comm 1]

theorem takeArg_emit (text : List Byte) : s.takeArg.emit 0 text = s.emit 1 text := rfl

theorem putc_eq (c : Byte) : s.putc c = s.emit 0 [c] := s.putAll_eq [c]

theorem putString_eq (cs : List Byte) : putString cs s = s.emit 0 (cs.take (BUF_SIZE - 1 - s.len)) := by
  rw [← putAll_eq]
  induction cs generalizing s with
  | nil =>
    rw [List.take_nil]
    rfl
  | cons c cs ih =>
    rw [putString]
    by_cases h : s.len < BUF_SIZE - 1
    · obtain ⟨k, hk⟩ : ∃ k, BUF_SIZE - 1 - s.len = k + 1 := ⟨BUF_SIZE - 1 - s.len - 1, by omega⟩
      have hk' : BUF_SIZE - 1 - (s.putc c).len = k := by
        rw [putc]
        dsimp only
        omega
      rw [if_pos h, ih, hk, hk', List.take_succ_cons]
      rfl
    · rw [if_neg h, Nat.sub_eq_zero_of_le (Nat.le_of_not_lt h), List.take_zero]
      rfl

/-! ## Digits -/

theorem putHex_eq {w : Nat} (v : BitVec w) (n : Nat) (started : Bool) :
    putHex v n started s = s.putAll ((highFirst (digit 16 v.toNat) n started).map hexChar) := by
  induction n generalizing s started with
  | zero => cases started <;> rfl
  | succ n ih =>
    have hn : (v >>> (4 * n)).toNat % 16 = digit 16 v.toNat n := by
      rw [BitVec.toNat_ushiftRight, Nat.shiftRight_eq_div_pow, Nat.pow_mul]
      rfl
    rw [putHex, highFirst, hn]
    split
    · rw [ih, List.map_cons, putAll, putAll, List.foldl_cons]
    · exact ih s started

/-- All the nibbles of a word. -/
theorem putHex_all {w k : Nat} (v : BitVec w) (hw : w = 4 * (k + 1)) :
    putHex v (k + 1) false s = s.emit 0 (textOf 16 v.toNat) := by
  have hv : v.toNat < 16 ^ (k + 1) := by
    have hpow : 2 ^ w = 16 ^ (k + 1) := by rw [hw, Nat.pow_mul]
    exact hpow ▸ v.isLt
  rw [putHex_eq, canon_highFirst (by decide) hv, putAll_eq]
  rfl

theorem decChar_eq : ∀ d < 10, ch '0' + BitVec.ofNat 8 d = hexChar d := by decide

theorem toNat_eq_zero_iff {u : BitVec 64} : u.toNat = 0 ↔ u = 0 := by
  rw [← BitVec.toNat_inj]
  rfl

theorem tmpDigits_eq (n : Nat) (u : BitVec 64) : tmpDigits n u = (lowFirst 10 n u.toNat).map hexChar := by
  induction n generalizing u with
  | zero => rfl
  | succ n ih =>
    rw [tmpDigits, lowFirst]
    by_cases h : u = 0
    · rw [if_pos h, if_pos (toNat_eq_zero_iff.mpr h)]
      rfl
    · have hmod : (u % 10).setWidth 8 = BitVec.ofNat 8 (u.toNat % 10) := by
        apply BitVec.eq_of_toNat_eq
        rw [BitVec.toNat_setWidth, BitVec.toNat_umod, BitVec.toNat_ofNat]
        rfl
      have hdiv : (u / 10).toNat = u.toNat / 10 := BitVec.toNat_udiv
      rw [if_neg h, if_neg (toNat_eq_zero_iff.not.mpr h), ih, hdiv, hmod,
        decChar_eq _ (Nat.mod_lt _ (by decide)), List.map_cons]

theorem putUnsigned_eq (u : BitVec 64) : putUnsigned u s = s.emit 0 ((digitsOf 10 u.toNat).map hexChar) := by
  have hu : u.toNat < 10 ^ 20 := lt_trans u.isLt (by decide)
  rw [putUnsigned, putAll_eq, ← canon_lowFirst (by decide) hu, List.map_reverse]
  by_cases h : u = 0
  · rw [if_pos h, if_pos (toNat_eq_zero_iff.mpr h)]
    rfl
  · rw [if_neg h, if_neg (toNat_eq_zero_iff.not.mpr h), tmpDigits_eq]

theorem putSigned_eq (v : BitVec 64) : putSigned v s = s.emit 0 (textOf 10 v.toInt) := by
  have hlt : v.slt 0 = true ↔ v.toInt < 0 := by
    rw [BitVec.slt, decide_eq_true_eq]
    rfl
  have hint := v.toInt_eq_toNat_cond
  have hv := v.isLt
  rw [putSigned, textOf]
  by_cases h : v.toInt < 0
  · have habs : (-v).toNat = v.toInt.natAbs := by
      rw [BitVec.toNat_neg]
      omega
    rw [if_pos (hlt.mpr h), if_pos h, putUnsigned_eq, habs, ← putAll_eq, ← putAll_eq, putAll, putAll,
      List.singleton_append, List.foldl_cons]
  · have habs : v.toNat = v.toInt.natAbs := by omega
    rw [if_neg (hlt.not.mpr h), if_neg h, putUnsigned_eq, habs, List.nil_append]

/-! ## A pass -/

section

variable (fmt : Nat → Byte) (args : Nat → VarArg)

/-- What is stored of a directive's text: of a string what there is room for. -/
def Item.shown (i : Item) (len : Nat) : List Byte := if i.isString then i.text.take (BUF_SIZE - 1 - len) else i.text

theorem longCase_eq : longCase fmt args s =
    s.emit (longItem (args s.arg) (fmt s.pos)).args (longItem (args s.arg) (fmt s.pos)).text := by
  rw [longCase, longItem]
  by_cases hx : fmt s.pos = ch 'x'
  · rw [if_pos hx, if_pos hx, putHex_all _ _ (by decide), takeArg_emit]
  rw [if_neg hx, if_neg hx]
  by_cases hd : fmt s.pos = ch 'd' ∨ fmt s.pos = ch 'i'
  · rw [if_pos hd, if_pos hd, putSigned_eq, takeArg_emit]
  rw [if_neg hd, if_neg hd]
  by_cases hu : fmt s.pos = ch 'u'
  · rw [if_pos hu, if_pos hu, putUnsigned_eq, takeArg_emit]
    rfl
  · rw [if_neg hu, if_neg hu]
    exact s.putAll_eq [ch '%', ch 'l', fmt s.pos]

theorem isString_longItem (a : VarArg) (c : Byte) : (longItem a c).isString = false := by
  rw [longItem]
  repeat' split
  all_goals rfl

theorem width_longItem (a : VarArg) (c : Byte) : (longItem a c).width = 3 := by
  rw [longItem]
  repeat' split
  all_goals rfl

/-- The `switch` after `%` moves on past an `l`. -/
theorem percentCase_eq : percentCase fmt args s =
    (if fmt s.pos = ch 'l' then s.advance else s).emit (percentItem (args s.arg) (fmt s.pos) (fmt (s.pos + 1))).args
      ((percentItem (args s.arg) (fmt s.pos) (fmt (s.pos + 1))).shown s.len) := by
  have hshown : ∀ i : Item, i.isString = false → s.emit i.args i.text = s.emit i.args (i.shown s.len) := by
    intro i hi
    rw [Item.shown, hi, if_neg Bool.false_ne_true]
  rw [percentCase, percentItem]
  by_cases hs : fmt s.pos = ch 's'
  · rw [if_pos hs, if_pos hs, if_neg (by rw [hs]; decide), putString_eq, takeArg_emit]
    rfl
  rw [if_neg hs, if_neg hs]
  by_cases hx : fmt s.pos = ch 'x'
  · rw [if_pos hx, if_pos hx, if_neg (by rw [hx]; decide), putHex_all _ _ (by decide), takeArg_emit]
    exact hshown ⟨2, _, 1, false⟩ rfl
  rw [if_neg hx, if_neg hx]
  by_cases hl : fmt s.pos = ch 'l'
  · rw [if_pos hl, if_pos hl, if_pos hl, longCase_eq, Item.shown, isString_longItem, if_neg Bool.false_ne_true]
    rfl
  rw [if_neg hl, if_neg hl, if_neg hl]
  by_cases hd : fmt s.pos = ch 'd' ∨ fmt s.pos = ch 'i'
  · rw [if_pos hd, if_pos hd, putSigned_eq, takeArg_emit, BitVec.toInt_signExtend_of_le (by decide)]
    exact hshown ⟨2, _, 1, false⟩ rfl
  rw [if_neg hd, if_neg hd]
  by_cases hu : fmt s.pos = ch 'u'
  · rw [if_pos hu, if_pos hu, putUnsigned_eq, takeArg_emit, BitVec.toNat_setWidth_of_le (by decide)]
    exact hshown ⟨2, _, 1, false⟩ rfl
  rw [if_neg hu, if_neg hu]
  by_cases hc : fmt s.pos = ch 'c'
  · rw [if_pos hc, if_pos hc, putc_eq, takeArg_emit]
    exact hshown ⟨2, _, 1, false⟩ rfl
  rw [if_neg hc, if_neg hc]
  by_cases hp : fmt s.pos = ch '%'
  · rw [if_pos hp, if_pos hp, putc_eq]
    exact hshown ⟨2, _, 0, false⟩ rfl
  · rw [if_neg hp, if_neg hp]
    exact (s.putAll_eq [ch '%', fmt s.pos]).trans (hshown ⟨2, _, 0, false⟩ rfl)

theorem width_percentItem (a : VarArg) (c c' : Byte) : (percentItem a c c').width = if c = ch 'l' then 3 else 2 := by
  rw [percentItem]
  by_cases hl : c = ch 'l'
  · subst hl
    rw [if_pos rfl, if_neg (by decide), if_neg (by decide), if_pos rfl]
    exact width_longItem a c'
  · rw [if_neg hl, if_neg hl]
    repeat' split
    all_goals rfl

/-- A pass appends the text of its directive, and moves on past it. -/
theorem pass_eq : ∃ reads : List Nat, (∀ p ∈ reads, p < s.pos + (item fmt args s.pos s.arg).width) ∧
    pass fmt args s =
      ⟨s.pos + (item fmt args s.pos s.arg).width, s.arg + (item fmt args s.pos s.arg).args,
        s.len + ((item fmt args s.pos s.arg).shown s.len).length,
        s.stores ++ placed s.len ((item fmt args s.pos s.arg).shown s.len), s.reads ++ reads⟩ := by
  rw [pass, item]
  by_cases hp : fmt s.pos = ch '%'
  · rw [if_pos hp, if_pos hp, percentCase_eq, width_percentItem]
    by_cases hl : fmt (s.pos + 1) = ch 'l'
    · refine ⟨[s.pos + 1, s.pos + 2], ?_, ?_⟩
      · rw [if_pos hl]
        simp
      · rw [if_pos (show fmt s.advance.pos = ch 'l' from hl), if_pos hl]
        simp only [emit, advance, List.append_assoc, List.cons_append, List.nil_append]
    · refine ⟨[s.pos + 1], ?_, ?_⟩
      · rw [if_neg hl]
        simp
      · rw [if_neg (show ¬ fmt s.advance.pos = ch 'l' from hl), if_neg hl]
        rfl
  · rw [if_neg hp, if_neg hp, putc_eq]
    exact ⟨[], nofun, by rw [List.append_nil]; rfl⟩

end

/-! ## Canonical numbers -/

theorem digitOfChar_hexChar : ∀ base ≤ 16, ∀ d < base, digitOfChar base (hexChar d) = some d := by decide

theorem parseDigits_map {base : Nat} (hb : base ≤ 16) {ds : List Nat} (h : ∀ d ∈ ds, d < base) :
    parseDigits base (ds.map hexChar) = some (digitsVal base ds) := by
  rw [parseDigits, digitsVal]
  generalize 0 = acc
  induction ds generalizing acc with
  | nil => rfl
  | cons d ds ih =>
    rw [List.map_cons, List.foldl_cons, List.foldl_cons, Option.bind_some,
      digitOfChar_hexChar base hb d (h d List.mem_cons_self)]
    exact ih (fun d hd => h d (List.mem_cons_of_mem _ hd)) _

theorem canonical_textOf {base : Nat} (hb : 1 < base) (hb' : base ≤ 16) (v : Int) :
    Canonical base (textOf base v) v := by
  have hc := Canon.digitsOf hb v.natAbs
  have hp := (parseDigits_map hb' hc.lt).trans (congrArg some hc.val)
  refine ⟨⟨_, hc, rfl⟩, ?_⟩
  rw [textOf]
  by_cases h : v < 0
  · rw [if_pos h, List.singleton_append, parse, if_pos rfl, hp, Option.map_some]
    congr 1
    omega
  · rw [if_neg h, List.nil_append]
    obtain ⟨d, ds, hd⟩ := List.exists_cons_of_ne_nil hc.ne_nil
    have hlt : d < 16 := lt_of_lt_of_le (hc.lt d (hd ▸ List.mem_cons_self)) hb'
    have hchar : hexChar d ≠ ch '-' := (by decide : ∀ d < 16, hexChar d ≠ ch '-') d hlt
    rw [hd, List.map_cons] at hp ⊢
    rw [parse, if_neg hchar, hp, Option.map_some]
    exact congrArg some (by omega)

section

variable {fmt : Nat → Byte} {args : Nat → VarArg} {s}

/-- The characters of a conversion stand at `pos`. -/
def Conversion.At (c : Conversion) (fmt : Nat → Byte) (pos : Nat) : Prop :=
  ∀ i < c.chars.length, fmt (pos + i) = c.chars.getD i 0

theorem item_conversion {c : Conversion} (hc : c ∈ conversions) (h : c.At fmt s.pos) :
    item fmt args s.pos s.arg = ⟨c.chars.length, textOf c.base (c.value (args s.arg).word), 1, false⟩ := by
  simp only [conversions, List.mem_cons, List.not_mem_nil, or_false] at hc
  rcases hc with rfl | rfl | rfl | rfl | rfl | rfl | rfl | rfl
  all_goals
    have h0 : fmt s.pos = ch '%' := h 0 (by decide)
    have h1 := h 1 (by decide)
    rw [item, if_pos h0, percentItem, h1]
  -- After `%l` there is a third character.
  case inr.inr.inr.inr.inl | inr.inr.inr.inr.inr.inl | inr.inr.inr.inr.inr.inr.inl | inr.inr.inr.inr.inr.inr.inr =>
    have h2 := h 2 (by decide)
    rw [longItem, h2]
    rfl
  all_goals rfl

theorem base_conversions {c : Conversion} (hc : c ∈ conversions) : c.base = 10 ∨ c.base = 16 := by
  simp only [conversions, List.mem_cons, List.not_mem_nil, or_false] at hc
  rcases hc with rfl | rfl | rfl | rfl | rfl | rfl | rfl | rfl
  all_goals decide

/-- The pass over an integer conversion appends the canonical text of its argument, at its width,
and moves on past the conversion and the argument. -/
theorem conversion_canonical {c : Conversion} (hc : c ∈ conversions) (h : c.At fmt s.pos) :
    ∃ text, Canonical c.base text (c.value (args s.arg).word) ∧
      (pass fmt args s).stores = s.stores ++ placed s.len text ∧
      (pass fmt args s).len = s.len + text.length ∧
      (pass fmt args s).pos = s.pos + c.chars.length ∧ (pass fmt args s).arg = s.arg + 1 := by
  have hbase := base_conversions hc
  obtain ⟨reads, _, hpass⟩ := pass_eq s fmt args
  rw [item_conversion hc h] at hpass
  exact ⟨_, canonical_textOf (by omega) (by omega) _, by rw [hpass]; rfl, by rw [hpass]; rfl, by rw [hpass],
    by rw [hpass]⟩

/-- `uart_printf("%ld", LONG_MIN)`. -/
theorem conversion_canonical_long_min : ∃ text, Canonical 10 text (-2 ^ 63) ∧
    (pass (literal "%ld") (fun _ => intArg (BitVec.ofNat 64 (2 ^ 63))) init).stores = placed 0 text := by
  have hc : (⟨"%ld".toList.map ch, 10, fun w => w.toInt⟩ : Conversion) ∈ conversions := by
    simp only [conversions, List.mem_cons, true_or, or_true]
  have hat : (⟨"%ld".toList.map ch, 10, fun w => w.toInt⟩ : Conversion).At (literal "%ld") init.pos :=
    (by decide : ∀ i < 3, literal "%ld" (0 + i) = ("%ld".toList.map ch).getD i 0)
  obtain ⟨text, hcanon, hstores, -⟩ := conversion_canonical hc hat
  have hmin : (BitVec.ofNat 64 (2 ^ 63)).toInt = -2 ^ 63 := by decide
  exact ⟨text, hmin ▸ hcanon, hstores⟩

end

end Printf

end SmartEth
