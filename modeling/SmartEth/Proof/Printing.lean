import SmartEth.Proof.Console
import SmartEth.Proof.Uart
import SmartEth.System.Printing

/-!
# What `uart_printf` prints

Every pass of the loop of `uart_printf` is over one piece of the format (`after_piece`), until the
pieces are done or the buffer is full. The buffer then holds the text of the format, as much of it
as there is room for (`after_formatOf`), and `uart_puts` finds this and no more in it
(`uartPuts_bufOf`); `uart_puthex` leaves the digits of a number with leading zeros in its buffer
(`uartPuthex_eq`). So a task that makes calls of `uart_puts`, `uart_puthex` and `uart_printf` is one
that prints their texts (`calling_prints`).
-/

namespace SmartEth.Console

open Printf (GoesOn after item pass placed init textOf)

/-! ## One piece -/

theorem buffer_at {β : Type} (pre cs post : List β) (beyond : Nat → β) {i : Nat} (h : i < cs.length) (d : β) :
    buffer (pre ++ (cs ++ post)) beyond (pre.length + i) = cs.getD i d := by
  unfold buffer
  rw [List.getD_eq_getElem?_getD, List.getElem?_append_right (by omega), Nat.add_sub_cancel_left,
    List.getElem?_append_left h, List.getD_eq_getElem?_getD, List.getElem?_eq_getElem h]
  rfl

variable {pre post : List Piece} {p : Piece} {beyond : Nat → Byte} {more : Nat → VarArg} {n : Nat}

theorem formatOf_at {i : Nat} (h : i < p.chars.length) :
    formatOf (pre ++ p :: post) beyond ((pre.flatMap Piece.chars).length + i) = p.chars.getD i 0 := by
  unfold formatOf
  rw [List.flatMap_append, List.flatMap_cons, List.append_assoc, List.append_assoc]
  exact buffer_at _ _ _ _ h _

theorem argsOf_at {a : VarArg} (h : p.args = [a]) :
    argsOf (pre ++ p :: post) more (pre.flatMap Piece.args).length = a := by
  unfold argsOf
  rw [List.flatMap_append, List.flatMap_cons, h]
  exact buffer_at _ [a] _ _ (i := 0) Nat.one_pos a

/-- The directive that the piece is. -/
def Piece.item (p : Piece) : Printf.Item := ⟨p.chars.length, p.text, p.args.length, p.isString⟩

theorem item_piece (s : Printf) (hpos : s.pos = (pre.flatMap Piece.chars).length)
    (harg : s.arg = (pre.flatMap Piece.args).length) :
    Printf.item (formatOf (pre ++ p :: post) beyond) (argsOf (pre ++ p :: post) more) s.pos s.arg = p.item := by
  have hchar {i : Nat} (h : i < p.chars.length) :
      formatOf (pre ++ p :: post) beyond (s.pos + i) = p.chars.getD i 0 := by
    rw [hpos]
    exact formatOf_at h
  have hargs {a : VarArg} (h : p.args = [a]) : argsOf (pre ++ p :: post) more s.arg = a := by
    rw [harg]
    exact argsOf_at h
  cases p with
  | plain c h =>
    have h0 : formatOf (pre ++ .plain c h :: post) beyond s.pos = c := hchar (i := 0) Nat.one_pos
    rw [Printf.item, h0, if_neg h.2]
    rfl
  | percent =>
    have h0 : formatOf (pre ++ .percent :: post) beyond s.pos = ch '%' := hchar (i := 0) Nat.two_pos
    rw [Printf.item, if_pos h0, hchar (i := 1) Nat.one_lt_two]
    rfl
  | character w =>
    have h0 : formatOf (pre ++ .character w :: post) beyond s.pos = ch '%' := hchar (i := 0) Nat.two_pos
    rw [Printf.item, if_pos h0, hchar (i := 1) Nat.one_lt_two, hargs rfl]
    rfl
  | string a =>
    have h0 : formatOf (pre ++ .string a :: post) beyond s.pos = ch '%' := hchar (i := 0) Nat.two_pos
    rw [Printf.item, if_pos h0, hchar (i := 1) Nat.one_lt_two, hargs rfl]
    rfl
  | number c h w =>
    rw [Printf.item_conversion h fun i hi => hchar hi, hargs rfl]
    rfl

theorem head_chars (p : Piece) : p.chars.getD 0 0 ≠ 0 := by
  cases p with
  | plain c h => exact h.1
  | number c h w =>
    have hall : ∀ c ∈ Printf.conversions, c.chars.getD 0 0 ≠ 0 := by decide
    exact hall c h
  | _ =>
    show ch '%' ≠ 0
    decide

theorem length_chars_pos (p : Piece) : 0 < p.chars.length := by
  by_contra h
  have hnil : p.chars = [] := List.length_eq_zero_iff.mp (by omega)
  exact head_chars p (by rw [hnil]; rfl)

/-! ## The loop -/

theorem placed_append (k : Nat) (cs ds : List Byte) :
    placed k (cs ++ ds) = placed k cs ++ placed (k + cs.length) ds := by
  induction cs generalizing k with
  | nil => rfl
  | cons c cs ih =>
    rw [List.cons_append, placed, placed, ih, List.length_cons, List.cons_append, Nat.add_assoc, Nat.add_comm 1]

/-- The loop has gone through the pieces `pre`. -/
structure Through (pre : List Piece) (s : Printf) : Prop where
  pos : s.pos = (pre.flatMap Piece.chars).length
  arg : s.arg = (pre.flatMap Piece.args).length
  len : s.len = (rendered pre).length
  stores : s.stores = placed 0 (rendered pre)

/-- The text is in the buffer, and the loop has ended. -/
structure Ended (fmt : Nat → Byte) (text : List Byte) (s : Printf) : Prop where
  stop : ¬ GoesOn fmt s
  len : s.len = text.length
  stores : s.stores = placed 0 text

/-- The pass over a piece: its text is stored, of a string as much as there is room for. -/
theorem after_piece (h : Through pre (after (formatOf (pre ++ p :: post) beyond) (argsOf (pre ++ p :: post) more) n))
    (hlt : (rendered pre).length < 255) :
    let s := after (formatOf (pre ++ p :: post) beyond) (argsOf (pre ++ p :: post) more) (n + 1)
    let shown := p.item.shown (rendered pre).length
    s.pos = ((pre ++ [p]).flatMap Piece.chars).length ∧ s.arg = ((pre ++ [p]).flatMap Piece.args).length ∧
      s.len = (rendered pre ++ shown).length ∧ s.stores = placed 0 (rendered pre ++ shown) := by
  set fmt := formatOf (pre ++ p :: post) beyond
  set args := argsOf (pre ++ p :: post) more
  have hgo : GoesOn fmt (after fmt args n) := by
    refine ⟨?_, h.len.trans_lt hlt⟩
    rw [h.pos]
    exact (formatOf_at (i := 0) (length_chars_pos p)).trans_ne (head_chars p)
  obtain ⟨reads, -, hpass⟩ := Printf.pass_eq (after fmt args n) fmt args
  rw [item_piece _ h.pos h.arg, ← Printf.after_succ hgo, h.len] at hpass
  dsimp only
  rw [hpass]
  refine ⟨?_, ?_, ?_, ?_⟩
  · rw [h.pos, List.flatMap_append, List.length_append, List.flatMap_singleton]
    rfl
  · rw [h.arg, List.flatMap_append, List.length_append, List.flatMap_singleton]
    rfl
  · rw [List.length_append]
  · rw [h.stores, placed_append, Nat.zero_add]

theorem formatOf_end (pre : List Piece) (beyond : Nat → Byte) :
    formatOf pre beyond (pre.flatMap Piece.chars).length = 0 :=
  buffer_at (pre.flatMap Piece.chars) [0] [] beyond (i := 0) Nat.one_pos 0

theorem rendered_append (pre post : List Piece) : rendered (pre ++ post) = rendered pre ++ rendered post :=
  List.flatMap_append

theorem rendered_singleton (p : Piece) : rendered [p] = p.text := List.flatMap_singleton _ _

/-- From a piece on, the loop comes to its end. -/
theorem ended_of_through (h : Through pre (after (formatOf (pre ++ post) beyond) (argsOf (pre ++ post) more) n))
    (hle : (rendered pre).length ≤ 255) (hfit : Fit (rendered pre).length post) :
    ∃ m ≤ n + post.length, Ended (formatOf (pre ++ post) beyond) ((rendered (pre ++ post)).take 255)
      (after (formatOf (pre ++ post) beyond) (argsOf (pre ++ post) more) m) := by
  induction post generalizing pre n with
  | nil =>
    rw [List.append_nil] at h ⊢
    refine ⟨n, le_rfl, fun hgo => hgo.1 ?_, ?_, ?_⟩
    · rw [h.pos, formatOf_end]
    · rw [List.take_of_length_le hle, h.len]
    · rw [List.take_of_length_le hle, h.stores]
  | cons p post ih =>
    rcases Nat.lt_or_eq_of_le hle with hlt | hfull
    · obtain ⟨hpos, harg, hlen, hstores⟩ := after_piece h hlt
      obtain ⟨hroom, hfit⟩ := hfit hlt
      have hsplit : pre ++ p :: post = pre ++ [p] ++ post := by simp
      have hnext : rendered (pre ++ [p]) = rendered pre ++ p.text := by
        rw [rendered_append, rendered_singleton]
      by_cases hin : (rendered pre).length + p.text.length ≤ 255
      · -- The whole text is stored.
        have hshown : p.item.shown (rendered pre).length = p.text := by
          unfold Printf.Item.shown
          split
          · exact List.take_of_length_le (by show p.text.length ≤ 255 - _; omega)
          · rfl
        rw [hshown, ← hnext] at hlen hstores
        have hthrough : Through (pre ++ [p]) _ := ⟨hpos, harg, hlen, hstores⟩
        rw [hsplit] at hthrough ⊢
        have hle' : (rendered (pre ++ [p])).length ≤ 255 := by rwa [hnext, List.length_append]
        obtain ⟨m, hm, hend⟩ := ih hthrough hle' (by rwa [hnext, List.length_append])
        exact ⟨m, by rw [List.length_cons]; omega, hend⟩
      · -- Only a string is cut off, and the buffer is then full.
        have hstring : p.isString = true := by
          by_contra hs
          exact hin (hroom (Bool.eq_false_iff.mpr hs))
        have hshown : p.item.shown (rendered pre).length = p.text.take (255 - (rendered pre).length) := if_pos hstring
        have htake : (rendered (pre ++ p :: post)).take 255 =
            rendered pre ++ p.item.shown (rendered pre).length := by
          rw [hsplit, rendered_append, hnext, List.append_assoc, List.take_append,
            List.take_of_length_le (by omega), List.take_append_of_le_length (by omega), hshown]
        have hcut : (p.text.take (255 - (rendered pre).length)).length = 255 - (rendered pre).length :=
          List.length_take_of_le (by omega)
        refine ⟨n + 1, by rw [List.length_cons]; omega, fun hgo => ?_, ?_, ?_⟩
        · have := hgo.2
          rw [hlen, hshown, List.length_append, hcut] at this
          simp only [Printf.BUF_SIZE] at this
          omega
        · rw [htake, hlen]
        · rw [htake, hstores]
    · have htake : (rendered (pre ++ p :: post)).take 255 = rendered pre := by
        rw [rendered_append, List.take_append_of_le_length (by omega), List.take_of_length_le hle]
      refine ⟨n, by omega, fun hgo => ?_, ?_, ?_⟩
      · have := hgo.2
        rw [h.len, hfull] at this
        simp [Printf.BUF_SIZE] at this
      · rw [htake, h.len]
      · rw [htake, h.stores]

theorem after_of_stop {fmt : Nat → Byte} {args : Nat → VarArg} {m k : Nat} (h : ¬ GoesOn fmt (after fmt args m))
    (hk : m ≤ k) : after fmt args k = after fmt args m := by
  induction k, hk using Nat.le_induction with
  | base => rfl
  | succ k _ ih => rw [Printf.after_stop (by rwa [ih]), ih]

/-- With a pass for each character of the format, the loop has ended. -/
theorem after_formatOf {ps : List Piece} (hfit : Fit 0 ps) (beyond : Nat → Byte) (more : Nat → VarArg) {fuel : Nat}
    (hfuel : (ps.flatMap Piece.chars).length ≤ fuel) :
    Ended (formatOf ps beyond) ((rendered ps).take 255) (after (formatOf ps beyond) (argsOf ps more) fuel) := by
  have hstart : Through [] (after (formatOf ([] ++ ps) beyond) (argsOf ([] ++ ps) more) 0) := ⟨rfl, rfl, rfl, rfl⟩
  obtain ⟨m, hm, hend⟩ := ended_of_through hstart (Nat.zero_le _) hfit
  rw [List.nil_append] at hend
  have hlength : ps.length ≤ (ps.flatMap Piece.chars).length := by
    clear * -
    induction ps with
    | nil => exact le_rfl
    | cons p ps ih =>
      have := length_chars_pos p
      rw [List.flatMap_cons, List.length_append, List.length_cons]
      omega
  rwa [after_of_stop hend.stop (by omega)]

/-! ## The buffer -/

theorem foldl_setBuf (cs : List Byte) (buf : Nat → Byte) (k i : Nat) :
    (placed k cs).foldl setBuf buf i = if i < k then buf i else cs.getD (i - k) (buf i) := by
  induction cs generalizing buf k with
  | nil =>
    split <;> rfl
  | cons c cs ih =>
    rw [placed, List.foldl_cons, ih]
    unfold setBuf
    dsimp only
    rcases Nat.lt_trichotomy i k with h | rfl | h
    · rw [if_pos (by omega), if_neg (by omega), if_pos h]
    · rw [if_pos (by omega), if_pos rfl, if_neg (by omega), Nat.sub_self]
      rfl
    · obtain ⟨j, hj⟩ : ∃ j, i - k = j + 1 := ⟨i - k - 1, by omega⟩
      rw [if_neg (by omega), if_neg (by omega), if_neg (by omega), hj, show i - (k + 1) = j by omega]
      rfl

/-- `uart_puts` stops at the terminator. -/
theorem uartPuts_terminated (text rest : List Byte) : uartPuts (text ++ 0 :: rest) = uartPuts text := by
  rw [uartPuts_eq, uartPuts_eq]
  refine congrArg emit (congrArg (List.flatMap wire) ?_)
  rw [List.takeWhile_append]
  split
  · rename_i hall
    rw [List.takeWhile_cons_of_neg (by simp), List.append_nil]
    exact (List.takeWhile_prefix _ |>.eq_of_length hall).symm
  · rfl

/-- `uart_puts` prints the text in the buffer, up to a NUL among its characters. -/
theorem uartPuts_bufOf {fmt : Nat → Byte} {text : List Byte} {s : Printf} (h : Ended fmt text s)
    (hle : text.length ≤ 255) (stack : Nat → Byte) :
    uartPuts ((List.range Printf.BUF_SIZE).map (bufOf stack s)) = uartPuts text := by
  obtain ⟨k, hk⟩ : ∃ k, Printf.BUF_SIZE = text.length + (k + 1) := ⟨255 - text.length, by
    show 256 = _
    omega⟩
  have hstore (i : Nat) : bufOf stack s i = if i = text.length then 0 else text.getD i (stack i) := by
    unfold bufOf setBuf
    rw [h.len, h.stores]
    refine if_congr Iff.rfl rfl ?_
    exact foldl_setBuf text stack 0 i
  have hcells : (List.range text.length).map (bufOf stack s) = text := by
    refine List.ext_getElem (by simp) fun i h₁ h₂ => ?_
    rw [List.getElem_map, List.getElem_range, hstore, if_neg (by omega), List.getD_eq_getElem?_getD,
      List.getElem?_eq_getElem h₂, Option.getD_some]
  have hbuf : (List.range Printf.BUF_SIZE).map (bufOf stack s) =
      text ++ 0 :: (List.range k).map fun i => bufOf stack s (text.length + (i + 1)) := by
    rw [hk, List.range_add, List.map_append, hcells, List.range_succ_eq_map]
    simp [hstore]
  rw [hbuf, uartPuts_terminated]

/-- What `uart_printf` prints, however many more passes its loop may make. -/
theorem uartPrintf_eq {ps : List Piece} (hfit : Fit 0 ps) (stack beyond : Nat → Byte) (more : Nat → VarArg) {fuel : Nat}
    (hfuel : (ps.flatMap Piece.chars).length ≤ fuel) :
    uartPrintf stack (formatOf ps beyond) (argsOf ps more) fuel = some (uartPuts ((rendered ps).take 255)) := by
  have hend := after_formatOf hfit beyond more hfuel
  unfold uartPrintf
  rw [if_neg hend.stop, uartPuts_bufOf hend (List.length_take_le _ _)]

/-! ## `uart_puthex` -/

theorem puthexLoop_eq (n : Nat) (val : BitVec 64) (buf : Nat → Byte) (i : Nat) :
    puthexLoop n val buf i = if i < n then Printf.hexChar (digit 16 val.toNat (n - 1 - i)) else buf i := by
  induction n generalizing val buf with
  | zero => rfl
  | succ n ih =>
    rw [puthexLoop, ih]
    rcases Nat.lt_trichotomy i n with h | rfl | h
    · have hdigit : digit 16 (val >>> 4).toNat (n - 1 - i) = digit 16 val.toNat (n + 1 - 1 - i) := by
        have hnext : n + 1 - 1 - i = n - 1 - i + 1 := by omega
        rw [digit, digit, hnext, BitVec.toNat_ushiftRight, Nat.shiftRight_eq_div_pow, Nat.div_div_eq_div_mul,
          Nat.pow_succ 16, Nat.mul_comm]
      rw [if_pos h, if_pos (by omega), hdigit]
    · have hdigit : (val &&& 0xf).toNat = digit 16 val.toNat 0 := by
        rw [digit, Nat.pow_zero, Nat.div_one, BitVec.toNat_and]
        exact Nat.and_two_pow_sub_one_eq_mod _ 4
      rw [if_neg (by omega), if_pos (by omega), setBuf, if_pos rfl, hdigit, show i + 1 - 1 - i = 0 by omega]
    · rw [if_neg (by omega), if_neg (by omega), setBuf, if_neg (by omega)]

/-- `uart_puthex` prints the number with leading zeros, 16 digits in all. -/
theorem uartPuthex_eq (stack : Nat → Byte) (val : BitVec 64) :
    uartPuthex stack val = uartPuts ((textOf 16 val.toNat).leftpad 16 (ch '0')) := by
  have hdigits : (List.range 16).map (setBuf (puthexLoop 16 val stack) (16, 0)) =
      (highFirst (digit 16 val.toNat) 16 true).map Printf.hexChar := by
    rw [highFirst_eq_map, List.map_map]
    refine List.map_congr_left fun i hi => ?_
    have hlt := List.mem_range.mp hi
    rw [setBuf, if_neg (by omega), puthexLoop_eq, if_pos hlt]
    rfl
  have htext : (highFirst (digit 16 val.toNat) 16 true).map Printf.hexChar =
      (textOf 16 val.toNat).leftpad 16 (ch '0') := by
    rw [highFirst_eq_leftpad (by decide) (by decide) (val.isLt.trans_eq (by decide)), List.leftpad, List.leftpad,
      List.map_append, List.map_replicate, textOf, if_neg (by omega), List.nil_append, List.length_map,
      Int.natAbs_natCast]
    rfl
  rw [uartPuthex, List.range_succ, List.map_append, hdigits, htext]
  exact uartPuts_terminated _ []

theorem prog_eq {c : Call} (h : c.Fits) : c.prog = some (uartPuts c.text) := by
  cases c with
  | puts s => rfl
  | puthex val stack => exact congrArg some (uartPuthex_eq stack val)
  | printf ps stack beyond more => exact uartPrintf_eq h stack beyond more le_rfl

/-- A task that makes calls of `uart_puts`, `uart_puthex` and `uart_printf` does what one does that
prints the texts of the calls: every `uart_printf` ends, and prints its format with every argument
in its place, numbers in canonical digits, and as much of it as the buffer holds. -/
theorem calling_prints (calls : List Call) (hfits : ∀ c ∈ calls, c.Fits) :
    calling calls = some (Tasks.printing (calls.map Call.text)) := by
  induction calls with
  | nil => rfl
  | cons c calls ih =>
    have hrest := ih fun c hc => hfits c (List.mem_cons_of_mem _ hc)
    rw [calling, prog_eq (hfits c List.mem_cons_self), Option.bind_some, hrest]
    rfl

/-- `uart_printf("%x%%\n", 31)`. -/
def hexCall : Call :=
  .printf [.number ⟨"%x".toList.map ch, 16, fun w => (w.setWidth 32).toNat⟩
      (by simp only [Printf.conversions, List.mem_cons, true_or, or_true]) 31,
    .percent, .plain (ch '\n') (by decide)] (fun _ => 0) (fun _ => 0) fun _ => Printf.intArg 0

theorem calling_prints_hex : calling [hexCall, .puts ("ok".toList.map ch)] =
    some (Tasks.printing ["1f%\n".toList.map ch, "ok".toList.map ch]) := by
  have hhex : hexCall.Fits := (by decide : Fit 0 _)
  have htext : hexCall.text = "1f%\n".toList.map ch := by decide
  have hfits : ∀ c ∈ [hexCall, .puts ("ok".toList.map ch)], c.Fits := by
    intro c hc
    simp only [List.mem_cons, List.not_mem_nil, or_false] at hc
    rcases hc with rfl | rfl
    · exact hhex
    · exact trivial
  rw [calling_prints _ hfits, List.map_cons, htext]
  rfl

end SmartEth.Console
