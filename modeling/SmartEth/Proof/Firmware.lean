import Mathlib.Data.List.GetD
import SmartEth.Proof.Printing
import SmartEth.System.Firmware

/-!
# What the firmware sends to its console

A call of `uart_printf` with one number prints the text before it, the number and the text after it
(`prog_number`); so `main`, `vTaskHeartbeat` and `vTaskInfo` print their lines (`heartbeat_prints`,
`info_prints`), and these come out of the UART whole and in order, whatever the other tasks print
(`firmware_console`).
-/

namespace SmartEth.Console

open Printf (Conversion conversions textOf)

/-! ## A call with one number -/

/-- Characters that stand for themselves. -/
def Plain (cs : List Byte) : Prop := ∀ c ∈ cs, c ≠ 0 ∧ c ≠ ch '%'

instance (cs : List Byte) : Decidable (Plain cs) := inferInstanceAs (Decidable (∀ c ∈ cs, _))

def plains (cs : List Byte) (h : Plain cs) : List Piece := cs.attach.map fun c => .plain c.1 (h c.1 c.2)

/-- What a plain character stands for is itself. -/
theorem flatMap_plains {f : Piece → List Byte} (hf : ∀ c hc, f (.plain c hc) = [c]) {cs : List Byte} (h : Plain cs) :
    (plains cs h).flatMap f = cs := by
  unfold plains
  rw [List.flatMap_map]
  simp only [hf]
  rw [← List.map_eq_flatMap, List.attach_map_subtype_val]

theorem chars_plains {cs : List Byte} (h : Plain cs) : (plains cs h).flatMap Piece.chars = cs :=
  flatMap_plains (fun _ _ => rfl) h

theorem text_plains {cs : List Byte} (h : Plain cs) : rendered (plains cs h) = cs :=
  flatMap_plains (fun _ _ => rfl) h

theorem args_plains {cs : List Byte} (h : Plain cs) : (plains cs h).flatMap Piece.args = [] := by
  unfold plains
  rw [List.flatMap_map]
  exact List.flatMap_eq_nil_iff.mpr fun _ _ => rfl

/-- A format whose text is no longer than the buffer has room for. -/
theorem fit_of_length {ps : List Piece} {len : Nat} (h : len + (rendered ps).length ≤ 255) : Fit len ps := by
  induction ps generalizing len with
  | nil => trivial
  | cons p ps ih =>
    have hlen : (rendered (p :: ps)).length = p.text.length + (rendered ps).length := by
      rw [rendered, List.flatMap_cons, List.length_append]
      rfl
    intro _
    exact ⟨fun _ => by omega, ih (by omega)⟩

theorem natAbs_value_lt {c : Conversion} (hc : c ∈ conversions) (w : BitVec 64) : (c.value w).natAbs < 2 ^ 64 := by
  have hw := w.isLt
  have hlow := (w.setWidth 32).isLt
  have hint := @BitVec.toInt_lt 64 w
  have hint' := @BitVec.le_toInt 64 w
  have hlow' := @BitVec.toInt_lt 32 (w.setWidth 32)
  have hlow'' := @BitVec.le_toInt 32 (w.setWidth 32)
  simp only [conversions, List.mem_cons, List.not_mem_nil, or_false] at hc
  rcases hc with rfl | rfl | rfl | rfl | rfl | rfl | rfl | rfl
  all_goals
    dsimp only
    omega

/-- A number has at most 20 digits, and a sign. -/
theorem length_number_le {c : Conversion} (hc : c ∈ conversions) (w : BitVec 64) :
    (textOf c.base (c.value w)).length ≤ 21 := by
  have hv := natAbs_value_lt hc w
  have hdigits : (digitsOf c.base (c.value w).natAbs).length ≤ 20 := by
    rcases Printf.base_conversions hc with hb | hb
    all_goals
      rw [hb]
      exact length_digitsOf_le (by decide) (by decide) (hv.trans (by decide))
  have hsign : (if c.value w < 0 then [ch '-'] else []).length ≤ 1 := by
    split
    · exact le_rfl
    · exact Nat.zero_le _
  rw [textOf, List.length_append, List.length_map]
  omega

theorem prog_number {fmt pre post : String} {c : Conversion} (hc : c ∈ conversions)
    (hfmt : fmt.toList.map ch = Firmware.line pre ++ c.chars ++ Firmware.line post)
    (hpre : Plain (Firmware.line pre)) (hpost : Plain (Firmware.line post))
    (hlen : (Firmware.line pre).length + (Firmware.line post).length ≤ 200)
    (w : BitVec 64) (stack : Nat → Byte) (more : Nat → VarArg) :
    (Print.printf fmt [w]).prog stack more =
      some (uartPuts (Firmware.lineOf pre c.base (c.value w) post)) := by
  let ps : List Piece := plains _ hpre ++ .number c hc w :: plains _ hpost
  have hchars : ps.flatMap Piece.chars = fmt.toList.map ch := by
    rw [hfmt, List.flatMap_append, List.flatMap_cons, chars_plains, chars_plains, List.append_assoc]
    rfl
  have hargs : ps.flatMap Piece.args = [Printf.intArg w] := by
    rw [List.flatMap_append, List.flatMap_cons, args_plains, args_plains]
    rfl
  have htext : rendered ps = Firmware.lineOf pre c.base (c.value w) post := by
    have happend : rendered ps =
        rendered (plains _ hpre) ++ (textOf c.base (c.value w) ++ rendered (plains _ hpost)) := by
      rw [rendered, List.flatMap_append, List.flatMap_cons]
      rfl
    rw [happend, text_plains, text_plains, ← List.append_assoc]
    rfl
  have hroom : (rendered ps).length ≤ 255 := by
    have := length_number_le hc w
    rw [htext, Firmware.lineOf, List.length_append, List.length_append]
    omega
  have hliteral : Printf.literal fmt = formatOf ps fun _ => 0 := by
    funext i
    show (fmt.toList.map ch).getD i 0 = (ps.flatMap Piece.chars ++ [0]).getD i 0
    rw [hchars]
    rcases Nat.lt_or_ge i (fmt.toList.map ch).length with hi | hi
    · exact (List.getD_append _ _ _ _ hi).symm
    · rw [List.getD_eq_default _ _ hi, List.getD_append_right _ _ _ _ hi]
      generalize i - (fmt.toList.map ch).length = j
      cases j <;> rfl
  have hfuel : (ps.flatMap Piece.chars).length ≤ fmt.length := by
    rw [hchars, List.length_map]
    exact le_rfl
  have hfit : Fit 0 ps := fit_of_length (by omega)
  have hprint := uartPrintf_eq hfit stack (fun _ => 0) more hfuel
  rw [← hliteral, List.take_of_length_le hroom, htext] at hprint
  have hmore : argsOf ps more = fun i => ([w].map Printf.intArg).getD i (more i) := by
    unfold argsOf
    rw [hargs]
    rfl
  rw [hmore] at hprint
  exact hprint

/-! ## The tasks -/

/-- The calls print these texts, whatever else is in memory. -/
def Prints (ps : List Print) (texts : List (List Byte)) : Prop :=
  List.Forall₂ (fun p text => ∀ stack more, Print.prog stack more p = some (uartPuts text)) ps texts

theorem Prints.prog {ps : List Print} {texts : List (List Byte)} (h : Prints ps texts)
    (around : Nat → Surroundings) : printsProg around ps = some (Tasks.printing texts) := by
  induction h generalizing around with
  | nil => rfl
  | cons hp _ ih =>
    rw [printsProg, hp, Option.bind_some, ih]
    rfl

theorem prog_puts (text : String) (stack : Nat → Byte) (more : Nat → VarArg) :
    (Print.puts text).prog stack more = some (uartPuts (Firmware.line text)) := rfl

theorem main_prints : Prints mainPrints Firmware.banner :=
  .cons (prog_puts _) (.cons (prog_puts _) (.cons (prog_puts _) (.cons (prog_puts _) (.cons (prog_puts _)
    (.cons (prog_puts _) (.cons (prog_puts _) .nil))))))

theorem beat_mod {j k : Nat} (h : j % 2 ^ 32 = k % 2 ^ 32) : Firmware.beat j = Firmware.beat k := by
  rw [Firmware.beat, Firmware.beat, h]

theorem heartbeat_prints (n : Nat) (count : BitVec 32) :
    Prints (vTaskHeartbeat n count) ((List.range n).map fun k => Firmware.beat (count.toNat + k)) := by
  have hc : (⟨"%x".toList.map ch, 16, fun w => (w.setWidth 32).toNat⟩ : Conversion) ∈ conversions := by
    simp only [conversions, List.mem_cons, true_or, or_true]
  induction n generalizing count with
  | zero => exact .nil
  | succ n ih =>
    rw [List.range_succ_eq_map, List.map_cons, List.map_map]
    refine .cons (fun stack more => ?_) ?_
    · have hcount : ((count.setWidth 64).setWidth 32).toNat = (count.toNat + 0) % 2 ^ 32 := by
        rw [BitVec.toNat_setWidth, BitVec.toNat_setWidth]
        omega
      rw [Firmware.beat, ← hcount]
      exact prog_number hc rfl (by decide +kernel) (by decide +kernel) (by decide +kernel) _ stack more
    · have hnext := ih (count + 1)
      have hbeats : (List.range n).map ((fun k => Firmware.beat (count.toNat + k)) ∘ Nat.succ) =
          (List.range n).map fun k => Firmware.beat ((count + 1).toNat + k) := by
        refine List.map_congr_left fun k _ => beat_mod ?_
        rw [BitVec.toNat_add]
        show (count.toNat + (k + 1)) % 2 ^ 32 = ((count.toNat + 1) % 2 ^ 32 + k) % 2 ^ 32
        omega
      rw [hbeats]
      exact hnext

theorem info_prints (f : Firmware) :
    Prints (vTaskInfo f.mhartid f.marchid f.mimpid f.heap) (f.heap.flatMap f.infoLines) := by
  have hlx : (⟨"%lx".toList.map ch, 16, fun w => w.toNat⟩ : Conversion) ∈ conversions := by
    simp only [conversions, List.mem_cons, true_or, or_true]
  have hd : (⟨"%d".toList.map ch, 10, fun w => (w.setWidth 32).toInt⟩ : Conversion) ∈ conversions := by
    simp only [conversions, List.mem_cons, true_or]
  have hround (heap : BitVec 64) :
      Prints (vTaskInfoRound f.mhartid f.marchid f.mimpid heap) (f.infoLines heap) := by
    refine .cons (prog_puts _) (.cons ?_ (.cons ?_ (.cons ?_ (.cons ?_ (.cons ?_ (.cons (prog_puts _) .nil))))))
    · exact prog_number hlx rfl (by decide +kernel) (by decide +kernel) (by decide +kernel) _
    · exact prog_number hlx rfl (by decide +kernel) (by decide +kernel) (by decide +kernel) _
    · exact prog_number hlx rfl (by decide +kernel) (by decide +kernel) (by decide +kernel) _
    · exact prog_number hd rfl (by decide +kernel) (by decide +kernel) (by decide +kernel) _
    · exact prog_number hd rfl (by decide +kernel) (by decide +kernel) (by decide +kernel) _
  unfold vTaskInfo
  induction f.heap with
  | nil => exact .nil
  | cons heap heaps ih =>
    rw [List.flatMap_cons, List.flatMap_cons]
    exact List.rel_append (hround heap) ih

/-- In every run of the firmware after `uart_init`, with any numbers of rounds and any values of what
it prints, and with up to 13 tasks more that print anything: no character is lost, and what `main`,
`vTaskHeartbeat` and `vTaskInfo` have sent are first parts of their lines, with the numbers in
canonical digits and the count modulo `2 ^ 32`; all of them once they are done. -/
theorem firmware_console (f : Firmware) (u : Ns16550) (around : Nat → Nat → Surroundings)
    (others : List (List (List Byte))) (hn : others.length ≤ 13) :
    ∃ s, f.start u around others = some s ∧
      ∀ es t, run Tasks.step s es = some t → Printed u (f.texts ++ others) t := by
  have hbeats : Prints (vTaskHeartbeat f.beats 0) ((List.range f.beats).map Firmware.beat) := by
    have hzero : (fun k => Firmware.beat ((0 : BitVec 32).toNat + k)) = Firmware.beat :=
      funext fun k => congrArg Firmware.beat (Nat.zero_add k)
    rw [← hzero]
    exact heartbeat_prints f.beats 0
  have hstart : f.start u around others = some (Tasks.start u (f.texts ++ others)) := by
    rw [Firmware.start, main_prints.prog, hbeats.prog, (info_prints f).prog]
    rfl
  have hcount : ((f.texts ++ others).countP fun text => wireOf text ≠ []) ≤ 16 := by
    have hle : (f.texts ++ others).length ≤ 16 := by
      rw [List.length_append]
      show 3 + others.length ≤ 16
      omega
    exact List.countP_le_length.trans hle
  exact ⟨_, hstart, fun es t ht => printed_of_room hcount ht⟩

theorem firmware_console_two : ∃ s, (⟨0, 5, 6, 2, [4096]⟩ : Firmware).start ⟨0, 0, 0, 0, 0, [], [], []⟩
      (fun _ _ => ⟨fun _ => 0, fun _ => Printf.intArg 0⟩) [[Firmware.line "> "]] = some s ∧
    ∀ es t, run Tasks.step s es = some t → Printed ⟨0, 0, 0, 0, 0, [], [], []⟩
      ((⟨0, 5, 6, 2, [4096]⟩ : Firmware).texts ++ [[Firmware.line "> "]]) t :=
  firmware_console _ _ _ _ (by decide)

end SmartEth.Console
