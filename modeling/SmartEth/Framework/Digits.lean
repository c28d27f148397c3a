import Mathlib.Data.List.Induction
import Mathlib.Data.Nat.Digits.Lemmas

/-!
# Digits

Numbers in base `b`, the highest digit first. `Canon b ds n` says that `ds` is the
canonical representation of `n`, which there is one of (`Canon.eq_digitsOf`). Two
loops come to it: one that takes the lowest digit off until nothing is left
(`canon_lowFirst`), and one that goes down from the highest of a fixed number of
digits and leaves out leading zeros (`canon_highFirst`).
-/

namespace SmartEth

/-- The number with the digits `ds`. -/
def digitsVal (b : Nat) (ds : List Nat) : Nat := ds.foldl (fun n d => n * b + d) 0

/-- `ds` are digits of `n`, at least one, with no leading zero but that of zero. -/
structure Canon (b : Nat) (ds : List Nat) (n : Nat) : Prop where
  ne_nil : ds ≠ []
  lt : ∀ d ∈ ds, d < b
  lead : ds.head? = some 0 → ds = [0]
  val : digitsVal b ds = n

/-- The digits of `n`. -/
def digitsOf (b n : Nat) : List Nat := (if n = 0 then [0] else Nat.digits b n).reverse

/-- The lowest digit first, as long as there is one. -/
def lowFirst (b : Nat) : Nat → Nat → List Nat
  | 0, _ => []
  | k + 1, n => if n = 0 then [] else n % b :: lowFirst b k (n / b)

/-- The digits `k - 1, …, 0`, from the first that is not zero, or the last. -/
def highFirst (digit : Nat → Nat) : (k : Nat) → (started : Bool) → List Nat
  | 0, started => if started then [] else [0]
  | k + 1, started =>
    if digit k ≠ 0 ∨ started ∨ k = 0 then digit k :: highFirst digit k true else highFirst digit k started

variable {b n : Nat}

theorem digitsVal_eq (b : Nat) (ds : List Nat) : digitsVal b ds = Nat.ofDigits b ds.reverse := by
  induction ds using List.reverseRecOn with
  | nil => rfl
  | append_singleton ds d ih =>
    rw [List.reverse_append, List.reverse_singleton, List.singleton_append, Nat.ofDigits_cons, ← ih, digitsVal,
      List.foldl_append, List.foldl_cons, List.foldl_nil, ← digitsVal]
    rw [Nat.mul_comm, Nat.add_comm]

theorem digitsVal_cons (b d : Nat) (ds : List Nat) : digitsVal b (d :: ds) = d * b ^ ds.length + digitsVal b ds := by
  rw [digitsVal_eq, digitsVal_eq, List.reverse_cons, Nat.ofDigits_append, List.length_reverse,
    Nat.ofDigits_singleton]
  rw [Nat.mul_comm, Nat.add_comm]

namespace Canon

theorem digitsOf (hb : 1 < b) (n : Nat) : Canon b (digitsOf b n) n := by
  by_cases h : n = 0
  · subst h
    exact ⟨by simp [SmartEth.digitsOf], by simp [SmartEth.digitsOf]; omega, fun _ => by simp [SmartEth.digitsOf],
      by simp [SmartEth.digitsOf, digitsVal]⟩
  · have hne : Nat.digits b n ≠ [] := Nat.digits_ne_nil_iff_ne_zero.mpr h
    rw [SmartEth.digitsOf, if_neg h]
    refine ⟨List.reverse_ne_nil_iff.mpr hne, fun d hd => ?_, fun hl => ?_, ?_⟩
    · exact Nat.digits_lt_base hb (List.mem_reverse.mp hd)
    · rw [List.head?_reverse, List.getLast?_eq_some_getLast hne, Option.some.injEq] at hl
      exact absurd hl (Nat.getLast_digit_ne_zero b h)
    · rw [digitsVal_eq, List.reverse_reverse, Nat.ofDigits_digits]

/-- The canonical digits are the only ones. -/
theorem eq_digitsOf (hb : 1 < b) {ds : List Nat} (h : Canon b ds n) : ds = SmartEth.digitsOf b n := by
  have hval := h.val
  rw [digitsVal_eq] at hval
  rw [SmartEth.digitsOf]
  by_cases h0 : ds.head? = some 0
  · obtain rfl := h.lead h0
    obtain rfl : 0 = n := hval
    rfl
  · have hdig := Nat.digits_ofDigits b hb ds.reverse (fun d hd => h.lt d (List.mem_reverse.mp hd)) fun hne => by
      rw [List.getLast_reverse]
      intro hz
      rw [List.head?_eq_some_head (List.reverse_ne_nil_iff.mp hne), hz] at h0
      exact h0 rfl
    rw [hval] at hdig
    have hn : n ≠ 0 := by
      rintro rfl
      rw [Nat.digits_zero] at hdig
      exact h.ne_nil (List.reverse_eq_nil_iff.mp hdig.symm)
    rw [if_neg hn, hdig, List.reverse_reverse]

end Canon

theorem lowFirst_eq (hb : 1 < b) {k : Nat} (h : n < b ^ k) : lowFirst b k n = Nat.digits b n := by
  induction k generalizing n with
  | zero =>
    obtain rfl : n = 0 := by simpa using h
    rw [lowFirst, Nat.digits_zero]
  | succ k ih =>
    rw [lowFirst]
    by_cases h0 : n = 0
    · rw [if_pos h0, h0, Nat.digits_zero]
    · rw [if_neg h0, Nat.digits_eq_cons_digits_div hb h0, ih]
      exact Nat.div_lt_of_lt_mul (by rwa [Nat.pow_succ, Nat.mul_comm] at h)

/-- The lowest digit first, turned round. -/
theorem canon_lowFirst (hb : 1 < b) {k : Nat} (h : n < b ^ k) :
    (if n = 0 then [0] else lowFirst b k n).reverse = digitsOf b n := by
  rw [lowFirst_eq hb h, digitsOf]

section HighFirst

variable (b n)

/-- Digit `i` of `n`. -/
def digit (i : Nat) : Nat := n / b ^ i % b

theorem length_highFirst (f : Nat → Nat) (k : Nat) : (highFirst f k true).length = k := by
  induction k with
  | zero => rfl
  | succ k ih => rw [highFirst, if_pos (.inr (.inl rfl)), List.length_cons, ih]

theorem mem_highFirst {f : Nat → Nat} {k d : Nat} {started : Bool} (h : d ∈ highFirst f k started) :
    d = 0 ∨ ∃ i, d = f i := by
  induction k generalizing started with
  | zero =>
    rw [highFirst] at h
    split at h
    · cases h
    · exact .inl (List.mem_singleton.mp h)
  | succ k ih =>
    rw [highFirst] at h
    split at h
    · rcases List.mem_cons.mp h with rfl | h
      · exact .inr ⟨k, rfl⟩
      · exact ih h
    · exact ih h

theorem digitsVal_highFirst (k : Nat) : digitsVal b (highFirst (digit b n) k true) = n % b ^ k := by
  induction k with
  | zero => simp [highFirst, digitsVal, Nat.mod_one]
  | succ k ih =>
    rw [highFirst, if_pos (.inr (.inl rfl)), digitsVal_cons, length_highFirst, ih, digit, Nat.mod_pow_succ,
      Nat.mul_comm, Nat.add_comm]

variable {b n}

/-- From the highest digit down, without leading zeros. -/
theorem canon_highFirst (hb : 1 < b) {k : Nat} (h : n < b ^ (k + 1)) :
    highFirst (digit b n) (k + 1) false = digitsOf b n := by
  refine Canon.eq_digitsOf hb ?_
  have hlt : ∀ k started, ∀ d ∈ highFirst (digit b n) k started, d < b := by
    intro k started d hd
    rcases mem_highFirst hd with rfl | ⟨i, rfl⟩
    · omega
    · exact Nat.mod_lt _ (by omega)
  induction k with
  | zero =>
    have hn : n < b := by simpa using h
    rw [highFirst, if_pos (.inr (.inr rfl))]
    refine ⟨List.cons_ne_nil _ _, ?_, fun hl => ?_, ?_⟩
    · have := hlt 1 true
      rwa [highFirst, if_pos (.inr (.inl rfl))] at this
    · rw [Option.some.inj hl]
      rfl
    · simp [highFirst, digitsVal, digit, Nat.mod_eq_of_lt hn]
  | succ k ih =>
    rw [highFirst]
    by_cases hd : digit b n (k + 1) = 0
    · rw [if_neg (by simp [hd])]
      refine ih ?_
      -- the highest digit is zero
      have hq : n / b ^ (k + 1) < b := Nat.div_lt_of_lt_mul (by rwa [Nat.pow_succ] at h)
      rw [digit, Nat.mod_eq_of_lt hq] at hd
      exact (Nat.div_eq_zero_iff_lt (Nat.pow_pos (by omega))).mp hd
    · rw [if_pos (.inl hd)]
      refine ⟨List.cons_ne_nil _ _, ?_, fun hl => absurd (Option.some.inj hl) hd, ?_⟩
      · have := hlt (k + 2) true
        rwa [highFirst, if_pos (.inr (.inl rfl))] at this
      · have hv := digitsVal_highFirst b n (k + 2)
        rw [highFirst, if_pos (.inr (.inl rfl))] at hv
        rw [hv, Nat.mod_eq_of_lt h]

/-- All the digits from the highest down. -/
theorem highFirst_eq_map (f : Nat → Nat) (k : Nat) :
    highFirst f k true = (List.range k).map fun i => f (k - 1 - i) := by
  induction k with
  | zero => rfl
  | succ k ih =>
    rw [highFirst, if_pos (.inr (.inl rfl)), ih, List.range_succ_eq_map, List.map_cons, List.map_map]
    refine congrArg₂ List.cons rfl (List.map_congr_left fun i _ => ?_)
    show f (k - 1 - i) = f (k + 1 - 1 - (i + 1))
    rw [show k + 1 - 1 - (i + 1) = k - 1 - i by omega]

theorem length_digitsOf_le (hb : 1 < b) {k : Nat} (hk : 0 < k) (h : n < b ^ k) : (digitsOf b n).length ≤ k := by
  rw [digitsOf, List.length_reverse]
  split
  · exact hk
  · exact (Nat.digits_length_le_iff hb n).mpr h

theorem digitsVal_zeros (k : Nat) (ds : List Nat) : digitsVal b (List.replicate k 0 ++ ds) = digitsVal b ds := by
  induction k with
  | zero => rfl
  | succ k ih => rw [List.replicate_succ, List.cons_append, digitsVal_cons, Nat.zero_mul, Nat.zero_add, ih]

/-- All the digits from the highest down are the canonical ones, after zeros. -/
theorem highFirst_eq_leftpad (hb : 1 < b) {k : Nat} (hk : 0 < k) (h : n < b ^ k) :
    highFirst (digit b n) k true = (digitsOf b n).leftpad k 0 := by
  have hc := Canon.digitsOf hb n
  have hlen := length_digitsOf_le hb hk h
  have hval : digitsVal b (highFirst (digit b n) k true) = digitsVal b ((digitsOf b n).leftpad k 0) := by
    rw [digitsVal_highFirst, Nat.mod_eq_of_lt h, List.leftpad, digitsVal_zeros, hc.val]
  rw [digitsVal_eq, digitsVal_eq] at hval
  refine List.reverse_injective (Nat.ofDigits_inj_of_len_eq hb ?_ (fun d hd => ?_) (fun d hd => ?_) hval)
  · rw [List.length_reverse, List.length_reverse, length_highFirst, List.leftpad, List.length_append,
      List.length_replicate]
    omega
  · rcases mem_highFirst (List.mem_reverse.mp hd) with rfl | ⟨i, rfl⟩
    · omega
    · exact Nat.mod_lt _ (by omega)
  · rcases List.mem_append.mp (List.mem_reverse.mp hd) with hd | hd
    · rw [List.eq_of_mem_replicate hd]
      omega
    · exact hc.lt d hd

end HighFirst

end SmartEth
