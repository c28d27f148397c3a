import Mathlib.Data.BitVec
import Mathlib.Data.List.Basic
import Mathlib.Tactic.Ring

/-!
# Memory

A memory of cells `α` at `w`-bit addresses; ranges wrap at `2 ^ w`, as address
arithmetic does. Reads after writes (what was there is still there exactly if it
agrees with what is stored: `read_write_iff`), ranges (`Region`) and when they do not
overlap, and the entries of a table of `k`-cell entries (`slot`), which do not
overlap as long as the table fits (`slot_disjoint`).
-/

namespace SmartEth

abbrev Mem (w : Nat) (α : Type) := BitVec w → α

/-- The cells `[base, base + len)`, modulo `2 ^ w`. -/
structure Region (w : Nat) where
  base : BitVec w
  len : Nat
  deriving DecidableEq

variable {w : Nat} {α : Type}

instance : Membership (BitVec w) (Region w) := ⟨fun r x => (x - r.base).toNat < r.len⟩

instance (r : Region w) (x : BitVec w) : Decidable (x ∈ r) :=
  inferInstanceAs (Decidable ((x - r.base).toNat < r.len))

theorem Region.mem_def {r : Region w} {x : BitVec w} : x ∈ r ↔ (x - r.base).toNat < r.len := Iff.rfl

theorem add_ofNat_sub_self (a : BitVec w) (i : Nat) : a + BitVec.ofNat w i - a = BitVec.ofNat w i := by
  rw [BitVec.add_comm, BitVec.add_sub_cancel]

theorem Region.add_mem {a : BitVec w} {n i : Nat} (hi : i < n) :
    a + BitVec.ofNat w i ∈ (⟨a, n⟩ : Region w) := by
  rw [Region.mem_def, add_ofNat_sub_self, BitVec.toNat_ofNat]
  exact lt_of_le_of_lt (Nat.mod_le _ _) hi

namespace Region

/-- No cell is in both. -/
def Disjoint (r r' : Region w) : Prop := ∀ x ∈ r, x ∉ r'

theorem Disjoint.symm {r r' : Region w} (h : r.Disjoint r') : r'.Disjoint r :=
  fun x h₁ h₂ => h x h₂ h₁

theorem Disjoint.sub_left {r r₁ r' : Region w} (h : r.Disjoint r') (hs : ∀ x ∈ r₁, x ∈ r) :
    r₁.Disjoint r' := fun x hx => h x (hs x hx)

theorem Disjoint.sub_right {r r' r₁ : Region w} (h : r.Disjoint r') (hs : ∀ x ∈ r₁, x ∈ r') :
    r.Disjoint r₁ := fun x hx hx' => h x hx (hs x hx')

theorem mem_of_le {a : BitVec w} {n k : Nat} (h : n ≤ k) :
    ∀ x ∈ (⟨a, n⟩ : Region w), x ∈ (⟨a, k⟩ : Region w) :=
  fun _ hx => lt_of_lt_of_le hx h

/-- Two ranges that share a cell share the first cell of one of them. -/
theorem disjoint_iff {r r' : Region w} :
    r.Disjoint r' ↔ r.len = 0 ∨ r'.len = 0 ∨ (r'.base ∉ r ∧ r.base ∉ r') := by
  constructor
  · intro h
    by_cases h0 : r.len = 0
    · exact .inl h0
    by_cases h1 : r'.len = 0
    · exact .inr (.inl h1)
    refine .inr (.inr ⟨fun hm => h _ hm ?_, fun hm => h _ ?_ hm⟩) <;>
    · simp only [mem_def, BitVec.sub_self, BitVec.toNat_zero]; omega
  · rintro (h | h | ⟨h₁, h₂⟩) x hx hx'
    · rw [mem_def, h] at hx; omega
    · rw [mem_def, h] at hx'; omega
    · rw [mem_def] at hx hx' h₁ h₂
      -- the range whose offset of `x` is the larger one holds the other's base
      rcases Nat.le_total (x - r'.base).toNat (x - r.base).toNat with hle | hle
      · have e : (r'.base - r.base).toNat = (x - r.base).toNat - (x - r'.base).toNat := by
          rw [← BitVec.toNat_sub_of_le (BitVec.le_def.mpr hle)]
          congr 1
          ring
        omega
      · have e : (r.base - r'.base).toNat = (x - r'.base).toNat - (x - r.base).toNat := by
          rw [← BitVec.toNat_sub_of_le (BitVec.le_def.mpr hle)]
          congr 1
          ring
        omega

instance (r r' : Region w) : Decidable (r.Disjoint r') := decidable_of_iff _ disjoint_iff.symm

end Region

namespace Mem

/-- The `n` cells from `a` on. -/
def read (m : Mem w α) (a : BitVec w) (n : Nat) : List α :=
  (List.range n).map fun i => m (a + BitVec.ofNat w i)

/-- The memory after the cells `bs` are stored from `a` on. -/
def write (m : Mem w α) (a : BitVec w) (bs : List α) : Mem w α :=
  fun x => bs.getD (x - a).toNat (m x)

@[simp] theorem length_read (m : Mem w α) (a : BitVec w) (n : Nat) : (m.read a n).length = n := by
  simp only [read, List.length_map, List.length_range]

theorem read_congr {m m' : Mem w α} {a : BitVec w} {n : Nat}
    (h : ∀ x ∈ (⟨a, n⟩ : Region w), m x = m' x) : m.read a n = m'.read a n :=
  List.map_congr_left fun _ hi => h _ (Region.add_mem (List.mem_range.mp hi))

theorem write_of_notMem {m : Mem w α} {a x : BitVec w} {bs : List α}
    (h : x ∉ (⟨a, bs.length⟩ : Region w)) : m.write a bs x = m x := by
  rw [Region.mem_def] at h
  rw [write, List.getD_eq_getElem?_getD, List.getElem?_eq_none (by simpa using h), Option.getD_none]

theorem write_of_mem {m m' : Mem w α} {a x : BitVec w} {bs : List α}
    (h : x ∈ (⟨a, bs.length⟩ : Region w)) : m.write a bs x = m'.write a bs x := by
  rw [Region.mem_def] at h
  simp only [write, List.getD_eq_getElem?_getD, List.getElem?_eq_getElem h, Option.getD_some]

theorem read_write_self (m : Mem w α) (a : BitVec w) (bs : List α) (h : bs.length ≤ 2 ^ w) :
    (m.write a bs).read a bs.length = bs := by
  refine List.ext_getElem (length_read _ _ _) fun i h₁ h₂ => ?_
  simp only [read, List.getElem_map, List.getElem_range, write, add_ofNat_sub_self]
  rw [BitVec.toNat_ofNat, Nat.mod_eq_of_lt (by omega), List.getD_eq_getElem?_getD,
    List.getElem?_eq_getElem h₂, Option.getD_some]

theorem read_write_disjoint {m : Mem w α} {a b : BitVec w} {n : Nat} {bs : List α}
    (h : (⟨a, n⟩ : Region w).Disjoint ⟨b, bs.length⟩) : (m.write b bs).read a n = m.read a n :=
  read_congr fun x hx => write_of_notMem (h x hx)

/-- Cells stored in two parts. -/
theorem write_append (m : Mem w α) (a : BitVec w) (bs cs : List α) (h : bs.length + cs.length ≤ 2 ^ w) :
    m.write a (bs ++ cs) = (m.write a bs).write (a + BitVec.ofNat w bs.length) cs := by
  funext x
  have hx := (x - a).isLt
  have hsub : x - (a + BitVec.ofNat w bs.length) = x - a - BitVec.ofNat w bs.length := by ring
  by_cases hl : bs.length < 2 ^ w
  · have hn : (BitVec.ofNat w bs.length).toNat = bs.length := by rw [BitVec.toNat_ofNat, Nat.mod_eq_of_lt hl]
    by_cases hlt : (x - a).toNat < bs.length
    · -- `x` is in the first part, and not in the second
      have hout : cs.length ≤ (x - a - BitVec.ofNat w bs.length).toNat := by
        rw [BitVec.toNat_sub, hn]
        rw [Nat.mod_eq_of_lt (by omega)]
        omega
      simp only [write, hsub, List.getD_eq_getElem?_getD, List.getElem?_append_left hlt,
        List.getElem?_eq_none hout, Option.getD_none]
    · have hoff : (x - a - BitVec.ofNat w bs.length).toNat = (x - a).toNat - bs.length := by
        rw [BitVec.toNat_sub_of_le (by rw [BitVec.le_def, hn]; omega), hn]
      simp only [write, hsub, hoff, List.getD_eq_getElem?_getD, List.getElem?_append_right (Nat.le_of_not_lt hlt),
        List.getElem?_eq_none (Nat.le_of_not_lt hlt), Option.getD_none]
  · -- the first part takes all the memory
    obtain rfl : cs = [] := List.eq_nil_of_length_eq_zero (by omega)
    simp only [write, List.append_nil, List.getD_nil]

theorem read_succ (m : Mem w α) (a : BitVec w) (n : Nat) : m.read a (n + 1) = m a :: m.read (a + 1) n := by
  unfold read
  rw [List.range_succ_eq_map, List.map_cons, List.map_map]
  refine congrArg₂ List.cons (by simp) (List.map_congr_left fun i _ => ?_)
  rw [Function.comp_apply, Nat.succ_eq_add_one, Nat.add_comm, BitVec.ofNat_add, ← BitVec.add_assoc]
  rfl

theorem write_cons (m : Mem w α) (a : BitVec w) (b : α) (bs : List α) (h : bs.length + 1 ≤ 2 ^ w) :
    m.write a (b :: bs) = (m.write a [b]).write (a + 1) bs := by
  have happend := m.write_append a [b] bs (by rw [List.length_singleton]; omega)
  exact happend

/-- Where two ranges of cells overlap, the cells for them are the same. -/
def Agree (a : BitVec w) (bs : List α) (b : BitVec w) (cs : List α) : Prop :=
  ∀ i < bs.length, ∀ j < cs.length, a + BitVec.ofNat w i = b + BitVec.ofNat w j → bs[i]? = cs[j]?

theorem Agree.of_disjoint {a b : BitVec w} {bs cs : List α}
    (h : (⟨a, bs.length⟩ : Region w).Disjoint ⟨b, cs.length⟩) : Agree a bs b cs :=
  fun _ hi _ hj he => absurd (he ▸ Region.add_mem hj) (h _ (Region.add_mem hi))

theorem read_eq_iff {m : Mem w α} {a : BitVec w} {bs : List α} :
    m.read a bs.length = bs ↔ ∀ i < bs.length, bs[i]? = some (m (a + BitVec.ofNat w i)) := by
  constructor
  · intro h i hi
    rw [← h, read, List.getElem?_map, List.getElem?_range (by simpa using hi), Option.map_some]
  · intro h
    refine List.ext_getElem (length_read _ _ _) fun i h₁ h₂ => ?_
    simp only [read, List.getElem_map, List.getElem_range]
    have := h i h₂
    rw [List.getElem?_eq_getElem h₂, Option.some.injEq] at this
    exact this.symm

/-- Cells that are there are still there after others are stored exactly if they agree with these. -/
theorem read_write_iff {m : Mem w α} {a b : BitVec w} {bs cs : List α} (h : m.read a bs.length = bs)
    (hc : cs.length ≤ 2 ^ w) : (m.write b cs).read a bs.length = bs ↔ Agree a bs b cs := by
  rw [read_eq_iff] at h ⊢
  constructor
  · intro hw i hi j hj he
    rw [hw i hi, he, write, add_ofNat_sub_self, BitVec.toNat_ofNat, Nat.mod_eq_of_lt (by omega),
      List.getD_eq_getElem?_getD, List.getElem?_eq_getElem hj, Option.getD_some]
  · intro ha i hi
    by_cases hx : a + BitVec.ofNat w i ∈ (⟨b, cs.length⟩ : Region w)
    · have hj := Region.mem_def.mp hx
      have he : a + BitVec.ofNat w i = b + BitVec.ofNat w (a + BitVec.ofNat w i - b).toNat := by
        rw [BitVec.ofNat_toNat, BitVec.setWidth_eq, BitVec.add_comm b, BitVec.sub_add_cancel]
      rw [ha i hi _ hj he, write, List.getD_eq_getElem?_getD, List.getElem?_eq_getElem hj, Option.getD_some]
    · rw [write_of_notMem hx]
      exact h i hi

end Mem

/-! ## Tables -/

/-- The address of entry `i` of the table of `k`-cell entries at `base`. -/
def slot (base : BitVec w) (k i : Nat) : BitVec w := base + BitVec.ofNat w (k * i)

/-- Two entries of a table that fits do not overlap. -/
theorem slot_disjoint {base : BitVec w} {k n i j : Nat} (hn : k * n ≤ 2 ^ w) (hi : i < n) (hj : j < n)
    (h : i ≠ j) : (⟨slot base k i, k⟩ : Region w).Disjoint ⟨slot base k j, k⟩ := by
  -- the distance between two entries, forwards from the earlier one
  have key : ∀ {i j : Nat}, i < j → j < n → slot base k j ∉ (⟨slot base k i, k⟩ : Region w) ∧
      (0 < k → slot base k i ∉ (⟨slot base k j, k⟩ : Region w)) := by
    intro i j hij hj
    have hd : k * i + k * (j - i) = k * j := by rw [← Nat.mul_add]; congr 1; omega
    have hle : k * (i + 1) ≤ k * j := Nat.mul_le_mul_left _ hij
    have hle' : k * (j + 1) ≤ k * n := Nat.mul_le_mul_left _ hj
    rw [Nat.mul_add, Nat.mul_one] at hle hle'
    have e : slot base k j - slot base k i = BitVec.ofNat w (k * (j - i)) := by
      rw [slot, slot, ← hd, BitVec.ofNat_add, ← BitVec.add_assoc, BitVec.add_comm,
        BitVec.add_sub_cancel]
    constructor
    · rw [Region.mem_def, e, BitVec.toNat_ofNat]
      dsimp only
      by_cases hk : k = 0
      · rw [hk]; omega
      · rw [Nat.mod_eq_of_lt (by omega)]; omega
    · intro hk
      rw [Region.mem_def]
      dsimp only
      rw [show slot base k i - slot base k j = -(slot base k j - slot base k i) from (neg_sub _ _).symm, e,
        BitVec.toNat_neg, BitVec.toNat_ofNat]
      rw [Nat.mod_eq_of_lt (show k * (j - i) < 2 ^ w by omega), Nat.mod_eq_of_lt (by omega)]
      omega
  rw [Region.disjoint_iff]
  by_cases hk : k = 0
  · exact .inl hk
  rcases Nat.lt_or_gt_of_ne h with hlt | hlt
  · have h' := key hlt hj
    exact .inr (.inr ⟨h'.1, h'.2 (by omega)⟩)
  · have h' := key hlt hi
    exact .inr (.inr ⟨h'.2 (by omega), h'.1⟩)

/-- An entry of a table lies in the table. -/
theorem slot_sub_table {base : BitVec w} {k n i : Nat} (hi : i < n) :
    ∀ x ∈ (⟨slot base k i, k⟩ : Region w), x ∈ (⟨base, k * n⟩ : Region w) := by
  intro x hx
  rw [Region.mem_def] at hx ⊢
  dsimp only at hx ⊢
  have hle : k * (i + 1) ≤ k * n := Nat.mul_le_mul_left _ hi
  rw [Nat.mul_add, Nat.mul_one] at hle
  have e : x - base = (x - slot base k i) + BitVec.ofNat w (k * i) := by
    rw [slot]; ring
  rw [e, BitVec.toNat_add, BitVec.toNat_ofNat]
  have := Nat.mod_le (k * i) (2 ^ w)
  exact lt_of_le_of_lt (Nat.mod_le _ _) (by omega)

end SmartEth
