import Mathlib.Data.Nat.ModEq

/-!
# Rings

Items are put into the `n` entries of a ring in turn: item `j` into entry
`j % n`. `lastIn n p i` is the last of the first `p` items that was put into
entry `i`.
-/

namespace SmartEth

/-- The number of the last of the items `0 … p - 1` in entry `i`, if any. -/
def lastIn (n : Nat) : Nat → Nat → Option Nat
  | 0, _ => none
  | p + 1, i => if p % n = i then some p else lastIn n p i

theorem lastIn_succ_self (n p : Nat) : lastIn n (p + 1) (p % n) = some p := if_pos rfl

theorem lastIn_succ_ne {n p i : Nat} (h : p % n ≠ i) : lastIn n (p + 1) i = lastIn n p i := if_neg h

theorem lastIn_lt {n p i j : Nat} (h : lastIn n p i = some j) : j < p ∧ j % n = i := by
  induction p with
  | zero => cases h
  | succ p ih =>
    by_cases hp : p % n = i
    · rw [lastIn, if_pos hp, Option.some.injEq] at h
      subst h; exact ⟨Nat.lt_succ_self _, hp⟩
    · rw [lastIn_succ_ne hp] at h
      exact ⟨Nat.lt_succ_of_lt (ih h).1, (ih h).2⟩

/-- Two items less than a round apart are in different entries. -/
theorem eq_of_mod_eq {n j k : Nat} (hjk : j ≤ k) (hn : k < j + n) (h : j % n = k % n) : j = k := by
  have hd : n ∣ k - j := (Nat.modEq_iff_dvd' hjk).mp h
  have := Nat.eq_zero_of_dvd_of_lt hd (by omega)
  omega

/-- One of the last `n` items is the last in its entry. -/
theorem lastIn_of_lt {n p j : Nat} (hj : j < p) (hn : p ≤ j + n) : lastIn n p (j % n) = some j := by
  induction p with
  | zero => omega
  | succ p ih =>
    by_cases hp : p % n = j % n
    · obtain rfl : j = p := eq_of_mod_eq (by omega) (by omega) hp.symm
      exact lastIn_succ_self n j
    · rw [lastIn_succ_ne hp]
      have : j ≠ p := fun e => hp (e ▸ rfl)
      exact ih (by omega) (by omega)

/-- What is last in an entry is one of the last `n` items. -/
theorem lastIn_room {n p i j : Nat} (hn : 0 < n) (h : lastIn n p i = some j) : p ≤ j + n := by
  induction p with
  | zero => exact Nat.zero_le _
  | succ p ih =>
    by_cases hp : p % n = i
    · rw [lastIn, if_pos hp, Option.some.injEq] at h
      omega
    · rw [lastIn_succ_ne hp] at h
      refine Nat.lt_of_le_of_ne (ih h) fun e => hp ?_
      rw [e, Nat.add_mod_right]
      exact (lastIn_lt h).2

/-- The entry that the next item goes into holds the item of a round before. -/
theorem lastIn_mod {n p : Nat} (hn : 0 < n) : lastIn n p (p % n) = if n ≤ p then some (p - n) else none := by
  by_cases h : n ≤ p
  · have hm : (p - n) % n = p % n := by rw [← Nat.add_mod_right, Nat.sub_add_cancel h]
    rw [if_pos h, ← hm]
    exact lastIn_of_lt (by omega) (by omega)
  · rw [if_neg h]
    cases hl : lastIn n p (p % n) with
    | none => rfl
    | some j =>
      obtain ⟨hlt, hmod⟩ := lastIn_lt hl
      rw [Nat.mod_eq_of_lt (by omega), Nat.mod_eq_of_lt (by omega)] at hmod
      omega

end SmartEth
