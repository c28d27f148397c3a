import SmartEth.Framework.Prog

/-!
# Reads of a buffer

A function that reads a buffer at places it computes is a program of copies
(`Reader`). Run on a memory that holds the buffer from cell 0 on, and whatever
is behind it (`buffer`), it gives its result (`eval`) and the indices it has
read (`indices`); `InBounds` says that they are all below a bound. A program
that stays inside its buffer gives the same result whatever is behind it
(`eval_congr`).
-/

namespace SmartEth

/-- A copy of `len` cells from index `off` on. -/
structure BufRead where
  off : Nat
  len : Nat

variable {α β : Type}

abbrev Reader (β α : Type) := Prog BufRead (fun _ => List β) α

/-- The cells `bs`, with `beyond` behind them. -/
def buffer (bs : List β) (beyond : Nat → β) (i : Nat) : β := bs.getD i (beyond i)

namespace Reader

/-- `memcpy` out of the buffer. -/
def get (off len : Nat) : Reader β (List β) := Prog.call (BufRead.mk off len)

def cells (mem : Nat → β) (r : BufRead) : List β := (List.range' r.off r.len).map mem

def eval (mem : Nat → β) : Reader β α → α
  | .ret a => a
  | .op r k => eval mem (k (cells mem r))

def indices (mem : Nat → β) : Reader β α → List Nat
  | .ret _ => []
  | .op r k => List.range' r.off r.len ++ indices mem (k (cells mem r))

/-- Only indices below `n` are read. -/
def InBounds (mem : Nat → β) (n : Nat) (p : Reader β α) : Prop := ∀ i ∈ p.indices mem, i < n

variable {mem mem' : Nat → β} {n : Nat}

@[simp] theorem eval_ret (a : α) : eval mem (.ret a) = a := rfl

@[simp] theorem eval_get_bind (off len : Nat) (f : List β → Reader β α) :
    eval mem (get off len >>= f) = eval mem (f (cells mem ⟨off, len⟩)) := rfl

@[simp] theorem inBounds_ret (a : α) : InBounds mem n (.ret a) := by
  intro i hi
  cases hi

@[simp] theorem length_cells (r : BufRead) : (cells mem r).length = r.len := by
  simp only [cells, List.length_map, List.length_range']

/-- A copy is in bounds if it is empty or ends at the bound. -/
theorem forall_range'_lt {off len : Nat} : (∀ i ∈ List.range' off len, i < n) ↔ len = 0 ∨ off + len ≤ n := by
  simp only [List.mem_range'_1]
  constructor
  · intro h
    by_cases h0 : len = 0
    · exact .inl h0
    · have := h (off + len - 1) ⟨by omega, by omega⟩
      exact .inr (by omega)
  · rintro (h | h) i ⟨h₁, h₂⟩
    · omega
    · omega

theorem inBounds_get_bind {off len : Nat} {f : List β → Reader β α} :
    InBounds mem n (get off len >>= f) ↔
      (len = 0 ∨ off + len ≤ n) ∧ InBounds mem n (f (cells mem ⟨off, len⟩)) := by
  rw [← forall_range'_lt]
  exact List.forall_mem_append

/-- What a copy inside the buffer gives. -/
theorem cells_buffer {bs : List β} {beyond : Nat → β} {off len : Nat} (h : len = 0 ∨ off + len ≤ bs.length) :
    cells (buffer bs beyond) ⟨off, len⟩ = (bs.drop off).take len := by
  refine List.ext_getElem ?_ fun i h₁ h₂ => ?_
  · simp only [length_cells, List.length_take, List.length_drop]
    omega
  · rw [length_cells] at h₁
    have hi : off + i < bs.length := by
      dsimp only at h₁
      omega
    simp only [cells, List.getElem_map, List.getElem_range', buffer, List.getElem_take, List.getElem_drop,
      List.getD_eq_getElem?_getD, Nat.one_mul, List.getElem?_eq_getElem hi, Option.getD_some]

/-- The result depends only on what is read. -/
theorem eval_congr {p : Reader β α} (hp : InBounds mem n p) (h : ∀ i < n, mem i = mem' i) :
    eval mem' p = eval mem p := by
  induction p with
  | ret a => rfl
  | op r k ih =>
    have hr := List.forall_mem_append.mp hp
    have hc : cells mem' r = cells mem r := List.map_congr_left fun i hi => (h i (hr.1 i hi)).symm
    rw [eval, hc]
    exact ih _ hr.2

end Reader

end SmartEth
