import Mathlib.Algebra.BigOperators.Group.Finset.Basic
import Mathlib.Algebra.BigOperators.Ring.Finset
import Mathlib.Algebra.Order.BigOperators.Group.Finset
import Mathlib.Data.Finset.Prod

/-!
# `Lib.Counting` — counters kept beside the data they count

A program that keeps a counter next to a table changes one entry of the table and moves the counter by the
difference. The lemmas here are that step, for sums over a finite index set and for the number of entries
with a given value.
-/

namespace Counting

variable {ι α : Type} [DecidableEq ι]

/-- **One entry changes.** Two summands that agree away from `a` have sums that differ by the entry at
    `a`; written without subtraction. -/
theorem sum_add_of_eq_off {s : Finset ι} {f g : ι → Nat} {a : ι} (ha : a ∈ s)
    (h : ∀ x ∈ s, x ≠ a → g x = f x) : ∑ x ∈ s, g x + f a = ∑ x ∈ s, f x + g a := by
  rw [← Finset.add_sum_erase s g ha, ← Finset.add_sum_erase s f ha]
  have hrest : ∑ x ∈ s.erase a, g x = ∑ x ∈ s.erase a, f x := by
    refine Finset.sum_congr rfl ?_
    intro x hx
    exact h x (Finset.mem_of_mem_erase hx) (Finset.ne_of_mem_erase hx)
  rw [hrest]
  omega

/-- **Sums of lists** that are comparable entry by entry are equal only entry by entry. -/
theorem sum_map_eq_iff {l : List α} {f g : α → Nat} (h : ∀ x ∈ l, f x ≤ g x) :
    (l.map f).sum = (l.map g).sum ↔ ∀ x ∈ l, f x = g x := by
  induction l with
  | nil => exact iff_of_true rfl nofun
  | cons x l ih =>
      have hx := h x (List.mem_cons_self ..)
      have hl := fun y hy => h y (List.mem_cons_of_mem x hy)
      have hle := List.sum_le_sum hl
      rw [List.forall_mem_cons, ← ih hl, List.map_cons, List.map_cons, List.sum_cons, List.sum_cons]
      omega

/-- Number of indices below `n` whose entry satisfies `P`. -/
def countBelow (P : α → Prop) [DecidablePred P] (f : Nat → α) (n : Nat) : Nat :=
  ∑ i ∈ Finset.range n, if P (f i) then 1 else 0

variable {P Q : α → Prop} [DecidablePred P] [DecidablePred Q] {f : Nat → α} {n i : Nat}

/-- **Overwriting an entry** moves the count by what the new entry adds and the old one took. -/
theorem countBelow_update (hi : i < n) (b : α) :
    countBelow P (Function.update f i b) n + (if P (f i) then 1 else 0) =
      countBelow P f n + (if P b then 1 else 0) := by
  have h := sum_add_of_eq_off (f := fun j => if P (f j) then 1 else 0)
    (g := fun j => if P (Function.update f i b j) then 1 else 0) (Finset.mem_range.mpr hi)
    (by intro x _ hx; simp [hx])
  simpa [countBelow] using h

theorem countBelow_succ (P : α → Prop) [DecidablePred P] (f : Nat → α) (n : Nat) :
    countBelow P f (n + 1) = countBelow P f n + (if P (f n) then 1 else 0) :=
  Finset.sum_range_succ _ n

theorem countBelow_mono {m : Nat} (h : m ≤ n) : countBelow P f m ≤ countBelow P f n :=
  Finset.sum_le_sum_of_subset (Finset.range_mono h)

theorem countBelow_congr {f' : Nat → α} (h : ∀ i, i < n → f' i = f i) :
    countBelow P f' n = countBelow P f n := by
  refine Finset.sum_congr rfl ?_
  intro i hi
  rw [h i (Finset.mem_range.mp hi)]

/-- A table of `m * n` entries counted row by row. -/
theorem countBelow_mul (P : α → Prop) [DecidablePred P] (f : Nat → α) (m n : Nat) :
    countBelow P f (m * n) = ∑ a ∈ Finset.range m, countBelow P (fun i => f (a * n + i)) n := by
  induction m with
  | zero => simp [countBelow]
  | succ m ih =>
      rw [Finset.sum_range_succ, ← ih, Nat.succ_mul]
      exact Finset.sum_range_add (fun i => if P (f i) then 1 else 0) (m * n) n

theorem countBelow_pos (hi : i < n) (hP : P (f i)) : 0 < countBelow P f n := by
  have h : (if P (f i) then 1 else 0) ≤ countBelow P f n :=
    Finset.single_le_sum (f := fun j => if P (f j) then 1 else 0) (fun _ _ => Nat.zero_le _)
      (Finset.mem_range.mpr hi)
  rw [if_pos hP] at h
  omega

/-- Entries of two disjoint kinds fit in the table together. -/
theorem countBelow_add_le (hPQ : ∀ a, P a → ¬ Q a) : countBelow P f n + countBelow Q f n ≤ n := by
  rw [countBelow, countBelow, ← Finset.sum_add_distrib]
  calc ∑ i ∈ Finset.range n, ((if P (f i) then 1 else 0) + if Q (f i) then 1 else 0)
      ≤ ∑ _i ∈ Finset.range n, 1 := by
        refine Finset.sum_le_sum ?_
        intro i _
        by_cases hP : P (f i)
        · simp [hP, hPQ _ hP]
        · simp only [hP, if_false]
          split <;> omega
    _ = n := by simp

theorem countBelow_eq_zero (h : ∀ i, i < n → ¬ P (f i)) : countBelow P f n = 0 := by
  refine Finset.sum_eq_zero ?_
  intro i hi
  rw [if_neg (h i (Finset.mem_range.mp hi))]

theorem countBelow_eq_self (h : ∀ i, i < n → P (f i)) : countBelow P f n = n := by
  calc countBelow P f n = ∑ _i ∈ Finset.range n, 1 := by
        refine Finset.sum_congr rfl ?_
        intro i hi
        rw [if_pos (h i (Finset.mem_range.mp hi))]
    _ = n := by simp

/-! ## Mixed radix -/

theorem radix_lt {a b m n : Nat} (ha : a < m) (hb : b < n) : a * n + b < m * n := by
  calc a * n + b < a * n + n := by omega
    _ = (a + 1) * n := by rw [Nat.succ_mul]
    _ ≤ m * n := Nat.mul_le_mul_right n ha

theorem radix_div (a : Nat) {b n : Nat} (hb : b < n) : (a * n + b) / n = a := by
  rw [Nat.mul_comm, Nat.mul_add_div (by omega), Nat.div_eq_of_lt hb, Nat.add_zero]

theorem radix_mod (a : Nat) {b n : Nat} (hb : b < n) : (a * n + b) % n = b := by
  rw [Nat.mul_comm, Nat.mul_add_mod, Nat.mod_eq_of_lt hb]

theorem radix_inj {a b a' b' n : Nat} (hb : b < n) (hb' : b' < n) (h : a * n + b = a' * n + b') :
    a = a' ∧ b = b' :=
  ⟨by rw [← radix_div a hb, ← radix_div a' hb', h], by rw [← radix_mod a hb, ← radix_mod a' hb', h]⟩

end Counting
