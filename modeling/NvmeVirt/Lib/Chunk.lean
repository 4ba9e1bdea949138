import Mathlib.Data.Nat.Basic
import Mathlib.Tactic.Linarith

/-!
# `Lib.Chunk` — data that arrives in pieces and leaves in chunks

Items are numbered from 0 and grouped in chunks of `n`. What lies between two positions is some whole chunks
and what was left of one; the lemmas here are that account, step by step and for a whole piece.
-/

namespace Chunk

variable {n p k : Nat}

/-- `k` more items complete the chunk. -/
theorem div_of_reach (h : p % n + k = n) (hn : 0 < n) : (p + k) / n = p / n + 1 ∧ (p + k) % n = 0 := by
  have hp := Nat.div_add_mod p n
  have hsum : p + k = n * (p / n + 1) := by
    rw [Nat.mul_add, Nat.mul_one]
    omega
  rw [hsum]
  exact ⟨Nat.mul_div_cancel_left _ hn, Nat.mul_mod_right _ _⟩

/-- `k` more items stay in the chunk. -/
theorem div_of_short (h : p % n + k < n) : (p + k) / n = p / n ∧ (p + k) % n = p % n + k := by
  have hp := Nat.div_add_mod p n
  have hn : 0 < n := by omega
  have hsum : p + k = n * (p / n) + (p % n + k) := by omega
  rw [hsum, Nat.mul_add_div hn, Nat.mul_add_mod, Nat.div_eq_of_lt h, Nat.mod_eq_of_lt h]
  exact ⟨rfl, rfl⟩

/-- Number of units of `u` items that a prefix of `b` items touches. -/
def touched (u b : Nat) : Nat := (b + (u - 1)) / u

/-- A prefix that ends at the end of a unit, or in a unit that is not the last of its chunk, touches as many
    whole chunks of `n` units as it fills. -/
theorem touched_div {u b : Nat} (hu : 0 < u)
    (h : b % u = 0 ∨ (b / u + 1) % n ≠ 0) : touched u b / n = b / (u * n) := by
  rw [← Nat.div_div_eq_div_mul]
  have hb := Nat.div_add_mod b u
  have hlt := Nat.mod_lt b hu
  unfold touched
  by_cases h0 : b % u = 0
  · have hq : (b + (u - 1)) / u = b / u := by
      have hsum : b + (u - 1) = u * (b / u) + (u - 1) := by omega
      have hrest : (u - 1) / u = 0 := Nat.div_eq_of_lt (by omega)
      rw [hsum, Nat.mul_add_div hu, hrest, Nat.add_zero]
    rw [hq]
  · have hq : (b + (u - 1)) / u = b / u + 1 := by
      have hsum : b + (u - 1) = u * (b / u + 1) + (b % u - 1) := by
        rw [Nat.mul_add, Nat.mul_one]
        omega
      have hrest : (b % u - 1) / u = 0 := Nat.div_eq_of_lt (by omega)
      rw [hsum, Nat.mul_add_div hu, hrest, Nat.add_zero]
    rw [hq, Nat.succ_div]
    have hndvd : ¬ n ∣ b / u + 1 := fun hd => (h.resolve_left h0) (Nat.mod_eq_zero_of_dvd hd)
    rw [if_neg hndvd, Nat.add_zero]

/-- **The account of a piece** from `a` to `b`: what was left of a chunk and the piece are the chunks
    completed and what is left now. -/
theorem account {m a b : Nat} (hab : a ≤ b) : a % m + (b - a) = m * (b / m - a / m) + b % m := by
  have ha := Nat.div_add_mod a m
  have hb := Nat.div_add_mod b m
  have hle : m * (a / m) ≤ m * (b / m) := Nat.mul_le_mul_left m (Nat.div_le_div_right hab)
  rw [Nat.mul_sub]
  omega

end Chunk
