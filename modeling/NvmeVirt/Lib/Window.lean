import Mathlib.Logic.Function.Basic
import Mathlib.Tactic.Linarith

/-!
# `Lib.Window` — a circular array as a window on an unbounded one

A ring of `n` slots, read from `head` on, shows the entries `base, ..., base + n - 1` of an array without end. The
rules: the slots of a window are distinct (`slot_inj`), writing a slot is writing the entry it shows (`Shows.update`),
and moving the window forward asks that the slots left behind hold what the entries that come into view hold
(`Shows.move`).
-/

namespace Window

variable {α : Type} {n head i j : Nat}

/-- The slot at distance `i` from the head. -/
def slot (n head i : Nat) : Nat := (head + i) % n

theorem slot_of_lt (h : head + i < n) : slot n head i = head + i := Nat.mod_eq_of_lt h

theorem slot_of_ge (hhead : head < n) (hi : i < n) (h : n ≤ head + i) : slot n head i = head + i - n := by
  rw [slot, Nat.mod_eq_sub_mod h, Nat.mod_eq_of_lt (by omega)]

theorem slot_zero (hhead : head < n) : slot n head 0 = head := slot_of_lt hhead

theorem slot_lt (hhead : head < n) : slot n head i < n := Nat.mod_lt _ (by omega)

/-- Counting from a slot of the window. -/
theorem slot_slot : slot n (slot n head i) j = slot n head (i + j) := by
  rw [slot, slot, slot, Nat.mod_add_mod, Nat.add_assoc]

/-- Once around. -/
theorem slot_add_self : slot n head (i + n) = slot n head i := by
  rw [slot, slot, ← Nat.add_assoc, Nat.add_mod_right]

theorem slot_inj (hhead : head < n) (hi : i < n) (hj : j < n) (h : slot n head i = slot n head j) : i = j := by
  rcases Nat.lt_or_ge (head + i) n with hil | hig <;> rcases Nat.lt_or_ge (head + j) n with hjl | hjg
  · rw [slot_of_lt hil, slot_of_lt hjl] at h
    omega
  · rw [slot_of_lt hil, slot_of_ge hhead hj hjg] at h
    omega
  · rw [slot_of_ge hhead hi hig, slot_of_lt hjl] at h
    omega
  · rw [slot_of_ge hhead hi hig, slot_of_ge hhead hj hjg] at h
    omega

/-- The slot after the last one is the head. -/
theorem slot_succ_eq_head (hhead : head < n) (hi : i < n) : slot n head (i + 1) = head ↔ i + 1 = n := by
  constructor
  · intro h
    by_contra hne
    have hlt : i + 1 < n := by omega
    have := slot_inj hhead hlt (by omega) (h.trans (slot_zero hhead).symm)
    omega
  · intro h
    have haround : slot n head (0 + n) = slot n head 0 := slot_add_self
    rw [Nat.zero_add, slot_zero hhead] at haround
    rw [h, haround]

/-- The distance of a slot from the head, as a number of slots. -/
theorem slot_distance (hhead : head < n) (hi : i < n) :
    (if slot n head i ≥ head then slot n head i - head + 1 else n - (head - slot n head i - 1)) = i + 1 := by
  rcases Nat.lt_or_ge (head + i) n with hlt | hge
  · rw [slot_of_lt hlt, if_pos (by omega)]
    omega
  · rw [slot_of_ge hhead hi hge, if_neg (by omega)]
    omega

/-- The ring shows the entries of `A` from `base` on. -/
def Shows (n : Nat) (ring : Nat → α) (head : Nat) (A : Nat → α) (base : Nat) : Prop :=
  ∀ i < n, ring (slot n head i) = A (base + i)

variable {ring ring' : Nat → α} {A : Nat → α} {base : Nat}

theorem Shows.update (h : Shows n ring head A base) (hhead : head < n) (hi : i < n) (v : α) :
    Shows n (Function.update ring (slot n head i) v) head (Function.update A (base + i) v) base := by
  intro j hj
  by_cases hji : j = i
  · subst hji
    rw [Function.update_self, Function.update_self]
  · rw [Function.update_of_ne fun heq => hji (slot_inj hhead hj hi heq), Function.update_of_ne (by omega)]
    exact h j hj

/-- **Moving the window** by `k` slots. The slots left behind were set to `v`; whatever enters the window, and
    whatever lies ahead of `base + k` on a longer way, is `v` too. -/
theorem Shows.move {k base' : Nat} {v : α} (h : Shows n ring head A base)
    (hkept : ∀ i, k ≤ i → i < n → ring' (slot n head i) = ring (slot n head i))
    (hcleared : ∀ i < k, ring' (slot n head i) = v)
    (hnew : ∀ i, n ≤ k + i → A (base' + i) = v)
    (hold : ∀ i, k + i < n → A (base' + i) = A (base + (k + i))) :
    Shows n ring' (slot n head k) A base' := by
  intro i hi
  rw [slot_slot]
  rcases Nat.lt_or_ge (k + i) n with hlt | hge
  · rw [hkept (k + i) (by omega) hlt, h (k + i) hlt, hold i hlt]
  · obtain ⟨j, hj⟩ : ∃ j, k + i = j + n := ⟨k + i - n, by omega⟩
    rw [hj, slot_add_self, hcleared j (by omega), hnew i hge]

end Window
