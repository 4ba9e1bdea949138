import NvmeVirt.Pqueue

/-!
# `Pqueue.Order` — the heap order

With `cmppri` the strict comparison "next is larger than curr" the heap is a min-heap: no element has a
smaller priority than the one in the slot above it. A sift works with the order broken around its hole
only: `OrderedAround` is what both loops keep, `FitsUnder` and `FitsOver` are the direction in which the
moving node may still be out of order. `bubble_up` keeps the second and ends when the first holds too,
`percolate_down` the other way round.
-/

namespace NvmeVirt

open Slots

variable {α : Type}

/-- No element in use has a smaller priority than the one in its parent's slot. -/
def HeapOrdered (pri : α → Nat) (size : Nat) (d : Nat → α) : Prop :=
  ∀ j, 2 ≤ j → j < size → pri (d (j / 2)) ≤ pri (d j)

/-- The order away from the hole `i`: the pairs that do not touch it, and the hole's children against its
    parent. -/
structure OrderedAround (pri : α → Nat) (size i : Nat) (d : Nat → α) : Prop where
  apart : ∀ j, 2 ≤ j → j < size → j ≠ i → j / 2 ≠ i → pri (d (j / 2)) ≤ pri (d j)
  across : 2 ≤ i → ∀ j, j < size → j / 2 = i → pri (d (i / 2)) ≤ pri (d j)

/-- The moving node `m` fits under the parent of the hole. -/
def FitsUnder (pri : α → Nat) (m : α) (i : Nat) (d : Nat → α) : Prop := 2 ≤ i → pri (d (i / 2)) ≤ pri m

/-- The moving node `m` fits over the children of the hole. -/
def FitsOver (pri : α → Nat) (size : Nat) (m : α) (i : Nat) (d : Nat → α) : Prop :=
  ∀ j, j < size → j / 2 = i → pri m ≤ pri (d j)

section Order

variable {pri : α → Nat} {size i : Nat} {m : α} {d : Nat → α}

/-- The head has the least priority. -/
theorem HeapOrdered.head_le (h : HeapOrdered pri size d) {j : Nat} (hj : 1 ≤ j) (hj' : j < size) :
    pri (d 1) ≤ pri (d j) := by
  induction j using Nat.strongRecOn with
  | ind j ih =>
      by_cases h1 : j = 1
      · exact Nat.le_of_eq (by rw [h1])
      · exact Nat.le_trans (ih (j / 2) (by omega) (by omega) (by omega)) (h j (by omega) hj')

/-- The order reads the priorities of the queued elements only. -/
theorem HeapOrdered.congr {pri' : α → Nat} (h : HeapOrdered pri size d)
    (heq : ∀ j, 1 ≤ j → j < size → pri' (d j) = pri (d j)) : HeapOrdered pri' size d := by
  intro j hj hj'
  rw [heq j (by omega) hj', heq (j / 2) (by omega) (by omega)]
  exact h j hj hj'

/-- Taking a node out leaves the order around its slot, whatever becomes of the node's own priority. -/
theorem HeapOrdered.around {old : α → Nat} (h : HeapOrdered old size d)
    (heq : ∀ j, 1 ≤ j → j < size → j ≠ i → pri (d j) = old (d j)) : OrderedAround pri size i d where
  apart := by
    intro j hj hj' hji hpi
    rw [heq j (by omega) hj' hji, heq (j / 2) (by omega) (by omega) hpi]
    exact h j hj hj'
  across := by
    intro h2 j hj' hpj
    rw [heq (i / 2) (by omega) (by omega) (by omega), heq j (by omega) hj' (by omega)]
    have hup : old (d (i / 2)) ≤ old (d i) := h i h2 (by omega)
    have hdown : old (d (j / 2)) ≤ old (d j) := h j (by omega) hj'
    rw [hpj] at hdown
    exact Nat.le_trans hup hdown

/-- Filling the hole with a node that fits on both sides restores the order. -/
theorem OrderedAround.fill (h : OrderedAround pri size i d) (hi : 1 ≤ i) (hu : FitsUnder pri m i d)
    (ho : FitsOver pri size m i d) : HeapOrdered pri size (Function.update d i m) := by
  intro j hj hj'
  by_cases hji : j = i
  · subst hji
    rw [Function.update_self, Function.update_of_ne (by omega)]
    exact hu hj
  · rw [Function.update_of_ne hji]
    by_cases hpi : j / 2 = i
    · rw [hpi, Function.update_self]
      exact ho j hj' hpi
    · rw [Function.update_of_ne hpi]
      exact h.apart j hj hj' hji hpi

/-- One iteration of `bubble_up`: the parent is copied down and its slot is the new hole. -/
theorem OrderedAround.moveUp (h : OrderedAround pri size i d) (hi : 1 < i) (hi' : i < size)
    (hlt : pri m < pri (d (i / 2))) :
    OrderedAround pri size (i / 2) (Function.update d i (d (i / 2))) ∧
      FitsOver pri size m (i / 2) (Function.update d i (d (i / 2))) := by
  -- the other child of the parent was in order with it
  have hsib : ∀ j, j < size → j / 2 = i / 2 → j ≠ i → pri (d (i / 2)) ≤ pri (d j) := by
    intro j hj' hp hji
    have := h.apart j (by omega) hj' hji (by omega)
    rwa [hp] at this
  refine ⟨⟨?_, ?_⟩, ?_⟩
  · intro j hj hj' hjp hpp
    have hji : j ≠ i := fun he => hpp (by rw [he])
    rw [Function.update_of_ne hji]
    by_cases hpi : j / 2 = i
    · rw [hpi, Function.update_self]
      exact h.across hi j hj' hpi
    · rw [Function.update_of_ne hpi]
      exact h.apart j hj hj' hji hpi
  · intro h2 j hj' hp
    have hup : pri (d (i / 2 / 2)) ≤ pri (d (i / 2)) :=
      h.apart (i / 2) h2 (by omega) (by omega) (by omega)
    rw [Function.update_of_ne (show i / 2 / 2 ≠ i by omega)]
    by_cases hji : j = i
    · subst hji
      rw [Function.update_self]
      exact hup
    · rw [Function.update_of_ne hji]
      exact Nat.le_trans hup (hsib j hj' hp hji)
  · intro j hj' hp
    by_cases hji : j = i
    · subst hji
      rw [Function.update_self]
      exact Nat.le_of_lt hlt
    · rw [Function.update_of_ne hji]
      exact Nat.le_of_lt (Nat.lt_of_lt_of_le hlt (hsib j hj' hp hji))

/-- One iteration of `percolate_down`: the smaller child is copied up and its slot is the new hole. -/
theorem OrderedAround.moveDown (h : OrderedAround pri size i d) (hi : 1 ≤ i) {c : Nat} (hc : c / 2 = i)
    (hc' : c < size) (hmin : ∀ j, j < size → j / 2 = i → pri (d c) ≤ pri (d j))
    (hle : pri (d c) ≤ pri m) :
    OrderedAround pri size c (Function.update d i (d c)) ∧ FitsUnder pri m c (Function.update d i (d c)) := by
  refine ⟨⟨?_, ?_⟩, ?_⟩
  · intro j hj hj' hjc hpc
    by_cases hji : j = i
    · subst hji
      rw [Function.update_self, Function.update_of_ne (by omega)]
      exact h.across hj c hc' hc
    · rw [Function.update_of_ne hji]
      by_cases hpi : j / 2 = i
      · rw [hpi, Function.update_self]
        exact hmin j hj' hpi
      · rw [Function.update_of_ne hpi]
        exact h.apart j hj hj' hji hpi
  · intro _ j hj' hp
    rw [hc, Function.update_self, Function.update_of_ne (by omega)]
    have := h.apart j (by omega) hj' (by omega) (by omega)
    rwa [hp] at this
  · intro _
    rw [hc, Function.update_self]
    exact hle

end Order

section Sift

variable [DecidableEq α] {cmppri : Nat → Nat → Bool} {pri : α → Nat} {size i : Nat} {m : α} {s : Slots α}

omit [DecidableEq α] in
/-- `maxchild` names a child whose priority is least among the children. -/
theorem maxchild_least (hcmp : ∀ a b, cmppri a b = true ↔ b < a)
    (h : maxchild cmppri pri size s i ≠ 0) :
    maxchild cmppri pri size s i / 2 = i ∧
      ∀ j, j < size → j / 2 = i → pri (s.d (maxchild cmppri pri size s i)) ≤ pri (s.d j) := by
  have hleaf : ¬ 2 * i ≥ size := fun hge => h (by rw [maxchild, if_pos hge])
  have hkids : ∀ j, j / 2 = i → j = 2 * i ∨ j = 2 * i + 1 := by omega
  rw [maxchild, if_neg hleaf]
  by_cases hright : (decide (2 * i + 1 < size) && cmppri (pri (s.d (2 * i))) (pri (s.d (2 * i + 1)))) = true
  · rw [if_pos hright]
    rw [Bool.and_eq_true, decide_eq_true_eq, hcmp] at hright
    refine ⟨by omega, fun j _ hp => ?_⟩
    rcases hkids j hp with rfl | rfl
    · exact Nat.le_of_lt hright.2
    · exact Nat.le_refl _
  · rw [if_neg hright]
    rw [Bool.and_eq_true, decide_eq_true_eq, hcmp, not_and] at hright
    refine ⟨by omega, fun j hj' hp => ?_⟩
    rcases hkids j hp with rfl | rfl
    · exact Nat.le_refl _
    · exact Nat.le_of_not_lt (hright hj')

omit [DecidableEq α] in
/-- A slot without children is where `maxchild` returns `0`. -/
theorem size_le_of_maxchild_eq_zero (hi : 1 ≤ i) (h : maxchild cmppri pri size s i = 0) : size ≤ 2 * i := by
  unfold maxchild at h
  split at h
  · assumption
  · split at h <;> omega

theorem bubbleUp_ordered (hcmp : ∀ a b, cmppri a b = true ↔ b < a) (hi : 1 ≤ i) (hi' : i < size)
    (h : OrderedAround pri size i s.d) (ho : FitsOver pri size m i s.d) :
    HeapOrdered pri size (bubbleUp cmppri pri m i s).d := by
  induction i, s using bubbleUp.induct cmppri pri m with
  | case1 i s hc ih =>
      rw [bubbleUp, dif_pos hc]
      obtain ⟨hnext, hover⟩ := h.moveUp hc.1 hi' ((hcmp _ _).mp hc.2)
      exact ih (by omega) (by omega) hnext hover
  | case2 i s hc =>
      rw [bubbleUp, dif_neg hc]
      refine h.fill hi ?_ ho
      intro h2
      refine Nat.le_of_not_lt fun hlt => hc ⟨h2, (hcmp _ _).mpr hlt⟩

theorem percolateDown_ordered (hcmp : ∀ a b, cmppri a b = true ↔ b < a) (hi : 1 ≤ i)
    (h : OrderedAround pri size i s.d) (hu : FitsUnder pri m i s.d) :
    HeapOrdered pri size (percolateDown cmppri pri size m i s).d := by
  induction i, s using percolateDown.induct cmppri pri size m with
  | case1 i s hc ih =>
      rw [percolateDown, dif_pos hc]
      have hlt := maxchild_lt cmppri pri hc.1
      obtain ⟨hchild, hmin⟩ := maxchild_least hcmp hc.1
      obtain ⟨hnext, hunder⟩ := h.moveDown hi hchild hlt.2 hmin (Nat.le_of_lt ((hcmp _ _).mp hc.2))
      exact ih (by omega) hnext hunder
  | case2 i s hc =>
      rw [percolateDown, dif_neg hc]
      refine h.fill hi hu ?_
      intro j hj' hp
      by_cases hleaf : maxchild cmppri pri size s i = 0
      · have := size_le_of_maxchild_eq_zero hi hleaf
        omega
      · -- the loop stopped because the smaller child is not smaller than the node
        obtain ⟨_, hmin⟩ := maxchild_least hcmp hleaf
        have hstop := Nat.le_of_not_lt fun hlt => hc ⟨hleaf, (hcmp _ _).mpr hlt⟩
        exact Nat.le_trans hstop (hmin j hj' hp)

end Sift

/-! ## The operations keep the order -/

namespace Pqueue

variable [DecidableEq α] {cmppri : Nat → Nat → Bool} {pri : α → Nat} {q : Pqueue α} {pos : α → Nat}

/-- The queue is a min-heap for `pri`. -/
def Ordered (pri : α → Nat) (q : Pqueue α) : Prop := HeapOrdered pri q.size q.d

omit [DecidableEq α] in
/-- What `pqueue_peek` returns has the least priority. -/
theorem Ordered.peek_le (h : Ordered pri q) (hwf : q.Wf pos) {a b : α} (ha : q.peek = some a)
    (hb : q.Mem b) : pri a ≤ pri b := by
  obtain ⟨_, rfl, _⟩ := mem_of_peek hwf ha
  obtain ⟨j, hj, hj', rfl⟩ := hb
  exact h.head_le hj hj'

theorem insert_ordered (hcmp : ∀ a b, cmppri a b = true ↔ b < a) (hwf : q.Wf pos) (h : Ordered pri q)
    (a : α) : Ordered pri (insert cmppri pri q pos a).1 := by
  have hsize := hwf.size_pos
  have hlow : ∀ j, j ≠ q.size → Function.update q.d q.size a j = q.d j :=
    fun j hj => Function.update_of_ne hj _ _
  show HeapOrdered pri (q.size + 1) (bubbleUp cmppri pri a q.size ⟨Function.update q.d q.size a, pos⟩).d
  refine bubbleUp_ordered hcmp hsize (Nat.lt_succ_self _) ⟨?_, ?_⟩ ?_
  · intro j hj hj' hji hpi
    show pri (Function.update q.d q.size a (j / 2)) ≤ pri (Function.update q.d q.size a j)
    rw [hlow j hji, hlow (j / 2) hpi]
    exact h j hj (by omega)
  -- the last slot has no children
  · intro _ j hj' hp
    omega
  · intro j hj' hp
    omega

variable (pri) in
theorem changePriority_ordered (hcmp : ∀ a b, cmppri a b = true ↔ b < a) {old : α → Nat}
    (hwf : q.Wf pos) (h : Ordered old q) {a : α} (ha : q.Mem a) (heq : ∀ b, b ≠ a → pri b = old b) :
    Ordered pri (changePriority cmppri pri q pos (old a) a).1 := by
  obtain ⟨hp, hp', hpa⟩ := hwf.pos_of_mem ha
  have haway : ∀ j, 1 ≤ j → j < q.size → j ≠ pos a → pri (q.d j) = old (q.d j) := by
    intro j hj hj' hji
    refine heq _ fun he => hji ?_
    have hpos : pos (q.d j) = j := hwf.indexed j hj hj'
    rw [← hpos, he]
  have haround : OrderedAround pri q.size (pos a) q.d := HeapOrdered.around h haway
  show HeapOrdered pri q.size (Slots.d _)
  by_cases hc : cmppri (old a) (pri a) = true
  · -- the priority fell: the node still fits over its children
    rw [if_pos hc]
    refine bubbleUp_ordered hcmp hp hp' haround ?_
    intro j hj' hpj
    show pri (q.d (pos a)) ≤ pri (q.d j)
    rw [hpa, haway j (by omega) hj' (by omega)]
    have hchild : old (q.d (j / 2)) ≤ old (q.d j) := h j (by omega) hj'
    rw [hpj, hpa] at hchild
    exact Nat.le_of_lt (Nat.lt_of_lt_of_le ((hcmp _ _).mp hc) hchild)
  · -- the priority rose or stayed: the node still fits under its parent
    rw [if_neg hc]
    refine percolateDown_ordered hcmp hp haround ?_
    intro h2
    show pri (q.d (pos a / 2)) ≤ pri (q.d (pos a))
    rw [haway (pos a / 2) (by omega) (by omega) (by omega)]
    have hparent : old (q.d (pos a / 2)) ≤ old (q.d (pos a)) := h (pos a) h2 hp'
    rw [hpa] at hparent ⊢
    exact Nat.le_trans hparent (Nat.le_of_not_lt fun hlt => hc ((hcmp _ _).mpr hlt))

theorem pop_ordered (hcmp : ∀ a b, cmppri a b = true ↔ b < a) (h : Ordered pri q) :
    Ordered pri (pop cmppri pri q pos).1 := by
  have hlow : ∀ j, j ≠ 1 → Function.update q.d 1 (q.d (q.size - 1)) j = q.d j :=
    fun j hj => Function.update_of_ne hj _ _
  show HeapOrdered pri (q.size - 1) (Slots.d _)
  refine percolateDown_ordered hcmp (Nat.le_refl 1) ⟨?_, ?_⟩ ?_
  · intro j hj hj' hji hpi
    show pri (Function.update q.d 1 (q.d (q.size - 1)) (j / 2)) ≤
      pri (Function.update q.d 1 (q.d (q.size - 1)) j)
    rw [hlow j hji, hlow (j / 2) hpi]
    exact h j hj (by omega)
  -- slot 1 has no parent
  · intro h2
    omega
  · intro h2
    omega

end Pqueue

end NvmeVirt
