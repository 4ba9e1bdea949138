import Mathlib.Logic.Function.Basic
import Mathlib.Logic.Equiv.Defs

/-!
# `Pqueue` — the vendored binary heap (`pqueue/pqueue.c`)

The heap stores `void *` elements in `d[1 .. size-1]` (slot `0` is unused) and never looks inside an
element: it reads its priority through `getpri` and writes the slot number back into it through `setpos`.
The model keeps that split. An element is a value of an arbitrary type `α`, `pri` is what `getpri` returns,
and the two arrays a sift writes — the slots `d` and the elements' positions `pos` — travel together as
`Slots`.

A sift moves a **hole**: the moving node is taken out of slot `i`, other elements are copied into the
hole, and the node is put back at the end. `Hole` is the invariant of both loops (`bubble_up` and
`percolate_down`), `Hole.move` its step and `Hole.fill` its end, so every operation below inherits
* the set of queued elements is what it should be (`Queued`),
* every queued element's position is its slot (`Indexed`),
* no other element's position is touched.
-/

namespace NvmeVirt

/-- The two arrays a sift writes: the slots and the position stored in each element. -/
structure Slots (α : Type) where
  d : Nat → α
  pos : α → Nat

namespace Slots

variable {α : Type} [DecidableEq α]

/-- `q->d[i] = a; q->setpos(a, i);` -/
def put (s : Slots α) (i : Nat) (a : α) : Slots α :=
  ⟨Function.update s.d i a, Function.update s.pos a i⟩

@[simp] theorem put_d_self (s : Slots α) (i : Nat) (a : α) : (s.put i a).d i = a := by
  simp [put]

theorem put_d_of_ne (s : Slots α) {i j : Nat} (a : α) (h : j ≠ i) : (s.put i a).d j = s.d j := by
  simp [put, h]

@[simp] theorem put_pos_self (s : Slots α) (i : Nat) (a : α) : (s.put i a).pos a = i := by
  simp [put]

theorem put_pos_of_ne (s : Slots α) (i : Nat) {a b : α} (h : b ≠ a) :
    (s.put i a).pos b = s.pos b := by
  simp [put, h]

/-- Every slot in use holds an element whose position is that slot. -/
def Indexed (size : Nat) (s : Slots α) : Prop := ∀ j, 1 ≤ j → j < size → s.pos (s.d j) = j

/-- `a` sits in a slot in use. -/
def Queued (size : Nat) (s : Slots α) (a : α) : Prop := ∃ j, 1 ≤ j ∧ j < size ∧ s.d j = a

omit [DecidableEq α] in
theorem Indexed.inj {size : Nat} {s : Slots α} (h : Indexed size s) {i j : Nat} (hi : 1 ≤ i)
    (hi' : i < size) (hj : 1 ≤ j) (hj' : j < size) (he : s.d i = s.d j) : i = j := by
  rw [← h i hi hi', ← h j hj hj', he]

/-! ## The hole -/

/-- The sift invariant: slot `i` is the hole, the moving node `m` is nowhere else, and every other slot
    in use is indexed. -/
structure Hole (size : Nat) (m : α) (i : Nat) (s : Slots α) : Prop where
  lo : 1 ≤ i
  hi : i < size
  pos_eq : ∀ j, 1 ≤ j → j < size → j ≠ i → s.pos (s.d j) = j
  ne : ∀ j, 1 ≤ j → j < size → j ≠ i → s.d j ≠ m

/-- The elements of a heap with a hole at `i`: the moving node and the other slots. -/
def HoleElem (size : Nat) (m : α) (i : Nat) (s : Slots α) (a : α) : Prop :=
  a = m ∨ ∃ j, 1 ≤ j ∧ j < size ∧ j ≠ i ∧ s.d j = a

variable {size : Nat} {m : α} {i : Nat} {s : Slots α}

/-- Copying slot `c` into the hole moves the hole to `c`. -/
theorem Hole.move (h : Hole size m i s) {c : Nat} (hc : 1 ≤ c) (hc' : c < size) (hne : c ≠ i) :
    Hole size m c (s.put i (s.d c)) where
  lo := hc
  hi := hc'
  pos_eq := by
    intro j hj hj' hjc
    by_cases hji : j = i
    · subst hji; simp
    · have hd : s.d j ≠ s.d c := by
        intro he
        have h1 := h.pos_eq j hj hj' hji
        rw [he, h.pos_eq c hc hc' hne] at h1
        exact hjc h1.symm
      rw [put_d_of_ne s _ hji, put_pos_of_ne s i hd]
      exact h.pos_eq j hj hj' hji
  ne := by
    intro j hj hj' hjc
    by_cases hji : j = i
    · subst hji; rw [put_d_self]; exact h.ne c hc hc' hne
    · rw [put_d_of_ne s _ hji]; exact h.ne j hj hj' hji

theorem holeElem_move (h : Hole size m i s) {c : Nat} (hc : 1 ≤ c) (hc' : c < size) (hne : c ≠ i)
    (a : α) : HoleElem size m c (s.put i (s.d c)) a ↔ HoleElem size m i s a := by
  constructor
  · rintro (rfl | ⟨j, hj, hj', hjc, rfl⟩)
    · exact Or.inl rfl
    · by_cases hji : j = i
      · subst hji; rw [put_d_self]; exact Or.inr ⟨c, hc, hc', hne, rfl⟩
      · rw [put_d_of_ne s _ hji]; exact Or.inr ⟨j, hj, hj', hji, rfl⟩
  · rintro (rfl | ⟨j, hj, hj', hji, rfl⟩)
    · exact Or.inl rfl
    · by_cases hjc : j = c
      · subst hjc; exact Or.inr ⟨i, h.lo, h.hi, hne.symm, by rw [put_d_self]⟩
      · exact Or.inr ⟨j, hj, hj', hjc, by rw [put_d_of_ne s _ hji]⟩

/-- Putting the moving node into the hole ends the sift. -/
theorem Hole.fill (h : Hole size m i s) : Indexed size (s.put i m) := by
  intro j hj hj'
  by_cases hji : j = i
  · subst hji; simp
  · rw [put_d_of_ne s _ hji, put_pos_of_ne s i (h.ne j hj hj' hji)]
    exact h.pos_eq j hj hj' hji

theorem queued_fill (h : Hole size m i s) (a : α) :
    Queued size (s.put i m) a ↔ HoleElem size m i s a := by
  constructor
  · rintro ⟨j, hj, hj', rfl⟩
    by_cases hji : j = i
    · subst hji; exact Or.inl (put_d_self s j m)
    · rw [put_d_of_ne s _ hji]; exact Or.inr ⟨j, hj, hj', hji, rfl⟩
  · rintro (rfl | ⟨j, hj, hj', hji, rfl⟩)
    · exact ⟨i, h.lo, h.hi, put_d_self s i a⟩
    · exact ⟨j, hj, hj', put_d_of_ne s _ hji⟩

end Slots

open Slots

section Sift

variable {α : Type} [DecidableEq α] (cmppri : Nat → Nat → Bool) (pri : α → Nat)

/-- `bubble_up(q, i)`, with the moving node already read out of slot `i`. -/
def bubbleUp (m : α) (i : Nat) (s : Slots α) : Slots α :=
  if _h : 1 < i ∧ cmppri (pri (s.d (i / 2))) (pri m) = true then
    bubbleUp m (i / 2) (s.put i (s.d (i / 2)))
  else s.put i m
termination_by i
decreasing_by omega

/-- `maxchild(q, i)`: the child to descend to, or `0` when `i` is a leaf. -/
def maxchild (size : Nat) (s : Slots α) (i : Nat) : Nat :=
  if 2 * i ≥ size then 0
  else if 2 * i + 1 < size && cmppri (pri (s.d (2 * i))) (pri (s.d (2 * i + 1))) then 2 * i + 1
  else 2 * i

omit [DecidableEq α] in
theorem maxchild_lt {size : Nat} {s : Slots α} {i : Nat} (h : maxchild cmppri pri size s i ≠ 0) :
    i < maxchild cmppri pri size s i ∧ maxchild cmppri pri size s i < size := by
  unfold maxchild at h ⊢
  split at h
  · exact absurd rfl h
  · split at h
    · rename_i hlt hc
      simp only [Bool.and_eq_true, decide_eq_true_eq] at hc
      rw [if_neg hlt, if_pos (by simpa using hc)]
      omega
    · rename_i hlt hc
      rw [if_neg hlt, if_neg hc]
      omega

/-- `percolate_down(q, i)`, with the moving node already read out of slot `i`. -/
def percolateDown (size : Nat) (m : α) (i : Nat) (s : Slots α) : Slots α :=
  if _h : maxchild cmppri pri size s i ≠ 0 ∧
      cmppri (pri m) (pri (s.d (maxchild cmppri pri size s i))) = true then
    percolateDown size m (maxchild cmppri pri size s i)
      (s.put i (s.d (maxchild cmppri pri size s i)))
  else s.put i m
termination_by size - i
decreasing_by
  have := maxchild_lt cmppri pri _h.1
  omega

variable {size : Nat} {m : α} {i : Nat} {s : Slots α}

/-- What either sift does to a heap with a hole: it fills it, keeping the elements. -/
structure Sifted (size : Nat) (m : α) (i : Nat) (s s' : Slots α) : Prop where
  indexed : Slots.Indexed size s'
  queued : ∀ a, Queued size s' a ↔ HoleElem size m i s a
  frame : ∀ a, ¬ HoleElem size m i s a → s'.pos a = s.pos a

theorem Sifted.fill (h : Hole size m i s) : Sifted size m i s (s.put i m) where
  indexed := h.fill
  queued := queued_fill h
  frame := fun _ ha => put_pos_of_ne s i (fun he => ha (Or.inl he))

/-- One iteration of a sift, followed by the rest of it. -/
theorem Sifted.move (h : Hole size m i s) {c : Nat} (hc : 1 ≤ c) (hc' : c < size) (hne : c ≠ i)
    {s' : Slots α} (hs : Sifted size m c (s.put i (s.d c)) s') : Sifted size m i s s' where
  indexed := hs.indexed
  queued := fun a => (hs.queued a).trans (holeElem_move h hc hc' hne a)
  frame := by
    intro a ha
    rw [hs.frame a (fun hc'' => ha ((holeElem_move h hc hc' hne a).mp hc''))]
    exact put_pos_of_ne s i (fun he => ha (Or.inr ⟨c, hc, hc', hne, he.symm⟩))

theorem bubbleUp_sifted (h : Hole size m i s) :
    Sifted size m i s (bubbleUp cmppri pri m i s) := by
  induction i, s using bubbleUp.induct cmppri pri m with
  | case1 i s hc ih =>
      rw [bubbleUp, dif_pos hc]
      have hlt := h.hi
      have hmove : Hole size m (i / 2) (s.put i (s.d (i / 2))) :=
        h.move (by omega) (by omega) (by omega)
      exact Sifted.move h (by omega) (by omega) (by omega) (ih hmove)
  | case2 i s hc =>
      rw [bubbleUp, dif_neg hc]
      exact Sifted.fill h

theorem percolateDown_sifted (h : Hole size m i s) :
    Sifted size m i s (percolateDown cmppri pri size m i s) := by
  induction i, s using percolateDown.induct cmppri pri size m with
  | case1 i s hc ih =>
      rw [percolateDown, dif_pos hc]
      have hlt := maxchild_lt cmppri pri hc.1
      have hlo := h.lo
      exact Sifted.move h (by omega) hlt.2 (by omega) (ih (h.move (by omega) hlt.2 (by omega)))
  | case2 i s hc =>
      rw [percolateDown, dif_neg hc]
      exact Sifted.fill h

end Sift

/-! ## The operations -/

/-- `struct pqueue_t`: the number of the first slot not in use, and the slots. -/
structure Pqueue (α : Type) where
  size : Nat
  d : Nat → α

namespace Pqueue

variable {α : Type} [DecidableEq α]

/-- `pqueue_init`: the queue is empty, slot `0` is unused; the other slots are unset memory. -/
def init (junk : Nat → α) : Pqueue α := ⟨1, junk⟩

/-- The queue's slots together with the positions the elements store. -/
def slots (q : Pqueue α) (pos : α → Nat) : Slots α := ⟨q.d, pos⟩

variable (cmppri : Nat → Nat → Bool) (pri : α → Nat)

/-- `pqueue_insert(q, a)`. Returns the queue and the elements' positions. -/
def insert (q : Pqueue α) (pos : α → Nat) (a : α) : Pqueue α × (α → Nat) :=
  let s := bubbleUp cmppri pri a q.size ⟨Function.update q.d q.size a, pos⟩
  (⟨q.size + 1, s.d⟩, s.pos)

/-- `pqueue_change_priority(q, new_pri, a)` after `setpri`: `pri` is the priority function with the new
    value in place, `oldPri` what `getpri` returned before. The sift starts from the slot `getpos` names. -/
def changePriority (q : Pqueue α) (pos : α → Nat) (oldPri : Nat) (a : α) : Pqueue α × (α → Nat) :=
  let posn := pos a
  let s := if cmppri oldPri (pri a) then bubbleUp cmppri pri (q.d posn) posn (q.slots pos)
    else percolateDown cmppri pri q.size (q.d posn) posn (q.slots pos)
  (⟨q.size, s.d⟩, s.pos)

/-- `pqueue_peek(q)` -/
def peek (q : Pqueue α) : Option α := if q.size = 1 then none else some (q.d 1)

/-- `pqueue_pop(q)` on a queue that is not empty; the popped element is what `peek` returned. -/
def pop (q : Pqueue α) (pos : α → Nat) : Pqueue α × (α → Nat) :=
  let d := Function.update q.d 1 (q.d (q.size - 1))
  let s := percolateDown cmppri pri (q.size - 1) (d 1) 1 ⟨d, pos⟩
  (⟨q.size - 1, s.d⟩, s.pos)

/-- The queue is well formed with respect to the positions its elements store. -/
structure Wf (q : Pqueue α) (pos : α → Nat) : Prop where
  size_pos : 1 ≤ q.size
  indexed : Slots.Indexed q.size (q.slots pos)

/-- `a` is in the queue. -/
def Mem (q : Pqueue α) (a : α) : Prop := ∃ j, 1 ≤ j ∧ j < q.size ∧ q.d j = a

variable {q : Pqueue α} {pos : α → Nat}

omit [DecidableEq α] in
theorem Wf.pos_of_mem (h : q.Wf pos) {a : α} (ha : q.Mem a) :
    1 ≤ pos a ∧ pos a < q.size ∧ q.d (pos a) = a := by
  obtain ⟨j, hj, hj', rfl⟩ := ha
  have hp : pos (q.d j) = j := h.indexed j hj hj'
  rw [hp]
  exact ⟨hj, hj', rfl⟩

omit [DecidableEq α] in
theorem peek_eq_none_iff (h : q.Wf pos) : q.peek = none ↔ ∀ a, ¬ q.Mem a := by
  have h1 := h.size_pos
  unfold peek
  split
  · rename_i hs
    refine ⟨fun _ a ha => ?_, fun _ => rfl⟩
    obtain ⟨j, hj, hj', _⟩ := ha
    omega
  · rename_i hs
    refine ⟨fun hn => by simp at hn, fun hn => ?_⟩
    exact absurd ⟨1, Nat.le_refl 1, by omega, rfl⟩ (hn (q.d 1))

omit [DecidableEq α] in
theorem mem_of_peek (h : q.Wf pos) {a : α} (ha : q.peek = some a) : q.Mem a ∧ q.d 1 = a ∧ 1 < q.size := by
  have h1 := h.size_pos
  unfold peek at ha
  split at ha
  · simp at ha
  · simp only [Option.some.injEq] at ha
    exact ⟨⟨1, Nat.le_refl 1, by omega, ha⟩, ha, by omega⟩

/-- **Insertion** of an element that is not queued adds exactly that element. -/
theorem insert_spec (h : q.Wf pos) {a : α} (ha : ¬ q.Mem a) :
    (insert cmppri pri q pos a).1.size = q.size + 1 ∧
    (insert cmppri pri q pos a).1.Wf (insert cmppri pri q pos a).2 ∧
    (∀ b, (insert cmppri pri q pos a).1.Mem b ↔ b = a ∨ q.Mem b) ∧
    (∀ b, b ≠ a → ¬ q.Mem b → (insert cmppri pri q pos a).2 b = pos b) := by
  have h1 := h.size_pos
  -- the new element starts in the slot past the end: that slot is the hole
  have hlow : ∀ j, j ≠ q.size → Function.update q.d q.size a j = q.d j := by
    intro j hj; simp [hj]
  have hole : Hole (q.size + 1) a q.size ⟨Function.update q.d q.size a, pos⟩ := by
    refine ⟨h1, by omega, ?_, ?_⟩
    · intro j hj hj' hne
      show pos (Function.update q.d q.size a j) = j
      rw [hlow j hne]
      exact h.indexed j hj (by omega)
    · intro j hj hj' hne
      show Function.update q.d q.size a j ≠ a
      rw [hlow j hne]
      exact fun he => ha ⟨j, hj, by omega, he⟩
  have helem : ∀ b, HoleElem (q.size + 1) a q.size ⟨Function.update q.d q.size a, pos⟩ b ↔
      b = a ∨ q.Mem b := by
    intro b
    refine or_congr_right ⟨?_, ?_⟩
    · rintro ⟨j, hj, hj', hne, he⟩
      exact ⟨j, hj, by omega, by rw [← he]; exact (hlow j hne).symm⟩
    · rintro ⟨j, hj, hj', he⟩
      exact ⟨j, hj, by omega, by omega, by rw [← he]; exact hlow j (by omega)⟩
  have hs := bubbleUp_sifted cmppri pri hole
  exact ⟨rfl, ⟨by show 1 ≤ q.size + 1; omega, hs.indexed⟩, fun b => (hs.queued b).trans (helem b),
    fun b hne hb => hs.frame b (fun hc => ((helem b).mp hc).elim hne hb)⟩

/-- **A priority change** of a queued element keeps the elements. -/
theorem changePriority_spec (h : q.Wf pos) {a : α} (ha : q.Mem a) (oldPri : Nat) :
    (changePriority cmppri pri q pos oldPri a).1.size = q.size ∧
    (changePriority cmppri pri q pos oldPri a).1.Wf (changePriority cmppri pri q pos oldPri a).2 ∧
    (∀ b, (changePriority cmppri pri q pos oldPri a).1.Mem b ↔ q.Mem b) ∧
    (∀ b, ¬ q.Mem b → (changePriority cmppri pri q pos oldPri a).2 b = pos b) := by
  obtain ⟨hp, hp', hpa⟩ := h.pos_of_mem ha
  have hole : Hole q.size (q.d (pos a)) (pos a) (q.slots pos) := by
    refine ⟨hp, hp', fun j hj hj' _ => h.indexed j hj hj', ?_⟩
    intro j hj hj' hne he
    exact hne (h.indexed.inj hj hj' hp hp' he)
  have helem : ∀ b, HoleElem q.size (q.d (pos a)) (pos a) (q.slots pos) b ↔ q.Mem b := by
    intro b
    constructor
    · rintro (rfl | ⟨j, hj, hj', _, he⟩)
      · exact ⟨pos a, hp, hp', rfl⟩
      · exact ⟨j, hj, hj', he⟩
    · rintro ⟨j, hj, hj', rfl⟩
      by_cases hj0 : j = pos a
      · exact Or.inl (by rw [hj0])
      · exact Or.inr ⟨j, hj, hj', hj0, rfl⟩
  have hs : Sifted q.size (q.d (pos a)) (pos a) (q.slots pos)
      (if cmppri oldPri (pri a) then bubbleUp cmppri pri (q.d (pos a)) (pos a) (q.slots pos)
        else percolateDown cmppri pri q.size (q.d (pos a)) (pos a) (q.slots pos)) := by
    split
    · exact bubbleUp_sifted cmppri pri hole
    · exact percolateDown_sifted cmppri pri hole
  exact ⟨rfl, ⟨h.size_pos, hs.indexed⟩, fun b => (hs.queued b).trans (helem b),
    fun b hb => hs.frame b (fun hc => hb ((helem b).mp hc))⟩

/-- **Popping** removes exactly the element in slot `1`. Its own stored position is left stale. -/
theorem pop_spec (h : q.Wf pos) (hne : 1 < q.size) :
    (pop cmppri pri q pos).1.size = q.size - 1 ∧
    (∀ j, 1 ≤ j → j < q.size - 1 → (pop cmppri pri q pos).2 ((pop cmppri pri q pos).1.d j) = j) ∧
    (∀ b, (pop cmppri pri q pos).1.Mem b ↔ q.Mem b ∧ b ≠ q.d 1) ∧
    (∀ b, b ≠ q.d 1 → ¬ q.Mem b → (pop cmppri pri q pos).2 b = pos b) := by
  by_cases h2 : q.size = 2
  · -- the head is also the last element: nothing is left, and only the head's position is written
    have hm : ∀ b, q.Mem b ↔ b = q.d 1 := by
      intro b
      constructor
      · rintro ⟨j, hj, hj', rfl⟩
        exact congrArg q.d (by omega)
      · rintro rfl
        exact ⟨1, Nat.le_refl 1, by omega, rfl⟩
    refine ⟨rfl, fun j hj hj' => by omega, ?_, ?_⟩
    · intro b
      rw [hm b]
      constructor
      · rintro ⟨j, hj, hj', _⟩
        have hj'' : j < q.size - 1 := hj'
        omega
      · rintro ⟨hb, hb'⟩
        exact absurd hb hb'
    · intro b hb _
      have hmc : maxchild cmppri pri (q.size - 1) ⟨Function.update q.d 1 (q.d (q.size - 1)), pos⟩ 1
          = 0 := by
        unfold maxchild; rw [if_pos (by omega)]
      have hlast : q.size - 1 = 1 := by omega
      simp only [pop]
      rw [percolateDown, dif_neg (by rw [hmc]; simp)]
      apply put_pos_of_ne
      rw [hlast]
      simpa using hb
  · -- the last element is moved into slot 1, which becomes the hole of the shortened heap
    have hlow : ∀ j, j ≠ 1 → Function.update q.d 1 (q.d (q.size - 1)) j = q.d j := by
      intro j hj; simp [hj]
    have hd1 : Function.update q.d 1 (q.d (q.size - 1)) 1 = q.d (q.size - 1) := by simp
    have hole : Hole (q.size - 1) (q.d (q.size - 1)) 1
        ⟨Function.update q.d 1 (q.d (q.size - 1)), pos⟩ := by
      refine ⟨Nat.le_refl 1, by omega, ?_, ?_⟩
      · intro j hj hj' hj1
        show pos (Function.update q.d 1 (q.d (q.size - 1)) j) = j
        rw [hlow j hj1]
        exact h.indexed j hj (by omega)
      · intro j hj hj' hj1
        show Function.update q.d 1 (q.d (q.size - 1)) j ≠ q.d (q.size - 1)
        rw [hlow j hj1]
        intro he
        have := h.indexed.inj hj (by omega) (by omega) (by omega) he
        omega
    have helem : ∀ b, HoleElem (q.size - 1) (q.d (q.size - 1)) 1
        ⟨Function.update q.d 1 (q.d (q.size - 1)), pos⟩ b ↔ q.Mem b ∧ b ≠ q.d 1 := by
      intro b
      constructor
      · rintro (rfl | ⟨j, hj, hj', hj1, rfl⟩)
        · refine ⟨⟨q.size - 1, by omega, by omega, rfl⟩, fun he => ?_⟩
          have := h.indexed.inj (by omega) (by omega) (Nat.le_refl 1) hne he
          omega
        · have hdj : (⟨Function.update q.d 1 (q.d (q.size - 1)), pos⟩ : Slots α).d j = q.d j := hlow j hj1
          rw [hdj]
          refine ⟨⟨j, hj, by omega, rfl⟩, fun he => hj1 ?_⟩
          exact h.indexed.inj hj (by omega) (Nat.le_refl 1) hne he
      · rintro ⟨⟨j, hj, hj', rfl⟩, hb⟩
        by_cases hjl : j = q.size - 1
        · exact Or.inl (by rw [hjl])
        · have hj1 : j ≠ 1 := fun he => hb (by rw [he])
          exact Or.inr ⟨j, hj, by omega, hj1, hlow j hj1⟩
    have hs := percolateDown_sifted cmppri pri hole
    simp only [pop, hd1]
    exact ⟨trivial, hs.indexed, fun b => (hs.queued b).trans (helem b),
      fun b hb hm => hs.frame b (fun hc => hm ((helem b).mp hc).1)⟩

end Pqueue

/-! ## Renaming

The heap never looks inside an element, so two heaps whose slots correspond under an injective renaming `f`
of the elements, with the same priorities, stay in correspondence: ties are broken by slot, not by
element. -/

section Renaming

variable {α β : Type} [DecidableEq α] [DecidableEq β] {f : α → β} (cmppri : Nat → Nat → Bool)
  {pri : α → Nat} {pri' : β → Nat}

/-- The slots in use hold renamed elements, and renamed elements store the same positions. -/
structure Slots.Renamed (f : α → β) (size : Nat) (s : Slots α) (s' : Slots β) : Prop where
  d_eq : ∀ j, 1 ≤ j → j < size → s'.d j = f (s.d j)
  pos_eq : ∀ a, s'.pos (f a) = s.pos a

variable {size : Nat} {s : Slots α} {s' : Slots β}

theorem Slots.Renamed.put (hf : Function.Injective f) (h : Slots.Renamed f size s s') (i : Nat) (a : α) :
    Slots.Renamed f size (s.put i a) (s'.put i (f a)) where
  d_eq := by
    intro j hj hj'
    by_cases hji : j = i
    · subst hji
      rw [put_d_self, put_d_self]
    · rw [put_d_of_ne _ _ hji, put_d_of_ne _ _ hji]
      exact h.d_eq j hj hj'
  pos_eq := by
    intro b
    by_cases hb : b = a
    · subst hb
      rw [put_pos_self, put_pos_self]
    · rw [put_pos_of_ne _ _ hb, put_pos_of_ne _ _ fun he => hb (hf he)]
      exact h.pos_eq b

theorem bubbleUp_renamed (hf : Function.Injective f) (hpri : ∀ a, pri' (f a) = pri a) (m : α) {i : Nat}
    (hi : i ≤ size) (h : Slots.Renamed f size s s') :
    Slots.Renamed f size (bubbleUp cmppri pri m i s) (bubbleUp cmppri pri' (f m) i s') := by
  induction i, s using bubbleUp.induct cmppri pri m generalizing s' with
  | case1 i s hc ih =>
      have hd : s'.d (i / 2) = f (s.d (i / 2)) := h.d_eq (i / 2) (by omega) (by omega)
      have hc' : 1 < i ∧ cmppri (pri' (s'.d (i / 2))) (pri' (f m)) = true := by
        rw [hd, hpri, hpri]
        exact hc
      rw [bubbleUp.eq_def cmppri pri m i, dif_pos hc, bubbleUp.eq_def cmppri pri' (f m) i, dif_pos hc', hd]
      exact ih (by omega) (h.put hf i _)
  | case2 i s hc =>
      have hc' : ¬ (1 < i ∧ cmppri (pri' (s'.d (i / 2))) (pri' (f m)) = true) := by
        rintro ⟨hlt, hcmp⟩
        rw [h.d_eq (i / 2) (by omega) (by omega), hpri, hpri] at hcmp
        exact hc ⟨hlt, hcmp⟩
      rw [bubbleUp, dif_neg hc, bubbleUp, dif_neg hc']
      exact h.put hf i m

omit [DecidableEq α] [DecidableEq β] in
theorem maxchild_renamed (hpri : ∀ a, pri' (f a) = pri a) (h : Slots.Renamed f size s s') {i : Nat}
    (hi : 1 ≤ i) : maxchild cmppri pri' size s' i = maxchild cmppri pri size s i := by
  unfold maxchild
  split
  · rfl
  · rename_i hleaf
    by_cases hlast : 2 * i + 1 < size
    · rw [h.d_eq (2 * i) (by omega) (by omega), h.d_eq (2 * i + 1) (by omega) hlast, hpri, hpri]
    · simp only [hlast, decide_false, Bool.false_and]

theorem percolateDown_renamed (hf : Function.Injective f) (hpri : ∀ a, pri' (f a) = pri a) (m : α) {i : Nat}
    (hi : 1 ≤ i) (h : Slots.Renamed f size s s') :
    Slots.Renamed f size (percolateDown cmppri pri size m i s)
      (percolateDown cmppri pri' size (f m) i s') := by
  induction i, s using percolateDown.induct cmppri pri size m generalizing s' with
  | case1 i s hc ih =>
      have hmax := maxchild_renamed cmppri hpri h hi
      have hlt := maxchild_lt cmppri pri hc.1
      have hd := h.d_eq (maxchild cmppri pri size s i) (by omega) hlt.2
      have hc' : maxchild cmppri pri' size s' i ≠ 0 ∧
          cmppri (pri' (f m)) (pri' (s'.d (maxchild cmppri pri' size s' i))) = true := by
        rw [hmax, hd, hpri, hpri]
        exact hc
      rw [percolateDown.eq_def cmppri pri size m i, dif_pos hc,
        percolateDown.eq_def cmppri pri' size (f m) i, dif_pos hc', hmax, hd]
      exact ih (by omega) (h.put hf i _)
  | case2 i s hc =>
      have hmax := maxchild_renamed cmppri hpri h hi
      have hc' : ¬ (maxchild cmppri pri' size s' i ≠ 0 ∧
          cmppri (pri' (f m)) (pri' (s'.d (maxchild cmppri pri' size s' i))) = true) := by
        rintro ⟨hne, hcmp⟩
        rw [hmax] at hne hcmp
        have hlt := maxchild_lt cmppri pri hne
        rw [h.d_eq _ (by omega) hlt.2, hpri, hpri] at hcmp
        exact hc ⟨hne, hcmp⟩
      rw [percolateDown, dif_neg hc, percolateDown, dif_neg hc']
      exact h.put hf i m

namespace Pqueue

/-- Two queues with the positions their elements store, up to a renaming of the elements. -/
structure Renamed (f : α → β) (q : Pqueue α) (pos : α → Nat) (q' : Pqueue β) (pos' : β → Nat) : Prop where
  size_pos : 1 ≤ q.size
  size_eq : q'.size = q.size
  slots : Slots.Renamed f q.size (q.slots pos) (q'.slots pos')

variable {q : Pqueue α} {pos : α → Nat} {q' : Pqueue β} {pos' : β → Nat}

omit [DecidableEq α] [DecidableEq β] in
theorem Renamed.peek (h : Renamed f q pos q' pos') : q'.peek = q.peek.map f := by
  have hpos := h.size_pos
  unfold Pqueue.peek
  rw [h.size_eq]
  split
  · rfl
  · have hd : q'.d 1 = f (q.d 1) := h.slots.d_eq 1 (Nat.le_refl 1) (by omega)
    rw [hd]
    rfl

theorem Renamed.insert (hf : Function.Injective f) (hpri : ∀ a, pri' (f a) = pri a)
    (h : Renamed f q pos q' pos') (a : α) :
    Renamed f (insert cmppri pri q pos a).1 (insert cmppri pri q pos a).2
      (insert cmppri pri' q' pos' (f a)).1 (insert cmppri pri' q' pos' (f a)).2 := by
  have hpos := h.size_pos
  refine ⟨Nat.le_add_left 1 q.size, congrArg (· + 1) h.size_eq, ?_⟩
  have hstart : Slots.Renamed f (q.size + 1) ⟨Function.update q.d q.size a, pos⟩
      ⟨Function.update q'.d q'.size (f a), pos'⟩ := by
    refine ⟨?_, h.slots.pos_eq⟩
    intro j hj hj'
    show Function.update q'.d q'.size (f a) j = f (Function.update q.d q.size a j)
    rw [h.size_eq]
    by_cases hje : j = q.size
    · subst hje
      rw [Function.update_self, Function.update_self]
    · rw [Function.update_of_ne hje, Function.update_of_ne hje]
      exact h.slots.d_eq j hj (by omega)
  have hend := bubbleUp_renamed cmppri hf hpri a (Nat.le_succ q.size) hstart
  unfold Pqueue.insert
  rw [h.size_eq] at hend ⊢
  exact hend

theorem Renamed.changePriority (hf : Function.Injective f) (hpri : ∀ a, pri' (f a) = pri a)
    (h : Renamed f q pos q' pos') (oldPri : Nat) {a : α} (hlo : 1 ≤ pos a) (hhi : pos a < q.size) :
    Renamed f (changePriority cmppri pri q pos oldPri a).1 (changePriority cmppri pri q pos oldPri a).2
      (changePriority cmppri pri' q' pos' oldPri (f a)).1
      (changePriority cmppri pri' q' pos' oldPri (f a)).2 := by
  have hpa : pos' (f a) = pos a := h.slots.pos_eq a
  have hd : q'.d (pos a) = f (q.d (pos a)) := h.slots.d_eq (pos a) hlo hhi
  have hup := bubbleUp_renamed cmppri hf hpri (q.d (pos a)) (Nat.le_of_lt hhi) h.slots
  have hdown := percolateDown_renamed cmppri hf hpri (q.d (pos a)) hlo h.slots
  refine ⟨h.size_pos, h.size_eq, ?_⟩
  unfold Pqueue.changePriority
  simp only [hpa, hd, hpri, h.size_eq]
  by_cases hcmp : cmppri oldPri (pri a) = true
  · simp only [if_pos hcmp]
    exact hup
  · simp only [if_neg hcmp]
    exact hdown

theorem Renamed.pop (hf : Function.Injective f) (hpri : ∀ a, pri' (f a) = pri a)
    (h : Renamed f q pos q' pos') (hne : 1 < q.size) :
    Renamed f (pop cmppri pri q pos).1 (pop cmppri pri q pos).2 (pop cmppri pri' q' pos').1
      (pop cmppri pri' q' pos').2 := by
  have hlast : q'.d (q.size - 1) = f (q.d (q.size - 1)) := h.slots.d_eq (q.size - 1) (by omega) (by omega)
  have hstart : Slots.Renamed f (q.size - 1) ⟨Function.update q.d 1 (q.d (q.size - 1)), pos⟩
      ⟨Function.update q'.d 1 (q'.d (q.size - 1)), pos'⟩ := by
    refine ⟨?_, h.slots.pos_eq⟩
    intro j hj hj'
    show Function.update q'.d 1 (q'.d (q.size - 1)) j = f (Function.update q.d 1 (q.d (q.size - 1)) j)
    by_cases hj1 : j = 1
    · subst hj1
      rw [Function.update_self, Function.update_self]
      exact hlast
    · rw [Function.update_of_ne hj1, Function.update_of_ne hj1]
      exact h.slots.d_eq j hj (by omega)
  have hend := percolateDown_renamed cmppri hf hpri (q.d (q.size - 1)) (Nat.le_refl 1) hstart
  refine ⟨show 1 ≤ q.size - 1 by omega, congrArg (· - 1) h.size_eq, ?_⟩
  unfold Pqueue.pop
  rw [h.size_eq]
  simp only [Function.update_self, hlast] at hend ⊢
  exact hend

end Pqueue

end Renaming

end NvmeVirt
