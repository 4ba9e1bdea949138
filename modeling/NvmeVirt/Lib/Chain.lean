import Mathlib.Logic.Function.Basic
import Mathlib.Data.List.Nodup

/-!
# `Lib.Chain` — linked lists in arrays

A list whose links are kept in an array of nodes is a path: `Path next a l b` says that following `next`
from `a` visits exactly `l` and arrives at `b`. A singly linked list is a path to the end marker; a doubly
linked list is one along `next` and one along `prev`, over the reversed list. Every list operation is a few
link updates, and the rules below say what each update does to a path: nothing if the node is not on it, and
a new end if it is the last node.
-/

namespace Chain

variable {α : Type} {next next' : α → α} {a b c : α} {l l₁ l₂ : List α}

/-- Following `next` from the first argument visits the list and arrives at the last argument. -/
def Path (next : α → α) : α → List α → α → Prop
  | a, [], b => a = b
  | a, x :: l, b => a = x ∧ Path next (next x) l b

@[simp] theorem path_cons {x : α} : Path next a (x :: l) b ↔ a = x ∧ Path next (next x) l b := Iff.rfl

/-- Two paths meet where the first ends. -/
theorem path_append : Path next a (l₁ ++ l₂) b ↔ ∃ m, Path next a l₁ m ∧ Path next m l₂ b := by
  induction l₁ generalizing a with
  | nil =>
      constructor
      · intro h
        exact ⟨a, rfl, h⟩
      · rintro ⟨m, rfl, h⟩
        exact h
  | cons x l₁ ih =>
      simp only [List.cons_append, path_cons, ih]
      constructor
      · rintro ⟨hx, m, h1, h2⟩
        exact ⟨m, ⟨hx, h1⟩, h2⟩
      · rintro ⟨m, ⟨hx, h1⟩, h2⟩
        exact ⟨hx, m, h1, h2⟩

/-- The last node of a path points to its end. -/
theorem path_concat {x : α} : Path next a (l ++ [x]) b ↔ Path next a l x ∧ next x = b := by
  rw [path_append]
  constructor
  · rintro ⟨m, h1, rfl, h2⟩
    exact ⟨h1, h2⟩
  · rintro ⟨h1, h2⟩
    exact ⟨x, h1, rfl, h2⟩

/-- A path depends on the links of its nodes only. -/
theorem Path.congr (h : Path next a l b) (hn : ∀ x ∈ l, next' x = next x) : Path next' a l b := by
  induction l generalizing a with
  | nil => exact h
  | cons x l ih =>
      refine ⟨h.1, ?_⟩
      rw [hn x (List.mem_cons_self ..)]
      exact ih h.2 fun y hy => hn y (List.mem_cons_of_mem x hy)

/-- The start of a path is its first node, or its end if it has none. -/
theorem Path.start_eq (h : Path next a l b) : a = l.headD b := by
  cases l with
  | nil => exact h
  | cons x l => exact h.1

/-- From a node on the path one gets to the next node or to the end. -/
theorem Path.next_mem (h : Path next a l b) {x : α} (hx : x ∈ l) : next x = b ∨ next x ∈ l := by
  obtain ⟨l₁, l₂, rfl⟩ := List.append_of_mem hx
  obtain ⟨_, _, rfl, hrest⟩ := path_append.mp h
  cases l₂ with
  | nil => exact Or.inl hrest
  | cons y l₂ => exact Or.inr (by simp [hrest.1])

/-- **Back and forth.** In a doubly linked list `prev` undoes `next`. -/
theorem Path.prev_next {prev : α → α} (h : Path next a l b) (hback : Path prev c l.reverse b) {x : α} (hx : x ∈ l)
    (hne : next x ≠ b) : prev (next x) = x := by
  obtain ⟨l₁, l₂, rfl⟩ := List.append_of_mem hx
  obtain ⟨_, _, _, hrest⟩ := path_append.mp h
  cases l₂ with
  | nil => exact absurd hrest hne
  | cons y l₂ =>
      rw [hrest.1]
      have hrev : (l₁ ++ x :: y :: l₂).reverse = l₂.reverse ++ y :: x :: l₁.reverse := by simp
      rw [hrev] at hback
      obtain ⟨_, _, _, hy⟩ := path_append.mp hback
      exact hy.1

/-- The first node of a doubly linked list leads back to the end marker. -/
theorem Path.prev_start {prev : α → α} (h : Path next a l b) (hback : Path prev c l.reverse b) (hne : l ≠ []) :
    prev a = b := by
  cases l with
  | nil => exact absurd rfl hne
  | cons x l =>
      rw [h.1]
      rw [List.reverse_cons, path_concat] at hback
      exact hback.2

section Update

variable [DecidableEq α]

/-- **Frame.** Redirecting a node that is not on the path keeps it. -/
theorem Path.update (h : Path next a l b) {x : α} (hx : x ∉ l) (y : α) :
    Path (Function.update next x y) a l b := by
  refine h.congr fun z hz => ?_
  rw [Function.update_of_ne]
  rintro rfl
  exact hx hz

/-- **Extending or cutting.** Redirecting the last node moves the end. -/
theorem Path.redirect {x : α} (h : Path next a (l ++ [x]) b) (hx : x ∉ l) (y : α) :
    Path (Function.update next x y) a (l ++ [x]) y := by
  rw [path_concat] at h ⊢
  exact ⟨h.1.update hx y, Function.update_self ..⟩

/-- **Linking in.** A node after `x`: it leads where `x` led, and `x` leads to it. -/
theorem Path.insert_after {x e : α} (h : Path next a (l₁ ++ x :: l₂) b) (h₁ : x ∉ l₁) (h₂ : x ∉ l₂)
    (he : e ∉ l₁ ++ x :: l₂) :
    Path (Function.update (Function.update next e (next x)) x e) a (l₁ ++ x :: e :: l₂) b := by
  simp only [List.mem_append, List.mem_cons, not_or] at he
  obtain ⟨m, hl, rfl, hr⟩ := path_append.mp h
  refine path_append.mpr ⟨m, (hl.update he.1 _).update h₁ _, rfl, ?_⟩
  rw [Function.update_self]
  refine ⟨rfl, ?_⟩
  rw [Function.update_of_ne he.2.1, Function.update_self]
  exact (hr.update he.2.2 _).update h₂ _

/-- The nodes on the way from a node to `stop`. -/
def follow (next : α → α) (stop : α) : Nat → α → List α
  | 0, _ => []
  | fuel + 1, a => if a = stop then [] else a :: follow next stop fuel (next a)

theorem Path.follow_eq (h : Path next a l b) (hb : b ∉ l) {fuel : Nat} (hfuel : l.length ≤ fuel) :
    follow next b fuel a = l := by
  induction l generalizing a fuel with
  | nil =>
      cases fuel with
      | zero => rfl
      | succ fuel => exact if_pos h
  | cons x l ih =>
      obtain ⟨rfl, hrest⟩ := h
      simp only [List.mem_cons, not_or] at hb
      cases fuel with
      | zero => exact absurd hfuel (Nat.not_succ_le_zero _)
      | succ fuel =>
          rw [follow, if_neg (Ne.symm hb.1), ih hrest hb.2 (Nat.le_of_succ_le_succ hfuel)]

end Update

end Chain
