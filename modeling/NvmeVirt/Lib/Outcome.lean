import Mathlib.Logic.Basic

/-!
# `Lib.Outcome` — rules for computations that may fault

A computation that can stop on a failed check is an `Except ε α`. Two relations carry all reasoning
about them, so that a proof never unfolds `bind`:

* `Sat E Q x` — **one run**: `x` returns a value in `Q`, or stops on a fault that `E` admits. With
  `E := fun _ => False` it is total correctness, with `E := fun _ => True` partial correctness; in
  between it says *which* faults are possible.
* `Rel R x y` — **two runs**: `x` and `y` return related values, or stop on the same fault.

Each comes with a rule for `bind`, for consequence and for a `foldlM` loop.
-/

namespace Outcome

variable {ε α β γ σ σ' : Type}

@[simp] theorem ok_bind (a : α) (f : α → Except ε β) : ((.ok a : Except ε α) >>= f) = f a := rfl

@[simp] theorem error_bind (e : ε) (f : α → Except ε β) :
    ((.error e : Except ε α) >>= f) = .error e := rfl

@[simp] theorem pure_eq_ok (a : α) : (pure a : Except ε α) = .ok a := rfl

/-! ## One run -/

/-- `x` returns a value satisfying `Q`, or stops on a fault satisfying `E`. -/
def Sat (E : ε → Prop) (Q : α → Prop) : Except ε α → Prop
  | .ok a => Q a
  | .error e => E e

@[simp] theorem sat_ok {E : ε → Prop} {Q : α → Prop} {a : α} : Sat E Q (.ok a) ↔ Q a := Iff.rfl

@[simp] theorem sat_error {E : ε → Prop} {Q : α → Prop} {e : ε} :
    Sat E Q (.error e : Except ε α) ↔ E e := Iff.rfl

@[simp] theorem sat_pure {E : ε → Prop} {Q : α → Prop} {a : α} :
    Sat E Q (pure a : Except ε α) ↔ Q a := Iff.rfl

theorem Sat.mono {E : ε → Prop} {Q Q' : α → Prop} {x : Except ε α} (h : Sat E Q x)
    (hQ : ∀ a, Q a → Q' a) : Sat E Q' x := by
  cases x with
  | ok a => exact hQ a h
  | error e => exact h

theorem Sat.bind {E : ε → Prop} {Q : α → Prop} {Q' : β → Prop} {x : Except ε α}
    {f : α → Except ε β} (hx : Sat E Q x) (hf : ∀ a, Q a → Sat E Q' (f a)) :
    Sat E Q' (x >>= f) := by
  cases x with
  | ok a => exact hf a hx
  | error e => exact hx

/-- Two facts about one run. -/
theorem Sat.and {E E' : ε → Prop} {Q Q' : α → Prop} {x : Except ε α} (h : Sat E Q x) (h' : Sat E' Q' x) :
    Sat E (fun a => Q a ∧ Q' a) x := by
  cases x with
  | ok a => exact ⟨h, h'⟩
  | error e => exact h

/-- What a run returned satisfies the postcondition. -/
theorem Sat.of_eq_ok {E : ε → Prop} {Q : α → Prop} {x : Except ε α} {a : α} (h : Sat E Q x)
    (hx : x = .ok a) : Q a := by
  subst hx
  exact h

/-- A fault that occurred is one of the admitted ones. -/
theorem Sat.of_eq_error {E : ε → Prop} {Q : α → Prop} {x : Except ε α} {e : ε} (h : Sat E Q x)
    (hx : x = .error e) : E e := by
  subst hx
  exact h

/-- **Loop rule.** `I pre s` is the invariant after the loop has processed the prefix `pre`; the step
    obligation knows the prefix, the current element and what is left. -/
theorem sat_foldlM {E : ε → Prop} {f : σ → β → Except ε σ} (I : List β → σ → Prop) (l : List β)
    (hstep : ∀ pre b post s, l = pre ++ b :: post → I pre s → Sat E (I (pre ++ [b])) (f s b))
    {s : σ} (h0 : I [] s) : Sat E (I l) (l.foldlM f s) := by
  -- generalise over the part already processed; the induction is on the part still to do
  suffices hgen : ∀ post pre s, l = pre ++ post → I pre s → Sat E (I l) (post.foldlM f s) from
    hgen l [] s rfl h0
  intro post
  induction post with
  | nil =>
      intro pre s hl hI
      rw [List.append_nil] at hl
      subst hl
      exact hI
  | cons b post ih =>
      intro pre s hl hI
      rw [List.foldlM_cons]
      refine Sat.bind (hstep pre b post s hl hI) ?_
      intro s' hs'
      exact ih (pre ++ [b]) s' (by simpa using hl) hs'

/-- The loop rule for an invariant that does not depend on how far the loop has come. -/
theorem sat_foldlM_const {E : ε → Prop} {f : σ → β → Except ε σ} {I : σ → Prop} (l : List β)
    (hstep : ∀ b ∈ l, ∀ s, I s → Sat E I (f s b)) {s : σ} (h0 : I s) :
    Sat E I (l.foldlM f s) := by
  refine sat_foldlM (fun _ => I) l ?_ h0
  intro pre b post s hl hI
  exact hstep b (by rw [hl]; simp) s hI

/-- The loop rule for `for (i = 0; i < n; i++)`: `I k s` is the invariant after `k` rounds. -/
theorem sat_foldlM_range {E : ε → Prop} {f : σ → Nat → Except ε σ} (I : Nat → σ → Prop) (n : Nat)
    (hstep : ∀ k, k < n → ∀ s, I k s → Sat E (I (k + 1)) (f s k)) {s : σ} (h0 : I 0 s) :
    Sat E (I n) ((List.range n).foldlM f s) := by
  induction n with
  | zero => exact h0
  | succ n ih =>
      rw [List.range_succ, List.foldlM_append]
      refine (ih fun k hk => hstep k (by omega)).bind ?_
      intro s' hs'
      rw [List.foldlM_cons]
      refine (hstep n (by omega) s' hs').bind ?_
      intro s'' hs''
      exact hs''

theorem Sat.mono_error {E E' : ε → Prop} {Q : α → Prop} {x : Except ε α} (h : Sat E Q x)
    (hE : ∀ e, E e → E' e) : Sat E' Q x := by
  cases x with
  | ok a => exact h
  | error e => exact hE e h

/-- The only admitted fault ruled out. -/
theorem Sat.and_ne {e : ε} {P : Prop} {Q : α → Prop} {x : Except ε α} (h : Sat (fun e' => e' = e ∧ P) Q x)
    (hx : x ≠ .error e) : Sat (fun _ => False) Q x := by
  cases x with
  | ok a => exact h
  | error e' => exact hx (congrArg _ h.1)

/-- A run that cannot fault and can only return `a` returns `a`. -/
theorem Sat.eq_ok {x : Except ε α} {a : α} (h : Sat (fun _ => False) (· = a) x) : x = .ok a := by
  cases x with
  | ok b => exact congrArg _ h
  | error e => exact absurd h id

/-- A run that cannot return stops. -/
theorem Sat.eq_error {x : Except ε α} {e : ε} (h : Sat (· = e) (fun _ => False) x) : x = .error e := by
  cases x with
  | ok a => exact absurd h id
  | error e' => exact congrArg _ h

/-- A run that cannot fault returns. -/
theorem Sat.exists_ok {Q : α → Prop} {x : Except ε α} (h : Sat (fun _ => False) Q x) :
    ∃ a, x = .ok a ∧ Q a := by
  cases x with
  | ok a => exact ⟨a, rfl, h⟩
  | error e => exact absurd h id

/-- The result of a run that cannot fail. -/
def get {Q : α → Prop} : (x : Except ε α) → Sat (fun _ => False) Q x → {a : α // Q a}
  | .ok a, h => ⟨a, h⟩
  | .error _, h => absurd h id

theorem get_eq {Q : α → Prop} {x : Except ε α} (h : Sat (fun _ => False) Q x) : x = .ok (get x h).1 := by
  cases x with
  | ok a => rfl
  | error e => exact absurd h id

/-- Partial correctness of a sequence whose first part does not matter. -/
theorem sat_bind_any {Q : β → Prop} {x : Except ε α} {f : α → Except ε β}
    (h : ∀ a, Sat (fun _ => True) Q (f a)) : Sat (fun _ => True) Q (x >>= f) := by
  cases x with
  | ok a => exact h a
  | error e => trivial

/-- A condition that does not depend on the run may be assumed before it. -/
theorem sat_imp {P : Prop} {Q : α → Prop} {x : Except ε α} (h : P → Sat (fun _ => True) Q x) :
    Sat (fun _ => True) (fun a => P → Q a) x := by
  cases x with
  | ok a => exact h
  | error e => trivial

/-- A sequence that returned did so step by step. -/
theorem bind_eq_ok {x : Except ε α} {f : α → Except ε β} {b : β} (h : (x >>= f) = .ok b) :
    ∃ a, x = .ok a ∧ f a = .ok b := by
  cases x with
  | ok a => exact ⟨a, rfl, h⟩
  | error e => cases h

/-- What was observed of a result was a result. -/
theorem exists_ok_of_observed {x : Except ε α} {f : α → β} {b : β} (h : x.toOption.map f = some b) :
    ∃ a, x = .ok a ∧ f a = b := by
  cases x with
  | ok a => exact ⟨a, rfl, Option.some.inj h⟩
  | error e => cases h

/-! ## Played runs -/

/-- The step, if it is admitted and returns. -/
def admitted (step : σ → β → Except ε σ) (admits : σ → β → Bool) (s : σ) (b : β) : Option σ :=
  if admits s b then (step s b).toOption else none

/-- **A run of admitted steps, as far as an observation.** What every admitted step keeps holds at its end. -/
theorem exists_played {step : σ → β → Except ε σ} {admits : σ → β → Bool} {P : σ → Prop}
    (hstep : ∀ s b s', P s → admits s b = true → step s b = .ok s' → P s') {l : List β} {s : σ} (hs : P s)
    {see : σ → α} {a : α} (h : (l.foldlM (admitted step admits) s).map see = some a) : ∃ s', P s' ∧ see s' = a := by
  induction l generalizing s with
  | nil => exact ⟨s, hs, Option.some.inj h⟩
  | cons b l ih =>
      rw [List.foldlM_cons] at h
      by_cases hb : admits s b = true
      · rw [admitted, if_pos hb] at h
        cases hres : step s b with
        | ok s' =>
            rw [hres] at h
            exact ih (hstep s b s' hs hb hres) h
        | error e =>
            rw [hres] at h
            cases h
      · rw [admitted, if_neg hb] at h
        cases h

/-! ## Two runs -/

/-- Both runs return, with related values, or both stop on the same fault. -/
def Rel (R : α → β → Prop) : Except ε α → Except ε β → Prop
  | .ok a, .ok b => R a b
  | .error e, .error e' => e = e'
  | _, _ => False

@[simp] theorem rel_ok {R : α → β → Prop} {a : α} {b : β} :
    Rel R (.ok a : Except ε α) (.ok b : Except ε β) ↔ R a b := Iff.rfl

@[simp] theorem rel_error {R : α → β → Prop} {e e' : ε} :
    Rel R (.error e : Except ε α) (.error e' : Except ε β) ↔ e = e' := Iff.rfl

@[simp] theorem rel_pure {R : α → β → Prop} {a : α} {b : β} :
    Rel R (pure a : Except ε α) (pure b : Except ε β) ↔ R a b := Iff.rfl

theorem Rel.bind {α' β' : Type} {R : α → β → Prop} {R' : α' → β' → Prop} {x : Except ε α}
    {y : Except ε β} {f : α → Except ε α'} {g : β → Except ε β'} (h : Rel R x y)
    (hfg : ∀ a b, R a b → Rel R' (f a) (g b)) : Rel R' (x >>= f) (y >>= g) := by
  cases x with
  | ok a =>
      cases y with
      | ok b => exact hfg a b h
      | error e => exact absurd h id
  | error e =>
      cases y with
      | ok b => exact absurd h id
      | error e' => exact h

/-- The rule for `bind` when the second part also needs what the left run is known to return. -/
theorem Rel.bind_sat {α' β' : Type} {E : ε → Prop} {Q : α → Prop} {R : α → β → Prop} {R' : α' → β' → Prop}
    {x : Except ε α} {y : Except ε β} {f : α → Except ε α'} {g : β → Except ε β'} (h : Rel R x y)
    (hx : Sat E Q x) (hfg : ∀ a b, R a b → Q a → Rel R' (f a) (g b)) : Rel R' (x >>= f) (y >>= g) := by
  cases x with
  | ok a =>
      cases y with
      | ok b => exact hfg a b h hx
      | error e => exact absurd h id
  | error e =>
      cases y with
      | ok b => exact absurd h id
      | error e' => exact h

/-- Two loops over the same list keep a relation that each pair of bodies keeps. -/
theorem rel_foldlM {R : σ → σ' → Prop} {f : σ → β → Except ε σ} {g : σ' → β → Except ε σ'}
    (l : List β) (hstep : ∀ b ∈ l, ∀ s s', R s s' → Rel R (f s b) (g s' b)) {s : σ} {s' : σ'}
    (h0 : R s s') : Rel R (l.foldlM f s) (l.foldlM g s') := by
  induction l generalizing s s' with
  | nil => exact h0
  | cons b l ih =>
      rw [List.foldlM_cons, List.foldlM_cons]
      refine Rel.bind (hstep b (List.mem_cons_self ..) s s' h0) ?_
      intro t t' ht
      exact ih (fun c hc => hstep c (List.mem_cons_of_mem b hc)) ht

end Outcome
