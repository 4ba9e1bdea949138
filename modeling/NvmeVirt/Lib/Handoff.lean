import Mathlib.Data.Nat.Basic

/-!
# `Lib.Handoff` — a flag between producers and a consumer

Producers leave things somewhere and set a flag. The consumer comes by again and again: it tries the lock, and if it
finds the flag set, it clears it and only then looks. A visit overlooks nothing that was there when it began, and the
consumer looks no more often than something is produced, whatever happens between its steps.
-/

namespace Handoff

/-- Where the consumer is on a visit. -/
inductive Place where
  | before
  | locked
  /-- the flag was set -/
  | found
  /-- and has been cleared -/
  | taken
  | leaving
  | after
deriving DecidableEq, Repr

def Place.inside : Place → Bool
  | .before | .after => false
  | .locked | .found | .taken | .leaving => true

/-- One flag, with how much was produced, and how much of it when the consumer last looked and last came by. -/
structure Cell where
  produced : Nat
  flag : Bool
  lock : Bool
  place : Place
  seen : Nat
  looks : Nat
  mark : Nat

inductive Step : Cell → Cell → Prop
  | stay (c : Cell) : Step c c
  | produce (c : Cell) : Step c { c with produced := c.produced + 1, flag := true }
  | enter {c : Cell} (hplace : c.place = .after) : Step c { c with place := .before, mark := c.produced }
  | pass {c : Cell} (hplace : c.place = .before) (hlock : c.lock = true) : Step c { c with place := .after }
  | acquire {c : Cell} (hplace : c.place = .before) : Step c { c with place := .locked, lock := true }
  | find {c : Cell} (hplace : c.place = .locked) (hflag : c.flag = true) : Step c { c with place := .found }
  | miss {c : Cell} (hplace : c.place = .locked) (hflag : c.flag = false) : Step c { c with place := .leaving }
  | take {c : Cell} (hplace : c.place = .found) : Step c { c with flag := false, place := .taken }
  | look {c : Cell} (hplace : c.place = .taken) :
      Step c { c with place := .leaving, seen := c.produced, looks := c.looks + 1 }
  | release {c : Cell} (hplace : c.place = .leaving) : Step c { c with place := .after, lock := false }

/-- What the consumer knows in each place: what it has not seen is announced, and at the end of a visit it has seen what
    was there when it came. -/
def Cell.Known (c : Cell) : Place → Prop
  | .before | .locked => c.seen < c.produced → c.flag = true
  | .found => c.flag = true
  | .taken => True
  | .leaving | .after => (c.seen < c.produced → c.flag = true) ∧ c.mark ≤ c.seen

/-- **What holds at all times.** -/
structure Sound (c : Cell) : Prop where
  lock : c.lock = c.place.inside
  known : c.Known c.place
  seen_le : c.seen ≤ c.produced
  mark_le : c.mark ≤ c.produced
  looks_le : c.looks + c.flag.toNat + (decide (c.place = .taken)).toNat ≤ c.produced

variable {c c' : Cell}

theorem Sound.announced (h : Sound c) (hlt : c.seen < c.produced) : c.flag = true ∨ c.place = .taken := by
  have hknown := h.known
  cases hplace : c.place <;> simp_all [Cell.Known]

theorem Sound.step (h : Sound c) (hstep : Step c c') : Sound c' := by
  obtain ⟨hlock, hknown, hseen, hmark, hlooks⟩ := h
  cases hstep with
  | stay => exact ⟨hlock, hknown, hseen, hmark, hlooks⟩
  | produce =>
      have hflag := Bool.toNat_le c.flag
      refine ⟨hlock, ?_, Nat.le_succ_of_le hseen, Nat.le_succ_of_le hmark, ?_⟩
      · cases hplace : c.place with
        | before | locked => exact fun _ => rfl
        | found => rfl
        | taken => trivial
        | leaving | after =>
            rw [hplace] at hknown
            exact ⟨fun _ => rfl, hknown.2⟩
      · simp only [Bool.toNat_true]
        omega
  | enter hplace =>
      rw [hplace] at hlock hknown
      exact ⟨hlock, hknown.1, hseen, Nat.le_refl _, by simpa [hplace] using hlooks⟩
  | pass hplace hlocked =>
      -- the lock is free for the only one who takes it
      rw [hplace, hlocked] at hlock
      cases hlock
  | acquire hplace =>
      rw [hplace] at hknown
      exact ⟨rfl, hknown, hseen, hmark, by simpa [hplace] using hlooks⟩
  | find hplace hflag =>
      rw [hplace] at hlock
      exact ⟨hlock, hflag, hseen, hmark, by simpa [hplace] using hlooks⟩
  | miss hplace hflag =>
      rw [hplace] at hlock hknown
      -- nothing is announced, so everything was seen
      have hall : ¬ c.seen < c.produced := fun hlt => Bool.false_ne_true (hflag.symm.trans (hknown hlt))
      exact ⟨hlock, ⟨hknown, Nat.le_trans hmark (Nat.le_of_not_lt hall)⟩, hseen, hmark, by simpa [hplace] using hlooks⟩
  | take hplace =>
      rw [hplace] at hlock hknown
      have hflag : c.flag = true := hknown
      exact ⟨hlock, trivial, hseen, hmark, by simpa [hplace, hflag] using hlooks⟩
  | look hplace =>
      rw [hplace] at hlock
      refine ⟨hlock, ⟨fun hlt => absurd hlt (Nat.lt_irrefl _), hmark⟩, Nat.le_refl _, hmark, ?_⟩
      simp only [hplace, decide_true, Bool.toNat_true, reduceCtorEq, decide_false, Bool.toNat_false] at hlooks ⊢
      omega
  | release hplace =>
      rw [hplace] at hknown
      exact ⟨rfl, hknown, hseen, hmark, by simpa [hplace] using hlooks⟩

end Handoff
