import NvmeVirt.Ftl.DoGc
import NvmeVirt.Ftl.Init

/-!
# `Ftl.Run` — page writes, and what every run of them preserves

`writePage_spec` is the step: from a sound partition a page write ends in a sound partition or stops on the
`NULL` of an empty free list; no `NVMEV_ASSERT` of the FTL can fail. `Reach` is a run: initialisation, any
page writes, and any change other partitions make to what is shared. `Reach.sound` is the induction.
-/

namespace NvmeVirt

open Counting Outcome

variable {τ : Type} {cfg : FtlConfig} {L : Latency τ} {s : Part τ}

/-! ## One page write -/

theorem Sound.setCredits {s : FdpFtl} (h : Sound cfg s) (a b : Nat) :
    Sound cfg { s with writeCredits := a, creditsToRefill := b } := by
  obtain ⟨g, hq, hinv⟩ := h
  exact ⟨g, hq, hinv.setCredits a b⟩

theorem room_setCredits (cfg : FtlConfig) (s : FdpFtl) (a b : Nat) :
    room cfg { s with writeCredits := a, creditsToRefill := b } = room cfg s := rfl

/-- What the loop body does before it checks the credits: one page of room and one credit are gone. -/
structure Put (cfg : FtlConfig) (ruh lpn : Nat) (s s' : Part τ) : Prop where
  sound : Sound cfg s'.toFdpFtl
  room_eq : room cfg s'.toFdpFtl + 1 = room cfg s.toFdpFtl
  credits_eq : s'.writeCredits = u32Dec s.writeCredits
  refill_eq : s'.creditsToRefill = s.creditsToRefill

/-- **Programming one host page** fails only when its pointer needs a line and none is free. -/
theorem putPage_spec (L : Latency τ) (hg : Geometry cfg.sp) (h : Sound cfg s.toFdpFtl) (stime : Nat)
    {ruh lpn : Nat} (hruh : ruh < cfg.nrRuh) (hlpn : lpn < cfg.sp.ttPgs) :
    Sat (fun e => e = .nullLine ∧ room cfg s.toFdpFtl ≤ cfg.nrRuh * cfg.sp.pgsPerLine + 1)
      (fun r => Put cfg ruh lpn s r.2) (putPage cfg L stime ruh lpn s) := by
  obtain ⟨g, hq, hinv⟩ := h
  obtain ⟨g₁, s₁, hold, hinv₁, hrep, hwp, hfree, hcred, hrefill⟩ :=
    hinv.invalidateOld hg hq lpn
  have halloc := allocPage_spec .user ruh hg hinv₁ hruh hrep.ahead_eq hrep.stale_iff hlpn
  have hroom : room cfg s₁.toFdpFtl = room cfg s.toFdpFtl := room_congr hfree hwp
  rw [hroom] at halloc
  have hprog : programPage cfg ruh lpn s = allocPage cfg .user ruh lpn s₁ := by
    simp only [programPage, hold, ok_bind]
    cases allocPage cfg .user ruh lpn s₁ <;> rfl
  rw [putPage, hprog]
  refine halloc.bind ?_
  rintro ⟨p, s₂⟩ ⟨g₂, ha⟩
  have hquiet : g₂.Quiet := by
    refine ⟨?_, ha.ahead_eq, ha.not_stale, ?_, ?_⟩
    · intro l hl
      exact hrep.place_ne l ((ha.cleaning_iff l).mp hl)
    · rw [ha.cleaned_eq]
      exact hrep.not_cleaned
    · rw [ha.erased_eq]
      exact hrep.not_erased
  have hcharged : (consumeWriteCredit (flushWordline cfg L stime p s₂).2).toFdpFtl =
      { s₂.toFdpFtl with writeCredits := u32Dec s₂.writeCredits } := by
    rw [flushWordline_eq]
    rfl
  show Put cfg ruh lpn s (consumeWriteCredit (flushWordline cfg L stime p s₂).2)
  refine ⟨?_, ?_, ?_, ?_⟩
  · rw [hcharged]
    exact Sound.setCredits ⟨g₂, hquiet, ha.inv⟩ _ _
  · have hsame : room cfg (consumeWriteCredit (flushWordline cfg L stime p s₂).2).toFdpFtl =
        room cfg s₂.toFdpFtl := by
      rw [hcharged]
      exact room_setCredits cfg s₂.toFdpFtl _ _
    rw [hsame, ← hroom]
    exact ha.room_eq
  · rw [hcharged, ← hcred, ← ha.credits_eq]
  · rw [hcharged, ← hrefill, ← ha.refill_eq]

/-- The three ways `check_and_refill_write_credit` goes on: credits are left; they are refilled without a
    collection, because enough lines are free or because no line can be reclaimed; or a line was reclaimed
    first. -/
inductive Refilled (cfg : FtlConfig) (s : Part τ) : Part τ → Prop where
  | enough (h : s.writeCredits ≠ 0) : Refilled cfg s s
  | refill (h : s.writeCredits = 0) (hgc : ¬ shouldGcHigh cfg s.toFdpFtl ∨ s.victimLinePq.peek = none) :
      Refilled cfg s { s with writeCredits := u32 (s.writeCredits + s.creditsToRefill) }
  | gc (h : s.writeCredits = 0) (hgc : shouldGcHigh cfg s.toFdpFtl) {v : Nat}
      (hv : s.victimLinePq.peek = some v) {s₁ : Part τ} (hr : Reclaimed cfg v s s₁) :
      Refilled cfg s { s₁ with writeCredits := u32 (s₁.writeCredits + s₁.creditsToRefill) }

theorem checkAndRefill_spec (L : Latency τ) (hg : Geometry cfg.sp) (h : Sound cfg s.toFdpFtl) :
    Sat (fun e => e = .nullLine ∧ s.writeCredits = 0 ∧ shouldGcHigh cfg s.toFdpFtl ∧
        ∃ v, s.victimLinePq.peek = some v ∧
          room cfg s.toFdpFtl ≤ cfg.nrRuh * cfg.sp.pgsPerLine + (s.lines v).vpc)
      (Refilled cfg s) (checkAndRefillWriteCredit cfg L s) := by
  obtain ⟨g, hq, hinv⟩ := h
  unfold checkAndRefillWriteCredit
  split
  · rename_i hzero
    by_cases hgc : shouldGcHigh cfg s.toFdpFtl
    · -- the result of `do_gc` is ignored
      have hfg : foregroundGc cfg L s = doGc cfg L true s >>= fun r => .ok (r.getD s) := by
        rw [foregroundGc, if_pos hgc]
        refine bind_congr fun r => ?_
        cases r <;> rfl
      rw [hfg]
      refine Sat.bind (Q := fun s₁ => s₁ = s ∧ s.victimLinePq.peek = none ∨
        ∃ v, s.victimLinePq.peek = some v ∧ Reclaimed cfg v s s₁) ?_ ?_
      · refine ((doGc_spec L hg hinv hq).mono_error ?_).bind ?_
        · rintro e ⟨rfl, hv⟩
          exact ⟨rfl, hzero, hgc, hv⟩
        · rintro r hr
          cases r with
          | none => exact Or.inl ⟨rfl, hr⟩
          | some s₁ => exact Or.inr hr
      · rintro s₁ (⟨rfl, hnone⟩ | ⟨v, hv, hr⟩)
        · exact .refill hzero (Or.inr hnone)
        · exact .gc hzero hgc hv hr
    · rw [foregroundGc, if_neg hgc]
      exact .refill hzero (Or.inl hgc)
  · rename_i hpos
    exact .enough hpos

theorem Refilled.sound {s' : Part τ} (h : Sound cfg s.toFdpFtl) (hr : Refilled cfg s s') :
    Sound cfg s'.toFdpFtl := by
  cases hr with
  | enough _ => exact h
  | refill _ _ => exact h.setCredits _ _
  | gc _ _ _ hr => exact hr.sound.setCredits _ _

/-- **A page write** from a sound partition ends in one, or stops for want of a free line. -/
theorem writePage_spec (L : Latency τ) (hg : Geometry cfg.sp) (h : Sound cfg s.toFdpFtl) (stime : Nat)
    {ruh lpn : Nat} (hruh : ruh < cfg.nrRuh) (hlpn : lpn < cfg.sp.ttPgs) :
    Sat (· = .nullLine) (fun r => Sound cfg r.2.toFdpFtl) (writePage cfg L stime ruh lpn s) := by
  refine Sat.bind ((putPage_spec L hg h stime hruh hlpn).mono_error fun e he => he.1) ?_
  rintro ⟨t, s₁⟩ hput
  refine Sat.bind ((checkAndRefill_spec L hg hput.sound).mono_error fun e he => he.1) ?_
  intro s₂ hs₂
  exact hs₂.sound hput.sound

/-! ## Runs -/

/-- The states of a partition in a run in which no allocation fails: initialisation, page writes of the
    partition, and changes that commands on other partitions make to the shared statistics and latencies. -/
inductive Reach (cfg : FtlConfig) (L : Latency τ) : Part τ → Prop where
  | init {ctx : FdpCtx} {tm : τ} {s : Part τ} (h : fdpInitFtl cfg ctx tm = .ok s) : Reach cfg L s
  | write {s s' : Part τ} {stime ruh lpn : Nat} {t : Option Nat} (hs : Reach cfg L s)
      (hruh : ruh < cfg.nrRuh) (hlpn : lpn < cfg.sp.ttPgs)
      (h : writePage cfg L stime ruh lpn s = .ok (t, s')) : Reach cfg L s'
  | shared {s : Part τ} (hs : Reach cfg L s) (ctx : FdpCtx) (tm : τ) :
      Reach cfg L { s with ctx := ctx, tm := tm }

/-- **Every state of a run is sound.** -/
theorem Reach.sound (hg : Geometry cfg.sp) (hlines : cfg.nrRuh + 1 ≤ cfg.sp.ttLines)
    (h : Reach cfg L s) : Sound cfg s.toFdpFtl := by
  induction h with
  | init h =>
      rw [fdpInitFtl_eq _ _ hlines] at h
      obtain rfl := Except.ok.inj h
      exact sound_initialised _ _ hg hlines
  | write _ hruh hlpn h ih => exact (writePage_spec L hg ih _ hruh hlpn).of_eq_ok h
  | shared _ _ _ ih => exact ih

/-- One page write of a run: start time, handle, LPN. -/
structure PageWrite where
  stime : Nat
  ruh : Nat
  lpn : Nat

/-- A handle of the partition and an LPN that passes the range check. -/
def PageWrite.InRange (cfg : FtlConfig) (w : PageWrite) : Prop := w.ruh < cfg.nrRuh ∧ w.lpn < cfg.sp.ttPgs

instance (cfg : FtlConfig) (w : PageWrite) : Decidable (w.InRange cfg) :=
  inferInstanceAs (Decidable (_ ∧ _))

/-- Page writes one after another. -/
def writePages (cfg : FtlConfig) (L : Latency τ) (ws : List PageWrite) (s : Part τ) :
    Except Fault (Part τ) :=
  ws.foldlM (fun s w => do
    let (_, s) ← writePage cfg L w.stime w.ruh w.lpn s
    return s) s

theorem Reach.writePages (h : Reach cfg L s) (ws : List PageWrite) (hws : ∀ w ∈ ws, w.InRange cfg) :
    Sat (fun _ => True) (Reach cfg L) (writePages cfg L ws s) := by
  refine sat_foldlM_const ws ?_ h
  intro w hw s hs
  cases hres : writePage cfg L w.stime w.ruh w.lpn s with
  | ok r => exact .write hs (hws w hw).1 (hws w hw).2 hres
  | error e => trivial

/-- A fresh partition after some page writes. -/
def initThenWrite (cfg : FtlConfig) (L : Latency τ) (ctx : FdpCtx) (tm : τ) (ws : List PageWrite) :
    Except Fault (Part τ) := do
  let s ← fdpInitFtl cfg ctx tm
  NvmeVirt.writePages cfg L ws s

theorem reach_initThenWrite (cfg : FtlConfig) (L : Latency τ) (ctx : FdpCtx) (tm : τ)
    (ws : List PageWrite) (hws : ∀ w ∈ ws, w.InRange cfg) :
    Sat (fun _ => True) (Reach cfg L) (initThenWrite cfg L ctx tm ws) := by
  unfold initThenWrite
  cases h : fdpInitFtl cfg ctx tm with
  | ok s => exact (Reach.init h).writePages ws hws
  | error e => trivial

/-- A run that was evaluated as far as an observation `f` is a run of `Reach`. -/
theorem exists_reach {α : Type} (cfg : FtlConfig) (L : Latency τ) (ctx : FdpCtx) (tm : τ)
    (ws : List PageWrite) (hws : ∀ w ∈ ws, w.InRange cfg) (f : Part τ → α) {a : α}
    (h : ((initThenWrite cfg L ctx tm ws).map f).toOption = some a) :
    ∃ s, Reach cfg L s ∧ f s = a := by
  have hreach := reach_initThenWrite cfg L ctx tm ws hws
  cases hres : initThenWrite cfg L ctx tm ws with
  | error e =>
      rw [hres] at h
      exact absurd h nofun
  | ok s =>
      rw [hres] at h hreach
      exact ⟨s, hreach, Option.some.inj h⟩

/-- The only fault a run of page writes can end in. -/
theorem Reach.fault (hg : Geometry cfg.sp) (hlines : cfg.nrRuh + 1 ≤ cfg.sp.ttLines)
    (h : Reach cfg L s) {stime ruh lpn : Nat} (hruh : ruh < cfg.nrRuh) (hlpn : lpn < cfg.sp.ttPgs)
    {e : Fault} (he : writePage cfg L stime ruh lpn s = .error e) : e = .nullLine :=
  (writePage_spec L hg (h.sound hg hlines) stime hruh hlpn).of_eq_error he

end NvmeVirt
