import NvmeVirt.Ftl.Frame

/-!
# `Ftl.Log` — what a page write adds to the history and to the statistics

Every flash operation of a page write goes through `allocPage` or `markBlockFree`, which put it into the
history; the others leave history and byte counters alone. No invariant is needed: the lemmas hold from
any state.

* garbage collection programs pages as itself, erases blocks, and charges `mbmw` and `mbe` for both;
* a host page is one more program, by the handle of the command; its bytes are charged by the command.
-/

namespace NvmeVirt

open Outcome

variable {τ : Type} {cfg : FtlConfig} {L : Latency τ} {s s₁ s₂ : Part τ}

/-! ## Charged operations -/

/-- A page program by a host write. -/
def FlashOp.isHost : FlashOp → Bool
  | .program (.host _) _ => true
  | _ => false

/-- A page program by garbage collection. -/
def FlashOp.isGc : FlashOp → Bool
  | .program .gc _ => true
  | _ => false

/-- A block erase. -/
def FlashOp.isErase : FlashOp → Bool
  | .erase _ => true
  | _ => false

theorem nrPrograms_append (ops h : List FlashOp) :
    nrPrograms (ops ++ h) = ops.countP FlashOp.isHost + ops.countP FlashOp.isGc + nrPrograms h := by
  induction ops with
  | nil => simp
  | cons op ops ih =>
      rcases op with ⟨w, p⟩ | b
      · cases w with
        | host r =>
            simp only [List.cons_append, nrPrograms, List.countP_cons, FlashOp.isHost, FlashOp.isGc, ih]
            simp only [if_true, Bool.false_eq_true, if_false]
            omega
        | gc =>
            simp only [List.cons_append, nrPrograms, List.countP_cons, FlashOp.isHost, FlashOp.isGc, ih]
            simp only [if_true, Bool.false_eq_true, if_false]
            omega
      · simp [nrPrograms, FlashOp.isHost, FlashOp.isGc, ih]

theorem nrErases_append (ops h : List FlashOp) :
    nrErases (ops ++ h) = ops.countP FlashOp.isErase + nrErases h := by
  induction ops with
  | nil => simp
  | cons op ops ih =>
      rcases op with ⟨w, p⟩ | b
      · simp [nrErases, FlashOp.isErase, ih]
      · simp only [List.cons_append, nrErases, List.countP_cons, FlashOp.isErase, ih, if_true]
        omega

/-- `ops` were added to the history, newest first, and what garbage collection did among them was charged
    to the statistics. -/
structure Logged (cfg : FtlConfig) (ops : List FlashOp) (s s' : Part τ) : Prop where
  hist_eq : s'.hist = ops ++ s.hist
  hbmw_eq : s'.ctx.hbmw = s.ctx.hbmw
  mbmw_eq : s'.ctx.mbmw = s.ctx.mbmw + .ofNat (cfg.sp.pgsz * ops.countP FlashOp.isGc)
  mbe_eq : s'.ctx.mbe = s.ctx.mbe + .ofNat (cfg.sp.pgsPerBlk * cfg.sp.pgsz * ops.countP FlashOp.isErase)

/-- The history and the statistics are as before. -/
def SameLog (s s' : Part τ) : Prop := s'.hist = s.hist ∧ s'.ctx = s.ctx

theorem SameLog.rfl : SameLog s s := ⟨Eq.refl _, Eq.refl _⟩

theorem SameLog.trans (h : SameLog s s₁) (h' : SameLog s₁ s₂) : SameLog s s₂ :=
  ⟨h'.1.trans h.1, h'.2.trans h.2⟩

theorem Logged.of_same (h : SameLog s s₁) : Logged cfg [] s s₁ where
  hist_eq := h.1
  hbmw_eq := by rw [h.2]
  mbmw_eq := by rw [h.2]; exact (UInt64.add_zero _).symm
  mbe_eq := by rw [h.2]; exact (UInt64.add_zero _).symm

theorem Logged.trans {ops ops' : List FlashOp} (h : Logged cfg ops s s₁) (h' : Logged cfg ops' s₁ s₂) :
    Logged cfg (ops' ++ ops) s s₂ where
  hist_eq := by rw [h'.hist_eq, h.hist_eq, List.append_assoc]
  hbmw_eq := h'.hbmw_eq.trans h.hbmw_eq
  mbmw_eq := by
    rw [h'.mbmw_eq, h.mbmw_eq, List.countP_append, Nat.add_comm, Nat.mul_add, UInt64.ofNat_add, UInt64.add_assoc]
  mbe_eq := by
    rw [h'.mbe_eq, h.mbe_eq, List.countP_append, Nat.add_comm, Nat.mul_add, UInt64.ofNat_add, UInt64.add_assoc]

/-! ## Page programs -/

/-- The old page of an LPN leaves no trace in the log. -/
theorem OldInvalidated.log {lpn : Nat} (h : OldInvalidated lpn s s₁) : SameLog s s₁ := by
  cases h <;> exact .rfl

/-- An allocation is one program, by the owner of the pointer it uses. -/
theorem PageTaken.log {io : IoType} {ruh lpn : Nat} {p : Ppa} (h : PageTaken cfg io ruh lpn s (p, s₁)) :
    s₁.hist = .program (writerOf io ruh) p :: s.hist ∧ s₁.ctx = s.ctx := by
  obtain ⟨_, ⟨⟩⟩ := h
  cases io <;> exact ⟨rfl, rfl⟩

/-- A page of the host is one program, by its handle. -/
theorem PagePut.log {stime ruh lpn : Nat} {t : Option Nat} (h : PagePut cfg L stime ruh lpn s (t, s₁)) :
    ∃ p, s₁.hist = .program (.host ruh) p :: s.hist ∧ s₁.ctx = s.ctx := by
  obtain ⟨hold, htaken, _, _⟩ := h
  obtain ⟨hhist, hctx⟩ := hold.log
  obtain ⟨hhist', hctx'⟩ := htaken.log
  exact ⟨_, hhist'.trans (congrArg _ hhist), hctx'.trans hctx⟩

/-! ## Garbage collection -/

/-- What garbage collection may do: no host program. -/
def GcLogged (cfg : FtlConfig) (s s' : Part τ) : Prop :=
  ∃ ops : List FlashOp, (∀ op ∈ ops, op.isHost = false) ∧ Logged cfg ops s s'

theorem GcLogged.of_same (h : SameLog s s₁) : GcLogged cfg s s₁ := ⟨[], nofun, .of_same h⟩

theorem GcLogged.trans (h : GcLogged cfg s s₁) (h' : GcLogged cfg s₁ s₂) : GcLogged cfg s s₂ := by
  obtain ⟨ops, hops, hl⟩ := h
  obtain ⟨ops', hops', hl'⟩ := h'
  refine ⟨ops' ++ ops, ?_, hl.trans hl'⟩
  intro op hop
  exact (List.mem_append.mp hop).elim (hops' op) (hops op)

theorem GcLogged.program {lpn : Nat} {new : Ppa} (h : PageTaken cfg .gc 0 lpn s (new, s₁)) :
    GcLogged cfg s { s₁ with ctx := { s₁.ctx with mbmw := s₁.ctx.mbmw + .ofNat cfg.sp.pgsz } } := by
  obtain ⟨hhist, hctx⟩ := h.log
  refine ⟨[.program .gc new], List.forall_mem_singleton.mpr rfl, hhist, ?_, ?_, ?_⟩
  · rw [hctx]
  · rw [hctx]
    exact congrArg (_ + UInt64.ofNat ·) (Nat.mul_one _).symm
  · rw [hctx]
    exact (UInt64.add_zero _).symm

theorem GcLogged.erase (ppa : Ppa) (s : Part τ) : GcLogged cfg s (markBlockFree cfg ppa s) :=
  ⟨[.erase ppa.blkAddr], List.forall_mem_singleton.mpr rfl, rfl, rfl, (UInt64.add_zero _).symm,
    congrArg (_ + UInt64.ofNat ·) (Nat.mul_one _).symm⟩

/-- An event goes to the ring; the counters stay. -/
theorem GcLogged.emit (v : Nat) (s : Part τ) : GcLogged cfg s (gcEmit L v s) := by
  refine ⟨[], nofun, ?_⟩
  unfold gcEmit
  split
  · exact ⟨rfl, fdpEmitEvent_hbmw .., (fdpEmitEvent_mbmw ..).trans (UInt64.add_zero _).symm,
      (fdpEmitEvent_mbe ..).trans (UInt64.add_zero _).symm⟩
  · exact .of_same .rfl

/-- **Garbage collection in the log**: programs of its own, erases, and the bytes of both. -/
theorem gcLogged_steps (cfg : FtlConfig) (L : Latency τ) : GcSteps cfg L (GcLogged cfg) where
  refl _ := .of_same .rfl
  trans := .trans
  move _ _ := .program
  issue _ _ := .of_same ⟨rfl, rfl⟩
  erase := .erase
  emit := .emit
  account _ _ _ _ _ _ _ _ := .of_same ⟨rfl, rfl⟩

/-! ## A page write -/

/-- What a page write through handle `ruh` adds: one host program, by `ruh`, then garbage collection. -/
def WriteLogged (cfg : FtlConfig) (ruh : Nat) (s s' : Part τ) : Prop :=
  ∃ ops : List FlashOp, (∀ w p, .program w p ∈ ops → w = .host ruh ∨ w = .gc) ∧
    ops.countP FlashOp.isHost = 1 ∧ Logged cfg ops s s'

/-- **A page write in the log.** -/
theorem writePage_log (stime ruh lpn : Nat) (s : Part τ) :
    Sat (fun _ => True) (fun r => WriteLogged cfg ruh s r.2) (writePage cfg L stime ruh lpn s) := by
  unfold writePage
  refine (putPage_cases cfg L stime ruh lpn s).bind ?_
  rintro ⟨t, s₁⟩ hput
  obtain ⟨p, hhist, hctx⟩ := hput.log
  refine ((gcLogged_steps cfg L).checkAndRefill s₁).bind ?_
  rintro s₂ ⟨ops, hops, hl⟩
  have hput : Logged cfg [.program (.host ruh) p] s s₁ := by
    refine ⟨hhist, ?_, ?_, ?_⟩
    · rw [hctx]
    · rw [hctx]
      exact (UInt64.add_zero _).symm
    · rw [hctx]
      exact (UInt64.add_zero _).symm
  refine ⟨ops ++ [.program (.host ruh) p], ?_, ?_, hput.trans hl⟩
  · intro w q hmem
    rcases List.mem_append.mp hmem with hmem | hmem
    · have hnot := hops _ hmem
      cases w with
      | host r => exact absurd hnot nofun
      | gc => exact Or.inr rfl
    · obtain ⟨rfl, _⟩ := FlashOp.program.inj (List.mem_singleton.mp hmem)
      exact Or.inl rfl
  · have hzero : ops.countP FlashOp.isHost = 0 := by
      refine List.countP_eq_zero.mpr ?_
      intro op hop
      rw [hops op hop]
      exact nofun
    rw [List.countP_append, hzero]
    rfl

end NvmeVirt
