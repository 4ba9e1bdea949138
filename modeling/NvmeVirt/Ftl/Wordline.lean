import NvmeVirt.Ftl.Frame

/-!
# `Ftl.Wordline` — the wordline a write pointer is filling

A host page goes to the wordline at the pointer of its handle; the page that completes the wordline sends it to the
flash. Nothing else moves these pointers, garbage collection included. This needs no invariant of the partition: it
holds of any state, for any number of pages of a block.

* `writePage_fill` — what a page write does to the incomplete wordlines of a partition.
-/

namespace NvmeVirt

open Outcome

variable {τ : Type} {cfg : FtlConfig} {L : Latency τ}

/-- The pages already in the wordline the pointer is at. -/
def WritePointer.fill (spp : SsdParams) (wp : WritePointer) : Nat := wp.pg % spp.pgsPerOneshotpg

/-! ## What leaves the pointers of the host alone -/

theorem OldInvalidated.wpRuh_eq {lpn : Nat} {s s' : Part τ} (h : OldInvalidated lpn s s') : s'.wpRuh = s.wpRuh := by
  cases h <;> rfl

/-- **Garbage collection** moves its own pointer only. -/
theorem wpRuh_steps (cfg : FtlConfig) (L : Latency τ) : GcSteps cfg L fun s s' => s'.wpRuh = s.wpRuh where
  refl _ := rfl
  trans h h' := h'.trans h
  move _ _ h := by
    obtain ⟨_, ⟨⟩⟩ := h
    rfl
  issue _ _ := rfl
  erase _ _ := rfl
  emit v s := congrArg FdpFtl.wpRuh (gcEmit_toFdpFtl L v s)
  account _ _ _ _ _ _ _ _ := rfl

/-! ## A page of the host -/

/-- The page after a pointer is the next of its wordline, or the first of another. -/
theorem nextPage_fill (spp : SsdParams) (wp : WritePointer) :
    Sat (fun _ => True)
      (fun next => match next with
        | some wp' => wp'.fill spp = (wp.pg + 1) % spp.pgsPerOneshotpg
        | none => (wp.pg + 1) % spp.pgsPerOneshotpg = 0)
      (nextPage spp wp) := by
  unfold nextPage
  refine sat_bind_any fun _ => ?_
  split
  · rfl
  · next hlast =>
      have hzero : (wp.pg + 1) % spp.pgsPerOneshotpg = 0 := of_not_not hlast
      -- the pointer goes back to the first page of the wordline
      have hback : (wp.pg + 1 - spp.pgsPerOneshotpg) % spp.pgsPerOneshotpg = 0 :=
        Nat.mod_eq_zero_of_dvd (Nat.dvd_sub (Nat.dvd_of_mod_eq_zero hzero) (Nat.dvd_refl _))
      refine sat_bind_any fun _ => ?_
      split
      · exact hback.trans hzero.symm
      · refine sat_bind_any fun _ => ?_
        split
        · exact hback.trans hzero.symm
        · split
          · exact (Nat.add_mod_right ..).trans (hback.trans hzero.symm)
          · exact hzero

/-- The wordlines after one more page for handle `ruh`. -/
def OnePage (spp : SsdParams) (ruh : Nat) (wps wps' : Nat → WritePointer) : Prop :=
  (wps' ruh).fill spp = ((wps ruh).pg + 1) % spp.pgsPerOneshotpg ∧ ∀ r, r ≠ ruh → wps' r = wps r

/-- A pointer that moved is at the next page of its wordline, or at the start of one. -/
theorem PointerMoved.onePage {ruh : Nat} {s s' : Part τ} (h : PointerMoved cfg .user ruh s s') :
    OnePage cfg.sp ruh s.wpRuh s'.wpRuh := by
  cases h with
  | @mk old wp hold hnext =>
      have hwp : Sat (fun _ => True) (· = s.wpRuh ruh) (getWp cfg .user ruh s) := sat_bind_any fun _ => rfl
      obtain rfl := hwp.of_eq_ok hold
      have hstep := nextPage_fill cfg.sp (s.wpRuh ruh)
      refine ⟨?_, fun r hr => Function.update_of_ne hr _ _⟩
      show (Function.update s.wpRuh ruh wp ruh).fill cfg.sp = _
      rw [Function.update_self]
      rcases hnext with hnext | ⟨hnext, hpg⟩
      · rw [hnext] at hstep
        exact hstep
      · rw [hnext] at hstep
        rw [WritePointer.fill, hpg, Nat.zero_mod]
        exact hstep.symm

/-- The page taken is the one at the pointer. -/
theorem getNewPage_pg {ruh : Nat} {s : Part τ} {p : Ppa} (h : getNewPage cfg .user ruh s = .ok p) :
    p.pg = (s.wpRuh ruh).pg % 2 ^ pageBits := by
  have hpg : Sat (fun _ => True) (fun p => p.pg = (s.wpRuh ruh).pg % 2 ^ pageBits) (getNewPage cfg .user ruh s) := by
    unfold getNewPage getWp
    simp only [bind_assoc, pure_bind]
    exact sat_bind_any fun _ => sat_bind_any fun _ => rfl
  exact hpg.of_eq_ok h

/-- A flush is announced exactly for the last page of a wordline. -/
theorem flushWordline_isSome (cfg : FtlConfig) (L : Latency τ) (stime : Nat) (ppa : Ppa) (s : Part τ) :
    (flushWordline cfg L stime ppa s).1.isSome = lastPgInWordline cfg.sp ppa := by
  unfold flushWordline
  split
  · next h => exact h.symm
  · next h => exact (Bool.eq_false_iff.mpr h).symm

/-- A page of the host: one more page of its wordline, which is flushed when it was the last. -/
theorem PagePut.onePage (hdvd : cfg.sp.pgsPerOneshotpg ∣ 2 ^ pageBits) {stime ruh lpn : Nat} {s s' : Part τ}
    {t : Option Nat} (h : PagePut cfg L stime ruh lpn s (t, s')) :
    OnePage cfg.sp ruh s.wpRuh s'.wpRuh ∧
      t.isSome = ((s.wpRuh ruh).fill cfg.sp == cfg.sp.pgsPerOneshotpg - 1) := by
  cases h with
  | @mk s₁ s₂ p _ tm hold htaken hflush credits =>
      rw [← hold.wpRuh_eq]
      cases htaken with
      | mk hppa hmoved =>
          refine ⟨hmoved.onePage, ?_⟩
          have hsome := flushWordline_isSome cfg L stime p s₂
          rw [hflush, lastPgInWordline, getNewPage_pg hppa, Nat.mod_mod_of_dvd _ hdvd] at hsome
          exact hsome

/-- **A page write** puts one page into the wordline of its handle, and is told when the wordline is complete. -/
theorem writePage_fill (hpos : 0 < cfg.sp.pgsPerOneshotpg) (hdvd : cfg.sp.pgsPerOneshotpg ∣ 2 ^ pageBits)
    (stime ruh lpn : Nat) (s : Part τ) :
    Sat (fun _ => True)
      (fun r => (∀ i, i ≠ ruh → (r.2.wpRuh i).fill cfg.sp = (s.wpRuh i).fill cfg.sp) ∧
        (r.2.wpRuh ruh).fill cfg.sp + (if r.1.isSome then cfg.sp.pgsPerOneshotpg else 0) =
          (s.wpRuh ruh).fill cfg.sp + 1)
      (writePage cfg L stime ruh lpn s) := by
  unfold writePage
  refine (putPage_cases cfg L stime ruh lpn s).bind ?_
  rintro ⟨t, s₁⟩ hput
  obtain ⟨⟨hfill, hothers⟩, hlast⟩ := hput.onePage hdvd
  refine ((wpRuh_steps cfg L).checkAndRefill s₁).bind fun s' hs' => ?_
  refine ⟨fun i hi => ?_, ?_⟩
  · show (s'.wpRuh i).fill cfg.sp = _
    rw [hs', hothers i hi]
  · show (s'.wpRuh ruh).fill cfg.sp + _ = _
    rw [hs', hfill, hlast]
    have hlt : (s.wpRuh ruh).fill cfg.sp < cfg.sp.pgsPerOneshotpg := Nat.mod_lt _ hpos
    have hsucc : ((s.wpRuh ruh).pg + 1) % cfg.sp.pgsPerOneshotpg =
        ((s.wpRuh ruh).fill cfg.sp + 1) % cfg.sp.pgsPerOneshotpg := (Nat.mod_add_mod ..).symm
    rw [hsucc]
    by_cases hfull : (s.wpRuh ruh).fill cfg.sp = cfg.sp.pgsPerOneshotpg - 1
    · have hwrap : (s.wpRuh ruh).fill cfg.sp + 1 = cfg.sp.pgsPerOneshotpg := by omega
      rw [hwrap, Nat.mod_self, if_pos (beq_iff_eq.mpr hfull), Nat.zero_add]
    · rw [if_neg (fun h => hfull (beq_iff_eq.mp h)), Nat.mod_eq_of_lt (by omega)]

end NvmeVirt
