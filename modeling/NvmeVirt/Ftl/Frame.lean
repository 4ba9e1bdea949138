import NvmeVirt.Lib.Outcome
import NvmeVirt.Ftl.Gc

/-!
# `Ftl.Frame` — what the steps of a page write can change

A page write moves a pointer, allocates a page, invalidates another one and may collect garbage. This module says once
for each of these what it can change; what it leaves alone is then read off. Nothing here needs the tables of the
partition to be consistent.

* `PointerMoved`, `PageTaken`, `OldInvalidated` — the states that the functions of a page return;
* `GcSteps` — the rule for garbage collection: what each of its steps keeps, the whole of it keeps.
-/

namespace NvmeVirt

open Outcome

variable {τ : Type} {cfg : FtlConfig} {L : Latency τ}

/-! ## The functions of a page -/

/-- **A pointer moved**: within its line, or to a new one, which takes one free line at most. -/
inductive PointerMoved (cfg : FtlConfig) (io : IoType) (ruh : Nat) (s : Part τ) : Part τ → Prop
  | mk {old wp : WritePointer} (hold : getWp cfg io ruh s = .ok old)
      (hnext : nextPage cfg.sp old = .ok (some wp) ∨ nextPage cfg.sp old = .ok none ∧ wp.pg = 0)
      (lines : Nat → FdpLine) (free full : List Nat) (pq : Pqueue Nat) (freeCnt victimCnt fullCnt : Nat)
      (hfree : s.freeLineCnt ≤ freeCnt + 1) (hvictims : s.victimLineCnt ≤ victimCnt) :
      PointerMoved cfg io ruh s (setWp io ruh wp { s with
        lines := lines
        freeLineList := free
        victimLinePq := pq
        fullLineList := full
        freeLineCnt := freeCnt
        victimLineCnt := victimCnt
        fullLineCnt := fullCnt })

/-- A closed line goes to the full list or to the victim queue. -/
theorem closeLine_lists (l : Nat) (s : Part τ) :
    Sat (fun _ => True) (fun s' => ∃ lines full pq victimCnt fullCnt, s.victimLineCnt ≤ victimCnt ∧
      s' = { s with
        lines := lines
        victimLinePq := pq
        fullLineList := full
        victimLineCnt := victimCnt
        fullLineCnt := fullCnt }) (closeLine cfg l s) := by
  unfold closeLine
  split
  · exact sat_bind_any fun _ => ⟨_, _, _, _, _, Nat.le_refl _, rfl⟩
  · exact sat_bind_any fun _ => sat_bind_any fun _ => ⟨_, _, _, _, _, Nat.le_succ _, rfl⟩

theorem advanceWritePointer_moved (io : IoType) (ruh : Nat) (s : Part τ) :
    Sat (fun _ => True) (PointerMoved cfg io ruh s) (advanceWritePointer cfg io ruh s) := by
  unfold advanceWritePointer
  cases hold : getWp cfg io ruh s with
  | error e => trivial
  | ok old =>
      rw [ok_bind]
      cases hnext : nextPage cfg.sp old with
      | error e => trivial
      | ok next =>
          rw [ok_bind]
          cases next with
          | some wp => exact .mk hold (.inl hnext) _ _ _ _ _ _ _ (Nat.le_succ _) (Nat.le_refl _)
          | none =>
              refine (closeLine_lists old.curline s).bind ?_
              rintro _ ⟨lines, full, pq, victimCnt, fullCnt, hvictims, rfl⟩
              unfold openLine getNextFreeLine
              refine sat_bind_any fun _ => ?_
              dsimp only
              cases s.freeLineList with
              | nil => trivial
              | cons l rest =>
                  refine sat_bind_any fun _ => sat_bind_any fun _ => sat_bind_any fun _ => sat_bind_any fun _ =>
                    sat_bind_any fun _ => ?_
                  exact .mk hold (.inr ⟨hnext, rfl⟩) _ _ _ _ _ _ _ (Nat.sub_le_iff_le_add.mp (Nat.le_refl _)) hvictims

/-- **A page taken** for `lpn`: entered in both tables, programmed, and the pointer moved past it. -/
inductive PageTaken (cfg : FtlConfig) (io : IoType) (ruh lpn : Nat) (s : Part τ) : Ppa × Part τ → Prop
  | mk {ppa : Ppa} {i : Nat} {s' : Part τ} (hppa : getNewPage cfg io ruh s = .ok ppa)
      (hmoved : PointerMoved cfg io ruh { s with
        maptbl := Function.update s.maptbl lpn (some ppa)
        rmap := Function.update s.rmap i lpn
        flash := Function.update s.flash ppa.blkAddr ((s.flash ppa.blkAddr).program ppa.pg)
        lines := Function.update s.lines ppa.blk { s.lines ppa.blk with vpc := (s.lines ppa.blk).vpc + 1 }
        hist := .program (writerOf io ruh) ppa :: s.hist } s') :
      PageTaken cfg io ruh lpn s (ppa, s')

theorem allocPage_taken (io : IoType) (ruh lpn : Nat) (s : Part τ) :
    Sat (fun _ => True) (PageTaken cfg io ruh lpn s) (allocPage cfg io ruh lpn s) := by
  unfold allocPage setMaptblEnt setRmapEnt markPageValid
  cases hppa : getNewPage cfg io ruh s with
  | error e => trivial
  | ok ppa =>
      simp only [ok_bind, bind_assoc, pure_bind]
      refine sat_bind_any fun _ => sat_bind_any fun _ => sat_bind_any fun _ => sat_bind_any fun _ =>
        sat_bind_any fun _ => ?_
      exact (advanceWritePointer_moved io ruh _).bind fun s' h => .mk hppa h

/-- Only the line records and the containers of closed lines change. -/
theorem lineInvalidate_frame (spp : SsdParams) (l : Nat) (s : Part τ) :
    lineInvalidate spp l s =
      { s with
        lines := (lineInvalidate spp l s).lines
        victimLinePq := (lineInvalidate spp l s).victimLinePq
        fullLineList := (lineInvalidate spp l s).fullLineList
        fullLineCnt := (lineInvalidate spp l s).fullLineCnt
        victimLineCnt := (lineInvalidate spp l s).victimLineCnt } := by
  unfold lineInvalidate
  dsimp only
  split <;> split <;> rfl

theorem lineInvalidate_victims (spp : SsdParams) (l : Nat) (s : Part τ) :
    s.victimLineCnt ≤ (lineInvalidate spp l s).victimLineCnt := by
  unfold lineInvalidate
  dsimp only
  split
  · split <;> exact Nat.le_succ _
  · split <;> exact Nat.le_refl _

/-- **The page that held `lpn`**, if there is one, becomes invalid and leaves the reverse map. -/
inductive OldInvalidated (lpn : Nat) (s : Part τ) : Part τ → Prop
  | unmapped (hnone : s.maptbl lpn = none) : OldInvalidated lpn s s
  | mapped {p : Ppa} (hsome : s.maptbl lpn = some p) (i : Nat) (lines : Nat → FdpLine) (full : List Nat)
      (pq : Pqueue Nat) (victimCnt fullCnt : Nat) (hvictims : s.victimLineCnt ≤ victimCnt) :
      OldInvalidated lpn s { s with
        flash := Function.update s.flash p.blkAddr ((s.flash p.blkAddr).invalidate p.pg)
        rmap := Function.update s.rmap i invalidLpn
        lines := lines
        victimLinePq := pq
        fullLineList := full
        victimLineCnt := victimCnt
        fullLineCnt := fullCnt }

theorem invalidateOld_cases (lpn : Nat) (s : Part τ) :
    Sat (fun _ => True) (OldInvalidated lpn s) (invalidateOld cfg lpn s) := by
  unfold invalidateOld
  cases hm : s.maptbl lpn with
  | none => exact .unmapped hm
  | some p =>
      unfold markPageInvalid setRmapEnt
      simp only [bind_assoc, pure_bind]
      refine sat_bind_any fun _ => sat_bind_any fun _ => sat_bind_any fun _ => sat_bind_any fun _ =>
        sat_bind_any fun _ => sat_bind_any fun _ => sat_bind_any fun i => ?_
      have hvictims := lineInvalidate_victims cfg.sp p.blk
        { s with flash := Function.update s.flash p.blkAddr ((s.flash p.blkAddr).invalidate p.pg) }
      rw [lineInvalidate_frame]
      exact .mapped hm i _ _ _ _ _ hvictims

/-- The latency model takes the command of a wordline; its completion time is returned. -/
theorem flushWordline_eq (stime : Nat) (p : Ppa) (s : Part τ) :
    flushWordline cfg L stime p s =
      ((flushWordline cfg L stime p s).1, { s with tm := (flushWordline cfg L stime p s).2.tm }) := by
  unfold flushWordline
  split <;> rfl

/-- **A page of the host**: the old page of its LPN, the new one, and the wordline it may complete. -/
inductive PagePut (cfg : FtlConfig) (L : Latency τ) (stime ruh lpn : Nat) (s : Part τ) : Option Nat × Part τ → Prop
  | mk {s₁ s₂ : Part τ} {p : Ppa} {t : Option Nat} {tm : τ} (hold : OldInvalidated lpn s s₁)
      (htaken : PageTaken cfg .user ruh lpn s₁ (p, s₂))
      (hflush : flushWordline cfg L stime p s₂ = (t, { s₂ with tm := tm })) (credits : Nat) :
      PagePut cfg L stime ruh lpn s (t, { s₂ with tm := tm, writeCredits := credits })

theorem putPage_cases (cfg : FtlConfig) (L : Latency τ) (stime ruh lpn : Nat) (s : Part τ) :
    Sat (fun _ => True) (PagePut cfg L stime ruh lpn s) (putPage cfg L stime ruh lpn s) := by
  unfold putPage programPage
  simp only [bind_assoc, pure_bind]
  refine (invalidateOld_cases lpn s).bind fun s₁ hold => ?_
  refine (allocPage_taken .user ruh lpn s₁).bind ?_
  rintro ⟨p, s₂⟩ htaken
  rw [flushWordline_eq]
  exact .mk hold htaken (flushWordline_eq ..) _

/-! ## Garbage collection -/

theorem gcEmit_toFdpFtl (L : Latency τ) (v : Nat) (s : Part τ) : (gcEmit L v s).toFdpFtl = s.toFdpFtl := by
  unfold gcEmit
  split <;> rfl

/-- The victim leaves the queue. -/
theorem selectVictimLine_eq {force : Bool} {v : Nat} {s s' : Part τ} (h : selectVictimLine cfg force s = some (v, s')) :
    s' = { s with
      lines := s'.lines
      victimLinePq := s'.victimLinePq
      victimLineCnt := s.victimLineCnt - 1 } := by
  unfold selectVictimLine at h
  split at h
  · cases h
  · dsimp only at h
    split at h
    · cases h
    · cases h
      rfl

/-- A command of the garbage collection; a read covers at least one page. -/
structure GcIssued (cfg : FtlConfig) (ncmd : NandCmd) : Prop where
  type_eq : ncmd.type = .gc
  read : ncmd.cmd = .read → ∃ cnt, cnt ≠ 0 ∧ ncmd.xferSize = cfg.sp.pgsz * cnt

/-- **A relation that every step of a collection keeps.** -/
structure GcSteps (cfg : FtlConfig) (L : Latency τ) (R : Part τ → Part τ → Prop) : Prop where
  refl : ∀ s, R s s
  trans : ∀ {s s₁ s₂}, R s s₁ → R s₁ s₂ → R s s₂
  /-- `gc_write_page`, up to its command -/
  move : ∀ {s s' lpn new i}, ppa2pgidx cfg i = .ok lpn → s.rmap lpn < cfg.sp.ttPgs →
    PageTaken cfg .gc 0 (s.rmap lpn) s (new, s') →
    R s { s' with ctx := { s'.ctx with mbmw := s'.ctx.mbmw + .ofNat cfg.sp.pgsz } }
  issue : ∀ {ncmd}, GcIssued cfg ncmd → ∀ s, R s (issueNand L ncmd s)
  erase : ∀ ppa s, R s (markBlockFree cfg ppa s)
  emit : ∀ v s, R s (gcEmit L v s)
  /-- the line records, the victim queue and the free list, and the credits -/
  account : ∀ (s : Part τ) lines pq victimCnt free freeCnt refill credits, R s { s with
    lines := lines
    victimLinePq := pq
    victimLineCnt := victimCnt
    freeLineList := free
    freeLineCnt := freeCnt
    creditsToRefill := refill
    writeCredits := credits }

namespace GcSteps

variable {R : Part τ → Part τ → Prop} (h : GcSteps cfg L R)

include h

theorem gcWritePage (old : Ppa) (s : Part τ) : Sat (fun _ => True) (R s) (gcWritePage cfg L old s) := by
  unfold NvmeVirt.gcWritePage getRmapEnt
  cases hi : ppa2pgidx cfg old with
  | error e => trivial
  | ok i =>
      simp only [ok_bind, pure_bind]
      refine sat_nvmevAssert_bind trivial fun hlt => ?_
      refine (allocPage_taken .gc 0 _ s).bind ?_
      rintro ⟨new, s'⟩ htaken
      have hmove := h.move hi hlt htaken
      dsimp only
      split
      · refine h.trans hmove (h.issue ⟨rfl, fun hread => ?_⟩ _)
        -- a program or a NOP
        dsimp only at hread
        split at hread <;> cases hread
      · exact hmove

theorem cleanOneFlashpg (ppa : Ppa) (s : Part τ) : Sat (fun _ => True) (R s) (cleanOneFlashpg cfg L ppa s) := by
  unfold NvmeVirt.cleanOneFlashpg moveValid
  refine sat_bind_any fun cnt => ?_
  dsimp only
  split
  · exact h.refl s
  · next hcnt =>
      refine sat_foldlM_const _ (fun i _ s' hs' => ?_) ?_
      · split
        · exact (h.gcWritePage _ s').mono fun _ => h.trans hs'
        · exact hs'
      · split
        · exact h.issue ⟨rfl, fun _ => ⟨cnt, hcnt, rfl⟩⟩ s
        · exact h.refl s

theorem gcIter (v : Nat) (s : Part τ) (it : Nat × Nat × Nat) :
    Sat (fun _ => True) (R s) (gcIter cfg L v s it) := by
  unfold NvmeVirt.gcIter
  refine (h.cleanOneFlashpg _ s).bind fun s₁ h₁ => ?_
  split
  · have herase := h.trans h₁ (h.erase (gcPpa cfg.sp v it) s₁)
    rw [markBlockFreeChecks_eq, ok_bind]
    dsimp only
    split
    · refine h.trans herase (h.issue ⟨rfl, fun hread => ?_⟩ _)
      cases hread
    · exact herase
  · exact h₁

theorem reclaim (v : Nat) (s : Part τ) : Sat (fun _ => True) (R s) (reclaim cfg L v s) := by
  unfold NvmeVirt.reclaim
  dsimp only
  refine Sat.bind (Q := R s) ?_ fun s₁ h₁ => h.trans h₁ (h.account s₁ _ _ _ _ _ _ _)
  refine sat_foldlM_const _ (fun it _ s₁ h₁ => (h.gcIter _ s₁ it).mono fun _ => h.trans h₁) ?_
  exact h.trans (h.emit v s) (h.account _ _ _ _ _ _ _ _)

theorem foregroundGc (s : Part τ) : Sat (fun _ => True) (R s) (foregroundGc cfg L s) := by
  unfold NvmeVirt.foregroundGc doGc
  split
  · cases hv : selectVictimLine cfg true s with
    | none => exact h.refl s
    | some r =>
        obtain ⟨v, s₁⟩ := r
        have hselect : R s s₁ := by
          rw [selectVictimLine_eq hv]
          exact h.account s _ _ _ _ _ _ _
        dsimp only
        rw [bind_assoc]
        exact (h.reclaim v s₁).bind fun s₂ h₂ => h.trans hselect h₂
  · exact h.refl s

/-- **The rule for garbage collection.** -/
theorem checkAndRefill (s : Part τ) : Sat (fun _ => True) (R s) (checkAndRefillWriteCredit cfg L s) := by
  unfold checkAndRefillWriteCredit
  split
  · exact (h.foregroundGc s).bind fun s₁ h₁ => h.trans h₁ (h.account s₁ _ _ _ _ _ _ _)
  · exact h.refl s

end GcSteps

end NvmeVirt
