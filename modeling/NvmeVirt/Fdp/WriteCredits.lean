import NvmeVirt.Ftl.Credits
import NvmeVirt.Fdp.Addresses

/-!
# `Fdp.WriteCredits` — the write credits never wrap around

A page write takes one credit and looks for garbage when none is left; the credits are an unsigned 32-bit number, so a
credit taken from none would put the next look four billion pages off. `CreditRun` counts the page writes since the
last look. `Credited` bounds that count and the credits together by a line, and it needs the refill to be positive: the
refill is the number of invalid pages of the victim, and every line in the victim queue has one (`Sound`), or it is
what it was before.

On blocks with more pages than an address can number no line is ever closed, so there is never a victim and the refill
stays a line (`Unturned`).
-/

namespace NvmeVirt

open Outcome

variable {τ : Type} {cfg : FtlConfig} {L : Latency τ} {s s₁ s' : Part τ} {k : Nat}

/-! ## Runs that count -/

/-- **A run of a partition**, with the number of page writes since `check_and_refill_write_credit` last found no credit
    left. -/
inductive CreditRun (cfg : FtlConfig) (L : Latency τ) : Nat → Part τ → Prop where
  | init {ctx : FdpCtx} {tm : τ} {s : Part τ} (h : fdpInitFtl cfg ctx tm = .ok s) : CreditRun cfg L 0 s
  | write {k : Nat} {s s₁ s' : Part τ} {w : PageWrite} {t : Option Nat} (hs : CreditRun cfg L k s)
      (hw : w.InRange cfg) (hput : putPage cfg L w.stime w.ruh w.lpn s = .ok (t, s₁))
      (hcheck : checkAndRefillWriteCredit cfg L s₁ = .ok s') :
      CreditRun cfg L (if s₁.writeCredits = 0 then 0 else k + 1) s'
  | shared {k : Nat} {s : Part τ} (hs : CreditRun cfg L k s) (ctx : FdpCtx) (tm : τ) :
      CreditRun cfg L k { s with ctx := ctx, tm := tm }

/-- The count is only an observation. -/
theorem Reach.creditRun (h : Reach cfg L s) : ∃ k, CreditRun cfg L k s := by
  induction h with
  | init h => exact ⟨0, .init h⟩
  | write _ hruh hlpn h ih =>
      rename_i s s' stime ruh lpn t hs
      obtain ⟨k, hk⟩ := ih
      unfold writePage at h
      obtain ⟨⟨t₁, s₁⟩, hput, hrest⟩ := bind_eq_ok h
      obtain ⟨s₂, hcheck, heq⟩ := bind_eq_ok hrest
      cases heq
      exact ⟨_, .write (w := ⟨stime, ruh, lpn⟩) hk ⟨hruh, hlpn⟩ hput hcheck⟩
  | shared _ ctx tm ih =>
      obtain ⟨k, hk⟩ := ih
      exact ⟨k, .shared hk ctx tm⟩

/-! ## The invariant -/

/-- **Credited**: a credit is left, the credits and the page writes since the last look are at most a line, and the
    refill is between one page and a line. -/
structure Credited (cfg : FtlConfig) (k : Nat) (s : FdpFtl) : Prop where
  credits_pos : 0 < s.writeCredits
  budget : s.writeCredits + k ≤ cfg.sp.pgsPerLine
  refill_pos : 0 < s.creditsToRefill
  refill_le : s.creditsToRefill ≤ cfg.sp.pgsPerLine

theorem credited_initialised (ctx : FdpCtx) (tm : τ) (hpos : 0 < cfg.sp.pgsPerLine) (h32 : cfg.sp.pgsPerLine < 2 ^ 32) :
    Credited cfg 0 (initialised cfg ctx tm).toFdpFtl := by
  have hcredits : (initialised cfg ctx tm).writeCredits = cfg.sp.pgsPerLine := u32_of_lt h32
  have hrefill : (initialised cfg ctx tm).creditsToRefill = cfg.sp.pgsPerLine := u32_of_lt h32
  exact ⟨hcredits.symm ▸ hpos, Nat.le_of_eq hcredits, hrefill.symm ▸ hpos, Nat.le_of_eq hrefill⟩

/-- The decrement does not wrap around. -/
theorem Credited.u32Dec_eq (h : Credited cfg k s.toFdpFtl) (h32 : cfg.sp.pgsPerLine < 2 ^ 32) :
    u32Dec s.writeCredits = s.writeCredits - 1 :=
  u32Dec_of_pos h.credits_pos (by have := h.budget; omega)

/-- **A page write without a look**: one credit less, one page write more. -/
theorem Credited.spend (h : Credited cfg k s.toFdpFtl) (h32 : cfg.sp.pgsPerLine < 2 ^ 32)
    (hcred : s₁.writeCredits = u32Dec s.writeCredits) (hrefill : s₁.creditsToRefill = s.creditsToRefill)
    (hleft : s₁.writeCredits ≠ 0) : Credited cfg (k + 1) s₁.toFdpFtl := by
  have hbudget := h.budget
  have hpos := h.credits_pos
  rw [h.u32Dec_eq h32] at hcred
  exact ⟨Nat.pos_of_ne_zero hleft, by omega, hrefill ▸ h.refill_pos, hrefill ▸ h.refill_le⟩

/-- **A refill** from none. -/
theorem credited_refill {t : FdpFtl} (h32 : cfg.sp.pgsPerLine < 2 ^ 32) (hzero : t.writeCredits = 0)
    (hpos : 0 < t.creditsToRefill) (hle : t.creditsToRefill ≤ cfg.sp.pgsPerLine) :
    Credited cfg 0 { t with writeCredits := u32 (t.writeCredits + t.creditsToRefill) } := by
  have hnew : u32 (t.writeCredits + t.creditsToRefill) = t.creditsToRefill := by
    rw [hzero, Nat.zero_add]
    exact u32_of_lt (lt_of_le_of_lt hle h32)
  rw [hnew]
  exact ⟨hpos, hle, hpos, hle⟩

/-! ## Blocks the addresses can number -/

/-- A page write of a sound partition. -/
theorem Credited.write (hg : Geometry cfg.sp) (h32 : cfg.sp.pgsPerLine < 2 ^ 32) (hsound : Sound cfg s.toFdpFtl)
    (h : Credited cfg k s.toFdpFtl) {w : PageWrite} (hw : w.InRange cfg) {t : Option Nat}
    (hput : putPage cfg L w.stime w.ruh w.lpn s = .ok (t, s₁)) (hcheck : checkAndRefillWriteCredit cfg L s₁ = .ok s') :
    Sound cfg s'.toFdpFtl ∧ Credited cfg (if s₁.writeCredits = 0 then 0 else k + 1) s'.toFdpFtl := by
  have hdone : Put cfg w.ruh w.lpn s s₁ := (putPage_spec L hg hsound w.stime hw.1 hw.2).of_eq_ok hput
  have hrefilled : Refilled cfg s₁ s' := (checkAndRefill_spec L hg hdone.sound).of_eq_ok hcheck
  refine ⟨hrefilled.sound hdone.sound, ?_⟩
  have hpos : 0 < s₁.creditsToRefill := hdone.refill_eq ▸ h.refill_pos
  have hle : s₁.creditsToRefill ≤ cfg.sp.pgsPerLine := hdone.refill_eq ▸ h.refill_le
  cases hrefilled with
  | enough hne =>
      rw [if_neg hne]
      exact h.spend h32 hdone.credits_eq hdone.refill_eq hne
  | refill hzero _ =>
      rw [if_pos hzero]
      exact credited_refill h32 hzero hpos hle
  | gc hzero _ hv hr =>
      -- the victim has an invalid page, and no more than a line of them
      rw [if_pos hzero]
      obtain ⟨g, _, hinv⟩ := hdone.sound
      obtain ⟨hipc, hsum⟩ := hinv.victim_counters hv
      refine credited_refill h32 (hr.credits_eq.trans hzero) ?_ ?_
      · rw [hr.refill_eq]
        exact hipc
      · rw [hr.refill_eq]
        omega

theorem CreditRun.credited (hg : Geometry cfg.sp) (hlines : cfg.nrRuh + 1 ≤ cfg.sp.ttLines)
    (h32 : cfg.sp.pgsPerLine < 2 ^ 32) (h : CreditRun cfg L k s) :
    Sound cfg s.toFdpFtl ∧ Credited cfg k s.toFdpFtl := by
  induction h with
  | init h =>
      rw [fdpInitFtl_eq _ _ hlines] at h
      obtain rfl := Except.ok.inj h
      exact ⟨sound_initialised _ _ hg hlines, credited_initialised _ _ hg.pgsPerLine_pos h32⟩
  | write _ hw hput hcheck ih => exact ih.2.write hg h32 ih.1 hw hput hcheck
  | shared _ _ _ ih => exact ih

/-! ## Longer blocks -/

/-- **No handle has turned its line**: no line was taken since the start, and the refill is still a line. -/
structure Unturned (cfg : FtlConfig) (s : FdpFtl) : Prop where
  onFirstLine : ∀ ruh, ruh < cfg.nrRuh → OnFirstLine cfg ruh s
  refill_eq : s.creditsToRefill = cfg.sp.pgsPerLine
  freeLineCnt_eq : s.freeLineCnt = cfg.sp.ttLines - (cfg.nrRuh + 1)

theorem unturned_initialised (hb : LongBlock cfg) (ctx : FdpCtx) (tm : τ) :
    Unturned cfg (initialised cfg ctx tm).toFdpFtl :=
  ⟨fun _ hruh => onFirstLine_initialised hb ctx tm hruh, u32_of_lt hb.pgsPerLine_lt, rfl⟩

theorem LongBlock.pgsPerLine_pos (hb : LongBlock cfg) : 0 < cfg.sp.pgsPerLine := by
  have := hb.addressable_lt
  omega

/-- A page write of such a partition. A collection never starts. -/
theorem Credited.write_unturned (hb : LongBlock cfg) (hthres : cfg.gcThresLinesHigh + (cfg.nrRuh + 1) < cfg.sp.ttLines)
    (hu : Unturned cfg s.toFdpFtl) (h : Credited cfg k s.toFdpFtl) {w : PageWrite} (hw : w.InRange cfg) {t : Option Nat}
    (hput : putPage cfg L w.stime w.ruh w.lpn s = .ok (t, s₁)) (hcheck : checkAndRefillWriteCredit cfg L s₁ = .ok s') :
    Unturned cfg s'.toFdpFtl ∧ Credited cfg (if s₁.writeCredits = 0 then 0 else k + 1) s'.toFdpFtl := by
  obtain ⟨hstep, hcred, hrefill, hfree⟩ := ((hu.onFirstLine w.ruh hw.1).putPage L hb w.stime w.lpn).of_eq_ok hput
  have hu₁ : Unturned cfg s₁.toFdpFtl := by
    refine ⟨fun ruh hruh => ?_, hrefill.trans hu.refill_eq, hfree.trans hu.freeLineCnt_eq⟩
    by_cases heq : ruh = w.ruh
    · exact heq ▸ hstep.onFirstLine
    · exact (hu.onFirstLine ruh hruh).mono (hstep.others ruh heq) hstep.kept
  have hnogc : ¬ shouldGcHigh cfg s₁.toFdpFtl := by
    have := hu₁.freeLineCnt_eq
    unfold shouldGcHigh
    omega
  unfold checkAndRefillWriteCredit at hcheck
  by_cases hzero : s₁.writeCredits = 0
  · rw [if_pos hzero, foregroundGc, if_neg hnogc] at hcheck
    cases hcheck
    rw [if_pos hzero]
    refine ⟨⟨fun ruh hruh => (hu₁.onFirstLine ruh hruh).mono rfl fun _ hq => hq, hu₁.refill_eq, hu₁.freeLineCnt_eq⟩, ?_⟩
    exact credited_refill hb.pgsPerLine_lt hzero (hu₁.refill_eq.symm ▸ hb.pgsPerLine_pos) (Nat.le_of_eq hu₁.refill_eq)
  · rw [if_neg hzero] at hcheck
    cases hcheck
    rw [if_neg hzero]
    exact ⟨hu₁, h.spend hb.pgsPerLine_lt hcred hrefill hzero⟩

theorem CreditRun.unturned (hb : LongBlock cfg) (hthres : cfg.gcThresLinesHigh + (cfg.nrRuh + 1) < cfg.sp.ttLines)
    (h : CreditRun cfg L k s) : Unturned cfg s.toFdpFtl ∧ Credited cfg k s.toFdpFtl := by
  induction h with
  | init h =>
      rw [fdpInitFtl_eq _ _ (by omega)] at h
      obtain rfl := Except.ok.inj h
      exact ⟨unturned_initialised hb _ _, credited_initialised _ _ hb.pgsPerLine_pos hb.pgsPerLine_lt⟩
  | write _ hw hput hcheck ih => exact ih.2.write_unturned hb hthres ih.1 hw hput hcheck
  | shared _ _ _ ih => exact ih

/-! ## The shipped targets -/

/-- Physical addresses have at most 52 bits, so a block never has more than `2 ^ 29` pages. -/
theorem Target.pgsPerBlkOf_le (t : Target) {size : Nat} (hsize : size < 2 ^ 52) :
    t.config.pgsPerBlkOf size 4 ≤ 2 ^ 29 := by
  have hn : t.config.oneshotPageSize ∣ 2 ^ 29 * (t.config.lbaSize * (4096 / t.config.lbaSize)) := by
    cases t <;> decide
  refine NvmeVirt.pgsPerBlkOf_le (t.numbered).toSound hn ?_
  cases t with
  | fdp =>
      show size / 4 ≤ 2 ^ 29 * 4096 * 512
      omega
  | conv =>
      show size / 4 ≤ 2 ^ 29 * 4096 * 32768
      omega

theorem Target.sp_eq (t : Target) (size : Nat) : (t.nsConfig size).ftl.sp = ssdInitParams t.config size 4 := by
  cases t <;> rfl

theorem Target.pgsPerBlk_eq (t : Target) {size : Nat} (hsize : size < 2 ^ 52) :
    (t.nsConfig size).ftl.sp.pgsPerBlk = t.config.pgsPerBlkOf size 4 := by
  rw [t.sp_eq]
  exact pgsPerBlk_eq_pgsPerBlkOf (t.numbered).toSound (lt_of_le_of_lt (t.pgsPerBlkOf_le hsize) (by decide))

theorem Target.pgsPerLine_eq (t : Target) {size : Nat} (hsize : size < 2 ^ 52) :
    (t.nsConfig size).ftl.sp.pgsPerLine = 4 * t.config.pgsPerBlkOf size 4 := by
  have hle := t.pgsPerBlkOf_le hsize
  have hblk := t.pgsPerBlk_eq hsize
  have hline : (t.nsConfig size).ftl.sp.pgsPerLine = u64 (4 * ulongOfInt (t.nsConfig size).ftl.sp.pgsPerBlk) := by
    cases t <;> rfl
  rw [hline, hblk, ulongOfInt_of_lt (by omega), u64_of_lt (by omega)]

theorem Target.thres_lt (t : Target) (size : Nat) : (t.nsConfig size).ftl.gcThresLinesHigh +
    ((t.nsConfig size).ftl.nrRuh + 1) < (t.nsConfig size).ftl.sp.ttLines := by
  cases t with
  | fdp =>
      rw [show (Target.fdp.nsConfig size).ftl.sp.ttLines = 128 from fdp_ttLines size]
      show 9 + (8 + 1) < 128
      decide
  | conv =>
      rw [show (Target.conv.nsConfig size).ftl.sp.ttLines = 8192 from conv_ttLines size]
      show 2 + (1 + 1) < 8192
      decide

theorem Target.longBlock (t : Target) {size : Nat} (hsize : size < 2 ^ 52)
    (h : t.config.addressableBytes 4 < size / 4) : LongBlock (t.nsConfig size).ftl := by
  have hle := t.pgsPerBlkOf_le hsize
  have hlong : 2 ^ pageBits < t.config.pgsPerBlkOf size 4 := by
    by_contra hshort
    refine absurd h (Nat.not_lt.mpr ((capacity_le_blocks (t.numbered).toSound).trans ?_))
    exact Nat.mul_le_mul_right _ (Nat.mul_le_mul_right _ (Nat.le_of_not_lt hshort))
  have hline := t.pgsPerLine_eq hsize
  have hblk := t.pgsPerBlk_eq hsize
  have hos : (t.nsConfig size).ftl.sp.pgsPerOneshotpg = 8 := by cases t <;> rfl
  obtain ⟨n, hn, hpages⟩ : ∃ n, (t.nsConfig size).ftl.sp.oneshotpgsPerBlk = i32 n ∧
      t.config.pgsPerBlkOf size 4 = 8 * n := by
    cases t <;> exact ⟨_, rfl, rfl⟩
  rw [i32_of_lt (by omega)] at hn
  have hdims : (t.nsConfig size).ftl.sp.lunsPerCh = 2 ∧ (t.nsConfig size).ftl.sp.nchs = 2 := by
    cases t <;> exact ⟨rfl, rfl⟩
  refine ⟨⟨?_, ?_, ?_, ?_, ?_⟩, ?_, ?_, ?_, ?_⟩
  · rw [hdims.2]
    decide
  · rw [hdims.1]
    decide
  · rw [hos]
    decide
  · rw [hblk, hn, hos, hpages, Nat.mul_comm]
  · rw [hline, hblk, hdims.1, hdims.2]
  · rw [hos]
    exact ⟨8192, rfl⟩
  · rw [hblk]
    exact hlong
  · rw [hline]
    omega
  · cases t
    · show 0 < 8
      decide
    · show 0 < 1
      decide

theorem Target.pgsPerLine_lt (t : Target) {size : Nat} (hsize : size < 2 ^ 52) :
    (t.nsConfig size).ftl.sp.pgsPerLine < 2 ^ 32 := by
  have hle := t.pgsPerBlkOf_le hsize
  rw [t.pgsPerLine_eq hsize]
  omega

/-- Every run of a target that can write a page is credited, and a page write takes one credit. -/
theorem Target.credited (t : Target) {size : Nat} (hsize : size < 2 ^ 52) {w : PageWrite}
    (hw : w.InRange (t.nsConfig size).ftl) (h : CreditRun (t.nsConfig size).ftl L k s) :
    Credited (t.nsConfig size).ftl k s.toFdpFtl ∧
      ∀ r s₁, putPage (t.nsConfig size).ftl L w.stime w.ruh w.lpn s = .ok (r, s₁) →
        s₁.writeCredits = u32Dec s.writeCredits := by
  have hthres := t.thres_lt size
  rcases Nat.lt_or_ge (t.config.addressableBytes 4) (size / 4) with hlong | hshort
  · have hb := t.longBlock hsize hlong
    obtain ⟨hu, hc⟩ := h.unturned hb hthres
    exact ⟨hc, fun r s₁ hput => (((hu.onFirstLine w.ruh hw.1).putPage L hb w.stime w.lpn).of_eq_ok hput).2.1⟩
  · have hpos : 0 < size / 4 := by
      by_contra hzero
      have hnone := hw.2
      rw [t.sp_eq, ttPgs_eq_zero (t.numbered).toSound (by omega)] at hnone
      exact absurd hnone (Nat.not_lt_zero _)
    have hg : Geometry (t.nsConfig size).ftl.sp := t.sp_eq size ▸ geometry_of_addressable t.numbered hpos hshort
    obtain ⟨hsound, hc⟩ := h.credited hg (by omega) (t.pgsPerLine_lt hsize)
    exact ⟨hc, fun r s₁ hput => ((putPage_spec L hg hsound w.stime hw.1 hw.2).of_eq_ok hput).credits_eq⟩

/-- **The credits never wrap around.** In every state of a run in which no allocation fails, on either target and for
    every capacity that physical addresses allow: a page write finds a credit to take, so that `write_credits--` is a
    subtraction; the refill is between one page and a line; and fewer than a line of pages were written since the credits
    last ran out, so that `foreground_gc` is called at least once per line of pages. -/
theorem write_credits_never_wrap (t : Target) {size : Nat} (hsize : size < 2 ^ 52) (hr : Reach (t.nsConfig size).ftl L s)
    {w : PageWrite} (hw : w.InRange (t.nsConfig size).ftl) :
    (1 ≤ s.writeCredits ∧ 1 ≤ s.creditsToRefill ∧ s.creditsToRefill ≤ (t.nsConfig size).ftl.sp.pgsPerLine) ∧
      (∀ r s₁, putPage (t.nsConfig size).ftl L w.stime w.ruh w.lpn s = .ok (r, s₁) →
        s₁.writeCredits + 1 = s.writeCredits) ∧
      (∃ k, CreditRun (t.nsConfig size).ftl L k s) ∧
      ∀ k, CreditRun (t.nsConfig size).ftl L k s → k < (t.nsConfig size).ftl.sp.pgsPerLine := by
  obtain ⟨k, hk⟩ := hr.creditRun
  obtain ⟨hc, hput⟩ := t.credited hsize hw hk
  have hpos := hc.credits_pos
  refine ⟨⟨hpos, hc.refill_pos, hc.refill_le⟩, fun r s₁ h => ?_, ⟨k, hk⟩, fun j hj => ?_⟩
  · rw [hput r s₁ h, hc.u32Dec_eq (t.pgsPerLine_lt hsize)]
    omega
  · obtain ⟨hcj, -⟩ := t.credited hsize hw hj
    have hbudget := hcj.budget
    omega

/-- The 34th page write of a pool of 64 MiB, whose lines have 32 pages: the credits have run out once and were
    refilled. -/
theorem write_credits_refilled :
    ∃ s : Part Unit, Reach (Target.fdp.nsConfig 67108864).ftl Latency.instant s ∧ s.writeCredits = 31 ∧
      ∀ r s₁, putPage (Target.fdp.nsConfig 67108864).ftl Latency.instant 0 0 0 s = .ok (r, s₁) →
        s₁.writeCredits + 1 = s.writeCredits := by
  obtain ⟨s, hr, hcredits⟩ := exists_reach (Target.fdp.nsConfig 67108864).ftl Latency.instant (fdpInitCtx 0) ()
    (List.replicate 33 ⟨0, 0, 0⟩) (by decide +kernel) (·.writeCredits) (a := 31) (by decide +kernel)
  have hw : PageWrite.InRange (Target.fdp.nsConfig 67108864).ftl ⟨0, 0, 0⟩ := by decide +kernel
  exact ⟨s, hr, hcredits, (write_credits_never_wrap .fdp (by decide) hr hw).2.1⟩

end NvmeVirt
