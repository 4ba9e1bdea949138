import NvmeVirt.Ftl.Run

/-!
# `Ftl.LongBlock` — blocks with more pages than `struct ppa` can number

The page coordinate of a write pointer is an `int`, the page field of `struct ppa` has 16 bits, and nothing
compares the two. On a device whose blocks have more than 65536 pages, `get_new_page` therefore starts over
at page 0 of the block before the line is used up, and `mark_page_valid` finds a page that is not free.

`OnFirstLine` describes a handle that has not turned its line: it cannot, because `get_new_page` runs into its own pages
before. `Young n` describes a partition after `n` page writes through handle 0. A further page write keeps it or
stops on the assertion, and stops for certain once the pointer has passed the pages the field can number.
In particular such a partition never closes a line and never runs out of write credits.
-/

namespace NvmeVirt

open Outcome

variable {τ : Type} {cfg : FtlConfig} {L : Latency τ} {s : Part τ} {n : Nat}

/-! ## Pages that share an address -/

/-- The address `get_new_page` builds from a write pointer. -/
def WritePointer.cut (wp : WritePointer) : Ppa :=
  { pg := wp.pg % 2 ^ pageBits
    blk := wp.blk % 2 ^ blkBits
    pl := wp.pl % 2 ^ plBits
    lun := wp.lun % 2 ^ lunBits
    ch := wp.ch % 2 ^ chBits }

/-- **Long blocks**: more pages than the page field can number, in whole wordlines. -/
structure LongBlock (cfg : FtlConfig) : Prop where
  grid : Grid cfg.sp
  oneshot_dvd : cfg.sp.pgsPerOneshotpg ∣ 2 ^ pageBits
  long : 2 ^ pageBits < cfg.sp.pgsPerBlk
  pgsPerLine_lt : cfg.sp.pgsPerLine < 2 ^ 32
  nrRuh_pos : 0 < cfg.nrRuh

/-- Number of pages of a line that have an address of their own. -/
def addressable (spp : SsdParams) : Nat := spp.lunsPerCh * spp.nchs * 2 ^ pageBits

theorem LongBlock.addressable_lt (hb : LongBlock cfg) : addressable cfg.sp < cfg.sp.pgsPerLine := by
  rw [addressable, hb.grid.pgsPerLine_eq]
  exact Nat.mul_lt_mul_of_pos_left hb.long (Nat.mul_pos hb.grid.lunsPerCh_pos hb.grid.nchs_pos)

/-- Before the page field overflows the pointer is inside the addressable part of the line. -/
theorem LongBlock.wpIdx_lt (hb : LongBlock cfg) {wp : WritePointer} (h : wp.Wf cfg.sp)
    (hpg : wp.pg < 2 ^ pageBits) : wpIdx cfg.sp wp < addressable cfg.sp := by
  obtain ⟨k, hk⟩ := hb.oneshot_dvd
  have hos := hb.grid.pgsPerOneshotpg_pos
  have hq : wp.pg / cfg.sp.pgsPerOneshotpg < k := by
    rw [Nat.div_lt_iff_lt_mul hos, Nat.mul_comm, ← hk]
    exact hpg
  have hall : addressable cfg.sp = k * cfg.sp.lunsPerCh * cfg.sp.nchs * cfg.sp.pgsPerOneshotpg := by
    rw [addressable, hk]
    ring
  rw [hall]
  exact Counting.radix_lt (Counting.radix_lt (Counting.radix_lt hq h.lun_lt) h.ch_lt)
    (Nat.mod_lt _ hos)

/-- The pointer one page field earlier: same address, smaller position. -/
theorem LongBlock.earlier (hb : LongBlock cfg) {wp : WritePointer} (h : wp.Wf cfg.sp)
    (hpg : 2 ^ pageBits ≤ wp.pg) :
    ∃ wp' : WritePointer, wp'.Wf cfg.sp ∧ wp'.curline = wp.curline ∧ wp'.cut = wp.cut ∧
      wpIdx cfg.sp wp' < wpIdx cfg.sp wp := by
  obtain ⟨k, hk⟩ := hb.oneshot_dvd
  have hos := hb.grid.pgsPerOneshotpg_pos
  have hpow : 0 < 2 ^ pageBits := Nat.two_pow_pos _
  have hsplit : wp.pg = wp.pg - 2 ^ pageBits + cfg.sp.pgsPerOneshotpg * k := by
    rw [← hk]
    omega
  have hdiv : wp.pg / cfg.sp.pgsPerOneshotpg =
      (wp.pg - 2 ^ pageBits) / cfg.sp.pgsPerOneshotpg + k := by
    conv_lhs => rw [hsplit]
    exact Nat.add_mul_div_left _ _ hos
  have hmod : wp.pg % cfg.sp.pgsPerOneshotpg = (wp.pg - 2 ^ pageBits) % cfg.sp.pgsPerOneshotpg := by
    conv_lhs => rw [hsplit]
    exact Nat.add_mul_mod_self_left _ _ _
  have hkpos : 0 < k := by
    rcases Nat.eq_zero_or_pos k with h0 | h0
    · rw [h0, Nat.mul_zero] at hk
      omega
    · exact h0
  refine ⟨{ wp with pg := wp.pg - 2 ^ pageBits },
    ⟨h.ch_lt, h.lun_lt, Nat.lt_of_le_of_lt (Nat.sub_le _ _) h.pg_lt, h.blk_eq, h.pl_eq⟩, rfl, ?_, ?_⟩
  · have hcut : (wp.pg - 2 ^ pageBits) % 2 ^ pageBits = wp.pg % 2 ^ pageBits :=
      (Nat.mod_eq_sub_mod hpg).symm
    simp only [WritePointer.cut, hcut]
  · show seqIdx cfg.sp wp.ch wp.lun (wp.pg - 2 ^ pageBits) < seqIdx cfg.sp wp.ch wp.lun wp.pg
    unfold seqIdx
    rw [hdiv, hmod]
    have hgap : 0 < k * cfg.sp.lunsPerCh * cfg.sp.nchs * cfg.sp.pgsPerOneshotpg :=
      Nat.mul_pos (Nat.mul_pos (Nat.mul_pos hkpos hb.grid.lunsPerCh_pos) hb.grid.nchs_pos) hos
    generalize (wp.pg - 2 ^ pageBits) / cfg.sp.pgsPerOneshotpg = q at *
    generalize (wp.pg - 2 ^ pageBits) % cfg.sp.pgsPerOneshotpg = r at *
    nlinarith

/-! ## Partitions that have not turned a line -/

/-- **The first line of a handle**: its write pointer is on the line it was prepared with, and the pages it has passed
    are not free. -/
structure OnFirstLine (cfg : FtlConfig) (ruh : Nat) (s : FdpFtl) : Prop where
  wf : (s.wpRuh ruh).Wf cfg.sp
  curline_eq : (s.wpRuh ruh).curline = ruh
  programmed : ∀ wp : WritePointer, wp.Wf cfg.sp → wp.curline = ruh → wpIdx cfg.sp wp < wpIdx cfg.sp (s.wpRuh ruh) →
    s.flash.status wp.cut ≠ .free

/-- No page becomes free, and the flow control and the free lines stay as they are. -/
structure PagesKept (s s' : FdpFtl) : Prop where
  kept : ∀ q, s.flash.status q ≠ .free → s'.flash.status q ≠ .free
  credits_eq : s'.writeCredits = s.writeCredits
  refill_eq : s'.creditsToRefill = s.creditsToRefill
  freeLineCnt_eq : s'.freeLineCnt = s.freeLineCnt

theorem OnFirstLine.mono {ruh : Nat} {t t' : FdpFtl} (h : OnFirstLine cfg ruh t) (hwp : t'.wpRuh ruh = t.wpRuh ruh)
    (hkept : ∀ q, t.flash.status q ≠ .free → t'.flash.status q ≠ .free) : OnFirstLine cfg ruh t' where
  wf := hwp ▸ h.wf
  curline_eq := hwp ▸ h.curline_eq
  programmed wp hwf hcur hlt := hkept _ (h.programmed wp hwf hcur (hwp ▸ hlt))

theorem onFirstLine_initialised (hb : LongBlock cfg) (ctx : FdpCtx) (tm : τ) {ruh : Nat} (hruh : ruh < cfg.nrRuh) :
    OnFirstLine cfg ruh (initialised cfg ctx tm).toFdpFtl := by
  have hwp : (initialised cfg ctx tm).wpRuh ruh = .start ruh := by
    simp [initialised, preparedUsers, hruh]
  refine ⟨?_, ?_, fun wp _ _ h => ?_⟩
  · rw [hwp]
    exact ⟨hb.grid.nchs_pos, hb.grid.lunsPerCh_pos, Nat.lt_of_le_of_lt (Nat.zero_le _) hb.long, rfl, rfl⟩
  · rw [hwp]
    rfl
  · rw [hwp, wpIdx_start] at h
    exact absurd h (Nat.not_lt_zero _)

/-- A checked step may stop on its assertion, and on nothing else. -/
theorem sat_assert_bind {α : Type} {c : Prop} [Decidable c] {Q : α → Prop} {f : Unit → Except Fault α}
    (h : c → Sat (· = .bug) Q (f ())) : Sat (· = .bug) Q (nvmevAssert c >>= f) :=
  sat_nvmevAssert_bind rfl h

/-- What `invalidateOld` does to such a partition: no page becomes free, no pointer moves. -/
theorem invalidateOld_kept (lpn : Nat) (s : Part τ) :
    Sat (· = .bug) (fun s' => s'.wpRuh = s.wpRuh ∧ PagesKept s.toFdpFtl s'.toFdpFtl) (invalidateOld cfg lpn s) := by
  unfold invalidateOld
  cases s.maptbl lpn with
  | none => exact ⟨rfl, fun _ h => h, rfl, rfl, rfl⟩
  | some p =>
      unfold markPageInvalid setRmapEnt ppa2pgidx
      simp only [bind_assoc, pure_bind]
      refine sat_assert_bind fun _ => sat_assert_bind fun _ => sat_assert_bind fun _ =>
        sat_assert_bind fun _ => sat_assert_bind fun _ => sat_assert_bind fun _ =>
        sat_assert_bind fun _ => ?_
      show (invalidated cfg p s).wpRuh = s.wpRuh ∧ PagesKept s.toFdpFtl _
      refine ⟨by rw [invalidated_frame], fun q hq => ?_, ?_, ?_, ?_⟩
      · show (invalidated cfg p s).flash.status q ≠ .free
        rw [invalidated_status]
        split
        · decide
        · exact hq
      · show (invalidated cfg p s).writeCredits = _
        rw [invalidated_frame]
      · show (invalidated cfg p s).creditsToRefill = _
        rw [invalidated_frame]
      · show (invalidated cfg p s).freeLineCnt = _
        rw [invalidated_frame]

theorem getNewPage_cut (ruh : Nat) (s : Part τ) :
    Sat (· = .bug) (fun p => p = (s.wpRuh ruh).cut) (getNewPage cfg .user ruh s) := by
  unfold getNewPage getWp
  simp only [bind_assoc, pure_bind]
  exact sat_assert_bind fun _ => sat_assert_bind fun _ => rfl

/-- A page that is still free has an address of its own. -/
theorem OnFirstLine.lt_addressable {ruh : Nat} (hb : LongBlock cfg) (h : OnFirstLine cfg ruh s.toFdpFtl)
    (hfree : s.flash.status (s.wpRuh ruh).cut = .free) : wpIdx cfg.sp (s.wpRuh ruh) < addressable cfg.sp := by
  refine hb.wpIdx_lt h.wf ?_
  by_contra hpg
  obtain ⟨wp, hwf, hcur, hcut, hlt⟩ := hb.earlier h.wf (Nat.le_of_not_lt hpg)
  refine h.programmed wp hwf (hcur.trans h.curline_eq) hlt ?_
  rw [hcut]
  exact hfree

/-- **One page further** on the first line of a handle. -/
structure LineStepped (cfg : FtlConfig) (ruh : Nat) (s s' : FdpFtl) : Prop where
  onFirstLine : OnFirstLine cfg ruh s'
  lt_addressable : wpIdx cfg.sp (s.wpRuh ruh) < addressable cfg.sp
  idx_eq : wpIdx cfg.sp (s'.wpRuh ruh) = wpIdx cfg.sp (s.wpRuh ruh) + 1
  others : ∀ r, r ≠ ruh → s'.wpRuh r = s.wpRuh r
  kept : ∀ q, s.flash.status q ≠ .free → s'.flash.status q ≠ .free

/-- A page allocation: its page was free, and the pointer steps over it. -/
theorem OnFirstLine.allocPage {ruh : Nat} (hb : LongBlock cfg) (h : OnFirstLine cfg ruh s.toFdpFtl) (lpn : Nat) :
    Sat (· = .bug) (fun r => LineStepped cfg ruh s.toFdpFtl r.2.toFdpFtl ∧ PagesKept s.toFdpFtl r.2.toFdpFtl)
      (allocPage cfg .user ruh lpn s) := by
  unfold NvmeVirt.allocPage
  refine (getNewPage_cut ruh s).bind ?_
  rintro p rfl
  unfold setMaptblEnt setRmapEnt ppa2pgidx markPageValid
  simp only [bind_assoc, pure_bind]
  refine sat_assert_bind fun _ => sat_assert_bind fun _ => sat_assert_bind fun hfree =>
    sat_assert_bind fun _ => sat_assert_bind fun _ => ?_
  have hlt := h.lt_addressable hb hfree
  have hline := hb.addressable_lt
  unfold advanceWritePointer getWp
  simp only [bind_assoc, pure_bind]
  refine sat_assert_bind fun _ => ?_
  obtain ⟨wp, hnext, hwf, hcur, hidx⟩ | ⟨_, hend⟩ := nextPage_spec hb.grid h.wf
  case inr => omega
  rw [hnext, ok_bind]
  have hwp : Function.update s.wpRuh ruh wp ruh = wp := Function.update_self ..
  have hkept : ∀ q, s.flash.status q ≠ .free → Flash.status (Function.update s.flash (s.wpRuh ruh).cut.blkAddr
      ((s.flash (s.wpRuh ruh).cut.blkAddr).program (s.wpRuh ruh).cut.pg)) q ≠ .free := by
    intro q hq
    rw [Flash.status_update rfl]
    split
    · decide
    · exact hq
  refine ⟨⟨⟨?_, ?_, ?_⟩, hlt, ?_, fun r hr => Function.update_of_ne hr .., hkept⟩, hkept, rfl, rfl, rfl⟩
  · show WritePointer.Wf cfg.sp (Function.update s.wpRuh ruh wp ruh)
    rw [hwp]
    exact hwf
  · show (Function.update s.wpRuh ruh wp ruh).curline = ruh
    rw [hwp, hcur, h.curline_eq]
  · intro v hv hv0 hlt'
    change wpIdx cfg.sp v < wpIdx cfg.sp (Function.update s.wpRuh ruh wp ruh) at hlt'
    rw [hwp, hidx] at hlt'
    show Flash.status (Function.update s.flash (s.wpRuh ruh).cut.blkAddr
      ((s.flash (s.wpRuh ruh).cut.blkAddr).program (s.wpRuh ruh).cut.pg)) v.cut ≠ .free
    rcases Nat.lt_succ_iff_lt_or_eq.mp hlt' with hlt' | heq
    · exact hkept _ (h.programmed v hv hv0 hlt')
    · -- the page that was just programmed
      rw [hv.eq_of_wpIdx hb.grid h.wf (hv0.trans h.curline_eq.symm) heq, Flash.status_update rfl, if_pos rfl]
      decide
  · show wpIdx cfg.sp (Function.update s.wpRuh ruh wp ruh) = _
    rw [hwp, hidx]

/-- **A page write** of a handle on its first line steps one page further and costs a credit, or stops on an
    assertion. -/
theorem OnFirstLine.putPage {ruh : Nat} (L : Latency τ) (hb : LongBlock cfg) (h : OnFirstLine cfg ruh s.toFdpFtl)
    (stime lpn : Nat) :
    Sat (· = .bug) (fun r => LineStepped cfg ruh s.toFdpFtl r.2.toFdpFtl ∧
        r.2.writeCredits = u32Dec s.writeCredits ∧ r.2.creditsToRefill = s.creditsToRefill ∧
        r.2.freeLineCnt = s.freeLineCnt)
      (putPage cfg L stime ruh lpn s) := by
  unfold NvmeVirt.putPage programPage
  simp only [bind_assoc, pure_bind]
  refine (invalidateOld_kept lpn s).bind ?_
  rintro s₁ ⟨hwp, hk₁⟩
  have h₁ : OnFirstLine cfg ruh s₁.toFdpFtl := h.mono (by rw [hwp]) hk₁.kept
  refine (h₁.allocPage hb lpn).bind ?_
  rintro ⟨p, s₂⟩ ⟨hstep, hk₂⟩
  have hcharged : (consumeWriteCredit (flushWordline cfg L stime p s₂).2).toFdpFtl =
      { s₂.toFdpFtl with writeCredits := u32Dec s.writeCredits } := by
    rw [flushWordline_eq, ← hk₁.credits_eq, ← hk₂.credits_eq]
    rfl
  show LineStepped cfg ruh s.toFdpFtl (consumeWriteCredit (flushWordline cfg L stime p s₂).2).toFdpFtl ∧ _
  rw [hcharged]
  refine ⟨⟨hstep.onFirstLine.mono rfl fun _ hq => hq, ?_, ?_, fun r hr => ?_, fun q hq => hstep.kept q (hk₁.kept q hq)⟩,
    rfl, hk₂.refill_eq.trans hk₁.refill_eq, hk₂.freeLineCnt_eq.trans hk₁.freeLineCnt_eq⟩
  · rw [← hwp]
    exact hstep.lt_addressable
  · rw [← hwp]
    exact hstep.idx_eq
  · rw [← hwp]
    exact hstep.others r hr

/-! ## Young partitions -/

/-- **A young partition**: handle 0 is on line 0, the pages it has passed are not free, and every page has
    cost one of the initial credits. -/
structure Young (cfg : FtlConfig) (n : Nat) (s : Part τ) : Prop where
  wf : (s.wpRuh 0).Wf cfg.sp
  idx_eq : wpIdx cfg.sp (s.wpRuh 0) = n
  curline_eq : (s.wpRuh 0).curline = 0
  programmed : ∀ wp : WritePointer, wp.Wf cfg.sp → wp.curline = 0 → wpIdx cfg.sp wp < n →
    s.flash.status wp.cut ≠ .free
  credits_eq : s.writeCredits + n = cfg.sp.pgsPerLine

theorem young_initialised (hb : LongBlock cfg) (ctx : FdpCtx) (tm : τ) :
    Young cfg 0 (initialised cfg ctx tm) := by
  have hwp : (initialised cfg ctx tm).wpRuh 0 = .start 0 := by
    simp [initialised, preparedUsers, hb.nrRuh_pos]
  have hfirst := onFirstLine_initialised hb ctx tm hb.nrRuh_pos
  refine ⟨hfirst.wf, ?_, hfirst.curline_eq, fun wp _ _ h => absurd h (Nat.not_lt_zero _), ?_⟩
  · rw [hwp, wpIdx_start]
  · exact u32_of_lt hb.pgsPerLine_lt

/-- What a page write does to a young partition: it stays young, or the write stops on an assertion; once the page field
    has overflowed it stops. -/
theorem Young.putPage (hb : LongBlock cfg) (h : Young cfg n s) (stime lpn : Nat) :
    Sat (· = .bug) (fun r => n < addressable cfg.sp ∧ Young cfg (n + 1) r.2)
      (putPage cfg L stime 0 lpn s) := by
  have hfirst : OnFirstLine cfg 0 s.toFdpFtl := ⟨h.wf, h.curline_eq, fun wp hwf hcur hlt =>
    h.programmed wp hwf hcur (h.idx_eq ▸ hlt)⟩
  refine (hfirst.putPage L hb stime lpn).mono ?_
  rintro r ⟨hstep, hcred, -, -⟩
  have hlt := hstep.lt_addressable
  rw [h.idx_eq] at hlt
  have hidx : wpIdx cfg.sp (r.2.wpRuh 0) = n + 1 := hstep.idx_eq.trans (by rw [h.idx_eq])
  refine ⟨hlt, hstep.onFirstLine.wf, hidx, hstep.onFirstLine.curline_eq, ?_, ?_⟩
  · exact fun wp hwf hcur hlt' => hstep.onFirstLine.programmed wp hwf hcur (hidx ▸ hlt')
  · have hline := hb.addressable_lt
    have hcredits := h.credits_eq
    have h32 := hb.pgsPerLine_lt
    rw [hcred, u32Dec_of_pos (by omega) (by omega)]
    omega

theorem Young.credits_pos (hb : LongBlock cfg) (h : Young cfg n s) (hn : n ≤ addressable cfg.sp) :
    0 < s.writeCredits := by
  have hline := hb.addressable_lt
  have hcredits := h.credits_eq
  omega

theorem Young.writePage (L : Latency τ) (hb : LongBlock cfg) (h : Young cfg n s) (stime lpn : Nat) :
    Sat (· = .bug) (fun r => n < addressable cfg.sp ∧ Young cfg (n + 1) r.2)
      (writePage cfg L stime 0 lpn s) := by
  unfold NvmeVirt.writePage
  refine (h.putPage (L := L) hb stime lpn).bind ?_
  rintro ⟨t, s₁⟩ ⟨hlt, h₁⟩
  have hpos := h₁.credits_pos hb hlt
  have hno : checkAndRefillWriteCredit cfg L s₁ = .ok s₁ := by
    rw [checkAndRefillWriteCredit, if_neg (Nat.pos_iff_ne_zero.mp hpos)]
    rfl
  show Sat _ _ (checkAndRefillWriteCredit cfg L s₁ >>= _)
  rw [hno]
  exact ⟨hlt, h₁⟩

end NvmeVirt
