import NvmeVirt.Lib.Counting
import NvmeVirt.Lib.Outcome
import NvmeVirt.Ftl.Write
import Mathlib.Tactic.Ring

/-!
# `Ftl.Layout` — where a write pointer goes

A write pointer fills a line in a fixed order: the pages of one wordline, then the channels, then the LUNs,
then the next wordline of the block. `seqIdx` numbers the pages of a line in that order, so that a pointer
is at page number `wpIdx` and the pages before it are the ones it has programmed; `nextPage_spec` says that
`advance_write_pointer` moves by exactly one and recognises the end of the line. `pgidx`, the index of the
reverse map, is shown injective on the geometry.
-/

namespace NvmeVirt

open Counting

variable {spp : SsdParams}

/-! ## Page index of the reverse map -/

theorem validPpa.pl_eq (hg : Geometry spp) {p : Ppa} (hp : validPpa spp p) : p.pl = 0 := by
  have h := hp.2.2.1
  rw [hg.plsPerLun_eq] at h
  omega

/-- On the geometry the index is a mixed-radix number with digits channel, LUN, block, page. -/
theorem pgidx_eq (hg : Geometry spp) {p : Ppa} (hp : validPpa spp p) :
    pgidx spp p =
      ((p.ch * spp.lunsPerCh + p.lun) * spp.blksPerPl + p.blk) * spp.pgsPerBlk + p.pg := by
  have hpl : p.pl = 0 := validPpa.pl_eq hg hp
  rw [pgidx, hg.pgsPerCh_eq, hg.pgsPerLun_eq, hg.pgsPerPl_eq, hg.plsPerLun_eq, hpl]
  ring

theorem pgidx_lt (hg : Geometry spp) {p : Ppa} (hp : validPpa spp p) : pgidx spp p < spp.ttPgs := by
  rw [pgidx_eq hg hp]
  have htt : spp.ttPgs = spp.nchs * spp.lunsPerCh * spp.blksPerPl * spp.pgsPerBlk := by
    rw [hg.ttPgs_eq, hg.pgsPerCh_eq, hg.pgsPerLun_eq, hg.pgsPerPl_eq, hg.plsPerLun_eq]
    ring
  rw [htt]
  exact radix_lt (radix_lt (radix_lt hp.1 hp.2.1) hp.2.2.2.1) hp.2.2.2.2

theorem ppa2pgidx_of_valid {cfg : FtlConfig} (hg : Geometry cfg.sp) {p : Ppa} (hp : validPpa cfg.sp p) :
    ppa2pgidx cfg p = .ok (pgidx cfg.sp p) := by
  rw [ppa2pgidx, nvmevAssert_of (pgidx_lt hg hp)]
  rfl

/-- **Distinct pages have distinct reverse-map entries.** -/
theorem pgidx_inj (hg : Geometry spp) {p q : Ppa} (hp : validPpa spp p) (hq : validPpa spp q)
    (h : pgidx spp p = pgidx spp q) : p = q := by
  rw [pgidx_eq hg hp, pgidx_eq hg hq] at h
  obtain ⟨h1, hpg⟩ := radix_inj hp.2.2.2.2 hq.2.2.2.2 h
  obtain ⟨h2, hblk⟩ := radix_inj hp.2.2.2.1 hq.2.2.2.1 h1
  obtain ⟨hch, hlun⟩ := radix_inj hp.2.1 hq.2.1 h2
  have hpl : p.pl = q.pl := by rw [validPpa.pl_eq hg hp, validPpa.pl_eq hg hq]
  cases p
  cases q
  simp_all

/-! ## Order of programming within a line -/

/-- Position of a page in the order in which a write pointer visits a line. -/
def seqIdx (spp : SsdParams) (ch lun pg : Nat) : Nat :=
  ((pg / spp.pgsPerOneshotpg * spp.lunsPerCh + lun) * spp.nchs + ch) * spp.pgsPerOneshotpg +
    pg % spp.pgsPerOneshotpg

/-- Position of a write pointer in its line. -/
def wpIdx (spp : SsdParams) (wp : WritePointer) : Nat := seqIdx spp wp.ch wp.lun wp.pg

/-- The coordinates of a write pointer are inside the geometry, and `blk` is its line. -/
structure WritePointer.Wf (spp : SsdParams) (wp : WritePointer) : Prop where
  ch_lt : wp.ch < spp.nchs
  lun_lt : wp.lun < spp.lunsPerCh
  pg_lt : wp.pg < spp.pgsPerBlk
  blk_eq : wp.blk = wp.curline
  pl_eq : wp.pl = 0

theorem seqIdx_wordline (ch lun q : Nat) {r : Nat} (hr : r < spp.pgsPerOneshotpg) :
    seqIdx spp ch lun (q * spp.pgsPerOneshotpg + r) =
      ((q * spp.lunsPerCh + lun) * spp.nchs + ch) * spp.pgsPerOneshotpg + r := by
  rw [seqIdx, radix_div q hr, radix_mod q hr]

theorem seqIdx_lt (hg : Grid spp) {ch lun pg : Nat} (hch : ch < spp.nchs)
    (hlun : lun < spp.lunsPerCh) (hpg : pg < spp.pgsPerBlk) : seqIdx spp ch lun pg < spp.pgsPerLine := by
  have hq : pg / spp.pgsPerOneshotpg < spp.oneshotpgsPerBlk := by
    rw [Nat.div_lt_iff_lt_mul hg.pgsPerOneshotpg_pos, ← hg.pgsPerBlk_eq]
    exact hpg
  have hS : spp.pgsPerLine =
      spp.oneshotpgsPerBlk * spp.lunsPerCh * spp.nchs * spp.pgsPerOneshotpg := by
    rw [hg.pgsPerLine_eq, hg.pgsPerBlk_eq]
    ring
  rw [hS]
  exact radix_lt (radix_lt (radix_lt hq hlun) hch) (Nat.mod_lt _ hg.pgsPerOneshotpg_pos)

theorem seqIdx_inj (hg : Grid spp) {ch lun pg ch' lun' pg' : Nat} (hch : ch < spp.nchs)
    (hch' : ch' < spp.nchs) (hlun : lun < spp.lunsPerCh) (hlun' : lun' < spp.lunsPerCh)
    (h : seqIdx spp ch lun pg = seqIdx spp ch' lun' pg') : ch = ch' ∧ lun = lun' ∧ pg = pg' := by
  have hos := hg.pgsPerOneshotpg_pos
  obtain ⟨h1, hr⟩ := radix_inj (Nat.mod_lt _ hos) (Nat.mod_lt _ hos) h
  obtain ⟨h2, hc⟩ := radix_inj hch hch' h1
  obtain ⟨hq, hl⟩ := radix_inj hlun hlun' h2
  refine ⟨hc, hl, ?_⟩
  rw [← Nat.div_add_mod pg spp.pgsPerOneshotpg, ← Nat.div_add_mod pg' spp.pgsPerOneshotpg, hq, hr]

/-- Two pointers at the same position of a line are the same. -/
theorem WritePointer.Wf.eq_of_wpIdx {wp wp' : WritePointer} (h : wp.Wf spp) (hg : Grid spp) (h' : wp'.Wf spp)
    (hcur : wp.curline = wp'.curline) (hidx : wpIdx spp wp = wpIdx spp wp') : wp = wp' := by
  obtain ⟨hch, hlun, hpg⟩ := seqIdx_inj hg h.ch_lt h'.ch_lt h.lun_lt h'.lun_lt hidx
  have hblk : wp.blk = wp'.blk := by rw [h.blk_eq, h'.blk_eq, hcur]
  have hpl : wp.pl = wp'.pl := by rw [h.pl_eq, h'.pl_eq]
  cases wp
  cases wp'
  simp_all

theorem wpIdx_lt (hg : Geometry spp) {wp : WritePointer} (h : wp.Wf spp) :
    wpIdx spp wp < spp.pgsPerLine :=
  seqIdx_lt hg.grid h.ch_lt h.lun_lt h.pg_lt

/-- The pointer moved to page `r` of wordline `q`, on LUN `lun` of channel `ch`. -/
def WritePointer.moved (spp : SsdParams) (wp : WritePointer) (q lun ch r : Nat) : WritePointer :=
  { wp with pg := q * spp.pgsPerOneshotpg + r, lun := lun, ch := ch }

theorem WritePointer.Wf.moved {wp : WritePointer} (h : wp.Wf spp) (hg : Grid spp) {q lun ch r : Nat}
    (hq : q < spp.oneshotpgsPerBlk) (hlun : lun < spp.lunsPerCh) (hch : ch < spp.nchs)
    (hr : r < spp.pgsPerOneshotpg) : (wp.moved spp q lun ch r).Wf spp :=
  ⟨hch, hlun, Nat.lt_of_lt_of_eq (radix_lt hq hr) hg.pgsPerBlk_eq.symm, h.blk_eq, h.pl_eq⟩

theorem wpIdx_moved (wp : WritePointer) (q lun ch : Nat) {r : Nat} (hr : r < spp.pgsPerOneshotpg) :
    wpIdx spp (wp.moved spp q lun ch r) =
      ((q * spp.lunsPerCh + lun) * spp.nchs + ch) * spp.pgsPerOneshotpg + r :=
  seqIdx_wordline ch lun q hr

/-- A well-formed pointer is at some page of some wordline of its block. -/
theorem WritePointer.Wf.exists_moved {wp : WritePointer} (h : wp.Wf spp) (hg : Grid spp) :
    ∃ q r, q < spp.oneshotpgsPerBlk ∧ r < spp.pgsPerOneshotpg ∧ wp = wp.moved spp q wp.lun wp.ch r := by
  refine ⟨wp.pg / spp.pgsPerOneshotpg, wp.pg % spp.pgsPerOneshotpg, ?_, Nat.mod_lt _ hg.pgsPerOneshotpg_pos, ?_⟩
  · rw [Nat.div_lt_iff_lt_mul hg.pgsPerOneshotpg_pos, ← hg.pgsPerBlk_eq]
    exact h.pg_lt
  · rw [WritePointer.moved, Nat.mul_comm, Nat.div_add_mod]

/-- Inside a wordline the pointer moves to the next page. -/
theorem nextPage_within {wp : WritePointer} (h : wp.Wf spp) {q r : Nat} (hwp : wp = wp.moved spp q wp.lun wp.ch r)
    (hr : r + 1 < spp.pgsPerOneshotpg) :
    nextPage spp wp = .ok (some (wp.moved spp q wp.lun wp.ch (r + 1))) := by
  have hpg : wp.pg + 1 = q * spp.pgsPerOneshotpg + (r + 1) := congrArg (·.pg + 1) hwp
  have hne : (wp.pg + 1) % spp.pgsPerOneshotpg ≠ 0 := by
    rw [hpg, radix_mod _ hr]
    omega
  unfold nextPage
  rw [checkAddr, nvmevAssert_of h.pg_lt, Outcome.ok_bind, if_pos hne, hpg]
  rfl

/-- **At the end of a wordline** the pointer goes to the same wordline of the next channel, then of the next
    LUN, then to the next wordline; after the last wordline the line is used up. -/
theorem nextPage_carry (hg : Grid spp) {wp : WritePointer} (h : wp.Wf spp) {q r : Nat}
    (hwp : wp = wp.moved spp q wp.lun wp.ch r) (hr : r + 1 = spp.pgsPerOneshotpg) :
    nextPage spp wp = .ok
      (if wp.ch + 1 ≠ spp.nchs then some (wp.moved spp q wp.lun (wp.ch + 1) 0)
      else if wp.lun + 1 ≠ spp.lunsPerCh then some (wp.moved spp q (wp.lun + 1) 0 0)
      else if q + 1 ≠ spp.oneshotpgsPerBlk then some (wp.moved spp (q + 1) 0 0 0)
      else none) := by
  have hpg : wp.pg + 1 = (q + 1) * spp.pgsPerOneshotpg := by
    have hpg : wp.pg + 1 = q * spp.pgsPerOneshotpg + r + 1 := congrArg (·.pg + 1) hwp
    rw [hpg, Nat.succ_mul, Nat.add_assoc, hr]
  have hback : (q + 1) * spp.pgsPerOneshotpg - spp.pgsPerOneshotpg = q * spp.pgsPerOneshotpg := by
    rw [Nat.succ_mul, Nat.add_sub_cancel]
  have hblk : (q + 1) * spp.pgsPerOneshotpg ≠ spp.pgsPerBlk ↔ q + 1 ≠ spp.oneshotpgsPerBlk := by
    rw [hg.pgsPerBlk_eq, ne_eq, Nat.mul_left_inj (Nat.pos_iff_ne_zero.mp hg.pgsPerOneshotpg_pos)]
  simp only [nextPage, checkAddr, nvmevAssert_of h.pg_lt, nvmevAssert_of h.ch_lt, nvmevAssert_of h.lun_lt,
    Outcome.ok_bind, hpg, Nat.mul_mod_left, ne_eq, not_true_eq_false, if_false, hback, ← Nat.succ_mul]
  split
  · rfl
  split
  · rfl
  by_cases hq : q + 1 = spp.oneshotpgsPerBlk
  · rw [if_neg (fun hne => hblk.mp hne hq), if_neg (not_not.mpr hq)]
    rfl
  · rw [if_pos (hblk.mpr hq), if_pos hq]
    rfl

/-- What one step of `advance_write_pointer` does to the coordinates: the pointer moves to the next page
    of the same line, or it was on the last one. -/
theorem nextPage_spec (hg : Grid spp) {wp : WritePointer} (h : wp.Wf spp) :
    (∃ wp', nextPage spp wp = .ok (some wp') ∧ wp'.Wf spp ∧ wp'.curline = wp.curline ∧
      wpIdx spp wp' = wpIdx spp wp + 1) ∨
    (nextPage spp wp = .ok none ∧ wpIdx spp wp + 1 = spp.pgsPerLine) := by
  have hos := hg.pgsPerOneshotpg_pos
  obtain ⟨q, r, hq, hr, hwp⟩ := h.exists_moved hg
  have hidx := (congrArg (wpIdx spp) hwp).trans (wpIdx_moved wp q wp.lun wp.ch hr)
  by_cases hlast : r + 1 = spp.pgsPerOneshotpg
  case neg =>
    have hr' : r + 1 < spp.pgsPerOneshotpg := by omega
    exact Or.inl ⟨_, nextPage_within h hwp hr', h.moved hg hq h.lun_lt h.ch_lt hr', rfl,
      (wpIdx_moved wp q wp.lun wp.ch hr').trans (by rw [hidx, Nat.add_assoc])⟩
  -- the position that follows, read with a carry into one digit after the other
  have hch : wpIdx spp wp + 1 =
      ((q * spp.lunsPerCh + wp.lun) * spp.nchs + (wp.ch + 1)) * spp.pgsPerOneshotpg + 0 := by
    rw [hidx, Nat.add_assoc, hlast]
    ring
  rw [nextPage_carry hg h hwp hlast]
  split
  · rename_i hne
    have hlt : wp.ch + 1 < spp.nchs := Nat.lt_of_le_of_ne h.ch_lt hne
    exact Or.inl ⟨_, rfl, h.moved hg hq h.lun_lt hlt hos, rfl, (wpIdx_moved _ _ _ _ hos).trans hch.symm⟩
  rename_i hend
  have hlun : wpIdx spp wp + 1 =
      ((q * spp.lunsPerCh + (wp.lun + 1)) * spp.nchs + 0) * spp.pgsPerOneshotpg + 0 := by
    rw [hch, not_not.mp hend]
    ring
  split
  · rename_i hne
    have hlt : wp.lun + 1 < spp.lunsPerCh := Nat.lt_of_le_of_ne h.lun_lt hne
    exact Or.inl ⟨_, rfl, h.moved hg hq hlt hg.nchs_pos hos, rfl, (wpIdx_moved _ _ _ _ hos).trans hlun.symm⟩
  rename_i hend'
  have hwl : wpIdx spp wp + 1 =
      (((q + 1) * spp.lunsPerCh + 0) * spp.nchs + 0) * spp.pgsPerOneshotpg + 0 := by
    rw [hlun, not_not.mp hend']
    ring
  split
  · rename_i hne
    have hlt : q + 1 < spp.oneshotpgsPerBlk := Nat.lt_of_le_of_ne hq hne
    exact Or.inl ⟨_, rfl, h.moved hg hlt hg.lunsPerCh_pos hg.nchs_pos hos, rfl,
      (wpIdx_moved _ _ _ _ hos).trans hwl.symm⟩
  · rename_i hline
    refine Or.inr ⟨rfl, ?_⟩
    rw [hwl, not_not.mp hline, hg.pgsPerLine_eq, hg.pgsPerBlk_eq]
    ring

/-- The page a well-formed pointer is at; no coordinate is cut by its bit-field. -/
def WritePointer.ppa (wp : WritePointer) : Ppa :=
  { pg := wp.pg, blk := wp.blk, pl := wp.pl, lun := wp.lun, ch := wp.ch }

theorem WritePointer.ppa_valid (hg : Geometry spp) {wp : WritePointer} (h : wp.Wf spp)
    (hl : wp.curline < spp.ttLines) : validPpa spp wp.ppa := by
  refine ⟨h.ch_lt, h.lun_lt, ?_, ?_, h.pg_lt⟩
  · show wp.pl < spp.plsPerLun
    rw [h.pl_eq, hg.plsPerLun_eq]
    exact Nat.one_pos
  · show wp.blk < spp.blksPerPl
    rw [h.blk_eq, ← hg.ttLines_eq]
    exact hl

/-- A pointer at the start of line `l`. -/
def WritePointer.start (l : Nat) : WritePointer :=
  { curline := l, ch := 0, lun := 0, pg := 0, blk := l, pl := 0 }

theorem WritePointer.start_wf (hg : Geometry spp) (l : Nat) : (WritePointer.start l).Wf spp :=
  ⟨hg.nchs_pos, hg.lunsPerCh_pos, hg.pgsPerBlk_pos, rfl, rfl⟩

@[simp] theorem wpIdx_start (l : Nat) : wpIdx spp (WritePointer.start l) = 0 := by
  simp [wpIdx, seqIdx, WritePointer.start]

end NvmeVirt
