import NvmeVirt.Pqueue.Order
import NvmeVirt.Ftl.Gc
import NvmeVirt.Ftl.Layout

/-!
# `Ftl.Invariant` — what holds of a partition between and inside its operations

The invariant is stated over the state and a `Ghost`, which records what the data structures only encode:
where each line is, how many of its pages are programmed, and — in the middle of an operation — what is
temporarily out of step. Between two page writes the ghost is `Quiet`. Inside one, the exceptions are

* `ahead w`: pages programmed through the pointer `w` and not yet stepped over by `advance_write_pointer`;
* `stale`: logical pages whose old page is already invalid and whose table entry is about to be replaced;
* `cleaned`: pages of the victim that garbage collection has copied, still marked valid until the erase;
* `erased`: blocks of the victim already erased while the line's counters still describe its old contents.

Each clause group is a structure of its own, over the fields of the state it reads, so that a step that
does not touch those fields keeps it for free.
-/

namespace NvmeVirt

open Counting

/-! ## Ghost state -/

/-- Where a line is. -/
inductive Place where
  | free
  | full
  | victim
  /-- current line of a write pointer -/
  | opened (w : Writer)
  /-- popped from the victim queue, not yet back on the free list -/
  | cleaning
deriving DecidableEq

/-- A write pointer of a partition with `nr` handles. -/
def Writer.Valid (nr : Nat) : Writer → Prop
  | .host r => r < nr
  | .gc => True

/-- The write pointer of a writer. -/
def FdpFtl.wp (s : FdpFtl) : Writer → WritePointer
  | .host r => s.wpRuh r
  | .gc => s.gcWp

/-- The label a line carries while it is open for a writer. -/
def Writer.label : Writer → Int
  | .host r => r
  | .gc => -1

structure Ghost where
  place : Nat → Place
  /-- pages of a line programmed since its last erase -/
  fill : Nat → Nat
  ahead : Writer → Nat
  stale : Nat → Prop
  cleaned : Ppa → Prop
  erased : BlkAddr → Prop

/-- No operation is in progress. -/
structure Ghost.Quiet (g : Ghost) : Prop where
  place_ne : ∀ l, g.place l ≠ .cleaning
  ahead_eq : ∀ w, g.ahead w = 0
  not_stale : ∀ lpn, ¬ g.stale lpn
  not_cleaned : ∀ p, ¬ g.cleaned p
  not_erased : ∀ b, ¬ g.erased b

/-- The exceptions of a garbage collection concern its victim only. -/
structure Ghost.Confined (g : Ghost) : Prop where
  of_cleaned : ∀ p, g.cleaned p → g.place p.blk = .cleaning
  of_erased : ∀ b, g.erased b → g.place b.blk = .cleaning

/-- Between operations there are no exceptions. -/
theorem Ghost.Quiet.confined {g : Ghost} (h : g.Quiet) : g.Confined :=
  ⟨fun p hp => absurd hp (h.not_cleaned p), fun b hb => absurd hb (h.not_erased b)⟩

/-! ## Clause groups -/

/-- Sum over the blocks of a line. -/
def lineSum (spp : SsdParams) (l : Nat) (f : BlkAddr → Nat) : Nat :=
  ∑ x ∈ Finset.range spp.nchs ×ˢ Finset.range spp.lunsPerCh, f ⟨x.1, x.2, 0, l⟩

/-- **Counters.** A line is programmed exactly up to its fill, block counters count their pages, line
    counters add up their blocks. -/
structure Counted (spp : SsdParams) (g : Ghost) (s : FdpFtl) : Prop where
  status_free : ∀ p, validPpa spp p →
    (s.flash.status p = .free ↔ g.erased p.blkAddr ∨ g.fill p.blk ≤ seqIdx spp p.ch p.lun p.pg)
  blk_vpc : ∀ b, (s.flash b).vpc = countBelow (· = .valid) (s.flash b).pg spp.pgsPerBlk
  blk_ipc : ∀ b, (s.flash b).ipc = countBelow (· = .invalid) (s.flash b).pg spp.pgsPerBlk
  line_vpc : ∀ l, l < spp.ttLines → g.place l ≠ .cleaning →
    (s.lines l).vpc = lineSum spp l fun b => (s.flash b).vpc
  line_ipc : ∀ l, l < spp.ttLines → g.place l ≠ .cleaning →
    (s.lines l).ipc = lineSum spp l fun b => (s.flash b).ipc
  line_fill : ∀ l, l < spp.ttLines → (s.lines l).vpc + (s.lines l).ipc = g.fill l

/-- **Containers.** The lists, the victim queue and the stored queue positions say where each line is. -/
structure Placed (spp : SsdParams) (g : Ghost) (s : FdpFtl) : Prop where
  id_eq : ∀ l, (s.lines l).id = l
  mem_free : ∀ l, l ∈ s.freeLineList ↔ l < spp.ttLines ∧ g.place l = .free
  free_nodup : s.freeLineList.Nodup
  free_cnt : s.freeLineCnt = s.freeLineList.length
  mem_full : ∀ l, l ∈ s.fullLineList ↔ l < spp.ttLines ∧ g.place l = .full
  full_nodup : s.fullLineList.Nodup
  full_cnt : s.fullLineCnt = s.fullLineList.length
  pq_wf : s.victimLinePq.Wf (victimLineGetPos s.lines)
  pq_ordered : s.victimLinePq.Ordered (victimLineGetPri s.lines)
  mem_pq : ∀ l, s.victimLinePq.Mem l ↔ l < spp.ttLines ∧ g.place l = .victim
  victim_cnt : s.victimLineCnt + 1 = s.victimLinePq.size
  pos_eq : ∀ l, l < spp.ttLines → g.place l ≠ .victim → (s.lines l).pos = 0

/-- **Write pointers.** Each pointer is on its own line, at the page the line is programmed up to, and no
    line is open without a pointer. -/
structure Pointed (spp : SsdParams) (nr : Nat) (g : Ghost) (s : FdpFtl) : Prop where
  wf : ∀ w : Writer, w.Valid nr → (s.wp w).Wf spp
  curline_lt : ∀ w : Writer, w.Valid nr → (s.wp w).curline < spp.ttLines
  place_curline : ∀ w : Writer, w.Valid nr → g.place (s.wp w).curline = .opened w
  fill_curline : ∀ w : Writer, w.Valid nr →
    g.fill (s.wp w).curline = wpIdx spp (s.wp w) + g.ahead w
  opened_inv : ∀ l w, l < spp.ttLines → g.place l = .opened w → w.Valid nr ∧ (s.wp w).curline = l

/-- **Closed and free lines.** What a place says about a line's pages. -/
structure Settled (spp : SsdParams) (g : Ghost) (s : FdpFtl) : Prop where
  free_fill : ∀ l, l < spp.ttLines → g.place l = .free → g.fill l = 0
  full_fill : ∀ l, l < spp.ttLines → g.place l = .full → g.fill l = spp.pgsPerLine
  full_ipc : ∀ l, l < spp.ttLines → g.place l = .full → (s.lines l).ipc = 0
  victim_fill : ∀ l, l < spp.ttLines → g.place l = .victim → g.fill l = spp.pgsPerLine
  victim_ipc : ∀ l, l < spp.ttLines → g.place l = .victim → 0 < (s.lines l).ipc
  cleaning_fill : ∀ l, l < spp.ttLines → g.place l = .cleaning → g.fill l = spp.pgsPerLine

/-- **Mapping.** The table and the reverse map are inverse to each other on the valid pages. -/
structure Mapped (spp : SsdParams) (g : Ghost) (s : FdpFtl) : Prop where
  of_maptbl : ∀ lpn p, s.maptbl lpn = some p → ¬ g.stale lpn →
    lpn < spp.ttPgs ∧ validPpa spp p ∧ s.flash.status p = .valid ∧ s.rmap (pgidx spp p) = lpn ∧
      ¬ g.cleaned p
  of_valid : ∀ p, validPpa spp p → s.flash.status p = .valid → ¬ g.cleaned p →
    s.maptbl (s.rmap (pgidx spp p)) = some p ∧ ¬ g.stale (s.rmap (pgidx spp p))

/-- The writer a line's label names. -/
def writerOfLabel (ruh : Int) : Writer := if 0 ≤ ruh then .host ruh.toNat else .gc

/-- **Labels.** Every programmed page was programmed by the writer its line is labelled with. -/
structure Labelled (spp : SsdParams) (nr : Nat) (g : Ghost) (s : FdpFtl) : Prop where
  opened_ruh : ∀ l w, l < spp.ttLines → g.place l = .opened w → (s.lines l).ruh = w.label
  free_ruh : ∀ l, l < spp.ttLines → g.place l = .free → (s.lines l).ruh = -1
  ruh_range : ∀ l, l < spp.ttLines → ∃ w : Writer, w.Valid nr ∧ (s.lines l).ruh = w.label
  of_free : ∀ p, validPpa spp p → s.flash.status p = .free → lastWriter s.hist p = none
  of_programmed : ∀ p, validPpa spp p → s.flash.status p ≠ .free →
    lastWriter s.hist p = some (writerOfLabel (s.lines p.blk).ruh)

/-- Number of pages of a block that are not `PG_FREE`. -/
def NandBlock.programmed (spp : SsdParams) (b : NandBlock) : Nat :=
  countBelow (· ≠ .free) b.pg spp.pgsPerBlk

/-- Number of pages of the partition that are not `PG_FREE`. -/
def programmedPages (spp : SsdParams) (f : Flash) : Nat :=
  ∑ l ∈ Finset.range spp.blksPerPl, lineSum spp l fun b => (f b).programmed spp

/-- **Wear balance.** Every page ever programmed is still programmed or was erased with its block. -/
def Balanced (spp : SsdParams) (s : FdpFtl) : Prop :=
  nrPrograms s.hist = programmedPages spp s.flash + spp.pgsPerBlk * nrErases s.hist

/-- **The invariant of a partition.** -/
structure Inv (cfg : FtlConfig) (g : Ghost) (s : FdpFtl) : Prop where
  confined : g.Confined
  counted : Counted cfg.sp g s
  placed : Placed cfg.sp g s
  pointed : Pointed cfg.sp cfg.nrRuh g s
  settled : Settled cfg.sp g s
  mapped : Mapped cfg.sp g s
  labelled : Labelled cfg.sp cfg.nrRuh g s
  balanced : Balanced cfg.sp s

/-- The invariant between operations. -/
def Sound (cfg : FtlConfig) (s : FdpFtl) : Prop := ∃ g : Ghost, g.Quiet ∧ Inv cfg g s

/-! ## Room -/

/-- **Room**: pages that can still be programmed without reclaiming a line. -/
def room (cfg : FtlConfig) (s : FdpFtl) : Nat :=
  s.freeLineList.length * cfg.sp.pgsPerLine +
    ∑ r ∈ Finset.range cfg.nrRuh, (cfg.sp.pgsPerLine - wpIdx cfg.sp (s.wpRuh r)) +
    (cfg.sp.pgsPerLine - wpIdx cfg.sp s.gcWp)

/-! ## What each clause group depends on -/

/-- The counters are a matter of the flash and the lines, and of where the lines are and how far programmed. -/
theorem Counted.congr {spp : SsdParams} {g g' : Ghost} {s s' : FdpFtl} (h : Counted spp g s)
    (hflash : s'.flash = s.flash) (hlines : s'.lines = s.lines) (hplace : g'.place = g.place)
    (hfill : g'.fill = g.fill) (herased : g'.erased = g.erased) : Counted spp g' s' where
  status_free := by rw [hflash, hfill, herased]; exact h.status_free
  blk_vpc := by rw [hflash]; exact h.blk_vpc
  blk_ipc := by rw [hflash]; exact h.blk_ipc
  line_vpc := by rw [hflash, hlines, hplace]; exact h.line_vpc
  line_ipc := by rw [hflash, hlines, hplace]; exact h.line_ipc
  line_fill := by rw [hlines, hfill]; exact h.line_fill

/-- What a place says depends on no page. -/
theorem Settled.congr {spp : SsdParams} {g g' : Ghost} {s s' : FdpFtl} (h : Settled spp g s)
    (hlines : s'.lines = s.lines) (hplace : g'.place = g.place) (hfill : g'.fill = g.fill) :
    Settled spp g' s' where
  free_fill := by rw [hplace, hfill]; exact h.free_fill
  full_fill := by rw [hplace, hfill]; exact h.full_fill
  full_ipc := by rw [hlines, hplace]; exact h.full_ipc
  victim_fill := by rw [hplace, hfill]; exact h.victim_fill
  victim_ipc := by rw [hlines, hplace]; exact h.victim_ipc
  cleaning_fill := by rw [hplace, hfill]; exact h.cleaning_fill

/-- The clauses on write pointers ask of the places only which lines are open. -/
theorem Pointed.congr {spp : SsdParams} {nr : Nat} {g g' : Ghost} {s s' : FdpFtl}
    (h : Pointed spp nr g s) (hwp : s'.wp = s.wp) (hfill : g'.fill = g.fill) (hahead : g'.ahead = g.ahead)
    (hplace : ∀ x w, g'.place x = .opened w ↔ g.place x = .opened w) : Pointed spp nr g' s' where
  wf := by rw [hwp]; exact h.wf
  curline_lt := by rw [hwp]; exact h.curline_lt
  place_curline := by
    intro w hw
    rw [hwp]
    exact (hplace _ w).mpr (h.place_curline w hw)
  fill_curline := by rw [hwp, hfill, hahead]; exact h.fill_curline
  opened_inv := by
    intro l w hl hpl
    rw [hwp]
    exact h.opened_inv l w hl ((hplace l w).mp hpl)

/-- The labels survive where no line is opened or freed and no page is programmed or erased. -/
theorem Labelled.congr {spp : SsdParams} {nr : Nat} {g g' : Ghost} {s s' : FdpFtl}
    (h : Labelled spp nr g s) (hruh : ∀ x, (s'.lines x).ruh = (s.lines x).ruh)
    (hhist : s'.hist = s.hist)
    (hopen : ∀ x w, g'.place x = .opened w → g.place x = .opened w)
    (hfree : ∀ x, g'.place x = .free → g.place x = .free)
    (hst : ∀ q, validPpa spp q → (s'.flash.status q = .free ↔ s.flash.status q = .free)) :
    Labelled spp nr g' s' where
  opened_ruh := by
    intro l w hl hpl
    rw [hruh]
    exact h.opened_ruh l w hl (hopen l w hpl)
  free_ruh := by
    intro l hl hpl
    rw [hruh]
    exact h.free_ruh l hl (hfree l hpl)
  ruh_range := by
    intro l hl
    rw [hruh]
    exact h.ruh_range l hl
  of_free := by
    intro q hq hf
    rw [hhist]
    exact h.of_free q hq ((hst q hq).mp hf)
  of_programmed := by
    intro q hq hf
    rw [hhist, hruh]
    exact h.of_programmed q hq (fun he => hf ((hst q hq).mpr he))

/-- Room is a matter of the free list and the write pointers. -/
theorem room_congr {cfg : FtlConfig} {s s' : FdpFtl} (hfree : s'.freeLineList = s.freeLineList)
    (hwp : s'.wp = s.wp) : room cfg s' = room cfg s := by
  have hr : ∀ r, s'.wpRuh r = s.wpRuh r := fun r => congrFun hwp (.host r)
  have hgc : s'.gcWp = s.gcWp := congrFun hwp .gc
  simp only [room, hfree, hr, hgc]

/-! ## Small facts -/

/-- A line opened for a writer gets that writer's label. -/
@[simp] theorem label_writerOf (io : IoType) (ruh : Nat) : (writerOf io ruh).label = ruhLabel io ruh := by
  cases io <;> rfl

/-- Labels tell the writers apart. -/
@[simp] theorem writerOfLabel_label (w : Writer) : writerOfLabel w.label = w := by
  cases w with
  | host r => simp [writerOfLabel, Writer.label]
  | gc => simp [writerOfLabel, Writer.label]

/-- `__get_wp` of a writer the partition has. -/
theorem getWp_eq {τ : Type} {cfg : FtlConfig} {io : IoType} {ruh : Nat}
    (h : (writerOf io ruh).Valid cfg.nrRuh) (s : Part τ) :
    getWp cfg io ruh s = .ok (s.wp (writerOf io ruh)) := by
  cases io with
  | user =>
      have hr : ruh < cfg.nrRuh := h
      simp only [getWp, nvmevAssert_of hr]
      rfl
  | gc => rfl

theorem wp_setWp_self {τ : Type} (io : IoType) (ruh : Nat) (wp : WritePointer) (s : Part τ) :
    (setWp io ruh wp s).wp (writerOf io ruh) = wp := by
  cases io <;> simp [setWp, writerOf, FdpFtl.wp]

theorem wp_setWp_of_ne {τ : Type} (io : IoType) (ruh : Nat) (wp : WritePointer) (s : Part τ) {w : Writer}
    (h : w ≠ writerOf io ruh) : (setWp io ruh wp s).wp w = s.wp w := by
  cases io with
  | user =>
      cases w with
      | host r =>
          have hr : r ≠ ruh := fun he => h (by rw [he]; rfl)
          simp [setWp, FdpFtl.wp, hr]
      | gc => rfl
  | gc =>
      cases w with
      | host r => rfl
      | gc => exact absurd rfl h

end NvmeVirt
