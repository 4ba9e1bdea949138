import NvmeVirt.Ftl.Run
import NvmeVirt.Fdp.Config
import Mathlib.Data.Set.Card
import Mathlib.Order.Interval.Finset.Nat

/-!
# `Ftl.Safety` — what a reader may assume of a partition between commands

The clauses of `Inv` restated without the ghost, over the state alone, for every state of a run:

* `mapping_bijection` — the mapping table and the reverse map are inverse to each other on the valid pages;
* `line_bookkeeping` — each line is in exactly one container, and every counter counts what it is named for.
-/

namespace NvmeVirt

open Counting

variable {τ : Type} {cfg : FtlConfig} {L : Latency τ} {s : Part τ}

/-! ## Mapping -/

theorem getRmapEnt_of_valid (hg : Geometry cfg.sp) {p : Ppa} (hp : validPpa cfg.sp p) (s : Part τ) :
    getRmapEnt cfg p s = .ok (s.rmap (pgidx cfg.sp p)) := by
  simp only [getRmapEnt, ppa2pgidx, nvmevAssert_of (pgidx_lt hg hp)]
  rfl

/-- **Mapping bijection.** A mapped LPN designates a valid page inside the geometry whose reverse-map entry
    is that LPN; a valid page is the target of its reverse-map entry and of no other LPN. -/
theorem mapping_bijection (hg : Geometry cfg.sp) (hlines : cfg.nrRuh + 1 ≤ cfg.sp.ttLines)
    (h : Reach cfg L s) :
    (∀ lpn p, s.maptbl lpn = some p →
      validPpa cfg.sp p ∧ s.flash.status p = .valid ∧ getRmapEnt cfg p s = .ok lpn) ∧
    (∀ p, validPpa cfg.sp p → s.flash.status p = .valid →
      ∃ lpn, getRmapEnt cfg p s = .ok lpn ∧ ∀ lpn', s.maptbl lpn' = some p ↔ lpn' = lpn) := by
  obtain ⟨g, hq, hinv⟩ := h.sound hg hlines
  have hfwd : ∀ lpn p, s.maptbl lpn = some p →
      validPpa cfg.sp p ∧ s.flash.status p = .valid ∧ s.rmap (pgidx cfg.sp p) = lpn := by
    intro lpn p hmap
    obtain ⟨_, hvalid, hst, hrmap, _⟩ := hinv.mapped.of_maptbl lpn p hmap (hq.not_stale lpn)
    exact ⟨hvalid, hst, hrmap⟩
  refine ⟨?_, ?_⟩
  · intro lpn p hmap
    obtain ⟨hvalid, hst, hrmap⟩ := hfwd lpn p hmap
    exact ⟨hvalid, hst, by rw [getRmapEnt_of_valid hg hvalid, hrmap]⟩
  · intro p hvalid hst
    refine ⟨_, getRmapEnt_of_valid hg hvalid s, ?_⟩
    intro lpn'
    constructor
    · intro hmap
      exact (hfwd lpn' p hmap).2.2.symm
    · rintro rfl
      exact (hinv.mapped.of_valid p hvalid hst (hq.not_cleaned p)).1

/-- Overwriting an LPN through another handle: it is mapped to the new page only. -/
theorem mapping_bijection_overwrite :
    ∃ s : Part Unit, Reach (fdpFtlConfig 67108864) Latency.instant s ∧
      s.maptbl 5 = some ⟨1, 3, 0, 0, 0⟩ ∧ s.maptbl 6 = some ⟨0, 3, 0, 0, 0⟩ ∧
      (∀ p, validPpa (fdpSp 67108864) p → s.flash.status p = .valid →
        ∃ lpn, getRmapEnt (fdpFtlConfig 67108864) p s = .ok lpn ∧
          ∀ lpn', s.maptbl lpn' = some p ↔ lpn' = lpn) := by
  obtain ⟨s, hreach, hobs⟩ := exists_reach (fdpFtlConfig 67108864) Latency.instant (fdpInitCtx 0) ()
    [⟨0, 0, 5⟩, ⟨0, 3, 6⟩, ⟨0, 3, 5⟩] (by decide +kernel) (fun s => (s.maptbl 5, s.maptbl 6))
    (a := (some ⟨1, 3, 0, 0, 0⟩, some ⟨0, 3, 0, 0, 0⟩)) (by decide +kernel)
  obtain ⟨h5, h6⟩ := Prod.mk.inj hobs
  exact ⟨s, hreach, h5, h6, (mapping_bijection (fdp_geometry (by decide) (by decide))
    (fdp_lines_enough _) hreach).2⟩

/-! ## Lines -/

/-- Where the data structures of a partition can hold a line. -/
inductive Container where
  | freeList | fullList | victimQueue
  /-- current line of a write pointer -/
  | pointer (w : Writer)

/-- `l` is in the container. -/
def FdpFtl.Holds (s : FdpFtl) (nrRuh l : Nat) : Container → Prop
  | .freeList => l ∈ s.freeLineList
  | .fullList => l ∈ s.fullLineList
  | .victimQueue => s.victimLinePq.Mem l
  | .pointer w => w.Valid nrRuh ∧ (s.wp w).curline = l

/-- **Line bookkeeping** of a partition with `nrRuh` handles. -/
structure LineBookkeeping (spp : SsdParams) (nrRuh : Nat) (s : FdpFtl) : Prop where
  one_container : ∀ l, l < spp.ttLines → ∃! c, s.Holds nrRuh l c
  line_of_holds : ∀ l c, s.Holds nrRuh l c → l < spp.ttLines
  free_line_cnt : s.freeLineCnt = Set.ncard {l | s.Holds nrRuh l .freeList}
  full_line_cnt : s.fullLineCnt = Set.ncard {l | s.Holds nrRuh l .fullList}
  victim_line_cnt : s.victimLineCnt = Set.ncard {l | s.Holds nrRuh l .victimQueue}
  blk_vpc : ∀ b, (s.flash b).vpc = countBelow (· = .valid) (s.flash b).pg spp.pgsPerBlk
  blk_ipc : ∀ b, (s.flash b).ipc = countBelow (· = .invalid) (s.flash b).pg spp.pgsPerBlk
  line_vpc : ∀ l, l < spp.ttLines → (s.lines l).vpc = lineSum spp l fun b => (s.flash b).vpc
  line_ipc : ∀ l, l < spp.ttLines → (s.lines l).ipc = lineSum spp l fun b => (s.flash b).ipc
  free_pages : ∀ p, validPpa spp p → s.Holds nrRuh p.blk .freeList → s.flash.status p = .free
  full_vpc : ∀ l, s.Holds nrRuh l .fullList → (s.lines l).vpc = spp.pgsPerLine
  victim_ipc : ∀ l, s.Holds nrRuh l .victimQueue →
    0 < (s.lines l).ipc ∧ (s.lines l).vpc + (s.lines l).ipc = spp.pgsPerLine
  pos_iff : ∀ l, l < spp.ttLines → ((s.lines l).pos ≠ 0 ↔ s.Holds nrRuh l .victimQueue)

/-- The container a place stands for; `cleaning` lines occur inside a garbage collection only. -/
def Place.container : Place → Option Container
  | .free => some .freeList
  | .full => some .fullList
  | .victim => some .victimQueue
  | .opened w => some (.pointer w)
  | .cleaning => none

theorem Inv.holds_iff {g : Ghost} {s : FdpFtl} (hinv : Inv cfg g s) (l : Nat) (c : Container) :
    s.Holds cfg.nrRuh l c ↔ l < cfg.sp.ttLines ∧ (g.place l).container = some c := by
  cases c with
  | freeList =>
      refine (hinv.placed.mem_free l).trans (and_congr_right fun _ => ?_)
      cases g.place l <;> simp [Place.container]
  | fullList =>
      refine (hinv.placed.mem_full l).trans (and_congr_right fun _ => ?_)
      cases g.place l <;> simp [Place.container]
  | victimQueue =>
      refine (hinv.placed.mem_pq l).trans (and_congr_right fun _ => ?_)
      cases g.place l <;> simp [Place.container]
  | pointer w =>
      have hplace : (g.place l).container = some (.pointer w) ↔ g.place l = .opened w := by
        cases g.place l <;> simp [Place.container]
      rw [hplace]
      constructor
      · rintro ⟨hw, rfl⟩
        exact ⟨hinv.pointed.curline_lt w hw, hinv.pointed.place_curline w hw⟩
      · rintro ⟨hl, hpl⟩
        exact hinv.pointed.opened_inv l w hl hpl

theorem ncard_mem_list {l : List Nat} (h : l.Nodup) : Set.ncard {x | x ∈ l} = l.length := by
  rw [← List.toFinset_card_of_nodup h, ← Set.ncard_coe_finset]
  congr 1
  ext x
  simp

theorem ncard_mem_pqueue {q : Pqueue Nat} {pos : Nat → Nat} (h : q.Wf pos) :
    Set.ncard {x | q.Mem x} = q.size - 1 := by
  have himage : {x | q.Mem x} = ((Finset.Ico 1 q.size).image q.d : Finset Nat) := by
    ext x
    simp [Pqueue.Mem, and_assoc]
  rw [himage, Set.ncard_coe_finset, Finset.card_image_of_injOn, Nat.card_Ico]
  intro i hi j hj he
  obtain ⟨hi1, hi2⟩ := Finset.mem_Ico.mp hi
  obtain ⟨hj1, hj2⟩ := Finset.mem_Ico.mp hj
  exact h.indexed.inj hi1 hi2 hj1 hj2 he

/-- **Line bookkeeping** holds in every state of a run, on devices with a geometry (FDP: 4 bytes to 512 GiB). -/
theorem line_bookkeeping (hg : Geometry cfg.sp) (hlines : cfg.nrRuh + 1 ≤ cfg.sp.ttLines)
    (h : Reach cfg L s) : LineBookkeeping cfg.sp cfg.nrRuh s.toFdpFtl := by
  obtain ⟨g, hq, hinv⟩ := h.sound hg hlines
  have hplaced : ∀ l, ∃ c, (g.place l).container = some c := by
    intro l
    have hne := hq.place_ne l
    cases hpl : g.place l with
    | cleaning => exact absurd hpl hne
    | _ => exact ⟨_, rfl⟩
  have hplace : ∀ {l c}, s.Holds cfg.nrRuh l c → l < cfg.sp.ttLines ∧ (g.place l).container = some c :=
    fun {l c} hh => (hinv.holds_iff l c).mp hh
  refine
    { one_container := ?_
      line_of_holds := fun l c hh => (hplace hh).1
      free_line_cnt := hinv.placed.free_cnt.trans (ncard_mem_list hinv.placed.free_nodup).symm
      full_line_cnt := hinv.placed.full_cnt.trans (ncard_mem_list hinv.placed.full_nodup).symm
      victim_line_cnt := ?_
      blk_vpc := hinv.counted.blk_vpc
      blk_ipc := hinv.counted.blk_ipc
      line_vpc := fun l hl => hinv.counted.line_vpc l hl (hq.place_ne l)
      line_ipc := fun l hl => hinv.counted.line_ipc l hl (hq.place_ne l)
      free_pages := ?_
      full_vpc := ?_
      victim_ipc := ?_
      pos_iff := ?_ }
  · intro l hl
    obtain ⟨c, hc⟩ := hplaced l
    refine ⟨c, (hinv.holds_iff l c).mpr ⟨hl, hc⟩, ?_⟩
    intro c' hc'
    exact Option.some.inj ((hplace hc').2.symm.trans hc)
  · have hcard := ncard_mem_pqueue hinv.placed.pq_wf
    have hcnt := hinv.placed.victim_cnt
    show s.victimLineCnt = Set.ncard {l | s.victimLinePq.Mem l}
    omega
  · intro p hp hfree
    obtain ⟨hl, hpl⟩ := (hinv.placed.mem_free p.blk).mp hfree
    refine (hinv.counted.status_free p hp).mpr (Or.inr ?_)
    rw [hinv.settled.free_fill p.blk hl hpl]
    exact Nat.zero_le _
  · intro l hfull
    obtain ⟨hl, hpl⟩ := (hinv.placed.mem_full l).mp hfull
    have hfill := hinv.counted.line_fill l hl
    rw [hinv.settled.full_ipc l hl hpl, hinv.settled.full_fill l hl hpl] at hfill
    exact hfill
  · intro l hvic
    obtain ⟨hl, hpl⟩ := (hinv.placed.mem_pq l).mp hvic
    refine ⟨hinv.settled.victim_ipc l hl hpl, ?_⟩
    rw [hinv.counted.line_fill l hl]
    exact hinv.settled.victim_fill l hl hpl
  · intro l hl
    constructor
    · intro hpos
      by_contra hnot
      exact hpos (hinv.placed.pos_eq l hl fun hpl => hnot ((hinv.placed.mem_pq l).mpr ⟨hl, hpl⟩))
    · intro hvic
      have hpos := (hinv.placed.pq_wf.pos_of_mem hvic).1
      exact Nat.one_le_iff_ne_zero.mp hpos

/-- Overwriting an LPN leaves an invalid page in the open line of the first handle. -/
theorem line_bookkeeping_overwrite :
    ∃ s : Part Unit, Reach (fdpFtlConfig 67108864) Latency.instant s ∧
      (s.lines 0).ipc = 1 ∧ (s.lines 0).vpc = 0 ∧ (s.lines 3).vpc = 1 ∧
      LineBookkeeping (fdpSp 67108864) fdpNrRuh s.toFdpFtl := by
  obtain ⟨s, hreach, hobs⟩ := exists_reach (fdpFtlConfig 67108864) Latency.instant (fdpInitCtx 0) ()
    [⟨0, 0, 5⟩, ⟨0, 3, 5⟩] (by decide +kernel)
    (fun s => ((s.lines 0).ipc, (s.lines 0).vpc, (s.lines 3).vpc)) (a := (1, 0, 1)) (by decide +kernel)
  obtain ⟨hipc, hvpc⟩ := Prod.mk.inj hobs
  obtain ⟨hvpc0, hvpc3⟩ := Prod.mk.inj hvpc
  exact ⟨s, hreach, hipc, hvpc0, hvpc3, line_bookkeeping (fdp_geometry (by decide) (by decide))
    (fdp_lines_enough _) hreach⟩

end NvmeVirt
