import NvmeVirt.Ftl.Safety

/-!
# `Ftl.Collection` — a garbage collection seen from outside

`AtGc` are the states in which `do_gc` can be called: between two page writes, and inside one, after the
page has been programmed and before its write credit is checked. For each of them

* `greedy_victim_choice` — `select_victim_line` finds a line exactly when a closed line has an invalid page,
  and the one it takes has the fewest valid pages;
* `garbage_collection_lossless` — a collection that does not run out of lines moves the victim's pages
  elsewhere, erases the victim once and gives back at least as many lines as it took.
-/

namespace NvmeVirt

open Counting Outcome

variable {τ : Type} {cfg : FtlConfig} {L : Latency τ} {s : Part τ}

/-- The states of a run in which `do_gc` can be called. -/
inductive AtGc (cfg : FtlConfig) (L : Latency τ) : Part τ → Prop where
  | idle {s : Part τ} (h : Reach cfg L s) : AtGc cfg L s
  | written {s s' : Part τ} {stime ruh lpn : Nat} {t : Option Nat} (h : Reach cfg L s)
      (hruh : ruh < cfg.nrRuh) (hlpn : lpn < cfg.sp.ttPgs)
      (hput : putPage cfg L stime ruh lpn s = .ok (t, s')) : AtGc cfg L s'

theorem AtGc.sound (hg : Geometry cfg.sp) (hlines : cfg.nrRuh + 1 ≤ cfg.sp.ttLines) (h : AtGc cfg L s) :
    Sound cfg s.toFdpFtl := by
  cases h with
  | idle h => exact h.sound hg hlines
  | written h hruh hlpn hput =>
      exact ((putPage_spec L hg (h.sound hg hlines) _ hruh hlpn).of_eq_ok hput).sound

/-! ## The victim -/

/-- `l` is closed: it is on the full list or in the victim queue. -/
def FdpFtl.ClosedLine (s : FdpFtl) (l : Nat) : Prop := l ∈ s.fullLineList ∨ s.victimLinePq.Mem l

/-- `v` is a greedy choice in `s`, and `s'` the partition without it in the queue. -/
structure GreedyVictim (v : Nat) (s s' : FdpFtl) : Prop where
  closed : s.ClosedLine v
  ipc_pos : 0 < (s.lines v).ipc
  vpc_le : ∀ l, s.ClosedLine l → 0 < (s.lines l).ipc → (s.lines v).vpc ≤ (s.lines l).vpc
  pos_eq : (s'.lines v).pos = 0
  queued_iff : ∀ l, s'.victimLinePq.Mem l ↔ s.victimLinePq.Mem l ∧ l ≠ v
  slot_of_pos : ∀ l, s'.victimLinePq.Mem l →
    1 ≤ (s'.lines l).pos ∧ (s'.lines l).pos < s'.victimLinePq.size ∧ s'.victimLinePq.d (s'.lines l).pos = l

/-- The closed lines with an invalid page are the queued ones. -/
theorem Inv.closed_ipc_iff {g : Ghost} {s : FdpFtl} (h : Inv cfg g s) (l : Nat) :
    s.ClosedLine l ∧ 0 < (s.lines l).ipc ↔ s.victimLinePq.Mem l := by
  constructor
  · rintro ⟨hfull | hq, hipc⟩
    · obtain ⟨hl, hpl⟩ := (h.placed.mem_full l).mp hfull
      rw [h.settled.full_ipc l hl hpl] at hipc
      exact absurd hipc (Nat.lt_irrefl 0)
    · exact hq
  · intro hq
    obtain ⟨hl, hpl⟩ := (h.placed.mem_pq l).mp hq
    exact ⟨Or.inr hq, h.settled.victim_ipc l hl hpl⟩

/-- **Greedy victim choice**, on devices with a geometry (FDP: 4 bytes to 512 GiB). -/
theorem greedy_victim_choice (hg : Geometry cfg.sp) (hlines : cfg.nrRuh + 1 ≤ cfg.sp.ttLines)
    (h : AtGc cfg L s) :
    (selectVictimLine cfg true s = none ↔ ∀ l, s.ClosedLine l → (s.lines l).ipc = 0) ∧
      ∀ v s', selectVictimLine cfg true s = some (v, s') → GreedyVictim v s.toFdpFtl s'.toFdpFtl := by
  obtain ⟨g, hq, hinv⟩ := h.sound hg hlines
  have hspec := selectVictimLine_spec hinv hq
  refine ⟨⟨?_, ?_⟩, ?_⟩
  · intro hnone l hclosed
    rw [hnone] at hspec
    by_contra hipc
    have hmem := (hinv.closed_ipc_iff l).mp ⟨hclosed, Nat.pos_of_ne_zero hipc⟩
    exact (Pqueue.peek_eq_none_iff hinv.placed.pq_wf).mp hspec l hmem
  · intro hzero
    cases hsel : selectVictimLine cfg true s with
    | none => rfl
    | some r =>
        rw [hsel] at hspec
        obtain ⟨hmem, _⟩ := Pqueue.mem_of_peek hinv.placed.pq_wf hspec.1
        obtain ⟨hclosed, hipc⟩ := (hinv.closed_ipc_iff r.1).mpr hmem
        rw [hzero r.1 hclosed] at hipc
        exact absurd hipc (Nat.lt_irrefl 0)
  · intro v s' hsel
    rw [hsel] at hspec
    obtain ⟨hpeek, hsel⟩ := hspec
    obtain ⟨hmem, _⟩ := Pqueue.mem_of_peek hinv.placed.pq_wf hpeek
    obtain ⟨hclosed, hipc⟩ := (hinv.closed_ipc_iff v).mpr hmem
    have hplaced := hsel.reclaiming.inv.placed
    refine
      { closed := hclosed
        ipc_pos := hipc
        vpc_le := fun l hl hlipc =>
          hinv.placed.pq_ordered.peek_le hinv.placed.pq_wf hpeek ((hinv.closed_ipc_iff l).mp ⟨hl, hlipc⟩)
        pos_eq := hplaced.pos_eq v hsel.victim_lt (by simp)
        queued_iff := ?_
        slot_of_pos := fun l hl => hplaced.pq_wf.pos_of_mem hl }
    intro l
    rw [hplaced.mem_pq l, hinv.placed.mem_pq l, Ghost.move_place_eq_from (by decide), and_comm (a := l ≠ v),
      and_assoc]

/-- Overwriting one LPN for a whole line: the line is closed with one valid page left and is chosen. -/
theorem greedy_victim_choice_overwritten :
    ∃ s s' : Part Unit, Reach (fdpFtlConfig 67108864) Latency.instant s ∧
      (s.lines 0).ipc = 31 ∧ (s.lines 0).vpc = 1 ∧
      GreedyVictim 0 s.toFdpFtl s'.toFdpFtl := by
  obtain ⟨s, hreach, hobs⟩ := exists_reach (fdpFtlConfig 67108864) Latency.instant (fdpInitCtx 0) ()
    (List.replicate 32 ⟨0, 0, 0⟩) (by decide +kernel)
    (fun s => ((s.lines 0).ipc, (s.lines 0).vpc,
      (selectVictimLine (fdpFtlConfig 67108864) true s).map Prod.fst))
    (a := (31, 1, some 0)) (by decide +kernel)
  obtain ⟨hipc, hobs⟩ := Prod.mk.inj hobs
  obtain ⟨hvpc, hsel⟩ := Prod.mk.inj hobs
  obtain ⟨⟨v, s'⟩, hsel, rfl⟩ := Option.map_eq_some_iff.mp hsel
  exact ⟨s, s', hreach, hipc, hvpc, (greedy_victim_choice (fdp_geometry (by decide) (by decide))
    (fdp_lines_enough _) (.idle hreach)).2 _ s' hsel⟩

/-! ## The collection -/

/-- **What a collection of line `v` leaves behind.** -/
structure LosslessCollection (cfg : FtlConfig) (v : Nat) (s s' : FdpFtl) : Prop where
  mapped_iff : ∀ lpn, (∃ p, s'.maptbl lpn = some p) ↔ ∃ p, s.maptbl lpn = some p
  kept : ∀ lpn p, s.maptbl lpn = some p → p.blk ≠ v → s'.maptbl lpn = some p
  moved : ∀ lpn p, s.maptbl lpn = some p → p.blk = v →
    ∃ p', s'.maptbl lpn = some p' ∧ p'.blk ≠ v ∧ GcTook s s' p'
  distinct : ∀ lpn lpn' p, s'.maptbl lpn = some p → s'.maptbl lpn' = some p → lpn = lpn'
  pages_free : ∀ p, validPpa cfg.sp p → p.blk = v → s'.flash.status p = .free
  erase_once : ∀ b, VictimBlock cfg.sp v b → (s'.flash b).eraseCnt = (s.flash b).eraseCnt + 1
  free_line : v ∈ s'.freeLineList ∧ (s'.lines v).ruh = -1
  wp_ruh : s'.wpRuh = s.wpRuh
  programs : nrPrograms s'.hist = nrPrograms s.hist + (s.lines v).vpc
  free_line_cnt : s.freeLineCnt ≤ s'.freeLineCnt
  refill : s'.creditsToRefill = (s.lines v).ipc ∧ 1 ≤ (s.lines v).ipc

section collection

variable {v : Nat} {s' : Part τ}

/-- After a collection an LPN is on a page of the GC pointer if and only if it was on the victim. -/
theorem Reclaimed.moved (h : Reclaimed cfg v s s') {lpn : Nat} {p : Ppa} (hp : s.maptbl lpn = some p)
    (hpv : p.blk = v) :
    ∃ p', s'.maptbl lpn = some p' ∧ p'.blk ≠ v ∧ GcTook s.toFdpFtl s'.toFdpFtl p' := by
  obtain ⟨f, hrel, hmap, _, hhist⟩ := h.relocated
  obtain ⟨g, hq, hinv⟩ := h.sound
  rcases hrel.maptbl lpn with hsame | ⟨_, p', _, _, hp', hne, htook⟩
  · -- it cannot have stayed: no page of the victim is valid any more
    rw [hmap, hp] at hsame
    obtain ⟨_, hvalid, hst, _⟩ := hinv.mapped.of_maptbl lpn p hsame (hq.not_stale lpn)
    rw [h.pages_free p hvalid hpv] at hst
    cases hst
  · refine ⟨p', by rw [← hmap]; exact hp', hne, ?_, htook.line⟩
    rw [← hhist]
    exact htook.programmed

theorem Reclaimed.kept (h : Reclaimed cfg v s s') {lpn : Nat}
    (hp : ∀ p, s.maptbl lpn = some p → p.blk ≠ v) : s'.maptbl lpn = s.maptbl lpn := by
  obtain ⟨f, hrel, hmap, _⟩ := h.relocated
  rw [← hmap]
  refine (hrel.maptbl lpn).resolve_right ?_
  rintro ⟨p, _, hp', hpv, _⟩
  exact hp p hp' hpv

/-- A collection closes at most one line of the GC pointer, and frees one: it copies fewer pages than a line
    has. -/
theorem Reclaimed.free_length_le (hg : Geometry cfg.sp) (hs : Sound cfg s.toFdpFtl)
    (h : Reclaimed cfg v s s') (hipc : 0 < (s.lines v).ipc) :
    s.freeLineList.length ≤ s'.freeLineList.length := by
  obtain ⟨f, hrel, _, hwp, _⟩ := h.relocated
  obtain ⟨_, _, hinv⟩ := hs
  obtain ⟨_, _, hinv'⟩ := h.sound
  have hruh : s'.wpRuh = s.wpRuh := (funext fun r => (congrFun hwp (.host r)).symm).trans hrel.wp_ruh
  have hroom := h.room_eq
  have hlt := wpIdx_lt hg (hinv.pointed.wf .gc trivial)
  have hlt' := wpIdx_lt hg (hinv'.pointed.wf .gc trivial)
  simp only [room, hruh] at hroom
  change wpIdx cfg.sp s.gcWp < _ at hlt
  change wpIdx cfg.sp s'.gcWp < _ at hlt'
  by_contra hlen
  have hmul : (s'.freeLineList.length + 1) * cfg.sp.pgsPerLine ≤
      s.freeLineList.length * cfg.sp.pgsPerLine := Nat.mul_le_mul_right _ (by omega)
  rw [Nat.succ_mul] at hmul
  omega

theorem Reclaimed.lossless (hg : Geometry cfg.sp) (hs : Sound cfg s.toFdpFtl) (h : Reclaimed cfg v s s')
    (hipc : 0 < (s.lines v).ipc) : LosslessCollection cfg v s.toFdpFtl s'.toFdpFtl := by
  obtain ⟨f, hrel, _, hwp, _⟩ := h.relocated
  obtain ⟨g, _, hinv⟩ := id hs
  obtain ⟨g', hq', hinv'⟩ := h.sound
  refine
    { mapped_iff := ?_
      kept := ?_
      moved := fun lpn p hp hpv => h.moved hp hpv
      distinct := ?_
      pages_free := h.pages_free
      erase_once := h.erase_once
      free_line := ⟨h.mem_free, h.ruh_eq⟩
      wp_ruh := (funext fun r => (congrFun hwp (.host r)).symm).trans hrel.wp_ruh
      programs := h.programs
      free_line_cnt := ?_
      refill := ⟨h.refill_eq, hipc⟩ }
  · intro lpn
    by_cases hmoved : ∃ p, s.maptbl lpn = some p ∧ p.blk = v
    · obtain ⟨p, hp, hpv⟩ := hmoved
      obtain ⟨p', hp', _⟩ := h.moved hp hpv
      exact iff_of_true ⟨p', hp'⟩ ⟨p, hp⟩
    · rw [h.kept fun p hp hpv => hmoved ⟨p, hp, hpv⟩]
  · intro lpn p hp hpv
    refine (h.kept fun q hq => ?_).trans hp
    rw [hp, Option.some.injEq] at hq
    rw [← hq]
    exact hpv
  · intro lpn lpn' p hp hp'
    obtain ⟨_, _, _, hback, _⟩ := hinv'.mapped.of_maptbl lpn p hp (hq'.not_stale lpn)
    obtain ⟨_, _, _, hback', _⟩ := hinv'.mapped.of_maptbl lpn' p hp' (hq'.not_stale lpn')
    exact hback.symm.trans hback'
  · rw [hinv.placed.free_cnt, hinv'.placed.free_cnt]
    exact h.free_length_le hg hs hipc

end collection

/-- A victim taken with the threshold of `force = false` is the one taken without it. -/
theorem selectVictimLine_force {force : Bool} {r : Nat × Part τ}
    (h : selectVictimLine cfg force s = some r) : selectVictimLine cfg true s = some r := by
  unfold selectVictimLine at h ⊢
  split at h
  · exact h
  · split at h
    · cases h
    · exact h

/-- **Garbage collection is lossless and makes progress.** The premise on `do_gc` is that the GC pointer's
    allocations succeed: the collection does not dereference the NULL of `get_next_free_line`. -/
theorem garbage_collection_lossless (hg : Geometry cfg.sp) (hlines : cfg.nrRuh + 1 ≤ cfg.sp.ttLines)
    (h : AtGc cfg L s) {force : Bool} {v : Nat} {s₁ : Part τ}
    (hsel : selectVictimLine cfg force s = some (v, s₁)) (halloc : doGc cfg L force s ≠ .error .nullLine) :
    ∃ s', doGc cfg L force s = .ok (some s') ∧ LosslessCollection cfg v s.toFdpFtl s'.toFdpFtl := by
  have hs := h.sound hg hlines
  obtain ⟨g, hq, hinv⟩ := id hs
  have htrue : doGc cfg L force s = doGc cfg L true s := by
    rw [doGc, doGc, hsel, selectVictimLine_force hsel]
  rw [htrue] at halloc ⊢
  have hpeek : s.victimLinePq.peek = some v := by
    have hspec := selectVictimLine_spec hinv hq
    rw [selectVictimLine_force hsel] at hspec
    exact hspec.1
  obtain ⟨r, hr, hspec⟩ := ((doGc_spec L hg hinv hq).and_ne halloc).exists_ok
  cases r with
  | none => exact absurd (hpeek.symm.trans hspec) nofun
  | some s' =>
      obtain ⟨v', hpeek', hreclaimed⟩ := hspec
      obtain rfl : v = v' := Option.some.inj (hpeek.symm.trans hpeek')
      exact ⟨s', hr, hreclaimed.lossless hg hs (hinv.victim_counters hpeek).1⟩

/-- Collecting the line left behind by the overwrites of one LPN. -/
theorem garbage_collection_lossless_overwritten :
    ∃ s s' : Part Unit, Reach (fdpFtlConfig 67108864) Latency.instant s ∧
      s.maptbl 0 = some ⟨7, 0, 0, 1, 1⟩ ∧ s'.maptbl 0 = some ⟨0, 8, 0, 0, 0⟩ ∧
      LosslessCollection (fdpFtlConfig 67108864) 0 s.toFdpFtl s'.toFdpFtl := by
  obtain ⟨s, hreach, hobs⟩ := exists_reach (fdpFtlConfig 67108864) Latency.instant (fdpInitCtx 0) ()
    (List.replicate 32 ⟨0, 0, 0⟩) (by decide +kernel)
    (fun s => (s.maptbl 0, (selectVictimLine (fdpFtlConfig 67108864) true s).map Prod.fst,
      (doGc (fdpFtlConfig 67108864) Latency.instant true s).map fun r => r.map fun s' => s'.maptbl 0))
    (a := (some ⟨7, 0, 0, 1, 1⟩, some 0, .ok (some (some ⟨0, 8, 0, 0, 0⟩)))) (by decide +kernel)
  obtain ⟨hold, hobs⟩ := Prod.mk.inj hobs
  obtain ⟨hsel, hgc⟩ := Prod.mk.inj hobs
  obtain ⟨⟨v, s₁⟩, hsel, rfl⟩ := Option.map_eq_some_iff.mp hsel
  obtain ⟨s', hs', hlossless⟩ := garbage_collection_lossless (fdp_geometry (by decide) (by decide))
    (fdp_lines_enough _) (.idle hreach) hsel (fun herr => by rw [herr] at hgc; cases hgc)
  rw [hs'] at hgc
  exact ⟨s, s', hreach, hold, Option.some.inj (Except.ok.inj hgc), hlossless⟩

end NvmeVirt
