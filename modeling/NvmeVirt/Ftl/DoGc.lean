import NvmeVirt.Ftl.Reclaim
import Mathlib.Data.List.Nodup

/-!
# `Ftl.DoGc` — one garbage collection from victim to free line

`do_gc` visits the flash pages of its victim in the order of `gcSchedule`: all blocks of the line flash page
by flash page, so a block is erased only in the last round, after all its earlier pages were cleaned
(`gcSchedule_split`). The loop invariant `GcLoop` says which pages are cleaned and which blocks are erased
after a prefix of the schedule, and how much room the copies used: one page for each valid page visited. At
the end the line is released, and the collection has gained exactly the victim's invalid pages
(`doGc_spec`).
-/

namespace NvmeVirt

open Counting Outcome

variable {τ : Type} {cfg : FtlConfig} {g : Ghost} {s : Part τ} {v : Nat}

/-! ## The schedule -/

theorem mem_gcSchedule {spp : SsdParams} {it : Nat × Nat × Nat} :
    it ∈ gcSchedule spp ↔ InSchedule spp it := by
  obtain ⟨f, ch, lun⟩ := it
  simp only [gcSchedule, InSchedule, List.mem_flatMap, List.mem_map, List.mem_range, Prod.mk.injEq]
  constructor
  · rintro ⟨f', hf, ch', hch, lun', hlun, rfl, rfl, rfl⟩
    exact ⟨hf, hch, hlun⟩
  · rintro ⟨hf, hch, hlun⟩
    exact ⟨f, hf, ch, hch, lun, hlun, rfl, rfl, rfl⟩

theorem gcSchedule_nodup (spp : SsdParams) : (gcSchedule spp).Nodup := by
  refine List.nodup_flatMap.mpr ⟨?_, ?_⟩
  · intro f _
    refine List.nodup_flatMap.mpr ⟨?_, ?_⟩
    · intro ch _
      refine List.Nodup.map ?_ List.nodup_range
      intro a b hab
      simpa using hab
    · refine List.nodup_range.imp ?_
      intro a b hab x hx hy
      simp only [List.mem_map] at hx hy
      obtain ⟨_, _, rfl⟩ := hx
      obtain ⟨_, _, he⟩ := hy
      simp only [Prod.mk.injEq] at he
      exact hab he.2.1.symm
  · refine List.nodup_range.imp ?_
    intro a b hab x hx hy
    simp only [List.mem_flatMap, List.mem_map] at hx hy
    obtain ⟨_, _, _, _, rfl⟩ := hx
    obtain ⟨_, _, _, _, he⟩ := hy
    simp only [Prod.mk.injEq] at he
    exact hab he.1.symm

/-- Flash pages are visited in increasing order. -/
theorem gcSchedule_sorted (spp : SsdParams) : (gcSchedule spp).Pairwise (fun a b => a.1 ≤ b.1) := by
  refine List.pairwise_flatMap.mpr ⟨?_, ?_⟩
  · intro f _
    refine List.pairwise_of_forall_mem_list ?_
    intro a ha b hb
    simp only [List.mem_flatMap, List.mem_map] at ha hb
    obtain ⟨_, _, _, _, rfl⟩ := ha
    obtain ⟨_, _, _, _, rfl⟩ := hb
    exact Nat.le_refl f
  · refine List.pairwise_lt_range.imp ?_
    intro f f' hff a ha b hb
    simp only [List.mem_flatMap, List.mem_map] at ha hb
    obtain ⟨_, _, _, _, rfl⟩ := ha
    obtain ⟨_, _, _, _, rfl⟩ := hb
    exact Nat.le_of_lt hff

/-- What has been visited when the loops reach `it`: not `it` itself, nothing of a later flash page, and
    everything of an earlier one. -/
theorem gcSchedule_split {spp : SsdParams} {pre post : List (Nat × Nat × Nat)} {it : Nat × Nat × Nat}
    (h : gcSchedule spp = pre ++ it :: post) :
    InSchedule spp it ∧ it ∉ pre ∧ (∀ a ∈ pre, a.1 ≤ it.1) ∧
      ∀ a, InSchedule spp a → a.1 < it.1 → a ∈ pre := by
  have hnd := gcSchedule_nodup spp
  have hsorted := gcSchedule_sorted spp
  rw [h] at hnd hsorted
  obtain ⟨_, hpost, hcross⟩ := List.pairwise_append.mp hsorted
  refine ⟨mem_gcSchedule.mp (by rw [h]; simp), ?_, fun a ha => hcross a ha it (by simp), ?_⟩
  · intro hin
    exact (List.nodup_append.mp hnd).2.2 it hin it (by simp) rfl
  · intro a ha hlt
    have hmem := mem_gcSchedule.mpr ha
    rw [h, List.mem_append, List.mem_cons] at hmem
    rcases hmem with hmem | rfl | hmem
    · exact hmem
    · exact absurd hlt (Nat.lt_irrefl _)
    · have := (List.pairwise_cons.mp hpost).1 a hmem
      omega

/-- The valid pages of a line, counted in the order of the schedule. -/
theorem sum_validIn (hg : Geometry cfg.sp) (v : Nat) (f : Flash) :
    ((gcSchedule cfg.sp).map fun it => validIn cfg.sp v it f cfg.sp.pgsPerFlashpg).sum =
      lineSum cfg.sp v fun b => countBelow (· = .valid) (f b).pg cfg.sp.pgsPerBlk := by
  have hset : (gcSchedule cfg.sp).toFinset = Finset.range cfg.sp.flashpgsPerBlk ×ˢ
      (Finset.range cfg.sp.nchs ×ˢ Finset.range cfg.sp.lunsPerCh) := by
    ext it
    simp [mem_gcSchedule, InSchedule]
  rw [← List.sum_toFinset _ (gcSchedule_nodup cfg.sp), hset, Finset.sum_product_right, lineSum]
  refine Finset.sum_congr rfl ?_
  intro x _
  rw [hg.pgsPerBlk_eq', countBelow_mul]
  rfl

/-! ## The loops -/

/-- The iteration that visits a page. -/
def visit (spp : SsdParams) (p : Ppa) : Nat × Nat × Nat := (p.pg / spp.pgsPerFlashpg, p.ch, p.lun)

theorem visit_eq_iff (hg : Geometry cfg.sp) {p : Ppa} (hp : validPpa cfg.sp p) (hblk : p.blk = v)
    {it : Nat × Nat × Nat} :
    visit cfg.sp p = it ↔ ∃ i, i < cfg.sp.pgsPerFlashpg ∧ p = pageAt cfg.sp v it i := by
  constructor
  · rintro rfl
    refine ⟨p.pg % cfg.sp.pgsPerFlashpg, Nat.mod_lt _ hg.pgsPerFlashpg_pos, ?_⟩
    have hpl := validPpa.pl_eq hg hp
    have hpg : p.pg / cfg.sp.pgsPerFlashpg * cfg.sp.pgsPerFlashpg + p.pg % cfg.sp.pgsPerFlashpg = p.pg := by
      rw [Nat.mul_comm]
      exact Nat.div_add_mod _ _
    cases p
    simp_all [pageAt, visit]
  · rintro ⟨i, hi, rfl⟩
    simp [visit, pageAt, radix_div _ hi]

theorem visit_inSchedule (hg : Geometry cfg.sp) {p : Ppa} (hp : validPpa cfg.sp p) :
    InSchedule cfg.sp (visit cfg.sp p) := by
  refine ⟨?_, hp.1, hp.2.1⟩
  show p.pg / cfg.sp.pgsPerFlashpg < cfg.sp.flashpgsPerBlk
  rw [Nat.div_lt_iff_lt_mul hg.pgsPerFlashpg_pos, ← hg.pgsPerBlk_eq']
  exact hp.2.2.2.2

/-- The iteration in which a block is erased. -/
def lastVisit (spp : SsdParams) (b : BlkAddr) : Nat × Nat × Nat := (spp.flashpgsPerBlk - 1, b.ch, b.lun)

theorem lastVisit_inj {spp : SsdParams} {b b' : BlkAddr} (hb : VictimBlock spp v b)
    (hb' : VictimBlock spp v b') : lastVisit spp b = lastVisit spp b' ↔ b = b' := by
  refine ⟨fun h => ?_, fun h => by rw [h]⟩
  simp only [lastVisit, Prod.mk.injEq, true_and] at h
  have hpl : b.pl = b'.pl := hb.pl_eq.trans hb'.pl_eq.symm
  have hblk : b.blk = b'.blk := hb.blk_eq.trans hb'.blk_eq.symm
  cases b
  cases b'
  simp_all

/-- **The loop invariant of `do_gc`**, started in `s₀`: the flash pages of the iterations `pre` have been
    cleaned, and the erases due in the iterations `done` have been made. -/
structure GcLoop (cfg : FtlConfig) (v : Nat) (s₀ : Part τ) (pre done : List (Nat × Nat × Nat)) (g : Ghost)
    (s : Part τ) : Prop where
  reclaiming : Reclaiming cfg v g s.toFdpFtl
  cleaned_iff : ∀ p, validPpa cfg.sp p → p.blk = v → (g.cleaned p ↔ visit cfg.sp p ∈ pre)
  erased_iff : ∀ b, VictimBlock cfg.sp v b → (g.erased b ↔ lastVisit cfg.sp b ∈ done)
  status_eq : ∀ p, p.blk = v → ¬ g.erased p.blkAddr → s.flash.status p = s₀.flash.status p
  relocated : Relocated v s₀.toFdpFtl s.toFdpFtl
  erase_once : ∀ b, g.erased b → (s.flash b).eraseCnt = (s₀.flash b).eraseCnt + 1
  erase_none : ∀ b, ¬ g.erased b → (s.flash b).eraseCnt = (s₀.flash b).eraseCnt
  programs : nrPrograms s.hist = nrPrograms s₀.hist +
    (pre.map fun it => validIn cfg.sp v it s₀.flash cfg.sp.pgsPerFlashpg).sum
  credits_eq : s.writeCredits = s₀.writeCredits
  refill_eq : s.creditsToRefill = s₀.creditsToRefill
  room_eq : room cfg s.toFdpFtl +
      (pre.map fun it => validIn cfg.sp v it s₀.flash cfg.sp.pgsPerFlashpg).sum =
    room cfg s₀.toFdpFtl

/-- The address `do_gc` works with is the first page of the flash page. -/
theorem gcPpa_eq (hg : Geometry cfg.sp) (hv : v < cfg.sp.ttLines) {it : Nat × Nat × Nat}
    (hit : InSchedule cfg.sp it) : gcPpa cfg.sp v it = pageAt cfg.sp v it 0 := by
  have h := gcPpa_nthPg hg hv hit hg.pgsPerFlashpg_pos
  rw [← h]
  simp only [gcPpa, Ppa.nthPg, Nat.add_zero, Nat.mod_mod]

theorem gcPpa_victimBlock (hg : Geometry cfg.sp) (hv : v < cfg.sp.ttLines) {it : Nat × Nat × Nat}
    (hit : InSchedule cfg.sp it) : VictimBlock cfg.sp v (gcPpa cfg.sp v it).blkAddr := by
  rw [gcPpa_eq hg hv hit]
  exact ⟨hit.2.1, hit.2.2, rfl, rfl⟩

section iteration

variable {s₀ : Part τ} {pre post : List (Nat × Nat × Nat)} {it : Nat × Nat × Nat}

/-- In the round of the last flash page, the block's erase is due in this very iteration. -/
theorem lastVisit_gcPpa (hg : Geometry cfg.sp) (hv : v < cfg.sp.ttLines) (hit : InSchedule cfg.sp it)
    (hlast : it.1 = cfg.sp.flashpgsPerBlk - 1) : lastVisit cfg.sp (gcPpa cfg.sp v it).blkAddr = it := by
  rw [gcPpa_eq hg hv hit]
  obtain ⟨f, ch, lun⟩ := it
  simpa [lastVisit, pageAt, Ppa.blkAddr] using hlast.symm

/-- A page about to be visited is neither cleaned nor erased. -/
theorem GcLoop.fresh (hg : Geometry cfg.sp) (h : GcLoop cfg v s₀ pre pre g s)
    (hsplit : gcSchedule cfg.sp = pre ++ it :: post) {i : Nat} (hi : i < cfg.sp.pgsPerFlashpg) :
    ¬ g.cleaned (pageAt cfg.sp v it i) ∧ ¬ g.erased (pageAt cfg.sp v it i).blkAddr := by
  obtain ⟨hit, hnotin, hle, _⟩ := gcSchedule_split hsplit
  have hvalid := pageAt_valid hg h.reclaiming.victim_lt hit hi
  have hvisit : visit cfg.sp (pageAt cfg.sp v it i) = it := (visit_eq_iff hg hvalid rfl).mpr ⟨i, hi, rfl⟩
  refine ⟨?_, ?_⟩
  · rw [h.cleaned_iff _ hvalid rfl, hvisit]
    exact hnotin
  · rw [h.erased_iff _ ⟨hit.2.1, hit.2.2, rfl, rfl⟩]
    intro hin
    have hlast := hle _ hin
    have hlt := hit.1
    -- the last flash page of the block comes no earlier than this one, so it is this one
    have heq : lastVisit cfg.sp (pageAt cfg.sp v it i).blkAddr = it := by
      have hfst : cfg.sp.flashpgsPerBlk - 1 = it.1 := by
        have : cfg.sp.flashpgsPerBlk - 1 ≤ it.1 := hlast
        omega
      obtain ⟨f, ch, lun⟩ := it
      simpa [lastVisit, pageAt, Ppa.blkAddr] using hfst
    rw [heq] at hin
    exact hnotin hin

/-- **Cleaning** the flash page of an iteration. -/
theorem GcLoop.clean (L : Latency τ) (hg : Geometry cfg.sp) (h : GcLoop cfg v s₀ pre pre g s)
    (hsplit : gcSchedule cfg.sp = pre ++ it :: post) :
    Sat (fun e => e = .nullLine ∧ room cfg s₀.toFdpFtl ≤ cfg.nrRuh * cfg.sp.pgsPerLine +
        ((gcSchedule cfg.sp).map fun it => validIn cfg.sp v it s₀.flash cfg.sp.pgsPerFlashpg).sum)
      (fun s' => ∃ g', GcLoop cfg v s₀ (pre ++ [it]) pre g' s')
      (cleanOneFlashpg cfg L (gcPpa cfg.sp v it) s) := by
  obtain ⟨hit, _⟩ := gcSchedule_split hsplit
  have hv := h.reclaiming.victim_lt
  have hfresh := fun i (hi : i < cfg.sp.pgsPerFlashpg) => h.fresh hg hsplit hi
  -- the flash page still has the contents it had when the collection started
  have hcount : validIn cfg.sp v it s.flash cfg.sp.pgsPerFlashpg =
      validIn cfg.sp v it s₀.flash cfg.sp.pgsPerFlashpg :=
    countBelow_congr fun i hi => h.status_eq _ rfl (hfresh i hi).2
  have hclean := cleanOneFlashpg_spec L hg h.reclaiming hit (fun i hi => (hfresh i hi).1)
    (fun i hi => h.reclaiming.status_ne_free hg (pageAt_valid hg hv hit hi) rfl (hfresh i hi).2)
  rw [hcount] at hclean
  have hroom := h.room_eq
  refine (hclean.mono_error ?_).mono ?_
  · rintro e ⟨rfl, hle'⟩
    refine ⟨rfl, ?_⟩
    rw [hsplit, List.map_append, List.sum_append, List.map_cons, List.sum_cons]
    omega
  · rintro s' ⟨g', hcop, hclean'⟩
    rw [hcount] at hcop
    refine ⟨g', hcop.reclaiming, ?_, ?_, ?_, h.relocated.trans hcop.relocated, ?_, ?_, ?_,
      hcop.credits_eq.trans h.credits_eq, hcop.refill_eq.trans h.refill_eq, ?_⟩
    · intro p hp hblk
      rw [hclean', h.cleaned_iff p hp hblk, List.mem_append, List.mem_singleton, visit_eq_iff hg hp hblk]
    · rw [hcop.erased_eq]
      exact h.erased_iff
    · intro p hblk hne
      rw [hcop.erased_eq] at hne
      exact (hcop.status_eq p hblk).trans (h.status_eq p hblk hne)
    · intro b hb
      rw [hcop.erased_eq] at hb
      exact (hcop.erase_cnt b).trans (h.erase_once b hb)
    · intro b hb
      rw [hcop.erased_eq] at hb
      exact (hcop.erase_cnt b).trans (h.erase_none b hb)
    · rw [hcop.programs, h.programs, List.map_append, List.sum_append, List.map_singleton,
        List.sum_singleton, Nat.add_assoc]
    · have hroom' := hcop.room_eq
      rw [List.map_append, List.sum_append, List.map_singleton, List.sum_singleton]
      omega

/-- **Erasing** the block in the iteration of its last flash page. -/
theorem GcLoop.erase (hg : Geometry cfg.sp) (h : GcLoop cfg v s₀ (pre ++ [it]) pre g s)
    (hsplit : gcSchedule cfg.sp = pre ++ it :: post) (hlast : it.1 = cfg.sp.flashpgsPerBlk - 1) :
    GcLoop cfg v s₀ (pre ++ [it]) (pre ++ [it]) (g.erase (gcPpa cfg.sp v it).blkAddr)
      (markBlockFree cfg (gcPpa cfg.sp v it) s) := by
  obtain ⟨hit, hnotin, _, hearlier⟩ := gcSchedule_split hsplit
  have hv := h.reclaiming.victim_lt
  have hb := gcPpa_victimBlock hg hv hit
  have hvisit := lastVisit_gcPpa hg hv hit hlast
  have hnot : ¬ g.erased (gcPpa cfg.sp v it).blkAddr := by
    rw [h.erased_iff _ hb, hvisit]
    exact hnotin
  -- the other flash pages of the block were visited in earlier rounds
  have hall : ∀ q, validPpa cfg.sp q → q.blkAddr = (gcPpa cfg.sp v it).blkAddr → g.cleaned q := by
    intro q hq hqb
    rw [h.cleaned_iff q hq ((congrArg BlkAddr.blk hqb).trans hb.blk_eq), List.mem_append,
      List.mem_singleton]
    have hin := visit_inSchedule hg hq
    rw [gcPpa_eq hg hv hit] at hqb
    have hch : q.ch = it.2.1 := congrArg BlkAddr.ch hqb
    have hlun : q.lun = it.2.2 := congrArg BlkAddr.lun hqb
    by_cases hfst : (visit cfg.sp q).1 = it.1
    · exact Or.inr (Prod.ext hfst (Prod.ext hch hlun))
    · refine Or.inl (hearlier _ hin ?_)
      have := hin.1
      omega
  have hmoved : Relocated v s.toFdpFtl (markBlockFree cfg (gcPpa cfg.sp v it) s).toFdpFtl :=
    .refl rfl (List.suffix_cons ..) rfl rfl
  refine ⟨h.reclaiming.erase hg hb hnot hall, h.cleaned_iff, ?_, ?_, h.relocated.trans hmoved, ?_, ?_,
    h.programs, h.credits_eq, h.refill_eq, ?_⟩
  · intro b hvb
    show g.erased b ∨ b = _ ↔ _
    rw [h.erased_iff b hvb, List.mem_append, List.mem_singleton, ← lastVisit_inj hvb hb, hvisit]
  · intro p hblk hne
    obtain ⟨hne', hpb⟩ := not_or.mp hne
    have hst : (markBlockFree cfg (gcPpa cfg.sp v it) s).flash.status p = s.flash.status p := by
      show (Function.update s.flash _ _ p.blkAddr).pg p.pg = _
      rw [Function.update_of_ne hpb]
      rfl
    rw [hst]
    exact h.status_eq p hblk hne'
  · intro b he
    show (Function.update s.flash _ _ b).eraseCnt = _
    by_cases hbb : b = (gcPpa cfg.sp v it).blkAddr
    · rw [hbb, Function.update_self, ← h.erase_none _ hnot]
      rfl
    · rw [Function.update_of_ne hbb]
      exact h.erase_once b (he.resolve_right hbb)
  · intro b he
    obtain ⟨hne, hbb⟩ := not_or.mp he
    show (Function.update s.flash _ _ b).eraseCnt = _
    rw [Function.update_of_ne hbb]
    exact h.erase_none b hne
  · exact h.room_eq

/-- In an earlier round no erase is due. -/
theorem GcLoop.noErase (h : GcLoop cfg v s₀ (pre ++ [it]) pre g s)
    (hlast : it.1 ≠ cfg.sp.flashpgsPerBlk - 1) : GcLoop cfg v s₀ (pre ++ [it]) (pre ++ [it]) g s := by
  refine ⟨h.reclaiming, h.cleaned_iff, ?_, h.status_eq, h.relocated, h.erase_once, h.erase_none, h.programs,
    h.credits_eq, h.refill_eq, h.room_eq⟩
  intro b hvb
  rw [h.erased_iff b hvb, List.mem_append, List.mem_singleton]
  refine (or_iff_left ?_).symm
  intro he
  exact hlast (congrArg Prod.fst he).symm

/-- The loop invariant does not depend on statistics and latencies. -/
theorem GcLoop.congr {done : List (Nat × Nat × Nat)} (h : GcLoop cfg v s₀ pre done g s) {s' : Part τ}
    (hs : s'.toFdpFtl = s.toFdpFtl) : GcLoop cfg v s₀ pre done g s' := by
  refine ⟨by rw [hs]; exact h.reclaiming, h.cleaned_iff, h.erased_iff, ?_, ?_, ?_, ?_, ?_, ?_, ?_, ?_⟩
  · rw [hs]; exact h.status_eq
  · rw [hs]; exact h.relocated
  · rw [hs]; exact h.erase_once
  · rw [hs]; exact h.erase_none
  · rw [hs]; exact h.programs
  · rw [hs]; exact h.credits_eq
  · rw [hs]; exact h.refill_eq
  · rw [hs]; exact h.room_eq

/-- **One iteration.** -/
theorem GcLoop.step (L : Latency τ) (hg : Geometry cfg.sp) (h : GcLoop cfg v s₀ pre pre g s)
    (hsplit : gcSchedule cfg.sp = pre ++ it :: post) :
    Sat (fun e => e = .nullLine ∧ room cfg s₀.toFdpFtl ≤ cfg.nrRuh * cfg.sp.pgsPerLine +
        ((gcSchedule cfg.sp).map fun it => validIn cfg.sp v it s₀.flash cfg.sp.pgsPerFlashpg).sum)
      (fun s' => ∃ g', GcLoop cfg v s₀ (pre ++ [it]) (pre ++ [it]) g' s') (gcIter cfg L v s it) := by
  unfold gcIter
  refine (h.clean L hg hsplit).bind ?_
  rintro s' ⟨g', hc⟩
  split
  · rename_i hlast
    have herase := hc.erase hg hsplit hlast
    rw [markBlockFreeChecks_eq, ok_bind]
    split
    · exact ⟨_, herase.congr rfl⟩
    · exact ⟨_, herase⟩
  · rename_i hlast
    exact ⟨g', hc.noErase hlast⟩

end iteration

/-! ## Releasing the line -/

/-- The ghost after `mark_line_free`. -/
def Ghost.release (g : Ghost) (v : Nat) : Ghost :=
  { place := Function.update g.place v .free
    fill := Function.update g.fill v 0
    ahead := g.ahead
    stale := g.stale
    cleaned := fun _ => False
    erased := fun _ => False }

theorem markLineFree_lines (v x : Nat) (s : Part τ) :
    ((markLineFree v s).lines x).vpc = (if x = v then 0 else (s.lines x).vpc) ∧
      ((markLineFree v s).lines x).ipc = (if x = v then 0 else (s.lines x).ipc) ∧
      ((markLineFree v s).lines x).ruh = (if x = v then -1 else (s.lines x).ruh) ∧
      ((markLineFree v s).lines x).id = (s.lines x).id ∧
      ((markLineFree v s).lines x).pos = (s.lines x).pos := by
  by_cases hx : x = v
  · subst hx
    simp [markLineFree]
  · simp [markLineFree, hx]

theorem lineSum_eq_zero {spp : SsdParams} {l : Nat} {F : BlkAddr → Nat}
    (h : ∀ b, VictimBlock spp l b → F b = 0) : lineSum spp l F = 0 := by
  refine Finset.sum_eq_zero ?_
  intro x hx
  rw [Finset.mem_product, Finset.mem_range, Finset.mem_range] at hx
  exact h _ ⟨hx.1, hx.2, rfl, rfl⟩

section ghost

variable {x v : Nat} {pl : Place}

theorem Ghost.release_place_of_ne (g : Ghost) (h : x ≠ v) : (g.release v).place x = g.place x :=
  Function.update_of_ne h _ _

theorem Ghost.release_fill_of_ne (g : Ghost) (h : x ≠ v) : (g.release v).fill x = g.fill x :=
  Function.update_of_ne h _ _

/-- A line that is somewhere else than on the free list was there before. -/
theorem Ghost.of_release_place (hpl : pl ≠ .free) (hx : (g.release v).place x = pl) : x ≠ v ∧ g.place x = pl := by
  have hxv : x ≠ v := by
    rintro rfl
    exact hpl (hx.symm.trans (Function.update_self ..))
  exact ⟨hxv, (g.release_place_of_ne hxv).symm.trans hx⟩

end ghost

/-- Nothing is in progress once the line is released. -/
theorem Reclaiming.release_quiet {s : FdpFtl} (h : Reclaiming cfg v g s) : (g.release v).Quiet := by
  refine ⟨?_, h.ahead_eq, h.not_stale, fun _ hf => hf, fun _ hf => hf⟩
  intro l hl
  obtain ⟨hlv, hl'⟩ := Ghost.of_release_place (by decide) hl
  exact hlv ((h.cleaning_iff l).mp hl')

/-- No write pointer was on the victim. -/
theorem Reclaiming.release_pointed (h : Reclaiming cfg v g s.toFdpFtl) :
    Pointed cfg.sp cfg.nrRuh (g.release v) (markLineFree v s).toFdpFtl := by
  have hp := h.inv.pointed
  have hcur : ∀ w : Writer, w.Valid cfg.nrRuh → (s.wp w).curline ≠ v := by
    intro w hw he
    have hopen := hp.place_curline w hw
    rw [he, (h.cleaning_iff v).mpr rfl] at hopen
    cases hopen
  exact
    { wf := hp.wf
      curline_lt := hp.curline_lt
      place_curline := fun w hw => (g.release_place_of_ne (hcur w hw)).trans (hp.place_curline w hw)
      fill_curline := fun w hw => (g.release_fill_of_ne (hcur w hw)).trans (hp.fill_curline w hw)
      opened_inv := fun l w hl hpl => hp.opened_inv l w hl (Ghost.of_release_place (by simp) hpl).2 }

theorem Reclaiming.release_settled (h : Reclaiming cfg v g s.toFdpFtl) :
    Settled cfg.sp (g.release v) (markLineFree v s).toFdpFtl := by
  have hs := h.inv.settled
  -- a line in another place than the free list is not the victim, and is as it was
  have hkept : ∀ {x pl}, pl ≠ .free → (g.release v).place x = pl → g.place x = pl ∧
      (g.release v).fill x = g.fill x ∧ ((markLineFree v s).lines x).ipc = (s.lines x).ipc := by
    intro x pl hpl hx
    obtain ⟨hxv, hx'⟩ := Ghost.of_release_place hpl hx
    exact ⟨hx', g.release_fill_of_ne hxv, (markLineFree_lines v x s).2.1.trans (if_neg hxv)⟩
  refine ⟨fun x hx hpl => ?_, fun x hx hpl => ?_, fun x hx hpl => ?_, fun x hx hpl => ?_,
    fun x hx hpl => ?_, fun x _ hpl => absurd hpl (h.release_quiet.place_ne x)⟩
  · by_cases hxv : x = v
    · rw [hxv]
      exact Function.update_self ..
    · rw [g.release_fill_of_ne hxv]
      exact hs.free_fill x hx ((g.release_place_of_ne hxv).symm.trans hpl)
  all_goals obtain ⟨hpl', hfill, hipc⟩ := hkept (by decide) hpl
  · exact hfill.trans (hs.full_fill x hx hpl')
  · exact hipc.trans (hs.full_ipc x hx hpl')
  · exact hfill.trans (hs.victim_fill x hx hpl')
  · exact Nat.lt_of_lt_of_eq (hs.victim_ipc x hx hpl') hipc.symm

section release

variable (hg : Geometry cfg.sp) (h : Reclaiming cfg v g s.toFdpFtl)
  (hall : ∀ b, VictimBlock cfg.sp v b → g.erased b)
include hg h hall

theorem Reclaiming.status_free {p : Ppa} (hp : validPpa cfg.sp p) (hblk : p.blk = v) :
    s.flash.status p = .free :=
  (h.inv.counted.status_free p hp).mpr
    (Or.inl (hall p.blkAddr ⟨hp.1, hp.2.1, validPpa.pl_eq hg hp, hblk⟩))

theorem Reclaiming.release_counted :
    Counted cfg.sp (g.release v) (markLineFree v s).toFdpFtl := by
  have hc := h.inv.counted
  have hzero : ∀ st : PgStatus, st ≠ .free → ∀ b, VictimBlock cfg.sp v b →
      countBelow (· = st) (s.flash b).pg cfg.sp.pgsPerBlk = 0 := by
    intro st hst b hb
    refine countBelow_eq_zero ?_
    intro i hi he
    have hfree := h.status_free hg hall (p := { pg := i, blk := b.blk, pl := b.pl, lun := b.lun, ch := b.ch })
      ⟨hb.ch_lt, hb.lun_lt, by rw [hb.pl_eq, hg.plsPerLun_eq]; exact Nat.one_pos, by
        rw [hb.blk_eq, ← hg.ttLines_eq]; exact h.victim_lt, hi⟩ hb.blk_eq
    exact hst (he.symm.trans hfree)
  have hne : ∀ x, x ≠ v → g.place x ≠ .cleaning := fun x hx hc => hx ((h.cleaning_iff x).mp hc)
  refine
    { status_free := ?_
      blk_vpc := hc.blk_vpc
      blk_ipc := hc.blk_ipc
      line_vpc := ?_
      line_ipc := ?_
      line_fill := ?_ }
  · intro q hq
    by_cases hqv : q.blk = v
    · refine iff_of_true (h.status_free hg hall hq hqv) (Or.inr ?_)
      simp [Ghost.release, hqv]
    · have hnot : ¬ g.erased q.blkAddr := fun he =>
        hqv ((h.cleaning_iff q.blk).mp (h.inv.confined.of_erased q.blkAddr he))
      have hold := hc.status_free q hq
      show s.flash.status q = .free ↔ _
      simpa [Ghost.release, hqv, hnot] using hold
  · intro x hx _
    rw [(markLineFree_lines v x s).1]
    split
    · rename_i hxv
      subst hxv
      refine (lineSum_eq_zero fun b hb => ?_).symm
      exact (hc.blk_vpc b).trans (hzero .valid (by decide) b hb)
    · rename_i hxv
      exact hc.line_vpc x hx (hne x hxv)
  · intro x hx _
    rw [(markLineFree_lines v x s).2.1]
    split
    · rename_i hxv
      subst hxv
      refine (lineSum_eq_zero fun b hb => ?_).symm
      exact (hc.blk_ipc b).trans (hzero .invalid (by decide) b hb)
    · rename_i hxv
      exact hc.line_ipc x hx (hne x hxv)
  · intro x hx
    rw [(markLineFree_lines v x s).1, (markLineFree_lines v x s).2.1]
    by_cases hxv : x = v
    · subst hxv
      simp [Ghost.release]
    · simpa [Ghost.release, hxv] using hc.line_fill x hx

/-- A cleaned page lies on the victim, which has been erased: the valid pages are mapped. -/
theorem Reclaiming.release_mapped : Mapped cfg.sp (g.release v) (markLineFree v s).toFdpFtl where
  of_maptbl := by
    intro x p hx hns
    obtain ⟨hlt, hp, hst, hr, _⟩ := h.inv.mapped.of_maptbl x p hx hns
    exact ⟨hlt, hp, hst, hr, fun hf => hf⟩
  of_valid := by
    intro p hp hst _
    refine h.inv.mapped.of_valid p hp hst fun hc => ?_
    have hpv := (h.cleaning_iff p.blk).mp (h.inv.confined.of_cleaned p hc)
    have hst' : s.flash.status p = .valid := hst
    rw [h.status_free hg hall hp hpv] at hst'
    cases hst'

theorem Reclaiming.release_labelled :
    Labelled cfg.sp cfg.nrRuh (g.release v) (markLineFree v s).toFdpFtl := by
  have hl := h.inv.labelled
  have hruh : ∀ x, x ≠ v → ((markLineFree v s).lines x).ruh = (s.lines x).ruh := fun x hx =>
    (markLineFree_lines v x s).2.2.1.trans (if_neg hx)
  have hself : ((markLineFree v s).lines v).ruh = -1 := (markLineFree_lines v v s).2.2.1.trans (if_pos rfl)
  refine ⟨fun l w hlt hpl => ?_, fun l hlt hpl => ?_, fun l hlt => ?_, hl.of_free, fun q hq hst => ?_⟩
  · obtain ⟨hlv, hpl'⟩ := Ghost.of_release_place (by simp) hpl
    exact (hruh l hlv).trans (hl.opened_ruh l w hlt hpl')
  · by_cases hlv : l = v
    · rw [hlv]
      exact hself
    · exact (hruh l hlv).trans (hl.free_ruh l hlt ((g.release_place_of_ne hlv).symm.trans hpl))
  · by_cases hlv : l = v
    · rw [hlv]
      exact ⟨.gc, trivial, hself⟩
    · rw [hruh l hlv]
      exact hl.ruh_range l hlt
  · have hst' : s.flash.status q ≠ .free := hst
    rw [hruh q.blk fun he => hst' (h.status_free hg hall hq he)]
    exact hl.of_programmed q hq hst'

/-- **`mark_line_free`** ends the collection: the invariant holds again. -/
theorem Reclaiming.release : Inv cfg (g.release v) (markLineFree v s).toFdpFtl where
  confined := h.release_quiet.confined
  counted := h.release_counted hg hall
  placed := (h.inv.placed.addFree h.victim_lt ((h.cleaning_iff v).mpr rfl)).congr rfl
    (fun x => (markLineFree_lines v x s).2.2.2.1) (fun x => (markLineFree_lines v x s).2.2.2.2)
    (fun x hx => (markLineFree_lines v x s).1.trans (if_neg (Ghost.of_release_place (by decide) hx).1))
    rfl rfl rfl rfl rfl rfl
  pointed := h.release_pointed
  settled := h.release_settled
  mapped := h.release_mapped hg hall
  labelled := h.release_labelled hg hall
  balanced := h.inv.balanced

end release

/-! ## The whole collection -/

/-- `select_victim_line` took `v` from the queue: nothing but its place and queue positions changed. -/
structure Selected (cfg : FtlConfig) (v : Nat) (g : Ghost) (s s₁ : Part τ) : Prop where
  victim_lt : v < cfg.sp.ttLines
  was_victim : g.place v = .victim
  reclaiming : Reclaiming cfg v (g.move v .cleaning) s₁.toFdpFtl
  frame : s₁ = { s with
    lines := s₁.lines
    victimLinePq := s₁.victimLinePq
    victimLineCnt := s₁.victimLineCnt }
  lines_eq : ∀ x, s₁.lines x = { s.lines x with pos := (s₁.lines x).pos }

theorem selectVictimLine_spec (h : Inv cfg g s.toFdpFtl) (hq : g.Quiet) :
    match selectVictimLine cfg true s with
    | none => s.victimLinePq.peek = none
    | some (v, s₁) => s.victimLinePq.peek = some v ∧ Selected cfg v g s s₁ := by
  unfold selectVictimLine
  cases hpeek : s.victimLinePq.peek with
  | none => rfl
  | some v =>
      obtain ⟨hlt, hvic, hplaced⟩ := h.placed.popVictim hpeek
      have hcl : ∀ x, (g.move v .cleaning).place x = .cleaning ↔ x = v := by
        intro x
        rw [Ghost.move_place_eq_to]
        exact or_iff_left (hq.place_ne x)
      have hne : ∀ {x q}, q ≠ .cleaning → (g.move v .cleaning).place x = q → g.place x = q := by
        intro x q hqc hx
        exact ((Ghost.move_place_eq_from (Ne.symm hqc)).mp hx).2
      have hcnt : ∀ x, ((popped v s).lines x).vpc = (s.lines x).vpc ∧
          ((popped v s).lines x).ipc = (s.lines x).ipc ∧ ((popped v s).lines x).ruh = (s.lines x).ruh := by
        intro x
        rw [popped_lines]
        exact ⟨rfl, rfl, rfl⟩
      refine ⟨rfl, hlt, hvic, ⟨?_, hlt, hq.ahead_eq, hq.not_stale, hcl⟩, rfl, fun x => popped_lines v x s⟩
      exact
        { confined := ⟨fun p hp => absurd hp (hq.not_cleaned p), fun b hb => absurd hb (hq.not_erased b)⟩
          counted :=
            { status_free := h.counted.status_free
              blk_vpc := h.counted.blk_vpc
              blk_ipc := h.counted.blk_ipc
              line_vpc := fun l hl _ => (hcnt l).1.trans (h.counted.line_vpc l hl (hq.place_ne l))
              line_ipc := fun l hl _ => (hcnt l).2.1.trans (h.counted.line_ipc l hl (hq.place_ne l))
              line_fill := fun l hl =>
                (congrArg₂ (· + ·) (hcnt l).1 (hcnt l).2.1).trans (h.counted.line_fill l hl) }
          placed := hplaced
          pointed := h.pointed.congr rfl rfl rfl (fun x w =>
            Ghost.move_place_eq_iff (by rw [hvic]; simp) (by simp))
          settled :=
            { free_fill := fun x hx hpl => h.settled.free_fill x hx (hne (by decide) hpl)
              full_fill := fun x hx hpl => h.settled.full_fill x hx (hne (by decide) hpl)
              full_ipc := fun x hx hpl =>
                (hcnt x).2.1.trans (h.settled.full_ipc x hx (hne (by decide) hpl))
              victim_fill := fun x hx hpl => h.settled.victim_fill x hx (hne (by decide) hpl)
              victim_ipc := fun x hx hpl =>
                Nat.lt_of_lt_of_eq (h.settled.victim_ipc x hx (hne (by decide) hpl)) (hcnt x).2.1.symm
              cleaning_fill := fun x hx hpl => by
                rw [(hcl x).mp hpl]
                exact h.settled.victim_fill v hlt hvic }
          mapped := ⟨h.mapped.of_maptbl, h.mapped.of_valid⟩
          labelled := h.labelled.congr (fun x => (hcnt x).2.2) rfl (fun x w => hne (by simp))
            (fun x => hne (by decide)) (fun _ _ => Iff.rfl)
          balanced := h.balanced }

/-- **What `do_gc` does**: it reclaims the victim at the head of the queue and gains its invalid pages as
    room; the same number is what the next refill of the write credits will be. The LPNs of the victim have
    moved to pages of the GC pointer, and the victim is erased and free. -/
structure Reclaimed (cfg : FtlConfig) (v : Nat) (s s' : Part τ) : Prop where
  sound : Sound cfg s'.toFdpFtl
  relocated : ∃ f : FdpFtl, Relocated v s.toFdpFtl f ∧ f.maptbl = s'.maptbl ∧ f.wp = s'.wp ∧ f.hist = s'.hist
  pages_free : ∀ p, validPpa cfg.sp p → p.blk = v → s'.flash.status p = .free
  erase_once : ∀ b, VictimBlock cfg.sp v b → (s'.flash b).eraseCnt = (s.flash b).eraseCnt + 1
  erase_none : ∀ b, b.blk ≠ v → (s'.flash b).eraseCnt = (s.flash b).eraseCnt
  mem_free : v ∈ s'.freeLineList
  programs : nrPrograms s'.hist = nrPrograms s.hist + (s.lines v).vpc
  ruh_eq : (s'.lines v).ruh = -1
  refill_eq : s'.creditsToRefill = (s.lines v).ipc
  credits_eq : s'.writeCredits = s.writeCredits
  room_eq : room cfg s'.toFdpFtl = room cfg s.toFdpFtl + (s.lines v).ipc

/-- A victim has an invalid page, and its counters add up to a line. -/
theorem Inv.victim_counters (h : Inv cfg g s.toFdpFtl) (hpeek : s.victimLinePq.peek = some v) :
    0 < (s.lines v).ipc ∧ (s.lines v).vpc + (s.lines v).ipc = cfg.sp.pgsPerLine := by
  obtain ⟨hmem, _⟩ := Pqueue.mem_of_peek h.placed.pq_wf hpeek
  obtain ⟨hlt, hvic⟩ := (h.placed.mem_pq v).mp hmem
  exact ⟨h.settled.victim_ipc v hlt hvic,
    (h.counted.line_fill v hlt).trans (h.settled.victim_fill v hlt hvic)⟩

/-- The state in which the loops of `do_gc` start. -/
def gcStart (L : Latency τ) (v : Nat) (s : Part τ) : Part τ :=
  { gcEmit L v s with creditsToRefill := (s.lines v).ipc }

theorem gcStart_toFdpFtl (L : Latency τ) (v : Nat) (s : Part τ) :
    (gcStart L v s).toFdpFtl = { s.toFdpFtl with creditsToRefill := (s.lines v).ipc } := by
  unfold gcStart
  rw [← gcEmit_toFdpFtl L v s]

/-- The loops, run to the end from a freshly selected victim. -/
theorem gcLoops_spec (L : Latency τ) (hg : Geometry cfg.sp) (hq : g.Quiet) {s₁ : Part τ}
    (hsel : Selected cfg v g s s₁) :
    Sat (fun e => e = .nullLine ∧ room cfg (gcStart L v s₁).toFdpFtl ≤ cfg.nrRuh * cfg.sp.pgsPerLine +
        ((gcSchedule cfg.sp).map fun it =>
          validIn cfg.sp v it (gcStart L v s₁).flash cfg.sp.pgsPerFlashpg).sum)
      (fun s' => ∃ g', GcLoop cfg v (gcStart L v s₁) (gcSchedule cfg.sp) (gcSchedule cfg.sp) g' s')
      ((gcSchedule cfg.sp).foldlM (gcIter cfg L v) (gcStart L v s₁)) := by
  refine sat_foldlM (fun pre (s' : Part τ) => ∃ g', GcLoop cfg v (gcStart L v s₁) pre pre g' s') _ ?_ ?_
  · rintro pre it post s' hsplit ⟨g', hloop⟩
    exact hloop.step L hg hsplit
  · have hr := hsel.reclaiming
    refine ⟨g.move v .cleaning, ⟨?_, hr.victim_lt, hr.ahead_eq, hr.not_stale, hr.cleaning_iff⟩, ?_, ?_,
      fun _ _ _ => rfl, .refl rfl (List.suffix_refl _) rfl rfl, ?_, fun _ _ => rfl, rfl, rfl, rfl, rfl⟩
    · rw [gcStart_toFdpFtl]
      exact hr.inv.setCredits s₁.writeCredits (s₁.lines v).ipc
    · intro p _ _
      exact iff_of_false (hq.not_cleaned p) (by simp)
    · intro b _
      exact iff_of_false (hq.not_erased b) (by simp)
    · intro b hb
      exact absurd hb (hq.not_erased b)

theorem reclaim_spec (L : Latency τ) (hg : Geometry cfg.sp) (h : Inv cfg g s.toFdpFtl) (hq : g.Quiet)
    {s₁ : Part τ} (hsel : Selected cfg v g s s₁) :
    Sat (fun e => e = .nullLine ∧
        room cfg s.toFdpFtl ≤ cfg.nrRuh * cfg.sp.pgsPerLine + (s.lines v).vpc)
      (fun s' => Reclaimed cfg v s s') (reclaim cfg L v s₁) := by
  have hftl := gcEmit_toFdpFtl L v s₁
  have hstart := gcStart_toFdpFtl L v s₁
  have hid : ((gcEmit L v s₁).lines v).id = v := by
    rw [hftl]
    exact hsel.reclaiming.inv.placed.id_eq v
  have hipc : (s₁.lines v).ipc = (s.lines v).ipc := by rw [hsel.lines_eq v]
  have hblk : v % 2 ^ blkBits = v := by
    have := hsel.victim_lt
    rw [hg.ttLines_eq] at this
    exact Nat.mod_eq_of_lt (Nat.lt_of_lt_of_le this hg.blksPerPl_le)
  -- the copies are as many as the victim has valid pages
  have hvpc : ((gcSchedule cfg.sp).map fun it =>
      validIn cfg.sp v it (gcStart L v s₁).flash cfg.sp.pgsPerFlashpg).sum = (s.lines v).vpc := by
    have hflash : (gcStart L v s₁).flash = s.flash := by rw [hstart, hsel.frame]
    rw [sum_validIn hg, h.counted.line_vpc v hsel.victim_lt (hq.place_ne v), hflash]
    exact congrArg _ (funext fun b => (h.counted.blk_vpc b).symm)
  have hroom : room cfg (gcStart L v s₁).toFdpFtl = room cfg s.toFdpFtl := by
    rw [hstart, hsel.frame]
    exact room_congr rfl rfl
  have hloops := gcLoops_spec L hg hq hsel
  rw [hvpc, hroom] at hloops
  unfold reclaim
  dsimp only
  rw [hid, hblk]
  have hbegin : ({ gcEmit L v s₁ with creditsToRefill := ((gcEmit L v s₁).lines v).ipc } : Part τ) =
      gcStart L v s₁ := by
    unfold gcStart
    rw [hftl]
  rw [hbegin]
  refine hloops.bind ?_
  rintro s' ⟨g', hloop⟩
  have hall : ∀ b, VictimBlock cfg.sp v b → g'.erased b := by
    intro b hb
    rw [hloop.erased_iff b hb, mem_gcSchedule]
    have := hg.flashpgsPerBlk_pos
    exact ⟨by show cfg.sp.flashpgsPerBlk - 1 < _; omega, hb.ch_lt, hb.lun_lt⟩
  have hflash : (gcStart L v s₁).flash = s.flash := by rw [hstart, hsel.frame]
  have hhist : (gcStart L v s₁).hist = s.hist := by rw [hstart, hsel.frame]
  have hbefore : Relocated v s.toFdpFtl (gcStart L v s₁).toFdpFtl := by
    rw [hstart, hsel.frame]
    exact .refl rfl (List.suffix_refl _) rfl rfl
  refine
    { sound := ⟨_, hloop.reclaiming.release_quiet, hloop.reclaiming.release hg hall⟩
      relocated := ⟨s'.toFdpFtl, hbefore.trans hloop.relocated, rfl, rfl, rfl⟩
      pages_free := fun p hp hpv => hloop.reclaiming.status_free hg hall hp hpv
      erase_once := ?_
      erase_none := ?_
      mem_free := List.mem_append_right _ (List.mem_singleton_self v)
      programs := ?_
      ruh_eq := (markLineFree_lines v v s').2.2.1.trans (if_pos rfl)
      refill_eq := ?_
      credits_eq := ?_
      room_eq := ?_ }
  · intro b hb
    rw [← hflash]
    exact hloop.erase_once b (hall b hb)
  · intro b hb
    rw [← hflash]
    refine hloop.erase_none b fun he => hb ?_
    exact (hloop.reclaiming.cleaning_iff _).mp (hloop.reclaiming.inv.confined.of_erased b he)
  · rw [← hvpc, ← hhist]
    exact hloop.programs
  · show s'.creditsToRefill = _
    rw [hloop.refill_eq, hstart, ← hipc]
  · show s'.writeCredits = _
    rw [hloop.credits_eq, hstart, hsel.frame]
  · have hend := hloop.room_eq
    rw [hvpc, hroom] at hend
    have hfree : room cfg (markLineFree v s').toFdpFtl = room cfg s'.toFdpFtl + cfg.sp.pgsPerLine := by
      simp only [room, markLineFree, List.length_append, List.length_singleton, Nat.succ_mul]
      omega
    have hfill := h.counted.line_fill v hsel.victim_lt
    rw [h.settled.victim_fill v hsel.victim_lt hsel.was_victim] at hfill
    show room cfg (markLineFree v s').toFdpFtl = _
    omega

/-- **`do_gc`** with `force` set fails only when no line has an invalid page, and otherwise reclaims the
    head of the victim queue or runs out of free lines on the way. -/
theorem doGc_spec (L : Latency τ) (hg : Geometry cfg.sp) (h : Inv cfg g s.toFdpFtl) (hq : g.Quiet) :
    Sat (fun e => e = .nullLine ∧ ∃ v, s.victimLinePq.peek = some v ∧
        room cfg s.toFdpFtl ≤ cfg.nrRuh * cfg.sp.pgsPerLine + (s.lines v).vpc)
      (fun r => match r with
        | none => s.victimLinePq.peek = none
        | some s' => ∃ v, s.victimLinePq.peek = some v ∧ Reclaimed cfg v s s')
      (doGc cfg L true s) := by
  have hsel := selectVictimLine_spec h hq
  unfold doGc
  split
  · rename_i hnone
    rw [hnone] at hsel
    exact hsel
  · rename_i v s₁ hsome
    rw [hsome] at hsel
    obtain ⟨hpeek, hsel⟩ := hsel
    refine ((reclaim_spec L hg h hq hsel).mono_error ?_).bind ?_
    · rintro e ⟨rfl, hroom⟩
      exact ⟨rfl, v, hpeek, hroom⟩
    · intro s' hs'
      exact ⟨v, hpeek, hs'⟩

end NvmeVirt
