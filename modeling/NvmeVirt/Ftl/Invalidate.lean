import NvmeVirt.Ftl.Containers
import NvmeVirt.Ftl.Frame

/-!
# `Ftl.Invalidate` — a host write gives up the old page of its LPN

`mark_page_invalid` turns one valid page invalid and moves its line between containers: a full line enters
the victim queue, a queued line sinks or rises in it, an open line stays where it is. Afterwards the
invariant holds with the LPN marked `stale`: its table entry still names the page just invalidated.
-/

namespace NvmeVirt

open Counting Outcome

/-! ## Changing one page of the flash array -/

/-- Changing page `p` of its block and nothing else of the page table of that block. -/
theorem Flash.status_update {f : Flash} {p : Ppa} {b : NandBlock} {st : PgStatus}
    (hb : b.pg = Function.update (f p.blkAddr).pg p.pg st) (q : Ppa) :
    Flash.status (Function.update f p.blkAddr b) q = if q = p then st else f.status q := by
  unfold Flash.status
  by_cases hq : q.blkAddr = p.blkAddr
  · rw [hq, Function.update_self, hb]
    by_cases hpg : q.pg = p.pg
    · have hqp : q = p := by
        cases q
        cases p
        simp_all [Ppa.blkAddr]
      rw [if_pos hqp, hpg, Function.update_self]
    · have hqp : q ≠ p := fun he => hpg (by rw [he])
      rw [if_neg hqp, Function.update_of_ne hpg]
  · have hqp : q ≠ p := fun he => hq (by rw [he])
    rw [if_neg hqp, Function.update_of_ne hq]

theorem lineSum_update_of_ne {spp : SsdParams} {l : Nat} {f : Flash} {a : BlkAddr} {b : NandBlock}
    (F : NandBlock → Nat) (h : a.blk ≠ l) :
    lineSum spp l (fun x => F (Function.update f a b x)) = lineSum spp l (fun x => F (f x)) := by
  unfold lineSum
  refine Finset.sum_congr rfl ?_
  intro x _
  have hx : (⟨x.1, x.2, 0, l⟩ : BlkAddr) ≠ a := fun he => h (by rw [← he])
  simp only [Function.update_of_ne hx]

theorem lineSum_update_self {spp : SsdParams} {f : Flash} {a : BlkAddr} {b : NandBlock}
    (F : NandBlock → Nat) (hch : a.ch < spp.nchs) (hlun : a.lun < spp.lunsPerCh) (hpl : a.pl = 0) :
    lineSum spp a.blk (fun x => F (Function.update f a b x)) + F (f a) =
      lineSum spp a.blk (fun x => F (f x)) + F b := by
  have ha : (⟨a.ch, a.lun, 0, a.blk⟩ : BlkAddr) = a := by
    cases a
    simp_all
  have hmem : ((a.ch, a.lun) : Nat × Nat) ∈
      Finset.range spp.nchs ×ˢ Finset.range spp.lunsPerCh :=
    Finset.mem_product.mpr ⟨Finset.mem_range.mpr hch, Finset.mem_range.mpr hlun⟩
  have h := sum_add_of_eq_off (f := fun x : Nat × Nat => F (f ⟨x.1, x.2, 0, a.blk⟩))
    (g := fun x : Nat × Nat => F (Function.update f a b ⟨x.1, x.2, 0, a.blk⟩)) hmem (by
      intro x _ hx
      have hne : (⟨x.1, x.2, 0, a.blk⟩ : BlkAddr) ≠ a := by
        intro he
        apply hx
        rw [← he]
      simp only [Function.update_of_ne hne])
  simp only [ha, Function.update_self] at h
  exact h

/-- A block-local change of the programmed pages shows in the partition's total. -/
theorem programmedPages_update {spp : SsdParams} {f : Flash} {a : BlkAddr} {b : NandBlock}
    (hch : a.ch < spp.nchs) (hlun : a.lun < spp.lunsPerCh) (hpl : a.pl = 0)
    (hblk : a.blk < spp.blksPerPl) :
    programmedPages spp (Function.update f a b) + (f a).programmed spp =
      programmedPages spp f + b.programmed spp := by
  have hself := lineSum_update_self (f := f) (b := b) (NandBlock.programmed spp) hch hlun hpl
  have h := sum_add_of_eq_off (f := fun l => lineSum spp l fun x => (f x).programmed spp)
    (g := fun l => lineSum spp l fun x => (Function.update f a b x).programmed spp)
    (Finset.mem_range.mpr hblk) (by
      intro l _ hl
      exact lineSum_update_of_ne (NandBlock.programmed spp) (Ne.symm hl))
  unfold programmedPages
  omega

theorem validPpa.blkAddr_coords {spp : SsdParams} (hg : Geometry spp) {p : Ppa}
    (hp : validPpa spp p) :
    p.blkAddr.ch < spp.nchs ∧ p.blkAddr.lun < spp.lunsPerCh ∧ p.blkAddr.pl = 0 ∧
      p.blkAddr.blk < spp.blksPerPl :=
  ⟨hp.1, hp.2.1, validPpa.pl_eq hg hp, hp.2.2.2.1⟩

theorem validPpa.blk_lt {spp : SsdParams} (hg : Geometry spp) {p : Ppa} (hp : validPpa spp p) :
    p.blk < spp.ttLines := by
  rw [hg.ttLines_eq]
  exact hp.2.2.2.1

/-! ## Counters of one valid page -/

section counters

variable {spp : SsdParams} {g : Ghost} {s : FdpFtl}

theorem Counted.blk_pos (hc : Counted spp g s) {p : Ppa} (hp : validPpa spp p)
    (hst : s.flash.status p = .valid) :
    0 < (s.flash p.blkAddr).vpc ∧
      (s.flash p.blkAddr).vpc + (s.flash p.blkAddr).ipc ≤ spp.pgsPerBlk := by
  rw [hc.blk_vpc, hc.blk_ipc]
  refine ⟨countBelow_pos hp.2.2.2.2 hst, countBelow_add_le ?_⟩
  intro a ha
  simp [ha]

/-- A block's counter is part of its line's. -/
theorem le_lineSum {l : Nat} {b : BlkAddr} (F : BlkAddr → Nat) (hch : b.ch < spp.nchs)
    (hlun : b.lun < spp.lunsPerCh) (hpl : b.pl = 0) (hl : b.blk = l) : F b ≤ lineSum spp l F := by
  have hb : (⟨b.ch, b.lun, 0, l⟩ : BlkAddr) = b := by
    cases b
    simp_all
  have h := Finset.single_le_sum (f := fun x : Nat × Nat => F ⟨x.1, x.2, 0, l⟩)
    (s := Finset.range spp.nchs ×ˢ Finset.range spp.lunsPerCh) (a := (b.ch, b.lun))
    (fun _ _ => Nat.zero_le _)
    (Finset.mem_product.mpr ⟨Finset.mem_range.mpr hch, Finset.mem_range.mpr hlun⟩)
  simp only [hb] at h
  exact h

theorem Counted.line_pos (hg : Geometry spp) (hc : Counted spp g s) {p : Ppa} (hp : validPpa spp p)
    (hpl : g.place p.blk ≠ .cleaning) (hst : s.flash.status p = .valid) : 0 < (s.lines p.blk).vpc := by
  have hb := (hc.blk_pos hp hst).1
  obtain ⟨hch, hlun, hpl0, _⟩ := hp.blkAddr_coords hg
  have hle : (s.flash p.blkAddr).vpc ≤ lineSum spp p.blk fun b => (s.flash b).vpc :=
    le_lineSum (fun b => (s.flash b).vpc) hch hlun hpl0 rfl
  rw [hc.line_vpc p.blk (hp.blk_lt hg) hpl]
  omega

/-- **One page of the flash changes.** The counting clauses follow once the block's and the line's
    counters move by the same amounts; how the programmed pages and the fill change is left to the step. -/
theorem Counted.setPage (hg : Geometry spp) (hc : Counted spp g s) {p : Ppa} (hp : validPpa spp p)
    {s' : FdpFtl} {g' : Ghost} (st : PgStatus) {b : NandBlock}
    (hflash : s'.flash = Function.update s.flash p.blkAddr b)
    (hpg : b.pg = Function.update (s.flash p.blkAddr).pg p.pg st)
    (hvpc : b.vpc + (if s.flash.status p = .valid then 1 else 0) =
      (s.flash p.blkAddr).vpc + (if st = .valid then 1 else 0))
    (hipc : b.ipc + (if s.flash.status p = .invalid then 1 else 0) =
      (s.flash p.blkAddr).ipc + (if st = .invalid then 1 else 0))
    (hlv : ∀ x, (s'.lines x).vpc + (if x = p.blk then (s.flash p.blkAddr).vpc else 0) =
      (s.lines x).vpc + (if x = p.blk then b.vpc else 0))
    (hli : ∀ x, (s'.lines x).ipc + (if x = p.blk then (s.flash p.blkAddr).ipc else 0) =
      (s.lines x).ipc + (if x = p.blk then b.ipc else 0))
    (hplace : ∀ x, g'.place x ≠ .cleaning → g.place x ≠ .cleaning)
    (hfree : ∀ q, validPpa spp q →
      (s'.flash.status q = .free ↔
        g'.erased q.blkAddr ∨ g'.fill q.blk ≤ seqIdx spp q.ch q.lun q.pg))
    (hfill : ∀ x, x < spp.ttLines → (s'.lines x).vpc + (s'.lines x).ipc = g'.fill x) :
    Counted spp g' s' := by
  obtain ⟨hch, hlun, hpl, _⟩ := hp.blkAddr_coords hg
  have hsum : ∀ (F : NandBlock → Nat) (x : Nat),
      lineSum spp x (fun a => F (s'.flash a)) + (if x = p.blk then F (s.flash p.blkAddr) else 0) =
        lineSum spp x (fun a => F (s.flash a)) + (if x = p.blk then F b else 0) := by
    intro F x
    rw [hflash]
    split
    · rename_i hx
      subst hx
      exact lineSum_update_self F hch hlun hpl
    · rename_i hx
      rw [lineSum_update_of_ne F (Ne.symm hx)]
  refine
    { status_free := hfree
      blk_vpc := ?_
      blk_ipc := ?_
      line_vpc := ?_
      line_ipc := ?_
      line_fill := hfill }
  · intro a
    rw [hflash]
    by_cases ha : a = p.blkAddr
    · subst ha
      have h := countBelow_update (P := (· = PgStatus.valid)) (f := (s.flash p.blkAddr).pg)
        hp.2.2.2.2 st
      have hold := hc.blk_vpc p.blkAddr
      rw [Function.update_self, hpg]
      unfold Flash.status at hvpc
      omega
    · rw [Function.update_of_ne ha]
      exact hc.blk_vpc a
  · intro a
    rw [hflash]
    by_cases ha : a = p.blkAddr
    · subst ha
      have h := countBelow_update (P := (· = PgStatus.invalid)) (f := (s.flash p.blkAddr).pg)
        hp.2.2.2.2 st
      have hold := hc.blk_ipc p.blkAddr
      rw [Function.update_self, hpg]
      unfold Flash.status at hipc
      omega
    · rw [Function.update_of_ne ha]
      exact hc.blk_ipc a
  · intro x hx hxpl
    have h1 := hc.line_vpc x hx (hplace x hxpl)
    have h2 := hsum NandBlock.vpc x
    have h3 := hlv x
    omega
  · intro x hx hxpl
    have h1 := hc.line_ipc x hx (hplace x hxpl)
    have h2 := hsum NandBlock.ipc x
    have h3 := hli x
    omega

end counters

/-! ## The line part of `mark_page_invalid` -/

section line

variable {τ : Type} {spp : SsdParams} {g : Ghost} {s : Part τ} {l : Nat}

/-- Among the line records, the counters of `l` move by one and the rest is queue positions. -/
theorem lineInvalidate_lines (spp : SsdParams) (l : Nat) (s : Part τ) (x : Nat) :
    ((lineInvalidate spp l s).lines x).vpc =
        (if x = l then (s.lines l).vpc - 1 else (s.lines x).vpc) ∧
      ((lineInvalidate spp l s).lines x).ipc =
        (if x = l then (s.lines l).ipc + 1 else (s.lines x).ipc) ∧
      ((lineInvalidate spp l s).lines x).ruh = (s.lines x).ruh ∧
      ((lineInvalidate spp l s).lines x).id = (s.lines x).id := by
  unfold lineInvalidate fullToVictim pqueueInsert pqueueChangePriority victimLineSetPos
  by_cases hx : x = l
  · subst hx
    dsimp only
    split <;> split <;> simp
  · dsimp only
    split <;> split <;> simp [hx]

/-- The place of line `l` after one of its valid pages became invalid. -/
def Ghost.invalidate (g : Ghost) (l : Nat) : Ghost :=
  { g with place := fun x => if x = l ∧ g.place l = .full then .victim else g.place x }

@[simp] theorem Ghost.invalidate_fill (g : Ghost) (l : Nat) : (g.invalidate l).fill = g.fill := rfl

@[simp] theorem Ghost.invalidate_erased (g : Ghost) (l : Nat) : (g.invalidate l).erased = g.erased := rfl

theorem Ghost.invalidate_place_eq_iff (g : Ghost) (l x : Nat) {pl : Place} (h1 : pl ≠ .full)
    (h2 : pl ≠ .victim) : (g.invalidate l).place x = pl ↔ g.place x = pl := by
  unfold Ghost.invalidate
  dsimp only
  split
  · rename_i h
    rw [h.1, h.2]
    exact ⟨fun he => absurd he.symm h2, fun he => absurd he.symm h1⟩
  · exact Iff.rfl

theorem Ghost.invalidate_of_ne_full {g : Ghost} {l : Nat} (h : g.place l ≠ .full) :
    g.invalidate l = g := by
  simp [Ghost.invalidate, h]

theorem Ghost.invalidate_of_full {g : Ghost} {l : Nat} (h : g.place l = .full) :
    g.invalidate l = g.move l .victim := by
  unfold Ghost.invalidate Ghost.move
  congr 1
  funext x
  by_cases hx : x = l
  · subst hx
    simp [h]
  · simp [hx]

/-- **The three cases of `mark_page_invalid`**: the line is queued, full, or open. -/
theorem Placed.lineInvalidate (h : Placed spp g s.toFdpFtl) (hl : l < spp.ttLines)
    (hfull : (s.lines l).vpc = spp.pgsPerLine ↔ g.place l = .full) :
    Placed spp (g.invalidate l) (lineInvalidate spp l s).toFdpFtl := by
  -- the counters of `l` written first, before the containers are looked at
  have hcnt : ∀ line : FdpLine, line.id = (s.lines l).id → line.pos = (s.lines l).pos →
      (g.place l = .victim → line.vpc = (s.lines l).vpc) →
      Placed spp g ({ s with lines := Function.update s.lines l line } : Part τ).toFdpFtl := by
    intro line hid hpos hvpc
    refine h.congr rfl ?_ ?_ ?_ rfl rfl rfl rfl rfl rfl
    · intro x
      by_cases hx : x = l
      · subst hx; simpa using hid
      · simp [hx]
    · intro x
      by_cases hx : x = l
      · subst hx; simpa using hpos
      · simp [hx]
    · intro x hpl
      by_cases hx : x = l
      · subst hx; simpa using hvpc hpl
      · simp [hx]
  by_cases hv : g.place l = .victim
  · have hpos : (s.lines l).pos ≠ 0 := by
      have := (h.pq_wf.pos_of_mem ((h.mem_pq l).mpr ⟨hl, hv⟩)).1
      exact Nat.one_le_iff_ne_zero.mp this
    have hne : g.place l ≠ .full := by rw [hv]; decide
    have hvpc : (s.lines l).vpc ≠ spp.pgsPerLine := fun he => hne (hfull.mp he)
    rw [Ghost.invalidate_of_ne_full hne]
    unfold NvmeVirt.lineInvalidate
    dsimp only
    rw [if_pos hpos, if_neg hvpc]
    refine Placed.changePriority ?_ hl hv _
    exact hcnt { s.lines l with ipc := (s.lines l).ipc + 1 } rfl rfl fun _ => rfl
  · have hpos : (s.lines l).pos = 0 := h.pos_eq l hl hv
    have hlines := hcnt { s.lines l with ipc := (s.lines l).ipc + 1, vpc := (s.lines l).vpc - 1 }
      rfl rfl fun hpl => absurd hpl hv
    unfold NvmeVirt.lineInvalidate
    dsimp only
    rw [if_neg (not_not_intro hpos)]
    simp only [Function.update_self, Function.update_idem]
    by_cases hf : g.place l = .full
    · rw [if_pos (hfull.mpr hf), Ghost.invalidate_of_full hf]
      have hout := hlines.removeFull hl hf
      have hin := hout.insertVictim hl (by simp) (by simp) (by simp)
      have hmove : (g.move l .cleaning).move l .victim = g.move l .victim := by
        simp [Ghost.move]
      rw [hmove] at hin
      exact hin
    · rw [if_neg (fun he => hf (hfull.mp he)), Ghost.invalidate_of_ne_full hf]
      exact hlines

end line

/-! ## The whole step -/

section step

variable {τ : Type} {cfg : FtlConfig} {g : Ghost} {s : Part τ} {lpn : Nat} {p : Ppa}

/-- The state after `mark_page_invalid` and the reset of the page's reverse-map entry. -/
def invalidated (cfg : FtlConfig) (p : Ppa) (s : Part τ) : Part τ :=
  { lineInvalidate cfg.sp p.blk
      { s with
        flash := Function.update s.flash p.blkAddr ((s.flash p.blkAddr).invalidate p.pg) } with
    rmap := Function.update s.rmap (pgidx cfg.sp p) invalidLpn }

/-- What `invalidated` leaves alone, and the tables it writes. -/
theorem invalidated_frame (cfg : FtlConfig) (p : Ppa) (s : Part τ) :
    invalidated cfg p s =
      { s with
        flash := Function.update s.flash p.blkAddr ((s.flash p.blkAddr).invalidate p.pg)
        rmap := Function.update s.rmap (pgidx cfg.sp p) invalidLpn
        lines := (invalidated cfg p s).lines
        victimLinePq := (invalidated cfg p s).victimLinePq
        fullLineList := (invalidated cfg p s).fullLineList
        fullLineCnt := (invalidated cfg p s).fullLineCnt
        victimLineCnt := (invalidated cfg p s).victimLineCnt } := by
  unfold invalidated
  rw [lineInvalidate_frame]

theorem invalidated_lines (cfg : FtlConfig) (p : Ppa) (s : Part τ) (x : Nat) :
    ((invalidated cfg p s).lines x).vpc =
        (if x = p.blk then (s.lines p.blk).vpc - 1 else (s.lines x).vpc) ∧
      ((invalidated cfg p s).lines x).ipc =
        (if x = p.blk then (s.lines p.blk).ipc + 1 else (s.lines x).ipc) ∧
      ((invalidated cfg p s).lines x).ruh = (s.lines x).ruh ∧
      ((invalidated cfg p s).lines x).id = (s.lines x).id :=
  lineInvalidate_lines cfg.sp p.blk _ x

theorem invalidated_flash (cfg : FtlConfig) (p : Ppa) (s : Part τ) :
    (invalidated cfg p s).flash =
      Function.update s.flash p.blkAddr ((s.flash p.blkAddr).invalidate p.pg) := by
  rw [invalidated_frame]

theorem invalidated_status (cfg : FtlConfig) (p : Ppa) (s : Part τ) (q : Ppa) :
    (invalidated cfg p s).flash.status q = if q = p then .invalid else s.flash.status q := by
  rw [invalidated_flash]
  exact Flash.status_update rfl q

theorem Counted.invalidate (hg : Geometry cfg.sp) (hc : Counted cfg.sp g s.toFdpFtl)
    (hp : validPpa cfg.sp p) (hst : s.flash.status p = .valid) (hpl : g.place p.blk ≠ .cleaning) :
    Counted cfg.sp (g.invalidate p.blk) (invalidated cfg p s).toFdpFtl := by
  have hblk := hc.blk_pos hp hst
  have hline := hc.line_pos hg hp hpl hst
  have hb : ((s.flash p.blkAddr).invalidate p.pg).vpc = (s.flash p.blkAddr).vpc - 1 ∧
      ((s.flash p.blkAddr).invalidate p.pg).ipc = (s.flash p.blkAddr).ipc + 1 := ⟨rfl, rfl⟩
  refine hc.setPage hg hp .invalid (invalidated_flash cfg p s) rfl ?_ ?_ ?_ ?_ ?_ ?_ ?_
  · simp only [hst, hb.1, if_true, reduceCtorEq, if_false]
    omega
  · simp only [hst, hb.2, if_true, reduceCtorEq, if_false]
  · intro x
    rw [(invalidated_lines cfg p s x).1]
    split
    · rename_i hx
      subst hx
      omega
    · rfl
  · intro x
    rw [(invalidated_lines cfg p s x).2.1]
    split
    · rename_i hx
      subst hx
      omega
    · rfl
  · intro x hx hx'
    exact hx ((g.invalidate_place_eq_iff p.blk x (by decide) (by decide)).mpr hx')
  · -- the page was programmed before and still is
    intro q hq
    rw [invalidated_status]
    split
    · rename_i hqp
      subst hqp
      have h := hc.status_free q hq
      rw [hst] at h
      simpa using h
    · exact hc.status_free q hq
  · intro x hx
    rw [(invalidated_lines cfg p s x).1, (invalidated_lines cfg p s x).2.1]
    have hold := hc.line_fill x hx
    split
    · rename_i hxp
      subst hxp
      show (s.lines p.blk).vpc - 1 + ((s.lines p.blk).ipc + 1) = g.fill p.blk
      omega
    · exact hold

/-- The ghost between `mark_page_invalid` and `set_maptbl_ent`. -/
def Ghost.staleAt (g : Ghost) (lpn : Nat) : Ghost := { g with stale := fun x => x = lpn }

theorem Settled.invalidate (h : Settled cfg.sp g s.toFdpFtl) :
    Settled cfg.sp (g.invalidate p.blk) (invalidated cfg p s).toFdpFtl := by
  have hipc : ∀ x, (s.lines x).ipc ≤ ((invalidated cfg p s).lines x).ipc := by
    intro x
    rw [(invalidated_lines cfg p s x).2.1]
    split
    · rename_i hx
      subst hx
      omega
    · exact Nat.le_refl _
  have hfull : ∀ x, (g.invalidate p.blk).place x = .full → x ≠ p.blk ∧ g.place x = .full := by
    intro x hx
    by_cases hxp : x = p.blk ∧ g.place p.blk = .full
    · simp [Ghost.invalidate, hxp] at hx
    · have hx' : g.place x = .full := by simpa [Ghost.invalidate, hxp] using hx
      exact ⟨fun he => hxp ⟨he, he ▸ hx'⟩, hx'⟩
  refine
    { free_fill := ?_
      full_fill := fun x hx hpl => h.full_fill x hx (hfull x hpl).2
      full_ipc := ?_
      victim_fill := ?_
      victim_ipc := ?_
      cleaning_fill := ?_ }
  · intro x hx hpl
    exact h.free_fill x hx ((g.invalidate_place_eq_iff p.blk x (by decide) (by decide)).mp hpl)
  · intro x hx hpl
    obtain ⟨hne, hpl'⟩ := hfull x hpl
    rw [(invalidated_lines cfg p s x).2.1, if_neg hne]
    exact h.full_ipc x hx hpl'
  · intro x hx hpl
    by_cases hxp : x = p.blk ∧ g.place p.blk = .full
    · exact h.full_fill x hx (hxp.1 ▸ hxp.2)
    · exact h.victim_fill x hx (by simpa [Ghost.invalidate, hxp] using hpl)
  · intro x hx hpl
    by_cases hxp : x = p.blk
    · rw [(invalidated_lines cfg p s x).2.1, if_pos hxp]
      omega
    · have hpl' : g.place x = .victim := by simpa [Ghost.invalidate, hxp] using hpl
      exact Nat.lt_of_lt_of_le (h.victim_ipc x hx hpl') (hipc x)
  · intro x hx hpl
    exact h.cleaning_fill x hx ((g.invalidate_place_eq_iff p.blk x (by decide) (by decide)).mp hpl)

theorem Mapped.invalidate (hg : Geometry cfg.sp) (h : Mapped cfg.sp g s.toFdpFtl)
    (hns : ∀ x, ¬ g.stale x) (hm : s.maptbl lpn = some p) :
    Mapped cfg.sp ((g.invalidate p.blk).staleAt lpn) (invalidated cfg p s).toFdpFtl := by
  obtain ⟨_, hp, _, hrp, _⟩ := h.of_maptbl lpn p hm (hns lpn)
  have hmap : (invalidated cfg p s).maptbl = s.maptbl := by rw [invalidated_frame]
  have hrmap : ∀ q, validPpa cfg.sp q → q ≠ p →
      (invalidated cfg p s).rmap (pgidx cfg.sp q) = s.rmap (pgidx cfg.sp q) := by
    intro q hq hqp
    have hidx : pgidx cfg.sp q ≠ pgidx cfg.sp p := fun he => hqp (pgidx_inj hg hq hp he)
    rw [invalidated_frame]
    exact Function.update_of_ne hidx _ _
  refine ⟨?_, ?_⟩
  · intro x q hx hstale
    rw [hmap] at hx
    obtain ⟨hlt, hq, hst, hrq, hcl⟩ := h.of_maptbl x q hx (hns x)
    -- no other LPN maps to the page that became invalid
    have hqp : q ≠ p := by
      intro he
      subst he
      exact hstale (hrq.symm.trans hrp)
    refine ⟨hlt, hq, ?_, ?_, hcl⟩
    · rw [invalidated_status, if_neg hqp]
      exact hst
    · rw [hrmap q hq hqp]
      exact hrq
  · intro q hq hst hcl
    rw [invalidated_status] at hst
    split at hst
    · cases hst
    · rename_i hqp
      rw [hrmap q hq hqp, hmap]
      obtain ⟨hback, _⟩ := h.of_valid q hq hst hcl
      refine ⟨hback, ?_⟩
      intro hstale
      have hstale' : s.rmap (pgidx cfg.sp q) = lpn := hstale
      rw [hstale', hm] at hback
      exact hqp (Option.some.inj hback).symm

theorem Balanced.invalidate (hg : Geometry cfg.sp) (h : Balanced cfg.sp s.toFdpFtl)
    (hp : validPpa cfg.sp p) (hst : s.flash.status p = .valid) :
    Balanced cfg.sp (invalidated cfg p s).toFdpFtl := by
  obtain ⟨hch, hlun, hpl, hblk⟩ := hp.blkAddr_coords hg
  have hhist : (invalidated cfg p s).hist = s.hist := by rw [invalidated_frame]
  have hpg : (s.flash p.blkAddr).pg p.pg = .valid := hst
  have hcount := countBelow_update (P := (· ≠ PgStatus.free)) (f := (s.flash p.blkAddr).pg)
    hp.2.2.2.2 .invalid
  have hsame : ((s.flash p.blkAddr).invalidate p.pg).programmed cfg.sp =
      (s.flash p.blkAddr).programmed cfg.sp := by
    simp only [hpg, ne_eq, reduceCtorEq, not_false_eq_true, if_true] at hcount
    exact Nat.add_right_cancel hcount
  have hsum := programmedPages_update (f := s.flash) (b := (s.flash p.blkAddr).invalidate p.pg)
    hch hlun hpl hblk
  unfold Balanced at h ⊢
  rw [hhist, invalidated_flash]
  omega

theorem Inv.fill_le (hg : Geometry cfg.sp) (h : Inv cfg g s.toFdpFtl) (hahead : ∀ w, g.ahead w = 0)
    {l : Nat} (hl : l < cfg.sp.ttLines) : g.fill l ≤ cfg.sp.pgsPerLine := by
  cases hpl : g.place l with
  | free =>
      rw [h.settled.free_fill l hl hpl]
      exact Nat.zero_le _
  | full => exact (h.settled.full_fill l hl hpl).le
  | victim => exact (h.settled.victim_fill l hl hpl).le
  | opened w =>
      obtain ⟨hw, hcur⟩ := h.pointed.opened_inv l w hl hpl
      have hidx := h.pointed.fill_curline w hw
      have hlt := wpIdx_lt hg (h.pointed.wf w hw)
      rw [hcur, hahead w] at hidx
      omega
  | cleaning => exact (h.settled.cleaning_fill l hl hpl).le

/-- The test `line->vpc == spp->pgs_per_line` recognises the full lines among those with a valid page. -/
theorem Inv.vpc_eq_pgsPerLine_iff (hg : Geometry cfg.sp) (h : Inv cfg g s.toFdpFtl) (hq : g.Quiet)
    (hp : validPpa cfg.sp p) (hst : s.flash.status p = .valid) :
    (s.lines p.blk).vpc = cfg.sp.pgsPerLine ↔ g.place p.blk = .full := by
  have hl := hp.blk_lt hg
  have hfill := h.counted.line_fill p.blk hl
  have hpos := h.counted.line_pos hg hp (hq.place_ne p.blk) hst
  cases hpl : g.place p.blk with
  | free =>
      have := h.settled.free_fill p.blk hl hpl
      omega
  | full =>
      have := h.settled.full_fill p.blk hl hpl
      have := h.settled.full_ipc p.blk hl hpl
      simp only [iff_true]
      omega
  | victim =>
      have := h.settled.victim_fill p.blk hl hpl
      have := h.settled.victim_ipc p.blk hl hpl
      simp only [reduceCtorEq, iff_false]
      omega
  | opened w =>
      -- a pointer never stands past the end of its line
      obtain ⟨hw, hcur⟩ := h.pointed.opened_inv p.blk w hl hpl
      have hidx := h.pointed.fill_curline w hw
      have hlt := wpIdx_lt hg (h.pointed.wf w hw)
      rw [hcur, hq.ahead_eq w] at hidx
      simp only [reduceCtorEq, iff_false]
      omega
  | cleaning => exact absurd hpl (hq.place_ne p.blk)

/-- **Invalidating the page of a mapped LPN** keeps the invariant, with the LPN stale. -/
theorem Inv.invalidate (hg : Geometry cfg.sp) (h : Inv cfg g s.toFdpFtl) (hq : g.Quiet)
    (hm : s.maptbl lpn = some p) :
    Inv cfg ((g.invalidate p.blk).staleAt lpn) (invalidated cfg p s).toFdpFtl := by
  obtain ⟨_, hp, hst, _, _⟩ := h.mapped.of_maptbl lpn p hm (hq.not_stale lpn)
  have hwp : (invalidated cfg p s).wp = s.wp := by rw [invalidated_frame]; rfl
  have hopen : ∀ x w, (g.invalidate p.blk).place x = .opened w ↔ g.place x = .opened w := fun x w =>
    g.invalidate_place_eq_iff p.blk x (by simp) (by simp)
  exact
    { confined := ⟨fun q hc => absurd hc (hq.not_cleaned q), fun b hb => absurd hb (hq.not_erased b)⟩
      counted := (h.counted.invalidate hg hp hst (hq.place_ne p.blk)).congr rfl rfl rfl rfl rfl
      placed := by
        have hflash : Placed cfg.sp g
            ({ s with
              flash := Function.update s.flash p.blkAddr ((s.flash p.blkAddr).invalidate p.pg) } :
              Part τ).toFdpFtl :=
          h.placed.congr rfl (fun _ => rfl) (fun _ => rfl) (fun _ _ => rfl) rfl rfl rfl rfl rfl rfl
        have hfull : (s.lines p.blk).vpc = cfg.sp.pgsPerLine ↔ g.place p.blk = .full :=
          h.vpc_eq_pgsPerLine_iff hg hq hp hst
        refine (hflash.lineInvalidate (hp.blk_lt hg) hfull).congr
          rfl (fun _ => rfl) (fun _ => rfl) (fun _ _ => rfl) rfl rfl rfl rfl rfl rfl
      pointed := h.pointed.congr hwp rfl rfl hopen
      settled := h.settled.invalidate.congr rfl rfl rfl
      mapped := h.mapped.invalidate hg hq.not_stale hm
      labelled := by
        refine h.labelled.congr (fun x => (invalidated_lines cfg p s x).2.2.1)
          (by rw [invalidated_frame]) (fun x w => (hopen x w).mp)
          (fun x => (g.invalidate_place_eq_iff p.blk x (by decide) (by decide)).mp) ?_
        intro q _
        rw [invalidated_status]
        split
        · rename_i hqp
          subst hqp
          rw [hst]
          simp
        · exact Iff.rfl
      balanced := h.balanced.invalidate hg hp hst }

/-- The assertions of `mark_page_invalid` and `ppa2pgidx` hold, so the old page is given up. -/
theorem Inv.invalidateOld_eq (hg : Geometry cfg.sp) (h : Inv cfg g s.toFdpFtl) (hq : g.Quiet)
    (hm : s.maptbl lpn = some p) : invalidateOld cfg lpn s = .ok (invalidated cfg p s) := by
  obtain ⟨_, hp, hst, _, _⟩ := h.mapped.of_maptbl lpn p hm (hq.not_stale lpn)
  have hblk := h.counted.blk_pos hp hst
  have hline := h.counted.line_pos hg hp (hq.place_ne p.blk) hst
  have hfull := h.vpc_eq_pgsPerLine_iff hg hq hp hst
  have hipc : (s.lines p.blk).vpc = cfg.sp.pgsPerLine → (s.lines p.blk).ipc = 0 := fun he =>
    h.settled.full_ipc p.blk (hp.blk_lt hg) (hfull.mp he)
  have hle := h.fill_le hg hq.ahead_eq (hp.blk_lt hg)
  have hfill := h.counted.line_fill p.blk (hp.blk_lt hg)
  have hmark : markPageInvalid cfg p s = .ok (lineInvalidate cfg.sp p.blk
      { s with
        flash := Function.update s.flash p.blkAddr ((s.flash p.blkAddr).invalidate p.pg) }) := by
    have h1 : (s.flash p.blkAddr).ipc < cfg.sp.pgsPerBlk := by omega
    have h2 : 0 < (s.flash p.blkAddr).vpc ∧ (s.flash p.blkAddr).vpc ≤ cfg.sp.pgsPerBlk :=
      ⟨hblk.1, by omega⟩
    have h3 : (s.lines p.blk).ipc < cfg.sp.pgsPerLine := by omega
    have h4 : 0 < (s.lines p.blk).vpc ∧ (s.lines p.blk).vpc ≤ cfg.sp.pgsPerLine := ⟨hline, by omega⟩
    simp only [markPageInvalid, nvmevAssert_of hst, nvmevAssert_of h1, nvmevAssert_of h2,
      nvmevAssert_of h3, nvmevAssert_of hipc, nvmevAssert_of h4, ok_bind, pure_eq_ok]
  simp only [invalidateOld, hm, hmark, ok_bind, setRmapEnt, ppa2pgidx, nvmevAssert_of (pgidx_lt hg hp),
    pure_eq_ok]
  unfold invalidated
  rw [lineInvalidate_frame]

/-- The ghost of a partition that has given up the old page of `lpn` and not yet written the new one. -/
structure Ghost.Replacing (lpn : Nat) (g : Ghost) : Prop where
  place_ne : ∀ l, g.place l ≠ .cleaning
  ahead_eq : ∀ w, g.ahead w = 0
  stale_iff : ∀ x, g.stale x ↔ x = lpn
  not_cleaned : ∀ p, ¬ g.cleaned p
  not_erased : ∀ b, ¬ g.erased b

/-- **Giving up the old page.** Whether or not the LPN is mapped, the write goes on from a state that
    satisfies the invariant with only that LPN stale, and with all of its room. -/
theorem Inv.invalidateOld (hg : Geometry cfg.sp) (h : Inv cfg g s.toFdpFtl) (hq : g.Quiet) (lpn : Nat) :
    ∃ g' s', NvmeVirt.invalidateOld cfg lpn s = .ok s' ∧ Inv cfg g' s'.toFdpFtl ∧ g'.Replacing lpn ∧
      s'.wp = s.wp ∧ s'.freeLineList = s.freeLineList ∧ s'.writeCredits = s.writeCredits ∧
      s'.creditsToRefill = s.creditsToRefill := by
  cases hm : s.maptbl lpn with
  | none =>
      refine ⟨g.staleAt lpn, s, by rw [NvmeVirt.invalidateOld, hm], ?_,
        ⟨hq.place_ne, hq.ahead_eq, fun _ => Iff.rfl, hq.not_cleaned, hq.not_erased⟩, rfl, rfl, rfl, rfl⟩
      refine h.retag rfl rfl rfl rfl ⟨h.confined.of_cleaned, h.confined.of_erased⟩
        ⟨fun x q hx _ => h.mapped.of_maptbl x q hx (hq.not_stale x), ?_⟩
      intro q hv hst hcl
      obtain ⟨hback, _⟩ := h.mapped.of_valid q hv hst hcl
      refine ⟨hback, fun hstale => ?_⟩
      have hstale' : s.rmap (pgidx cfg.sp q) = lpn := hstale
      rw [hstale', hm] at hback
      cases hback
  | some p =>
      have hframe := invalidated_frame cfg p s
      refine ⟨_, _, h.invalidateOld_eq hg hq hm, h.invalidate hg hq hm, ?_, ?_⟩
      · refine ⟨?_, hq.ahead_eq, fun _ => Iff.rfl, hq.not_cleaned, hq.not_erased⟩
        intro l hl
        exact hq.place_ne l ((g.invalidate_place_eq_iff p.blk l (by decide) (by decide)).mp hl)
      · rw [hframe]
        exact ⟨rfl, rfl, rfl, rfl⟩

end step

end NvmeVirt
