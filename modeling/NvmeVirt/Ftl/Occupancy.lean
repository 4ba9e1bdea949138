import NvmeVirt.Ftl.Credits

/-!
# `Ftl.Occupancy` — few logical pages leave a victim

A partition whose host stays below `B` logical pages has at most `B` valid pages, whatever garbage collection
moves around: `LpnBound` follows the bound through both tables. When few lines are free, the other lines are
open or closed; were all closed ones full of valid pages, there would be more valid pages than logical ones.
So some closed line has an invalid page, and it is in the victim queue.
-/

namespace NvmeVirt

open Counting Outcome

variable {τ : Type} {cfg : FtlConfig} {L : Latency τ} {s s₁ s₂ : Part τ} {B : Nat}

/-! ## The tables stay below a bound -/

/-- Only LPNs below `B` are mapped, and no others stand in the reverse map. -/
structure LpnBound (B : Nat) (s : FdpFtl) : Prop where
  maptbl : ∀ lpn, s.maptbl lpn ≠ none → lpn < B
  rmap : ∀ i, s.rmap i = invalidLpn ∨ s.rmap i < B

/-- An allocation enters its LPN in both tables. -/
theorem LpnBound.taken {io : IoType} {ruh lpn : Nat} {p : Ppa} (h : LpnBound B s.toFdpFtl) (hlpn : lpn < B)
    (htaken : PageTaken cfg io ruh lpn s (p, s₁)) : LpnBound B s₁.toFdpFtl := by
  cases htaken with
  | @mk _ i _ _ hmoved =>
      have hmap : s₁.maptbl = Function.update s.maptbl lpn (some p) := by
        cases hmoved
        cases io <;> rfl
      have hrmap : s₁.rmap = Function.update s.rmap i lpn := by
        cases hmoved
        cases io <;> rfl
      refine ⟨fun x hx => ?_, fun j => ?_⟩
      · by_cases he : x = lpn
        · exact he ▸ hlpn
        · rw [hmap, Function.update_of_ne he] at hx
          exact h.maptbl x hx
      · rw [hrmap]
        by_cases he : j = i
        · rw [he, Function.update_self]
          exact Or.inr hlpn
        · rw [Function.update_of_ne he]
          exact h.rmap j

theorem LpnBound.oldInvalidated {lpn : Nat} (h : LpnBound B s.toFdpFtl) (hold : OldInvalidated lpn s s₁) :
    LpnBound B s₁.toFdpFtl := by
  cases hold with
  | unmapped => exact h
  | mapped _ i =>
      refine ⟨h.maptbl, fun j => ?_⟩
      show Function.update s.rmap i invalidLpn j = _ ∨ Function.update s.rmap i invalidLpn j < B
      by_cases he : j = i
      · rw [he, Function.update_self]
        exact Or.inl rfl
      · rw [Function.update_of_ne he]
        exact h.rmap j

/-- **Garbage collection** enters only LPNs it read from the reverse map. -/
theorem lpnBound_steps (L : Latency τ) (htt : cfg.sp.ttPgs ≤ invalidLpn) (B : Nat) :
    GcSteps cfg L fun s s' => LpnBound B s.toFdpFtl → LpnBound B s'.toFdpFtl where
  refl _ := id
  trans h h' := h' ∘ h
  move := by
    intro s s' i _ _ _ hlt htaken h
    have hlpn : s.rmap i < B := by
      rcases h.rmap i with hinv | hB
      · omega
      · exact hB
    exact (h.taken hlpn htaken : LpnBound B s'.toFdpFtl)
  issue _ _ := id
  erase _ _ h := ⟨h.maptbl, h.rmap⟩
  emit v s h := by
    rw [gcEmit_toFdpFtl]
    exact h
  account _ _ _ _ _ _ _ _ h := ⟨h.maptbl, h.rmap⟩

/-- A page of the host below the bound. -/
theorem LpnBound.put {stime ruh lpn : Nat} {t : Option Nat} (h : LpnBound B s.toFdpFtl) (hlpn : lpn < B)
    (hput : PagePut cfg L stime ruh lpn s (t, s₁)) : LpnBound B s₁.toFdpFtl := by
  obtain ⟨hold, htaken, _, _⟩ := hput
  have hb := (h.oldInvalidated hold).taken hlpn htaken
  exact ⟨hb.maptbl, hb.rmap⟩

/-- **A page write below the bound** keeps the tables below it. -/
theorem writePage_bound (htt : cfg.sp.ttPgs ≤ invalidLpn) (stime ruh : Nat) {lpn : Nat} (hlpn : lpn < B)
    (h : LpnBound B s.toFdpFtl) :
    Sat (fun _ => True) (fun r => LpnBound B r.2.toFdpFtl) (writePage cfg L stime ruh lpn s) := by
  unfold writePage
  refine (putPage_cases cfg L stime ruh lpn s).bind ?_
  rintro ⟨t, s₁⟩ hput
  exact ((lpnBound_steps L htt B).checkAndRefill s₁).bind fun s₂ hgc => hgc (h.put hlpn hput)

/-! ## Counting lines and pages -/

/-- Every page of a full line is valid. -/
theorem Inv.full_valid {g : Ghost} {f : FdpFtl} (hg : Geometry cfg.sp) (h : Inv cfg g f) (hq : g.Quiet)
    {p : Ppa} (hp : validPpa cfg.sp p) (hfull : g.place p.blk = .full) : f.flash.status p = .valid := by
  have hl : p.blk < cfg.sp.ttLines := hp.blk_lt hg
  have hnot_free : f.flash.status p ≠ .free := by
    intro hfree
    rcases (h.counted.status_free p hp).mp hfree with her | hle
    · exact hq.not_erased _ her
    · rw [h.settled.full_fill _ hl hfull] at hle
      exact absurd (seqIdx_lt hg.grid hp.1 hp.2.1 hp.2.2.2.2) (Nat.not_lt.mpr hle)
  have hnot_invalid : f.flash.status p ≠ .invalid := by
    intro hinv
    -- one invalid page shows in the counter of its block and of its line
    have hpos : 0 < (f.flash p.blkAddr).ipc := by
      rw [h.counted.blk_ipc]
      exact countBelow_pos hp.2.2.2.2 hinv
    obtain ⟨hch, hlun, hpl, _⟩ := hp.blkAddr_coords hg
    have hle : (f.flash p.blkAddr).ipc ≤ lineSum cfg.sp p.blk fun b => (f.flash b).ipc :=
      le_lineSum (fun b => (f.flash b).ipc) hch hlun hpl rfl
    have hsum := h.counted.line_ipc _ hl (hq.place_ne _)
    rw [h.settled.full_ipc _ hl hfull] at hsum
    omega
  cases hst : f.flash.status p with
  | free => exact absurd hst hnot_free
  | invalid => exact absurd hst hnot_invalid
  | valid => rfl

/-- The lines at a place. -/
def linesAt (spp : SsdParams) (g : Ghost) (pl : Place → Bool) : Finset Nat :=
  (Finset.range spp.ttLines).filter fun l => pl (g.place l) = true

theorem mem_linesAt {spp : SsdParams} {g : Ghost} {pl : Place → Bool} {l : Nat} :
    l ∈ linesAt spp g pl ↔ l < spp.ttLines ∧ pl (g.place l) = true := by
  rw [linesAt, Finset.mem_filter, Finset.mem_range]

/-- **The pages of the full lines are as many logical pages.** -/
theorem Inv.card_full_mul_le {g : Ghost} {f : FdpFtl} (hg : Geometry cfg.sp) (h : Inv cfg g f)
    (hq : g.Quiet) (hB : LpnBound B f) :
    (linesAt cfg.sp g (· = .full)).card * cfg.sp.pgsPerLine ≤ B := by
  -- a page of a full line is valid, so the reverse map names an LPN that is mapped to it
  let page : Nat × Nat × Nat × Nat → Ppa := fun x =>
    { pg := x.2.2.2, blk := x.1, pl := 0, lun := x.2.2.1, ch := x.2.1 }
  let pages := linesAt cfg.sp g (· = .full) ×ˢ Finset.range cfg.sp.nchs ×ˢ
    Finset.range cfg.sp.lunsPerCh ×ˢ Finset.range cfg.sp.pgsPerBlk
  have hback : ∀ x ∈ pages, f.maptbl (f.rmap (pgidx cfg.sp (page x))) = some (page x) := by
    intro x hx
    simp only [pages, Finset.mem_product, mem_linesAt, Finset.mem_range, decide_eq_true_eq] at hx
    obtain ⟨⟨hl, hfull⟩, hch, hlun, hpg⟩ := hx
    have hvalid : validPpa cfg.sp (page x) :=
      ⟨hch, hlun, by rw [hg.plsPerLun_eq]; exact Nat.one_pos, by rw [← hg.ttLines_eq]; exact hl, hpg⟩
    exact (h.mapped.of_valid _ hvalid (h.full_valid hg hq hvalid hfull) (hq.not_cleaned _)).1
  have hcard : pages.card = (linesAt cfg.sp g (· = .full)).card * cfg.sp.pgsPerLine := by
    simp only [pages, Finset.card_product, Finset.card_range, hg.pgsPerLine_eq]
    ring
  rw [← hcard, ← Finset.card_range B]
  refine Finset.card_le_card_of_injOn (fun x => f.rmap (pgidx cfg.sp (page x))) ?_ ?_
  · intro x hx
    refine Finset.mem_coe.mpr (Finset.mem_range.mpr (hB.maptbl _ ?_))
    rw [hback x hx]
    exact nofun
  · intro x hx y hy hxy
    have hpage : page x = page y := by
      have hx' := hback x hx
      have hy' := hback y hy
      have hxy' : f.rmap (pgidx cfg.sp (page x)) = f.rmap (pgidx cfg.sp (page y)) := hxy
      rw [hxy', hy'] at hx'
      exact (Option.some.inj hx').symm
    obtain ⟨l, ch, lun, pg⟩ := x
    obtain ⟨l', ch', lun', pg'⟩ := y
    simp only [page, Ppa.mk.injEq] at hpage
    obtain ⟨rfl, rfl, _, rfl, rfl⟩ := hpage
    rfl

theorem Inv.card_free {g : Ghost} {f : FdpFtl} (h : Inv cfg g f) :
    (linesAt cfg.sp g (· = .free)).card = f.freeLineCnt := by
  rw [h.placed.free_cnt, ← List.toFinset_card_of_nodup h.placed.free_nodup]
  congr 1
  ext l
  rw [mem_linesAt, List.mem_toFinset, h.placed.mem_free, decide_eq_true_eq]

/-- A place of an open line. -/
def Place.isOpened : Place → Bool
  | .opened _ => true
  | _ => false

theorem Inv.card_opened_le {g : Ghost} {f : FdpFtl} (h : Inv cfg g f) :
    (linesAt cfg.sp g Place.isOpened).card ≤ cfg.nrRuh + 1 := by
  have hsub : linesAt cfg.sp g Place.isOpened ⊆
      insert f.gcWp.curline ((Finset.range cfg.nrRuh).image fun r => (f.wpRuh r).curline) := by
    intro l hl
    obtain ⟨hl, hopen⟩ := mem_linesAt.mp hl
    rw [Finset.mem_insert, Finset.mem_image]
    cases hpl : g.place l with
    | opened w =>
        obtain ⟨hw, hcur⟩ := h.pointed.opened_inv l w hl hpl
        cases w with
        | host r => exact Or.inr ⟨r, Finset.mem_range.mpr hw, hcur⟩
        | gc => exact Or.inl hcur.symm
    | _ =>
        rw [hpl] at hopen
        exact absurd hopen nofun
  calc (linesAt cfg.sp g Place.isOpened).card
      ≤ (insert f.gcWp.curline ((Finset.range cfg.nrRuh).image fun r => (f.wpRuh r).curline)).card :=
        Finset.card_le_card hsub
    _ ≤ ((Finset.range cfg.nrRuh).image fun r => (f.wpRuh r).curline).card + 1 :=
        Finset.card_insert_le _ _
    _ ≤ cfg.nrRuh + 1 := by
        have himg := Finset.card_image_le (s := Finset.range cfg.nrRuh) (f := fun r => (f.wpRuh r).curline)
        rw [Finset.card_range] at himg
        omega

/-- **Without victims all closed lines are full.** -/
theorem Inv.ttLines_le {g : Ghost} {f : FdpFtl} (h : Inv cfg g f) (hq : g.Quiet)
    (hnone : f.victimLineCnt = 0) :
    cfg.sp.ttLines ≤ f.freeLineCnt + (linesAt cfg.sp g (· = .full)).card + (cfg.nrRuh + 1) := by
  have hcover : Finset.range cfg.sp.ttLines ⊆
      linesAt cfg.sp g (· = .free) ∪ linesAt cfg.sp g (· = .full) ∪ linesAt cfg.sp g Place.isOpened := by
    intro l hl
    have hlt := Finset.mem_range.mp hl
    simp only [Finset.mem_union, mem_linesAt, hlt, true_and]
    cases hpl : g.place l with
    | free => exact Or.inl (Or.inl rfl)
    | full => exact Or.inl (Or.inr rfl)
    | opened w => exact Or.inr rfl
    | cleaning => exact absurd hpl (hq.place_ne l)
    | victim =>
        obtain ⟨j, h1, h2, _⟩ := (h.placed.mem_pq l).mpr ⟨hlt, hpl⟩
        have hsize := h.placed.victim_cnt
        omega
  have hcard := Finset.card_le_card hcover
  rw [Finset.card_range] at hcard
  have h1 := Finset.card_union_le (linesAt cfg.sp g (· = .free) ∪ linesAt cfg.sp g (· = .full))
    (linesAt cfg.sp g Place.isOpened)
  have h2 := Finset.card_union_le (linesAt cfg.sp g (· = .free)) (linesAt cfg.sp g (· = .full))
  have h3 := h.card_free
  have h4 := h.card_opened_le
  omega

/-- **A victim exists**: with at most `n` free lines, a partition whose logical pages do not fill all its
    other closed lines has a line with an invalid page. -/
theorem Sound.victim_pos {f : FdpFtl} {n : Nat} (hg : Geometry cfg.sp) (h : Sound cfg f)
    (hB : LpnBound B f) (hfree : f.freeLineCnt ≤ n)
    (hfew : B < (cfg.sp.ttLines - (n + cfg.nrRuh + 1)) * cfg.sp.pgsPerLine) : 0 < f.victimLineCnt := by
  obtain ⟨g, hq, hinv⟩ := h
  by_contra hnone
  have hlines := hinv.ttLines_le hq (Nat.eq_zero_of_not_pos hnone)
  have hpages := hinv.card_full_mul_le hg hq hB
  have hmul : (cfg.sp.ttLines - (n + cfg.nrRuh + 1)) * cfg.sp.pgsPerLine ≤
      (linesAt cfg.sp g (· = .full)).card * cfg.sp.pgsPerLine :=
    Nat.mul_le_mul_right _ (by omega)
  omega

end NvmeVirt
