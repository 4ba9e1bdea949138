import NvmeVirt.Ftl.Invalidate

/-!
# `Ftl.Alloc` — programming the page at a write pointer

`allocPage` is used by the host write and by garbage collection. Its first half enters the page at the
pointer in both tables and marks it valid: the pointer is then one page behind its line (`ahead = 1`). Its
second half, `advance_write_pointer`, catches up; at the end of a line it moves the line to the full list
or the victim queue and opens the next free one. **The only way to fail is an empty free list**, and then
the room left is at most one page more than the other pointers' lines (`allocPage_spec`).
-/

namespace NvmeVirt

open Counting Outcome

variable {τ : Type} {cfg : FtlConfig} {g : Ghost} {s : Part τ} {w : Writer} {lpn : Nat}

/-! ## Programming -/

/-- The state after `mark_page_valid` on the page at pointer `w`, entered for `lpn`. -/
def programmed (cfg : FtlConfig) (w : Writer) (lpn : Nat) (s : Part τ) : Part τ :=
  let p := (s.wp w).ppa
  { s with
    maptbl := Function.update s.maptbl lpn (some p)
    rmap := Function.update s.rmap (pgidx cfg.sp p) lpn
    flash := Function.update s.flash p.blkAddr ((s.flash p.blkAddr).program p.pg)
    lines := Function.update s.lines p.blk { s.lines p.blk with vpc := (s.lines p.blk).vpc + 1 }
    hist := .program w p :: s.hist }

/-- The ghost between `mark_page_valid` and `advance_write_pointer`. -/
def Ghost.program (g : Ghost) (w : Writer) (l : Nat) : Ghost :=
  { g with
    fill := Function.update g.fill l (g.fill l + 1)
    ahead := Function.update g.ahead w (g.ahead w + 1)
    stale := fun _ => False }

theorem programmed_status (cfg : FtlConfig) (w : Writer) (lpn : Nat) (s : Part τ) (q : Ppa) :
    (programmed cfg w lpn s).flash.status q =
      if q = (s.wp w).ppa then .valid else s.flash.status q :=
  Flash.status_update rfl q

/-- What the invariant says about the page a pointer is at. -/
structure AtPointer (cfg : FtlConfig) (g : Ghost) (w : Writer) (s : FdpFtl) (p : Ppa) : Prop where
  ppa_eq : (s.wp w).ppa = p
  valid : validPpa cfg.sp p
  blk_eq : (s.wp w).curline = p.blk
  place_blk : g.place p.blk = .opened w
  fill_blk : g.fill p.blk = seqIdx cfg.sp p.ch p.lun p.pg
  fill_lt : g.fill p.blk < cfg.sp.pgsPerLine
  status : s.flash.status p = .free

theorem Inv.atPointer (hg : Geometry cfg.sp) (h : Inv cfg g s.toFdpFtl) (hw : w.Valid cfg.nrRuh)
    (hahead : g.ahead w = 0) : AtPointer cfg g w s.toFdpFtl (s.wp w).ppa := by
  have hwf := h.pointed.wf w hw
  have hblk : (s.wp w).curline = (s.wp w).ppa.blk := hwf.blk_eq.symm
  have hplace : g.place (s.wp w).ppa.blk = .opened w := by
    rw [← hblk]
    exact h.pointed.place_curline w hw
  have hfill : g.fill (s.wp w).ppa.blk = wpIdx cfg.sp (s.wp w) := by
    rw [← hblk, h.pointed.fill_curline w hw, hahead, Nat.add_zero]
  have hvalid := WritePointer.ppa_valid hg hwf (h.pointed.curline_lt w hw)
  refine ⟨rfl, hvalid, hblk, hplace, hfill, by rw [hfill]; exact wpIdx_lt hg hwf, ?_⟩
  rw [h.counted.status_free _ hvalid]
  exact Or.inr (Nat.le_of_eq hfill)

section program

variable {p : Ppa} (hp : AtPointer cfg g w s.toFdpFtl p)
include hp

theorem AtPointer.not_erased (hc : g.Confined) : ¬ g.erased p.blkAddr := by
  intro he
  have := hc.of_erased p.blkAddr he
  have hpl := hp.place_blk
  rw [show p.blkAddr.blk = p.blk from rfl, hpl] at this
  cases this

theorem AtPointer.not_cleaned (hc : g.Confined) : ¬ g.cleaned p := by
  intro he
  have := hc.of_cleaned p he
  rw [hp.place_blk] at this
  cases this

theorem AtPointer.vpc_lt (h : Counted cfg.sp g s.toFdpFtl) :
    (s.flash p.blkAddr).vpc < cfg.sp.pgsPerBlk := by
  have hpos := countBelow_pos (P := (· = PgStatus.free)) (f := (s.flash p.blkAddr).pg)
    hp.valid.2.2.2.2 hp.status
  have hle := countBelow_add_le (P := (· = PgStatus.valid)) (Q := (· = PgStatus.free))
    (f := (s.flash p.blkAddr).pg) (n := cfg.sp.pgsPerBlk) (fun a ha => by simp [ha])
  rw [h.blk_vpc]
  omega

/-- Programming moves the boundary between programmed and free pages of the line by one. -/
theorem AtPointer.status_free_iff (hg : Geometry cfg.sp) (hc : g.Confined)
    (h : Counted cfg.sp g s.toFdpFtl) {q : Ppa} (hq : validPpa cfg.sp q) :
    (programmed cfg w lpn s).flash.status q = .free ↔
      g.erased q.blkAddr ∨ (g.program w p.blk).fill q.blk ≤ seqIdx cfg.sp q.ch q.lun q.pg := by
  rw [programmed_status, hp.ppa_eq]
  have hold := h.status_free q hq
  by_cases hqp : q = p
  · subst hqp
    have hne := hp.not_erased hc
    have hfill := hp.fill_blk
    simp only [if_true, reduceCtorEq, Ghost.program, Function.update_self, false_iff, not_or, hne,
      not_false_eq_true, true_and]
    omega
  · rw [if_neg hqp, hold]
    by_cases hblk : q.blk = p.blk
    · -- another page of the line is not at the boundary
      have hseq : seqIdx cfg.sp q.ch q.lun q.pg ≠ seqIdx cfg.sp p.ch p.lun p.pg := by
        intro he
        obtain ⟨hch, hlun, hpg⟩ := seqIdx_inj hg.grid hq.1 hp.valid.1 hq.2.1 hp.valid.2.1 he
        have hpl : q.pl = p.pl := by
          rw [validPpa.pl_eq hg hq, validPpa.pl_eq hg hp.valid]
        apply hqp
        cases q
        cases p
        simp_all
      have hfill := hp.fill_blk
      simp only [Ghost.program, hblk, Function.update_self]
      refine or_congr_right ?_
      omega
    · simp [Ghost.program, Function.update_of_ne hblk]

theorem AtPointer.counted (hg : Geometry cfg.sp) (hc : g.Confined) (h : Counted cfg.sp g s.toFdpFtl) :
    Counted cfg.sp (g.program w p.blk) (programmed cfg w lpn s).toFdpFtl := by
  have hst := hp.status
  have hpe := hp.ppa_eq
  have hb : ((s.flash p.blkAddr).program p.pg).vpc = (s.flash p.blkAddr).vpc + 1 ∧
      ((s.flash p.blkAddr).program p.pg).ipc = (s.flash p.blkAddr).ipc := ⟨rfl, rfl⟩
  have hlines : ∀ x, ((programmed cfg w lpn s).lines x).vpc =
      (if x = p.blk then (s.lines p.blk).vpc + 1 else (s.lines x).vpc) ∧
      ((programmed cfg w lpn s).lines x).ipc = (s.lines x).ipc := by
    intro x
    simp only [programmed, hpe]
    by_cases hx : x = p.blk
    · subst hx
      simp
    · simp [hx]
  refine h.setPage hg hp.valid .valid (b := (s.flash p.blkAddr).program p.pg) ?_ rfl ?_ ?_ ?_ ?_
    (fun x hx => hx) (fun q hq => hp.status_free_iff hg hc h hq) ?_
  · simp only [programmed, hpe]
  · simp only [hst, hb.1, reduceCtorEq, if_false, if_true]
  · simp only [hst, hb.2, reduceCtorEq, if_false]
  · intro x
    rw [(hlines x).1, hb.1]
    split
    · rename_i hx
      subst hx
      omega
    · rfl
  · intro x
    rw [(hlines x).2, hb.2]
  · intro x hx
    have hold := h.line_fill x hx
    rw [(hlines x).1, (hlines x).2]
    by_cases hxp : x = p.blk
    · subst hxp
      simp only [if_true, Ghost.program, Function.update_self]
      omega
    · simpa [hxp, Ghost.program] using hold

theorem AtPointer.mapped (hg : Geometry cfg.sp) (hc : g.Confined) (h : Mapped cfg.sp g s.toFdpFtl)
    (hstale : ∀ x, g.stale x ↔ x = lpn) (hlpn : lpn < cfg.sp.ttPgs) :
    Mapped cfg.sp (g.program w p.blk) (programmed cfg w lpn s).toFdpFtl := by
  have hpe := hp.ppa_eq
  have hrmap : ∀ q, validPpa cfg.sp q → q ≠ p →
      (programmed cfg w lpn s).rmap (pgidx cfg.sp q) = s.rmap (pgidx cfg.sp q) := by
    intro q hq hqp
    have hidx : pgidx cfg.sp q ≠ pgidx cfg.sp p := fun he => hqp (pgidx_inj hg hq hp.valid he)
    simp [programmed, hpe, hidx]
  have hmap : ∀ x, x ≠ lpn → (programmed cfg w lpn s).maptbl x = s.maptbl x := by
    intro x hx
    simp [programmed, hx]
  have hself : (programmed cfg w lpn s).maptbl lpn = some p := by simp [programmed, hpe]
  have hrself : (programmed cfg w lpn s).rmap (pgidx cfg.sp p) = lpn := by simp [programmed, hpe]
  refine ⟨?_, ?_⟩
  · intro x q hx _
    by_cases hxl : x = lpn
    · subst hxl
      rw [hself] at hx
      obtain rfl := Option.some.inj hx
      refine ⟨hlpn, hp.valid, ?_, hrself, hp.not_cleaned hc⟩
      rw [programmed_status, if_pos hpe.symm]
    · rw [hmap x hxl] at hx
      obtain ⟨hlt, hq, hst, hr, hcl⟩ := h.of_maptbl x q hx (fun hs => hxl ((hstale x).mp hs))
      -- a page that was valid is not the free page just programmed
      have hqp : q ≠ p := by
        intro he
        rw [he, hp.status] at hst
        cases hst
      refine ⟨hlt, hq, ?_, ?_, hcl⟩
      · rw [programmed_status, if_neg (by rw [hpe]; exact hqp)]
        exact hst
      · rw [hrmap q hq hqp]
        exact hr
  · intro q hq hst hcl
    refine ⟨?_, fun hf => hf⟩
    by_cases hqp : q = p
    · subst hqp
      rw [hrself, hself]
    · rw [programmed_status, if_neg (by rw [hpe]; exact hqp)] at hst
      obtain ⟨hback, hns⟩ := h.of_valid q hq hst hcl
      rw [hrmap q hq hqp, hmap _ (fun he => hns ((hstale _).mpr he))]
      exact hback

theorem AtPointer.labelled (hg : Geometry cfg.sp) (h : Labelled cfg.sp cfg.nrRuh g s.toFdpFtl) :
    Labelled cfg.sp cfg.nrRuh (g.program w p.blk) (programmed cfg w lpn s).toFdpFtl := by
  have hpe := hp.ppa_eq
  have hruh : ∀ x, ((programmed cfg w lpn s).lines x).ruh = (s.lines x).ruh := by
    intro x
    by_cases hx : x = p.blk
    · subst hx
      simp [programmed, hpe]
    · simp [programmed, hpe, hx]
  have hhist : ∀ q, lastWriter (programmed cfg w lpn s).hist q =
      if p = q then some w else lastWriter s.hist q := by
    intro q
    simp [programmed, hpe, lastWriter]
  refine
    { opened_ruh := fun l v hl hpl => (hruh l).trans (h.opened_ruh l v hl hpl)
      free_ruh := fun l hl hpl => (hruh l).trans (h.free_ruh l hl hpl)
      ruh_range := fun l hl => by rw [hruh]; exact h.ruh_range l hl
      of_free := ?_
      of_programmed := ?_ }
  · intro q hq hst
    rw [programmed_status, hpe] at hst
    split at hst
    · cases hst
    · rename_i hqp
      rw [hhist, if_neg (Ne.symm hqp)]
      exact h.of_free q hq hst
  · intro q hq hst
    rw [hhist, hruh]
    rw [programmed_status, hpe] at hst
    by_cases hqp : q = p
    · subst hqp
      rw [if_pos rfl, h.opened_ruh q.blk w (hq.blk_lt hg) hp.place_blk, writerOfLabel_label]
    · rw [if_neg hqp] at hst
      rw [if_neg (Ne.symm hqp)]
      exact h.of_programmed q hq hst

theorem AtPointer.balanced (hg : Geometry cfg.sp) (h : Balanced cfg.sp s.toFdpFtl) :
    Balanced cfg.sp (programmed cfg w lpn s).toFdpFtl := by
  obtain ⟨hch, hlun, hpl, hblk⟩ := hp.valid.blkAddr_coords hg
  have hpe := hp.ppa_eq
  have hpg : (s.flash p.blkAddr).pg p.pg = .free := hp.status
  have hcount := countBelow_update (P := (· ≠ PgStatus.free)) (f := (s.flash p.blkAddr).pg)
    hp.valid.2.2.2.2 .valid
  have hmore : ((s.flash p.blkAddr).program p.pg).programmed cfg.sp =
      (s.flash p.blkAddr).programmed cfg.sp + 1 := by
    simp only [hpg, ne_eq, reduceCtorEq, not_false_eq_true, if_true, not_true_eq_false, if_false] at hcount
    exact hcount
  have hsum := programmedPages_update (f := s.flash) (b := (s.flash p.blkAddr).program p.pg)
    hch hlun hpl hblk
  unfold Balanced at h ⊢
  simp only [programmed, hpe, nrPrograms, nrErases]
  omega

end program

/-- **Programming the page at a pointer** keeps the invariant, with the pointer one page behind. -/
theorem Inv.program (hg : Geometry cfg.sp) (h : Inv cfg g s.toFdpFtl) (hw : w.Valid cfg.nrRuh)
    (hahead : g.ahead w = 0) (hstale : ∀ x, g.stale x ↔ x = lpn) (hlpn : lpn < cfg.sp.ttPgs) :
    Inv cfg (g.program w (s.wp w).curline) (programmed cfg w lpn s).toFdpFtl := by
  have hp := h.atPointer hg hw hahead
  rw [hp.blk_eq]
  generalize (s.wp w).ppa = p at hp
  have hpe := hp.ppa_eq
  -- only the line of the pointer changes its counters, and that line is neither free nor closed
  have hother : ∀ x, x ≠ p.blk → (programmed cfg w lpn s).lines x = s.lines x := by
    intro x hx
    simp [programmed, hpe, hx]
  have hne : ∀ {x pl}, g.place x = pl → pl ≠ .opened w → x ≠ p.blk := by
    intro x pl hx hpl he
    rw [he, hp.place_blk] at hx
    exact hpl hx.symm
  have hfill : ∀ {x pl}, g.place x = pl → pl ≠ .opened w →
      (g.program w p.blk).fill x = g.fill x := by
    intro x pl hx hpl
    exact Function.update_of_ne (hne hx hpl) _ _
  exact
    { confined := ⟨h.confined.of_cleaned, h.confined.of_erased⟩
      counted := hp.counted hg h.confined h.counted
      placed := by
        refine h.placed.congr rfl ?_ ?_ ?_ rfl rfl rfl rfl rfl rfl
        · intro x
          by_cases hx : x = p.blk
          · subst hx
            simp [programmed, hpe]
          · rw [hother x hx]
        · intro x
          by_cases hx : x = p.blk
          · subst hx
            simp [programmed, hpe]
          · rw [hother x hx]
        · intro x hx
          rw [hother x (hne hx (by simp))]
      pointed :=
        { wf := h.pointed.wf
          curline_lt := h.pointed.curline_lt
          place_curline := h.pointed.place_curline
          fill_curline := by
            intro v hv
            have hold := h.pointed.fill_curline v hv
            show (g.program w p.blk).fill (s.wp v).curline = _
            by_cases hvw : v = w
            · subst hvw
              simp only [hp.blk_eq] at hold
              simp only [Ghost.program, Function.update_self, hp.blk_eq]
              exact congrArg (· + 1) hold
            · have hcur : (s.wp v).curline ≠ p.blk :=
                hne (h.pointed.place_curline v hv) (by simpa using hvw)
              simp only [Ghost.program, Function.update_of_ne hcur, Function.update_of_ne hvw]
              exact hold
          opened_inv := h.pointed.opened_inv }
      settled :=
        { free_fill := fun x hx hpl => (hfill hpl (by simp)).trans (h.settled.free_fill x hx hpl)
          full_fill := fun x hx hpl => (hfill hpl (by simp)).trans (h.settled.full_fill x hx hpl)
          full_ipc := fun x hx hpl => by
            rw [hother x (hne hpl (by simp))]
            exact h.settled.full_ipc x hx hpl
          victim_fill := fun x hx hpl => (hfill hpl (by simp)).trans (h.settled.victim_fill x hx hpl)
          victim_ipc := fun x hx hpl => by
            rw [hother x (hne hpl (by simp))]
            exact h.settled.victim_ipc x hx hpl
          cleaning_fill := fun x hx hpl =>
            (hfill hpl (by simp)).trans (h.settled.cleaning_fill x hx hpl) }
      mapped := hp.mapped hg h.confined h.mapped hstale hlpn
      labelled := hp.labelled hg h.labelled
      balanced := hp.balanced hg h.balanced }

/-! ## Room -/

theorem room_setWp {io : IoType} {ruh : Nat} (hw : (writerOf io ruh).Valid cfg.nrRuh) (wp : WritePointer)
    (s : Part τ) :
    room cfg (setWp io ruh wp s).toFdpFtl +
        (cfg.sp.pgsPerLine - wpIdx cfg.sp (s.wp (writerOf io ruh))) =
      room cfg s.toFdpFtl + (cfg.sp.pgsPerLine - wpIdx cfg.sp wp) := by
  cases io with
  | user =>
      have h := sum_add_of_eq_off (f := fun r => cfg.sp.pgsPerLine - wpIdx cfg.sp (s.wpRuh r))
        (g := fun r => cfg.sp.pgsPerLine - wpIdx cfg.sp (Function.update s.wpRuh ruh wp r))
        (Finset.mem_range.mpr hw) (by
          intro x _ hx
          simp only [Function.update_of_ne hx])
      simp only [Function.update_self] at h
      simp only [room, setWp, writerOf, FdpFtl.wp]
      omega
  | gc =>
      simp only [room, setWp, writerOf, FdpFtl.wp]
      omega

/-- With no free line and one pointer on the last page of its line, the room left is that page and what
    is left of the other pointers' lines. -/
theorem room_le_of_starved {s : FdpFtl} (hw : w.Valid cfg.nrRuh) (hfree : s.freeLineList = [])
    (hlast : wpIdx cfg.sp (s.wp w) + 1 = cfg.sp.pgsPerLine) :
    room cfg s ≤ cfg.nrRuh * cfg.sp.pgsPerLine + 1 := by
  have hle : ∀ t : Finset Nat, ∑ r ∈ t, (cfg.sp.pgsPerLine - wpIdx cfg.sp (s.wpRuh r)) ≤
      t.card * cfg.sp.pgsPerLine := by
    intro t
    calc ∑ r ∈ t, (cfg.sp.pgsPerLine - wpIdx cfg.sp (s.wpRuh r))
        ≤ ∑ _r ∈ t, cfg.sp.pgsPerLine := Finset.sum_le_sum (fun r _ => Nat.sub_le _ _)
      _ = t.card * cfg.sp.pgsPerLine := Finset.sum_const_nat (fun _ _ => rfl)
  unfold room
  rw [hfree, List.length_nil, Nat.zero_mul, Nat.zero_add]
  cases w with
  | host r =>
      have hr : r < cfg.nrRuh := hw
      have hmem : r ∈ Finset.range cfg.nrRuh := Finset.mem_range.mpr hr
      have hlast' : wpIdx cfg.sp (s.wpRuh r) + 1 = cfg.sp.pgsPerLine := hlast
      have hrest := hle ((Finset.range cfg.nrRuh).erase r)
      rw [Finset.card_erase_of_mem hmem, Finset.card_range] at hrest
      rw [← Finset.add_sum_erase _ _ hmem]
      have hmul : (cfg.nrRuh - 1) * cfg.sp.pgsPerLine + cfg.sp.pgsPerLine =
          cfg.nrRuh * cfg.sp.pgsPerLine := by
        rw [← Nat.succ_mul]
        congr 1
        omega
      omega
  | gc =>
      have hlast' : wpIdx cfg.sp s.gcWp + 1 = cfg.sp.pgsPerLine := hlast
      have hall := hle (Finset.range cfg.nrRuh)
      rw [Finset.card_range] at hall
      omega

/-! ## Advancing -/

section advance

variable {io : IoType} {ruh : Nat}

theorem setWp_frame (io : IoType) (ruh : Nat) (wp : WritePointer) (s : Part τ) :
    setWp io ruh wp s =
      { s with wpRuh := (setWp io ruh wp s).wpRuh, gcWp := (setWp io ruh wp s).gcWp } := by
  cases io <;> rfl

/-- The pointer has stepped over the page it programmed. -/
def Ghost.caughtUp (g : Ghost) (w : Writer) : Ghost := { g with ahead := Function.update g.ahead w 0 }

/-- **Within a line**, `advance_write_pointer` only moves the pointer. -/
theorem Inv.stepPointer (h : Inv cfg g s.toFdpFtl) (hw : (writerOf io ruh).Valid cfg.nrRuh)
    (hahead : g.ahead (writerOf io ruh) = 1) {wp : WritePointer} (hwf : wp.Wf cfg.sp)
    (hcur : wp.curline = (s.wp (writerOf io ruh)).curline)
    (hidx : wpIdx cfg.sp wp = wpIdx cfg.sp (s.wp (writerOf io ruh)) + 1) :
    Inv cfg (g.caughtUp (writerOf io ruh)) (setWp io ruh wp s).toFdpFtl := by
  have hself := wp_setWp_self io ruh wp s
  have hother := fun v (hv : v ≠ writerOf io ruh) => wp_setWp_of_ne io ruh wp s hv
  have hframe := setWp_frame io ruh wp s
  have hpointed : Pointed cfg.sp cfg.nrRuh (g.caughtUp (writerOf io ruh)) (setWp io ruh wp s).toFdpFtl := by
    refine
      { wf := ?_
        curline_lt := ?_
        place_curline := ?_
        fill_curline := ?_
        opened_inv := ?_ }
    · intro v hv
      by_cases hvw : v = writerOf io ruh
      · rw [hvw, hself]
        exact hwf
      · rw [hother v hvw]
        exact h.pointed.wf v hv
    · intro v hv
      by_cases hvw : v = writerOf io ruh
      · rw [hvw, hself, hcur]
        exact h.pointed.curline_lt _ hw
      · rw [hother v hvw]
        exact h.pointed.curline_lt v hv
    · intro v hv
      by_cases hvw : v = writerOf io ruh
      · rw [hvw, hself, hcur]
        exact h.pointed.place_curline _ hw
      · rw [hother v hvw]
        exact h.pointed.place_curline v hv
    · intro v hv
      by_cases hvw : v = writerOf io ruh
      · have hold := h.pointed.fill_curline _ hw
        rw [hahead] at hold
        rw [hvw, hself, hcur, hidx]
        simpa [Ghost.caughtUp] using hold
      · rw [hother v hvw]
        simpa [Ghost.caughtUp, hvw] using h.pointed.fill_curline v hv
    · intro l v hl hpl
      obtain ⟨hv, hl'⟩ := h.pointed.opened_inv l v hl hpl
      refine ⟨hv, ?_⟩
      by_cases hvw : v = writerOf io ruh
      · rw [hvw, hself, hcur, ← hvw]
        exact hl'
      · rw [hother v hvw]
        exact hl'
  rw [hframe] at hpointed ⊢
  exact
    { confined := ⟨h.confined.of_cleaned, h.confined.of_erased⟩
      counted := h.counted.congr rfl rfl rfl rfl rfl
      placed := h.placed.congr rfl (fun _ => rfl) (fun _ => rfl) (fun _ _ => rfl) rfl rfl rfl rfl rfl rfl
      pointed := hpointed
      settled := h.settled.congr rfl rfl rfl
      mapped := ⟨h.mapped.of_maptbl, h.mapped.of_valid⟩
      labelled := h.labelled.congr (fun _ => rfl) rfl (fun _ _ hx => hx) (fun _ hx => hx)
        (fun _ _ => Iff.rfl)
      balanced := h.balanced }

/-- What `closeLine` leaves unchanged. -/
structure Closed (s s₁ : Part τ) : Prop where
  frame : s₁ = { s with
    lines := s₁.lines
    victimLinePq := s₁.victimLinePq
    fullLineList := s₁.fullLineList
    fullLineCnt := s₁.fullLineCnt
    victimLineCnt := s₁.victimLineCnt }
  lines_eq : ∀ x, s₁.lines x = { s.lines x with pos := (s₁.lines x).pos }

/-- A line that is used up may be closed: as full when it has no invalid page, for the victim queue when it has. -/
theorem Settled.close {spp : SsdParams} {l : Nat} {pl : Place} {s s' : FdpFtl} (h : Settled spp g s)
    (hfill : g.fill l = spp.pgsPerLine) (hipc : ∀ x, (s'.lines x).ipc = (s.lines x).ipc)
    (hto : pl = .full ∧ (s.lines l).ipc = 0 ∨ pl = .victim ∧ 0 < (s.lines l).ipc) :
    Settled spp (g.move l pl) s' := by
  have hto' : pl ≠ .free ∧ pl ≠ .cleaning := by rcases hto with ⟨rfl, _⟩ | ⟨rfl, _⟩ <;> decide
  refine
    { free_fill := fun x hx hp => h.free_fill x hx ((Ghost.of_move_place hp).resolve_left fun hc => hto'.1 hc.2)
      full_fill := fun x hx hp => ?_
      full_ipc := fun x hx hp => (hipc x).trans ?_
      victim_fill := fun x hx hp => ?_
      victim_ipc := fun x hx hp => Nat.lt_of_lt_of_eq ?_ (hipc x).symm
      cleaning_fill := fun x hx hp =>
        h.cleaning_fill x hx ((Ghost.of_move_place hp).resolve_left fun hc => hto'.2 hc.2) }
  all_goals rcases Ghost.of_move_place hp with ⟨rfl, rfl⟩ | hp'
  · exact hfill
  · exact h.full_fill x hx hp'
  · exact (hto.resolve_right fun hc => by cases hc.1).2
  · exact h.full_ipc x hx hp'
  · exact hfill
  · exact h.victim_fill x hx hp'
  · exact (hto.resolve_left fun hc => by cases hc.1).2
  · exact h.victim_ipc x hx hp'

/-- **Closing** a line that is used up: it is full, or it has an invalid page and is queued. -/
theorem Inv.closeLine (h : Inv cfg g s.toFdpFtl) {l : Nat} (hl : l < cfg.sp.ttLines)
    (hpl : g.place l = .opened w) (hfill : g.fill l = cfg.sp.pgsPerLine) :
    ∃ s' pl, NvmeVirt.closeLine cfg l s = .ok s' ∧ Closed s s' ∧ (pl = .full ∨ pl = .victim) ∧
      Placed cfg.sp (g.move l pl) s'.toFdpFtl ∧ Settled cfg.sp (g.move l pl) s'.toFdpFtl := by
  have hsum := h.counted.line_fill l hl
  by_cases hv : (s.lines l).vpc = cfg.sp.pgsPerLine
  · -- every page of the line is still valid
    have hi : (s.lines l).ipc = 0 := by omega
    refine ⟨{ s with fullLineList := s.fullLineList ++ [l], fullLineCnt := s.fullLineCnt + 1 }, .full,
      ?_, ⟨rfl, fun _ => rfl⟩, Or.inl rfl, h.placed.addFull hl hpl,
      h.settled.close hfill (fun _ => rfl) (Or.inl ⟨rfl, hi⟩)⟩
    simp only [NvmeVirt.closeLine, hv, if_true, nvmevAssert_of hi, ok_bind, pure_eq_ok]
  · have hlt : (s.lines l).vpc < cfg.sp.pgsPerLine := by omega
    have hi : 0 < (s.lines l).ipc := by omega
    refine ⟨{ pqueueInsert l s with victimLineCnt := s.victimLineCnt + 1 }, .victim, ?_,
      ⟨rfl, fun _ => rfl⟩, Or.inr rfl,
      h.placed.insertVictim hl (by simp [hpl]) (by simp [hpl]) (by simp [hpl]),
      h.settled.close hfill (fun _ => rfl) (Or.inr ⟨rfl, hi⟩)⟩
    simp only [NvmeVirt.closeLine, hv, if_false, nvmevAssert_of hlt, nvmevAssert_of hi, ok_bind,
      pure_eq_ok]
    rfl

/-- The state after line `l₀`, first of the free list, was opened for a writer. -/
def opened (io : IoType) (ruh l₀ : Nat) (rest : List Nat) (s : Part τ) : Part τ :=
  setWp io ruh (.start l₀)
    (setRuh l₀ (ruhLabel io ruh) { s with freeLineList := rest, freeLineCnt := s.freeLineCnt - 1 })

theorem opened_frame (io : IoType) (ruh l₀ : Nat) (rest : List Nat) (s : Part τ) :
    opened io ruh l₀ rest s =
      { s with
        lines := Function.update s.lines l₀ { s.lines l₀ with ruh := ruhLabel io ruh }
        freeLineList := rest
        freeLineCnt := s.freeLineCnt - 1
        wpRuh := (opened io ruh l₀ rest s).wpRuh
        gcWp := (opened io ruh l₀ rest s).gcWp } := by
  unfold opened
  rw [setWp_frame]
  rfl

theorem openLine_nil {wp : WritePointer} (hblk : wp.blk < cfg.sp.blksPerPl) (hs : s.freeLineList = []) :
    openLine cfg io ruh wp s = .error .nullLine := by
  simp only [openLine, checkAddr, nvmevAssert_of hblk, ok_bind, getNextFreeLine, hs]

theorem openLine_cons {wp : WritePointer} (hblk : wp.blk < cfg.sp.blksPerPl) {l₀ : Nat}
    {rest : List Nat} (hs : s.freeLineList = l₀ :: rest) (hid : (s.lines l₀).id = l₀)
    (hl₀ : l₀ < cfg.sp.blksPerPl) (hpl : wp.pl = 0) :
    openLine cfg io ruh wp s = .ok (opened io ruh l₀ rest s) := by
  have hid' : ∀ ruh' : Int, ((setRuh l₀ ruh'
      { s with freeLineList := rest, freeLineCnt := s.freeLineCnt - 1 } : Part τ).lines l₀).id = l₀ := by
    intro ruh'
    simpa [setRuh] using hid
  simp only [openLine, checkAddr, nvmevAssert_of hblk, ok_bind, getNextFreeLine, hs, hid',
    nvmevAssert_of hl₀, pure_eq_ok, hpl]
  rfl

/-- **Hand-over**: writer `w` has given up its line, which is closed, for the free line `l₀`. Nothing else
    of what the invariant reads has changed. -/
structure HandOver (cfg : FtlConfig) (w : Writer) (l₀ : Nat) (g g' : Ghost) (s s' : FdpFtl) : Prop where
  free_lt : l₀ < cfg.sp.ttLines
  free_place : g.place l₀ = .free
  new_place : g'.place l₀ = .opened w
  old_place : g'.place (s.wp w).curline = .full ∨ g'.place (s.wp w).curline = .victim
  other_place : ∀ x, x ≠ l₀ → x ≠ (s.wp w).curline → g'.place x = g.place x
  fill_eq : g'.fill = g.fill
  ahead_eq : g'.ahead = Function.update g.ahead w 0
  stale_eq : g'.stale = g.stale
  cleaned_eq : g'.cleaned = g.cleaned
  erased_eq : g'.erased = g.erased
  maptbl_eq : s'.maptbl = s.maptbl
  rmap_eq : s'.rmap = s.rmap
  flash_eq : s'.flash = s.flash
  hist_eq : s'.hist = s.hist
  wp_self : s'.wp w = .start l₀
  wp_other : ∀ v, v ≠ w → s'.wp v = s.wp v
  vpc_eq : ∀ x, (s'.lines x).vpc = (s.lines x).vpc
  ipc_eq : ∀ x, (s'.lines x).ipc = (s.lines x).ipc
  ruh_eq : ∀ x, (s'.lines x).ruh = if x = l₀ then w.label else (s.lines x).ruh

namespace HandOver

variable {l₀ : Nat} {g' : Ghost} {s s' : FdpFtl} (ho : HandOver cfg w l₀ g g' s s')
include ho

/-- A line neither full nor queued is the new one, or is where it was. -/
theorem of_place {x : Nat} {q : Place} (h2 : q ≠ .full) (h3 : q ≠ .victim) (hx : g'.place x = q) :
    x = l₀ ∧ q = .opened w ∨ x ≠ l₀ ∧ x ≠ (s.wp w).curline ∧ g.place x = q := by
  by_cases hx₀ : x = l₀
  · rw [hx₀, ho.new_place] at hx
    exact Or.inl ⟨hx₀, hx.symm⟩
  · have hcur : x ≠ (s.wp w).curline := by
      rintro rfl
      rcases ho.old_place with ho' | ho'
      · exact h2 (hx.symm.trans ho')
      · exact h3 (hx.symm.trans ho')
    exact Or.inr ⟨hx₀, hcur, (ho.other_place x hx₀ hcur).symm.trans hx⟩

/-- A place that the hand-over does not involve holds the same lines before and after. -/
theorem place_eq_iff (hcur : g.place (s.wp w).curline = .opened w) {x : Nat} {q : Place}
    (h1 : q ≠ .free) (h2 : q ≠ .full) (h3 : q ≠ .victim) (h4 : q ≠ .opened w) :
    g'.place x = q ↔ g.place x = q := by
  constructor
  · intro hx
    exact ((ho.of_place h2 h3 hx).resolve_left fun hc => h4 hc.2).2.2
  · intro hx
    have hne : x ≠ l₀ := fun he => h1 (hx.symm.trans (he ▸ ho.free_place))
    have hne' : x ≠ (s.wp w).curline := fun he => h4 (hx.symm.trans (he ▸ hcur))
    exact (ho.other_place x hne hne').trans hx

theorem confined (hcur : g.place (s.wp w).curline = .opened w) (h : g.Confined) : g'.Confined := by
  refine ⟨?_, ?_⟩
  · intro p hp
    rw [ho.cleaned_eq] at hp
    exact (ho.place_eq_iff hcur (by simp) (by simp) (by simp) (by simp)).mpr (h.of_cleaned p hp)
  · intro b hb
    rw [ho.erased_eq] at hb
    exact (ho.place_eq_iff hcur (by simp) (by simp) (by simp) (by simp)).mpr (h.of_erased b hb)

theorem counted (hcur : g.place (s.wp w).curline = .opened w) (h : Counted cfg.sp g s) :
    Counted cfg.sp g' s' := by
  have hne : ∀ x, g'.place x ≠ .cleaning → g.place x ≠ .cleaning := fun x hx hx' =>
    hx ((ho.place_eq_iff hcur (by simp) (by simp) (by simp) (by simp)).mpr hx')
  refine
    { status_free := by rw [ho.flash_eq, ho.erased_eq, ho.fill_eq]; exact h.status_free
      blk_vpc := by rw [ho.flash_eq]; exact h.blk_vpc
      blk_ipc := by rw [ho.flash_eq]; exact h.blk_ipc
      line_vpc := ?_
      line_ipc := ?_
      line_fill := ?_ }
  · intro l hl hpl
    rw [ho.vpc_eq, ho.flash_eq]
    exact h.line_vpc l hl (hne l hpl)
  · intro l hl hpl
    rw [ho.ipc_eq, ho.flash_eq]
    exact h.line_ipc l hl (hne l hpl)
  · intro l hl
    rw [ho.vpc_eq, ho.ipc_eq, ho.fill_eq]
    exact h.line_fill l hl

theorem pointed (hg : Geometry cfg.sp) (hw : w.Valid cfg.nrRuh)
    (hset : Settled cfg.sp g s) (h : Pointed cfg.sp cfg.nrRuh g s) :
    Pointed cfg.sp cfg.nrRuh g' s' := by
  -- the line of another pointer is neither of the two lines handed over
  have hplace : ∀ v, v ≠ w → v.Valid cfg.nrRuh → g'.place (s.wp v).curline = .opened v := by
    intro v hvw hv
    have hpl := h.place_curline v hv
    exact (ho.place_eq_iff (h.place_curline w hw) (by simp) (by simp) (by simp)
      (by simpa using hvw)).mpr hpl
  refine
    { wf := ?_
      curline_lt := ?_
      place_curline := ?_
      fill_curline := ?_
      opened_inv := ?_ }
  · intro v hv
    by_cases hvw : v = w
    · rw [hvw, ho.wp_self]
      exact WritePointer.start_wf hg l₀
    · rw [ho.wp_other v hvw]
      exact h.wf v hv
  · intro v hv
    by_cases hvw : v = w
    · rw [hvw, ho.wp_self]
      exact ho.free_lt
    · rw [ho.wp_other v hvw]
      exact h.curline_lt v hv
  · intro v hv
    by_cases hvw : v = w
    · rw [hvw, ho.wp_self]
      exact ho.new_place
    · rw [ho.wp_other v hvw]
      exact hplace v hvw hv
  · intro v hv
    rw [ho.fill_eq, ho.ahead_eq]
    by_cases hvw : v = w
    · rw [hvw, ho.wp_self, wpIdx_start, Function.update_self]
      exact hset.free_fill l₀ ho.free_lt ho.free_place
    · rw [ho.wp_other v hvw, Function.update_of_ne hvw]
      exact h.fill_curline v hv
  · intro l v hl hpl
    rcases ho.of_place (by simp) (by simp) hpl with ⟨rfl, hv⟩ | ⟨_, hcur, hpl'⟩
    · rw [Place.opened.inj hv, ho.wp_self]
      exact ⟨hw, rfl⟩
    · obtain ⟨hv, hl'⟩ := h.opened_inv l v hl hpl'
      have hvw : v ≠ w := fun he => hcur (he ▸ hl'.symm)
      rw [ho.wp_other v hvw]
      exact ⟨hv, hl'⟩

theorem labelled (hw : w.Valid cfg.nrRuh) (hset : Settled cfg.sp g s) (hcnt : Counted cfg.sp g s)
    (h : Labelled cfg.sp cfg.nrRuh g s) : Labelled cfg.sp cfg.nrRuh g' s' := by
  refine
    { opened_ruh := ?_
      free_ruh := ?_
      ruh_range := ?_
      of_free := by rw [ho.flash_eq, ho.hist_eq]; exact h.of_free
      of_programmed := ?_ }
  · intro l v hl hpl
    rw [ho.ruh_eq]
    rcases ho.of_place (by simp) (by simp) hpl with ⟨hl₀, hv⟩ | ⟨hl₀, _, hpl'⟩
    · rw [if_pos hl₀, Place.opened.inj hv]
    · rw [if_neg hl₀]
      exact h.opened_ruh l v hl hpl'
  · intro l hl hpl
    obtain ⟨hl₀, _, hpl'⟩ := (ho.of_place (by simp) (by simp) hpl).resolve_left fun hc => by cases hc.2
    rw [ho.ruh_eq, if_neg hl₀]
    exact h.free_ruh l hl hpl'
  · intro l hl
    rw [ho.ruh_eq]
    split
    · exact ⟨w, hw, rfl⟩
    · exact h.ruh_range l hl
  · intro q hq hst
    rw [ho.flash_eq] at hst
    rw [ho.hist_eq, ho.ruh_eq]
    split
    · -- no page of a line just taken from the free list is programmed
      rename_i hql
      exfalso
      apply hst
      rw [hcnt.status_free q hq, hql, hset.free_fill l₀ ho.free_lt ho.free_place]
      exact Or.inr (Nat.zero_le _)
    · exact h.of_programmed q hq hst

end HandOver

/-- **Opening** the next line for a writer whose old line has just been closed. -/
theorem Inv.handOver (hg : Geometry cfg.sp) (h : Inv cfg g s.toFdpFtl) (hw : w.Valid cfg.nrRuh)
    {l₀ : Nat} {g' : Ghost} {s' : Part τ} (ho : HandOver cfg w l₀ g g' s.toFdpFtl s'.toFdpFtl)
    (hplaced : Placed cfg.sp g' s'.toFdpFtl) (hsettled : Settled cfg.sp g' s'.toFdpFtl) :
    Inv cfg g' s'.toFdpFtl := by
  have hcur := h.pointed.place_curline w hw
  exact
    { confined := ho.confined hcur h.confined
      counted := ho.counted hcur h.counted
      placed := hplaced
      pointed := ho.pointed hg hw h.settled h.pointed
      settled := hsettled
      mapped := by
        refine ⟨?_, ?_⟩
        · rw [ho.maptbl_eq, ho.rmap_eq, ho.flash_eq, ho.stale_eq, ho.cleaned_eq]
          exact h.mapped.of_maptbl
        · rw [ho.maptbl_eq, ho.rmap_eq, ho.flash_eq, ho.stale_eq, ho.cleaned_eq]
          exact h.mapped.of_valid
      labelled := ho.labelled hw h.settled h.counted h.labelled
      balanced := by
        have hb := h.balanced
        unfold Balanced at hb ⊢
        rw [ho.hist_eq, ho.flash_eq]
        exact hb }

/-- Closing the current line of a writer and opening the first free one is a hand-over. -/
theorem Closed.handOver {s₁ : Part τ} (hc : Closed s s₁) {pl : Place} (hpl : pl = .full ∨ pl = .victim)
    {l₀ : Nat} (rest : List Nat) (hl₀ : l₀ < cfg.sp.ttLines) (hfree : g.place l₀ = .free)
    (hne : l₀ ≠ (s.wp (writerOf io ruh)).curline) :
    HandOver cfg (writerOf io ruh) l₀ g
      (((g.move (s.wp (writerOf io ruh)).curline pl).move l₀ (.opened (writerOf io ruh))).caughtUp
        (writerOf io ruh))
      s.toFdpFtl (opened io ruh l₀ rest s₁).toFdpFtl := by
  have hopen := opened_frame io ruh l₀ rest s₁
  have hline : ∀ x, (opened io ruh l₀ rest s₁).lines x =
      { s.lines x with
        ruh := if x = l₀ then (writerOf io ruh).label else (s.lines x).ruh
        pos := (s₁.lines x).pos } := by
    intro x
    rw [hopen]
    by_cases hx : x = l₀
    · subst hx
      simp only [Function.update_self, if_true, label_writerOf]
      rw [hc.lines_eq x]
    · simp only [Function.update_of_ne hx, if_neg hx]
      rw [hc.lines_eq x]
  refine
    { free_lt := hl₀
      free_place := hfree
      new_place := Ghost.move_place_self _ _ _
      old_place := ?_
      other_place := ?_
      fill_eq := rfl
      ahead_eq := rfl
      stale_eq := rfl
      cleaned_eq := rfl
      erased_eq := rfl
      maptbl_eq := by rw [hopen, hc.frame]
      rmap_eq := by rw [hopen, hc.frame]
      flash_eq := by rw [hopen, hc.frame]
      hist_eq := by rw [hopen, hc.frame]
      wp_self := wp_setWp_self io ruh _ _
      wp_other := ?_
      vpc_eq := fun x => by rw [hline x]
      ipc_eq := fun x => by rw [hline x]
      ruh_eq := fun x => by rw [hline x] }
  · have hold : (((g.move (s.wp (writerOf io ruh)).curline pl).move l₀
        (.opened (writerOf io ruh))).caughtUp (writerOf io ruh)).place
          (s.wp (writerOf io ruh)).curline = pl := by
      show ((g.move _ pl).move l₀ _).place _ = pl
      rw [Ghost.move_place_of_ne _ _ (Ne.symm hne), Ghost.move_place_self]
    rcases hpl with rfl | rfl
    · exact Or.inl hold
    · exact Or.inr hold
  · intro x hx hx'
    show ((g.move _ pl).move l₀ _).place x = _
    rw [Ghost.move_place_of_ne _ _ hx, Ghost.move_place_of_ne _ _ hx']
  · intro v hv
    refine (wp_setWp_of_ne io ruh _ _ hv).trans ?_
    rw [hc.frame]
    rfl

theorem Placed.openFree (h : Placed cfg.sp g s.toFdpFtl) {l₀ : Nat} {rest : List Nat}
    (hs : s.freeLineList = l₀ :: rest) :
    Placed cfg.sp ((g.move l₀ (.opened (writerOf io ruh))).caughtUp (writerOf io ruh))
      (opened io ruh l₀ rest s).toFdpFtl := by
  rw [opened_frame]
  have htake : Placed cfg.sp (g.move l₀ (.opened (writerOf io ruh))) _ :=
    h.takeFree hs (by simp) (by simp) (by simp)
  refine htake.congr rfl ?_ ?_ ?_ rfl rfl rfl rfl rfl rfl
  · intro x
    by_cases hx : x = l₀
    · subst hx
      simp
    · simp [hx]
  · intro x
    by_cases hx : x = l₀
    · subst hx
      simp
    · simp [hx]
  · intro x _
    by_cases hx : x = l₀
    · subst hx
      simp
    · simp [hx]

/-- Taking a line off the free list takes a line's worth of room. -/
theorem room_pop (cfg : FtlConfig) {l₀ : Nat} {rest : List Nat} (hs : s.freeLineList = l₀ :: rest)
    (label : Int) :
    room cfg (setRuh l₀ label
        { s with freeLineList := rest, freeLineCnt := s.freeLineCnt - 1 } : Part τ).toFdpFtl +
      cfg.sp.pgsPerLine = room cfg s.toFdpFtl := by
  simp only [room, setRuh, hs, List.length_cons, Nat.succ_mul]
  omega

/-- A free line that is opened leaves the places of closed lines alone. -/
theorem Settled.openFree {s s' : FdpFtl} (h : Settled cfg.sp g s) {l₀ : Nat} {v : Writer}
    (hfree : g.place l₀ = .free) (hipc : ∀ x, (s'.lines x).ipc = (s.lines x).ipc) :
    Settled cfg.sp ((g.move l₀ (.opened v)).caughtUp v) s' := by
  have hne : ∀ x q, q ≠ .free → q ≠ .opened v →
      (((g.move l₀ (.opened v)).caughtUp v).place x = q → g.place x = q) := fun x q h1 h2 hx =>
    (Ghost.move_place_eq_iff (by rw [hfree]; exact Ne.symm h1) (Ne.symm h2)).mp hx
  exact
    { free_fill := fun x hx hp => h.free_fill x hx ((Ghost.move_place_eq_from (by simp)).mp hp).2
      full_fill := fun x hx hp => h.full_fill x hx (hne x _ (by simp) (by simp) hp)
      full_ipc := fun x hx hp => by
        rw [hipc]
        exact h.full_ipc x hx (hne x _ (by simp) (by simp) hp)
      victim_fill := fun x hx hp => h.victim_fill x hx (hne x _ (by simp) (by simp) hp)
      victim_ipc := fun x hx hp => by
        rw [hipc]
        exact h.victim_ipc x hx (hne x _ (by simp) (by simp) hp)
      cleaning_fill := fun x hx hp => h.cleaning_fill x hx (hne x _ (by simp) (by simp) hp) }

/-- **What taking a page at the pointer of `w` does to everything but the page**: the invariant holds, the
    pointer may have gone on to a line that was free, and the room is one page less. -/
structure PointerTook (cfg : FtlConfig) (w : Writer) (g g' : Ghost) (s s' : Part τ) : Prop where
  inv : Inv cfg g' s'.toFdpFtl
  cleaned_eq : g'.cleaned = g.cleaned
  erased_eq : g'.erased = g.erased
  cleaning_iff : ∀ x, g'.place x = .cleaning ↔ g.place x = .cleaning
  credits_eq : s'.writeCredits = s.writeCredits
  refill_eq : s'.creditsToRefill = s.creditsToRefill
  wp_other : ∀ v, v ≠ w → s'.wp v = s.wp v
  free_suffix : s'.freeLineList <:+ s.freeLineList
  curline : (s'.wp w).curline = (s.wp w).curline ∨ (s'.wp w).curline ∈ s.freeLineList
  room_eq : room cfg s'.toFdpFtl + 1 = room cfg s.toFdpFtl

/-- What a successful `advance_write_pointer` does: the pages stay as they are. -/
structure Advanced (cfg : FtlConfig) (w : Writer) (g g' : Ghost) (s s' : Part τ) : Prop
    extends PointerTook cfg w g g' s s' where
  ahead_eq : g'.ahead = Function.update g.ahead w 0
  stale_eq : g'.stale = g.stale
  maptbl_eq : s'.maptbl = s.maptbl
  flash_eq : s'.flash = s.flash
  hist_eq : s'.hist = s.hist

/-- **`advance_write_pointer`** catches up with the page just programmed, or finds no free line. -/
theorem advanceWritePointer_spec (hg : Geometry cfg.sp) (h : Inv cfg g s.toFdpFtl)
    (hw : (writerOf io ruh).Valid cfg.nrRuh) (hahead : g.ahead (writerOf io ruh) = 1) :
    Sat (fun e => e = .nullLine ∧ room cfg s.toFdpFtl ≤ cfg.nrRuh * cfg.sp.pgsPerLine + 1)
      (fun s' => ∃ g', Advanced cfg (writerOf io ruh) g g' s s') (advanceWritePointer cfg io ruh s) := by
  have hwf := h.pointed.wf _ hw
  have hlt := wpIdx_lt hg hwf
  have hroom := fun wp => room_setWp hw wp s
  unfold advanceWritePointer
  rw [getWp_eq hw, ok_bind]
  rcases nextPage_spec hg.grid hwf with ⟨wp, hnext, hwf', hcur, hidx⟩ | ⟨hnext, hidx⟩
  · -- within the line
    rw [hnext, ok_bind]
    have hframe := setWp_frame io ruh wp s
    have hself : ((setWp io ruh wp s).wp (writerOf io ruh)).curline = (s.wp (writerOf io ruh)).curline := by
      rw [wp_setWp_self]
      exact hcur
    refine ⟨g.caughtUp (writerOf io ruh), ⟨h.stepPointer hw hahead hwf' hcur hidx, rfl, rfl,
      fun _ => Iff.rfl, ?_, ?_, fun _ hv => wp_setWp_of_ne io ruh wp s hv, ?_, Or.inl hself, ?_⟩,
      rfl, rfl, ?_, ?_, ?_⟩
    case refine_4 =>
      have hlt' := wpIdx_lt hg hwf'
      have := hroom wp
      omega
    all_goals rw [hframe]
  · rw [hnext, ok_bind]
    have hfill := h.pointed.fill_curline _ hw
    rw [hahead] at hfill
    have hblk : (s.wp (writerOf io ruh)).blk < cfg.sp.blksPerPl := by
      rw [hwf.blk_eq, ← hg.ttLines_eq]
      exact h.pointed.curline_lt _ hw
    have hplace := h.pointed.place_curline _ hw
    obtain ⟨s₁, pl, hclose, hc, hpl, hplaced, hsettled⟩ :=
      h.closeLine (h.pointed.curline_lt _ hw) hplace (hfill.trans hidx)
    show Sat _ _ (closeLine cfg (s.wp (writerOf io ruh)).curline s >>=
      fun s => openLine cfg io ruh _ s)
    rw [hclose, ok_bind]
    have hfree₁ : s₁.freeLineList = s.freeLineList := by rw [hc.frame]
    cases hs : s.freeLineList with
    | nil =>
        -- `get_next_free_line` returns `NULL`
        rw [openLine_nil hblk (hfree₁.trans hs)]
        exact ⟨rfl, room_le_of_starved hw hs hidx⟩
    | cons l₀ rest =>
        obtain ⟨hl₀, hfree⟩ := (h.placed.mem_free l₀).mp (by rw [hs]; exact List.mem_cons_self ..)
        have hne : l₀ ≠ (s.wp (writerOf io ruh)).curline := by
          intro he
          rw [he, hplace] at hfree
          cases hfree
        have hfreeMove : (g.move (s.wp (writerOf io ruh)).curline pl).place l₀ = .free := by
          rw [Ghost.move_place_of_ne g pl hne]
          exact hfree
        rw [openLine_cons hblk (hfree₁.trans hs) (hplaced.id_eq l₀) (by rw [← hg.ttLines_eq]; exact hl₀)
          hwf.pl_eq]
        have hopen := opened_frame io ruh l₀ rest s₁
        have ho := hc.handOver (g := g) hpl rest hl₀ hfree hne
        have hplaced' : Placed cfg.sp _ (opened io ruh l₀ rest s₁).toFdpFtl :=
          hplaced.openFree (hfree₁.trans hs)
        have hinv := h.handOver hg hw ho hplaced'
          (hsettled.openFree hfreeMove (fun x => by rw [ho.ipc_eq, hc.lines_eq x]))
        refine ⟨_, ⟨hinv, rfl, rfl, ?_, ?_, ?_, ho.wp_other, ?_, Or.inr ?_, ?_⟩, rfl, rfl, ho.maptbl_eq,
          ho.flash_eq, ho.hist_eq⟩
        · intro x
          exact ho.place_eq_iff hplace (by simp) (by simp) (by simp) (by simp)
        · rw [hopen, hc.frame]
        · rw [hopen, hc.frame]
        · rw [hopen, hs]
          exact List.suffix_cons l₀ rest
        · rw [ho.wp_self, hs]
          exact List.mem_cons_self ..
        · have hpop := room_pop cfg (hfree₁.trans hs) (ruhLabel io ruh)
          have hsame : room cfg s₁.toFdpFtl = room cfg s.toFdpFtl :=
            room_congr hfree₁ (by rw [hc.frame]; rfl)
          have hmove := room_setWp hw (.start l₀)
            (setRuh l₀ (ruhLabel io ruh) { s₁ with freeLineList := rest, freeLineCnt := s₁.freeLineCnt - 1 })
          have hwp : (setRuh l₀ (ruhLabel io ruh)
              { s₁ with freeLineList := rest, freeLineCnt := s₁.freeLineCnt - 1 } : Part τ).wp
                (writerOf io ruh) = s.wp (writerOf io ruh) := by
            rw [hc.frame]
            rfl
          rw [hwp, wpIdx_start] at hmove
          unfold opened
          omega

end advance

/-! ## The whole allocation -/

/-- **What a page allocation does**: the page at the pointer of `w` now holds `lpn`, and the room is one
    page less. -/
structure Allocated (cfg : FtlConfig) (w : Writer) (lpn : Nat) (g g' : Ghost) (s : Part τ) (p : Ppa)
    (s' : Part τ) : Prop extends PointerTook cfg w g g' s s' where
  ppa_eq : p = (s.wp w).ppa
  ahead_eq : ∀ v, g'.ahead v = 0
  not_stale : ∀ x, ¬ g'.stale x
  maptbl_eq : s'.maptbl = Function.update s.maptbl lpn (some p)
  flash_eq : s'.flash = Function.update s.flash p.blkAddr ((s.flash p.blkAddr).program p.pg)
  hist_eq : s'.hist = .program w p :: s.hist

theorem Allocated.status {g' : Ghost} {p : Ppa} {s' : Part τ} (h : Allocated cfg w lpn g g' s p s')
    (q : Ppa) : s'.flash.status q = if q = p then .valid else s.flash.status q := by
  rw [h.flash_eq]
  exact Flash.status_update rfl q

/-- `get_new_page` returns the page at the pointer: its coordinates fit the bit-fields. -/
theorem getNewPage_eq {io : IoType} {ruh : Nat} (hg : Geometry cfg.sp)
    (hw : (writerOf io ruh).Valid cfg.nrRuh) (hwf : (s.wp (writerOf io ruh)).Wf cfg.sp)
    (hcur : (s.wp (writerOf io ruh)).curline < cfg.sp.ttLines) :
    getNewPage cfg io ruh s = .ok (s.wp (writerOf io ruh)).ppa := by
  have hpg := Nat.lt_of_lt_of_le hwf.pg_lt hg.pgsPerBlk_le
  have hch := Nat.lt_of_lt_of_le hwf.ch_lt hg.nchs_le
  have hlun := Nat.lt_of_lt_of_le hwf.lun_lt hg.lunsPerCh_le
  have hblk : (s.wp (writerOf io ruh)).blk < 2 ^ blkBits := by
    rw [hwf.blk_eq]
    rw [hg.ttLines_eq] at hcur
    exact Nat.lt_of_lt_of_le hcur hg.blksPerPl_le
  have hpl : (s.wp (writerOf io ruh)).pl % 2 ^ plBits = (s.wp (writerOf io ruh)).pl := by
    rw [hwf.pl_eq]
    rfl
  simp only [getNewPage, getWp_eq hw, ok_bind, Nat.mod_eq_of_lt hpg, Nat.mod_eq_of_lt hch,
    Nat.mod_eq_of_lt hlun, Nat.mod_eq_of_lt hblk, hpl, nvmevAssert_of hwf.pl_eq, pure_eq_ok]
  rfl

/-- **Allocation.** From the invariant, `allocPage` programs the page at the pointer or stops because
    there is no free line; it never fails an assertion. -/
theorem allocPage_spec (io : IoType) (ruh : Nat) (hg : Geometry cfg.sp) (h : Inv cfg g s.toFdpFtl)
    (hw : (writerOf io ruh).Valid cfg.nrRuh) (hahead : ∀ v, g.ahead v = 0)
    (hstale : ∀ x, g.stale x ↔ x = lpn) (hlpn : lpn < cfg.sp.ttPgs) :
    Sat (fun e => e = .nullLine ∧ room cfg s.toFdpFtl ≤ cfg.nrRuh * cfg.sp.pgsPerLine + 1)
      (fun r => ∃ g', Allocated cfg (writerOf io ruh) lpn g g' s r.1 r.2)
      (allocPage cfg io ruh lpn s) := by
  have hp := h.atPointer hg hw (hahead _)
  have hinv := h.program hg hw (hahead _) hstale hlpn
  -- the assertions of `mark_page_valid`
  have hfree := hp.status
  have hvpc := hp.vpc_lt h.counted
  have hline : (s.lines (s.wp (writerOf io ruh)).ppa.blk).vpc < cfg.sp.pgsPerLine := by
    have hfill := h.counted.line_fill _ (hp.valid.blk_lt hg)
    have := hp.fill_lt
    omega
  have hprog : allocPage cfg io ruh lpn s =
      advanceWritePointer cfg io ruh (programmed cfg (writerOf io ruh) lpn s) >>=
        fun s' => .ok ((s.wp (writerOf io ruh)).ppa, s') := by
    simp only [allocPage, getNewPage_eq hg hw (h.pointed.wf _ hw) (h.pointed.curline_lt _ hw), ok_bind,
      setMaptblEnt, nvmevAssert_of hlpn, pure_eq_ok, setRmapEnt, ppa2pgidx,
      nvmevAssert_of (pgidx_lt hg hp.valid), markPageValid, nvmevAssert_of hfree, nvmevAssert_of hvpc,
      nvmevAssert_of hline]
    rfl
  have hroom : room cfg (programmed cfg (writerOf io ruh) lpn s).toFdpFtl = room cfg s.toFdpFtl :=
    room_congr rfl rfl
  have hahead' : (g.program (writerOf io ruh) (s.wp (writerOf io ruh)).curline).ahead
      (writerOf io ruh) = 1 := by
    simp [Ghost.program, hahead]
  have hadv := advanceWritePointer_spec hg hinv hw hahead'
  rw [hroom] at hadv
  rw [hprog]
  refine hadv.bind ?_
  rintro s' ⟨g', ha⟩
  refine ⟨g', { ha.toPointerTook with room_eq := ha.room_eq.trans hroom }, rfl, ?_, ?_, ha.maptbl_eq,
    ha.flash_eq, ha.hist_eq⟩
  · intro v
    rw [ha.ahead_eq]
    by_cases hv : v = writerOf io ruh
    · rw [hv, Function.update_self]
    · simp only [Function.update_of_ne hv, Ghost.program, hahead]
  · intro x hx
    rw [ha.stale_eq] at hx
    exact hx

end NvmeVirt
