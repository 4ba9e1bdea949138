import NvmeVirt.Ftl.Run

/-!
# `Ftl.Relabel` — a partition up to the names of its lines and handles

Two runs of a partition that make the same page writes, the second with its handles permuted by `π`, stay in
step: `Renamed` says that the second partition is the first one with its lines renamed by `σ` and its
handles by `π`. Nothing in the write path depends on the identity of a line — the free list and the full
list are used in order, the victim queue breaks ties by slot — and the latency models of the two runs are
unrelated, so neither does anything depend on the clock.

Each function of `Ftl.Write` and `Ftl.Gc` gets one lemma, about `Rel`: both runs of it return related
states, or both stop on the same fault. `Sim` carries, beside `Renamed`, what keeps addresses of the first
run inside the geometry, where no bit-field cuts them.
-/

namespace NvmeVirt

open Outcome

/-! ## Renaming addresses, lines and pointers -/

def BlkAddr.rename (σ : Equiv.Perm Nat) (b : BlkAddr) : BlkAddr := { b with blk := σ b.blk }

def Ppa.rename (σ : Equiv.Perm Nat) (p : Ppa) : Ppa := { p with blk := σ p.blk }

def WritePointer.rename (σ : Equiv.Perm Nat) (wp : WritePointer) : WritePointer :=
  { wp with curline := σ wp.curline, blk := σ wp.blk }

/-- The label of a line names a handle unless it is negative. -/
def relabel (π : Equiv.Perm Nat) (ruh : Int) : Int := if 0 ≤ ruh then (π ruh.toNat : Int) else ruh

def FdpLine.rename (σ π : Equiv.Perm Nat) (l : FdpLine) : FdpLine :=
  { l with id := σ l.id, ruh := relabel π l.ruh }

def Writer.rename (π : Equiv.Perm Nat) : Writer → Writer
  | .host r => .host (π r)
  | .gc => .gc

variable {σ π : Equiv.Perm Nat}

theorem BlkAddr.rename_inj : Function.Injective (BlkAddr.rename σ) := by
  intro a b h
  obtain ⟨hch, hlun, hpl, hblk⟩ := BlkAddr.mk.inj h
  cases a
  cases b
  simp_all

theorem Writer.rename_inj : Function.Injective (Writer.rename π) := by
  intro a b h
  cases a with
  | host r =>
      cases b with
      | host r' => exact congrArg _ (π.injective (Writer.host.inj h))
      | gc => exact absurd h nofun
  | gc =>
      cases b with
      | host r' => exact absurd h nofun
      | gc => rfl

theorem writerOf_rename (io : IoType) (ruh : Nat) : writerOf io (π ruh) = (writerOf io ruh).rename π := by
  cases io <;> rfl

theorem ruhLabel_rename (io : IoType) (ruh : Nat) : ruhLabel io (π ruh) = relabel π (ruhLabel io ruh) := by
  cases io with
  | user => rw [ruhLabel, ruhLabel, relabel, if_pos (Int.natCast_nonneg ruh), Int.toNat_natCast]
  | gc => rfl

/-- Updating corresponding entries keeps two tables in correspondence. -/
theorem update_renamed {α β γ δ : Type} [DecidableEq α] [DecidableEq β] {f : α → β}
    (hf : Function.Injective f) {R : γ → δ → Prop} {t : α → γ} {t' : β → δ} (h : ∀ a, R (t a) (t' (f a)))
    (a : α) {c : γ} {d : δ} (hcd : R c d) (b : α) :
    R (Function.update t a c b) (Function.update t' (f a) d (f b)) := by
  by_cases hb : b = a
  · subst hb
    rw [Function.update_self, Function.update_self]
    exact hcd
  · rw [Function.update_of_ne hb, Function.update_of_ne fun he => hb (hf he)]
    exact h b

/-! ## The relation -/

/-- Renamings of the lines and of the handles of a partition. -/
structure Renaming (cfg : FtlConfig) (σ π : Equiv.Perm Nat) : Prop where
  line_lt : ∀ l, σ l < cfg.sp.ttLines ↔ l < cfg.sp.ttLines
  ruh_lt : ∀ r, π r < cfg.nrRuh ↔ r < cfg.nrRuh

/-- **The same lines under other names**: the same lists in the same order, the same heap. -/
structure LinesRenamed (σ π : Equiv.Perm Nat) (s s' : FdpFtl) : Prop where
  line : ∀ l, s'.lines (σ l) = (s.lines l).rename σ π
  free : s'.freeLineList = s.freeLineList.map σ
  full : s'.fullLineList = s.fullLineList.map σ
  victim : s.victimLinePq.Renamed σ (victimLineGetPos s.lines) s'.victimLinePq (victimLineGetPos s'.lines)
  freeCnt : s'.freeLineCnt = s.freeLineCnt
  victimCnt : s'.victimLineCnt = s.victimLineCnt
  fullCnt : s'.fullLineCnt = s.fullLineCnt

/-- **The same partition under other names**: `s'` is `s` with its lines renamed by `σ` and its handles by
    `π`. -/
structure Renamed (cfg : FtlConfig) (σ π : Equiv.Perm Nat) (s s' : FdpFtl) : Prop where
  maptbl : ∀ lpn, s'.maptbl lpn = (s.maptbl lpn).map (Ppa.rename σ)
  rmap : ∀ p, validPpa cfg.sp p → s'.rmap (pgidx cfg.sp (p.rename σ)) = s.rmap (pgidx cfg.sp p)
  wp : ∀ w : Writer, w.Valid cfg.nrRuh → s'.wp (w.rename π) = (s.wp w).rename σ
  lines : LinesRenamed σ π s s'
  flash : ∀ b, s'.flash (b.rename σ) = s.flash b
  credits : s'.writeCredits = s.writeCredits
  refill : s'.creditsToRefill = s.creditsToRefill

/-- The addresses a partition holds are inside the geometry. -/
structure Addressed (cfg : FtlConfig) (s : FdpFtl) : Prop where
  id_eq : ∀ l, (s.lines l).id = l
  wf : ∀ w : Writer, w.Valid cfg.nrRuh → (s.wp w).Wf cfg.sp
  curline_lt : ∀ w : Writer, w.Valid cfg.nrRuh → (s.wp w).curline < cfg.sp.ttLines
  maptbl_valid : ∀ lpn p, s.maptbl lpn = some p → validPpa cfg.sp p

/-- The statistics of two runs agree. -/
structure SameStats (c c' : FdpCtx) : Prop where
  hbmw : c'.hbmw = c.hbmw
  mbmw : c'.mbmw = c.mbmw
  mbe : c'.mbe = c.mbe

/-- Two runs of a partition in step. -/
structure Sim {τ τ' : Type} (cfg : FtlConfig) (σ π : Equiv.Perm Nat) (s : Part τ) (s' : Part τ') : Prop where
  renamed : Renamed cfg σ π s.toFdpFtl s'.toFdpFtl
  addressed : Addressed cfg s.toFdpFtl
  stats : SameStats s.ctx s'.ctx

variable {τ τ' : Type} {cfg : FtlConfig} {s : Part τ} {s' : Part τ'}

/-- A check that both runs make of the same condition. -/
theorem rel_assert_bind {α β : Type} {R : α → β → Prop} {c c' : Prop} [Decidable c] [Decidable c']
    {f : Unit → Except Fault α} {g : Unit → Except Fault β} (h : c' ↔ c) (hfg : c → Rel R (f ()) (g ())) :
    Rel R (nvmevAssert c >>= f) (nvmevAssert c' >>= g) := by
  by_cases hc : c
  · rw [nvmevAssert_of hc, nvmevAssert_of (h.mpr hc)]
    exact hfg hc
  · rw [nvmevAssert, nvmevAssert, if_neg hc, if_neg fun hc' => hc (h.mp hc')]
    rfl

/-! ## Addresses -/

section Addresses

variable (hr : Renaming cfg σ π)
include hr

theorem Renaming.validPpa (hg : Geometry cfg.sp) (p : Ppa) :
    validPpa cfg.sp (p.rename σ) ↔ validPpa cfg.sp p := by
  have hblk := hr.line_lt p.blk
  rw [hg.ttLines_eq] at hblk
  unfold NvmeVirt.validPpa
  rw [show (p.rename σ).blk = σ p.blk from rfl, hblk]
  rfl

theorem Renaming.checkAddr_blk (hg : Geometry cfg.sp) (l : Nat) :
    σ l < cfg.sp.blksPerPl ↔ l < cfg.sp.blksPerPl := by
  rw [← hg.ttLines_eq]
  exact hr.line_lt l

theorem Renaming.writer_valid {w : Writer} : (w.rename π).Valid cfg.nrRuh ↔ w.Valid cfg.nrRuh := by
  cases w with
  | host r => exact hr.ruh_lt r
  | gc => exact Iff.rfl

/-- A line number of the geometry fits its bit-field under both names. -/
theorem Renaming.mod_blkBits (hg : Geometry cfg.sp) {l : Nat} (hl : l < cfg.sp.ttLines) :
    l % 2 ^ blkBits = l ∧ σ l % 2 ^ blkBits = σ l := by
  have hl' := (hr.line_lt l).mpr hl
  have hle := hg.blksPerPl_le
  rw [hg.ttLines_eq] at hl hl'
  exact ⟨Nat.mod_eq_of_lt (by omega), Nat.mod_eq_of_lt (by omega)⟩

end Addresses

/-! ## Page program -/

theorem setMaptblEnt_sim (h : Sim cfg σ π s s') (lpn : Nat) {p : Ppa} (hp : validPpa cfg.sp p) :
    Rel (Sim cfg σ π) (setMaptblEnt cfg lpn p s) (setMaptblEnt cfg lpn (p.rename σ) s') := by
  refine rel_assert_bind Iff.rfl fun _ => ?_
  refine ⟨{ h.renamed with maptbl := ?_, lines := { h.renamed.lines with } },
    { h.addressed with maptbl_valid := ?_ }, h.stats⟩
  · intro x
    show Function.update s'.maptbl lpn (some (p.rename σ)) x =
      (Function.update s.maptbl lpn (some p) x).map (Ppa.rename σ)
    by_cases hx : x = lpn
    · subst hx
      rw [Function.update_self, Function.update_self]
      rfl
    · rw [Function.update_of_ne hx, Function.update_of_ne hx]
      exact h.renamed.maptbl x
  · intro x q hq
    change Function.update s.maptbl lpn (some p) x = some q at hq
    by_cases hx : x = lpn
    · subst hx
      rw [Function.update_self] at hq
      rw [← Option.some.inj hq]
      exact hp
    · rw [Function.update_of_ne hx] at hq
      exact h.addressed.maptbl_valid x q hq

theorem setRmapEnt_sim (hg : Geometry cfg.sp) (hr : Renaming cfg σ π) (h : Sim cfg σ π s s') (lpn : Nat)
    {p : Ppa} (hp : validPpa cfg.sp p) :
    Rel (Sim cfg σ π) (setRmapEnt cfg lpn p s) (setRmapEnt cfg lpn (p.rename σ) s') := by
  have hp' := (hr.validPpa hg p).mpr hp
  rw [setRmapEnt, setRmapEnt, ppa2pgidx_of_valid hg hp, ppa2pgidx_of_valid hg hp']
  refine ⟨{ h.renamed with rmap := ?_, lines := { h.renamed.lines with } }, { h.addressed with }, h.stats⟩
  intro q hq
  show Function.update s'.rmap (pgidx cfg.sp (p.rename σ)) lpn (pgidx cfg.sp (q.rename σ)) =
    Function.update s.rmap (pgidx cfg.sp p) lpn (pgidx cfg.sp q)
  by_cases hqp : q = p
  · subst hqp
    rw [Function.update_self, Function.update_self]
  · have hne : pgidx cfg.sp q ≠ pgidx cfg.sp p := fun he => hqp (pgidx_inj hg hq hp he)
    have hne' : pgidx cfg.sp (q.rename σ) ≠ pgidx cfg.sp (p.rename σ) := by
      intro he
      have hinj := pgidx_inj hg ((hr.validPpa hg q).mpr hq) hp' he
      obtain ⟨hpg, hblk, hpl, hlun, hch⟩ := Ppa.mk.inj hinj
      exact hne (congrArg _ (by cases q; cases p; simp_all))
    rw [Function.update_of_ne hne, Function.update_of_ne hne']
    exact h.renamed.rmap q hq

theorem getRmapEnt_sim (hg : Geometry cfg.sp) (hr : Renaming cfg σ π) (h : Sim cfg σ π s s') {p : Ppa}
    (hp : validPpa cfg.sp p) :
    Rel (fun a b => b = a) (getRmapEnt cfg p s) (getRmapEnt cfg (p.rename σ) s') := by
  rw [getRmapEnt, getRmapEnt, ppa2pgidx_of_valid hg hp,
    ppa2pgidx_of_valid hg ((hr.validPpa hg p).mpr hp)]
  exact h.renamed.rmap p hp

/-- Storing corresponding lines keeps the lines in correspondence. -/
theorem LinesRenamed.setLine {f f' : FdpFtl} (h : LinesRenamed σ π f f') (l : Nat) (line : FdpLine) :
    LinesRenamed σ π { f with lines := Function.update f.lines l line }
      { f' with lines := Function.update f'.lines (σ l) (line.rename σ π) } := by
  have hlines := update_renamed (R := fun a b => b = FdpLine.rename σ π a) σ.injective h.line l
    (c := line) rfl
  refine { h with line := hlines, victim := ⟨h.victim.size_pos, h.victim.size_eq, h.victim.slots.d_eq, ?_⟩ }
  intro a
  show victimLineGetPos (Function.update f'.lines (σ l) (line.rename σ π)) (σ a) =
    victimLineGetPos (Function.update f.lines l line) a
  rw [victimLineGetPos, hlines a]
  rfl

theorem LinesRenamed.vpc {f f' : FdpFtl} (h : LinesRenamed σ π f f') (l : Nat) :
    (f'.lines (σ l)).vpc = (f.lines l).vpc := by
  rw [h.line l]
  rfl

theorem LinesRenamed.ipc {f f' : FdpFtl} (h : LinesRenamed σ π f f') (l : Nat) :
    (f'.lines (σ l)).ipc = (f.lines l).ipc := by
  rw [h.line l]
  rfl

theorem LinesRenamed.pri {f f' : FdpFtl} (h : LinesRenamed σ π f f') (l : Nat) :
    victimLineGetPri f'.lines (σ l) = victimLineGetPri f.lines l :=
  h.vpc l

/-- A heap operation on both sides: the queues and the positions it left correspond. -/
theorem LinesRenamed.setPq {f f' : FdpFtl} (h : LinesRenamed σ π f f') {q q' : Pqueue Nat}
    {pos pos' : Nat → Nat} (hq : q.Renamed σ pos q' pos') :
    LinesRenamed σ π { f with victimLinePq := q, lines := victimLineSetPos f.lines pos }
      { f' with victimLinePq := q', lines := victimLineSetPos f'.lines pos' } := by
  refine { h with line := ?_, victim := hq }
  intro l
  show victimLineSetPos f'.lines pos' (σ l) = (victimLineSetPos f.lines pos l).rename σ π
  rw [victimLineSetPos, h.line l, show pos' (σ l) = pos l from hq.slots.pos_eq l]
  rfl

theorem pqueueInsert_sim (h : Sim cfg σ π s s') (l : Nat) :
    Sim cfg σ π (pqueueInsert l s) (pqueueInsert (σ l) s') := by
  have hq := h.renamed.lines.victim.insert victimLineCmpPri σ.injective h.renamed.lines.pri l
  exact ⟨{ h.renamed with lines := { h.renamed.lines.setPq hq with } },
    { h.addressed with id_eq := h.addressed.id_eq }, h.stats⟩

/-- Storing corresponding lines. -/
theorem Sim.setLine (h : Sim cfg σ π s s') (l : Nat) (line : FdpLine) (hid : line.id = l) :
    Sim cfg σ π { s with lines := Function.update s.lines l line }
      { s' with lines := Function.update s'.lines (σ l) (line.rename σ π) } := by
  refine ⟨{ h.renamed with lines := { h.renamed.lines.setLine l line with } },
    { h.addressed with id_eq := ?_ }, h.stats⟩
  intro x
  show (Function.update s.lines l line x).id = x
  by_cases hx : x = l
  · subst hx
    rw [Function.update_self]
    exact hid
  · rw [Function.update_of_ne hx]
    exact h.addressed.id_eq x

/-- Storing the same block under both addresses. -/
theorem Sim.setBlock (h : Sim cfg σ π s s') (b : BlkAddr) (blk : NandBlock) :
    Sim cfg σ π { s with flash := Function.update s.flash b blk }
      { s' with flash := Function.update s'.flash (b.rename σ) blk } :=
  ⟨{ h.renamed with
      lines := { h.renamed.lines with }
      flash := update_renamed (R := fun a b => b = a) BlkAddr.rename_inj h.renamed.flash b rfl },
    { h.addressed with }, h.stats⟩

theorem Renamed.status {f f' : FdpFtl} (h : Renamed cfg σ π f f') (p : Ppa) :
    f'.flash.status (p.rename σ) = f.flash.status p := by
  show (f'.flash (p.blkAddr.rename σ)).pg p.pg = _
  rw [h.flash]
  rfl

theorem markPageValid_sim (h : Sim cfg σ π s s') (p : Ppa) :
    Rel (Sim cfg σ π) (markPageValid cfg p s) (markPageValid cfg (p.rename σ) s') := by
  have hblk : s'.flash (p.rename σ).blkAddr = s.flash p.blkAddr := h.renamed.flash p.blkAddr
  have hline : s'.lines (p.rename σ).blk = (s.lines p.blk).rename σ π := h.renamed.lines.line p.blk
  unfold markPageValid
  refine rel_assert_bind (by rw [h.renamed.status]) fun _ => ?_
  refine rel_assert_bind (by rw [hblk]) fun _ => ?_
  refine rel_assert_bind (by rw [hline]; rfl) fun _ => ?_
  rw [hblk, hline]
  exact (h.setBlock p.blkAddr ((s.flash p.blkAddr).program p.pg)).setLine p.blk
    { s.lines p.blk with vpc := (s.lines p.blk).vpc + 1 } (h.addressed.id_eq p.blk)

theorem setWp_sim (h : Sim cfg σ π s s') {io : IoType} {ruh : Nat} {wp : WritePointer}
    (hwf : wp.Wf cfg.sp) (hcur : wp.curline < cfg.sp.ttLines) :
    Sim cfg σ π (setWp io ruh wp s) (setWp io (π ruh) (wp.rename σ) s') := by
  -- only the pointers change
  have hwp : ∀ w : Writer, w.Valid cfg.nrRuh →
      (setWp io (π ruh) (wp.rename σ) s').wp (w.rename π) = ((setWp io ruh wp s).wp w).rename σ := by
    intro w hw
    by_cases he : w = writerOf io ruh
    · subst he
      rw [wp_setWp_self, ← writerOf_rename, wp_setWp_self]
    · rw [wp_setWp_of_ne _ _ _ _ he, wp_setWp_of_ne]
      · exact h.renamed.wp w hw
      · rw [writerOf_rename]
        exact fun hc => he (Writer.rename_inj hc)
  have hall : ∀ (P : WritePointer → Prop), P wp → (∀ w : Writer, w.Valid cfg.nrRuh → P (s.wp w)) →
      ∀ w : Writer, w.Valid cfg.nrRuh → P ((setWp io ruh wp s).wp w) := by
    intro P hP hs w hw
    by_cases he : w = writerOf io ruh
    · subst he
      rw [wp_setWp_self]
      exact hP
    · rw [wp_setWp_of_ne _ _ _ _ he]
      exact hs w hw
  have hwf' := hall (·.Wf cfg.sp) hwf h.addressed.wf
  have hcur' := hall (·.curline < cfg.sp.ttLines) hcur h.addressed.curline_lt
  cases io with
  | user =>
      exact ⟨{ h.renamed with lines := { h.renamed.lines with }, wp := hwp },
        { h.addressed with wf := hwf', curline_lt := hcur' }, h.stats⟩
  | gc =>
      exact ⟨{ h.renamed with lines := { h.renamed.lines with }, wp := hwp },
        { h.addressed with wf := hwf', curline_lt := hcur' }, h.stats⟩

/-- The traversal of a line does not look at the line. -/
theorem nextPage_rename (spp : SsdParams) (wp : WritePointer) :
    Rel (fun a b => b = a.map (WritePointer.rename σ)) (nextPage spp wp) (nextPage spp (wp.rename σ)) := by
  unfold nextPage
  refine rel_assert_bind Iff.rfl fun _ => ?_
  by_cases hword : (wp.pg + 1) % spp.pgsPerOneshotpg ≠ 0
  · rw [if_pos hword, if_pos (show ((wp.rename σ).pg + 1) % spp.pgsPerOneshotpg ≠ 0 from hword)]
    rfl
  · rw [if_neg hword, if_neg (show ¬ ((wp.rename σ).pg + 1) % spp.pgsPerOneshotpg ≠ 0 from hword)]
    refine rel_assert_bind Iff.rfl fun _ => ?_
    by_cases hch : wp.ch + 1 ≠ spp.nchs
    · rw [if_pos hch, if_pos (show (wp.rename σ).ch + 1 ≠ spp.nchs from hch)]
      rfl
    · rw [if_neg hch, if_neg (show ¬ (wp.rename σ).ch + 1 ≠ spp.nchs from hch)]
      refine rel_assert_bind Iff.rfl fun _ => ?_
      by_cases hlun : wp.lun + 1 ≠ spp.lunsPerCh
      · rw [if_pos hlun, if_pos (show (wp.rename σ).lun + 1 ≠ spp.lunsPerCh from hlun)]
        rfl
      · rw [if_neg hlun, if_neg (show ¬ (wp.rename σ).lun + 1 ≠ spp.lunsPerCh from hlun)]
        by_cases hpg : wp.pg + 1 - spp.pgsPerOneshotpg + spp.pgsPerOneshotpg ≠ spp.pgsPerBlk
        · rw [if_pos hpg, if_pos (show (wp.rename σ).pg + 1 - spp.pgsPerOneshotpg + spp.pgsPerOneshotpg ≠
            spp.pgsPerBlk from hpg)]
          rfl
        · rw [if_neg hpg, if_neg (show ¬ (wp.rename σ).pg + 1 - spp.pgsPerOneshotpg + spp.pgsPerOneshotpg ≠
            spp.pgsPerBlk from hpg)]
          rfl

theorem closeLine_sim (h : Sim cfg σ π s s') (l : Nat) :
    Rel (Sim cfg σ π) (closeLine cfg l s) (closeLine cfg (σ l) s') := by
  unfold closeLine
  rw [h.renamed.lines.vpc l, h.renamed.lines.ipc l]
  split
  · refine rel_assert_bind Iff.rfl fun _ => ?_
    refine ⟨{ h.renamed with lines := { h.renamed.lines with full := ?_, fullCnt := ?_ } },
      { h.addressed with }, h.stats⟩
    · show s'.fullLineList ++ [σ l] = (s.fullLineList ++ [l]).map σ
      rw [h.renamed.lines.full, List.map_append]
      rfl
    · exact congrArg (· + 1) h.renamed.lines.fullCnt
  · refine rel_assert_bind Iff.rfl fun _ => ?_
    refine rel_assert_bind Iff.rfl fun _ => ?_
    have hins := pqueueInsert_sim h l
    exact ⟨{ hins.renamed with
        lines := { hins.renamed.lines with victimCnt := congrArg (· + 1) hins.renamed.lines.victimCnt } },
      { hins.addressed with }, hins.stats⟩

theorem setRuh_sim (h : Sim cfg σ π s s') (l : Nat) (io : IoType) (ruh : Nat) :
    Sim cfg σ π (setRuh l (ruhLabel io ruh) s) (setRuh (σ l) (ruhLabel io (π ruh)) s') := by
  have hset := h.setLine l { s.lines l with ruh := ruhLabel io ruh } (h.addressed.id_eq l)
  unfold setRuh
  rw [h.renamed.lines.line l, ruhLabel_rename]
  exact hset

theorem openLine_sim (hg : Geometry cfg.sp) (hr : Renaming cfg σ π) (h : Sim cfg σ π s s') (io : IoType)
    (ruh : Nat) (wp : WritePointer) :
    Rel (Sim cfg σ π) (openLine cfg io ruh wp s) (openLine cfg io (π ruh) (wp.rename σ) s') := by
  unfold openLine
  refine rel_assert_bind (hr.checkAddr_blk hg wp.blk) fun _ => ?_
  have hfree := h.renamed.lines.free
  cases hl : s.freeLineList with
  | nil =>
      rw [hl] at hfree
      simp only [getNextFreeLine, hl, hfree, List.map_nil]
      rfl
  | cons l rest =>
      rw [hl, List.map_cons] at hfree
      simp only [getNextFreeLine, hl, hfree]
      have htake : Sim cfg σ π { s with freeLineList := rest, freeLineCnt := s.freeLineCnt - 1 }
          { s' with freeLineList := rest.map σ, freeLineCnt := s'.freeLineCnt - 1 } :=
        ⟨{ h.renamed with
            lines := { h.renamed.lines with
              free := rfl, freeCnt := congrArg (· - 1) h.renamed.lines.freeCnt } },
          { h.addressed with }, h.stats⟩
      have hopen := setRuh_sim htake l io ruh
      have hid := hopen.addressed.id_eq l
      have hid' : ((setRuh (σ l) (ruhLabel io (π ruh))
          { s' with freeLineList := rest.map σ, freeLineCnt := s'.freeLineCnt - 1 }).lines (σ l)).id =
          σ l := by
        rw [hopen.renamed.lines.line l]
        exact congrArg σ hid
      rw [hid, hid']
      refine rel_assert_bind (hr.checkAddr_blk hg l) fun hlt => ?_
      refine rel_assert_bind Iff.rfl fun _ => rel_assert_bind Iff.rfl fun _ =>
        rel_assert_bind Iff.rfl fun _ => rel_assert_bind Iff.rfl fun hpl => ?_
      have hwf : WritePointer.Wf cfg.sp { curline := l, ch := 0, lun := 0, pg := 0, blk := l, pl := wp.pl } :=
        ⟨hg.nchs_pos, hg.lunsPerCh_pos, hg.pgsPerBlk_pos, rfl, hpl⟩
      refine setWp_sim hopen hwf ?_
      rw [hg.ttLines_eq]
      exact hlt

theorem advanceWritePointer_sim (hg : Geometry cfg.sp) (hr : Renaming cfg σ π) (h : Sim cfg σ π s s')
    {io : IoType} {ruh : Nat} (hw : (writerOf io ruh).Valid cfg.nrRuh) :
    Rel (Sim cfg σ π) (advanceWritePointer cfg io ruh s) (advanceWritePointer cfg io (π ruh) s') := by
  have hw' : (writerOf io (π ruh)).Valid cfg.nrRuh := by
    rw [writerOf_rename]
    exact hr.writer_valid.mpr hw
  have hwf := h.addressed.wf _ hw
  unfold advanceWritePointer
  rw [getWp_eq hw, getWp_eq hw', writerOf_rename, h.renamed.wp _ hw, ok_bind, ok_bind]
  refine Rel.bind_sat (E := fun _ => True)
    (Q := fun a => ∀ wp, a = some wp → wp.Wf cfg.sp ∧ wp.curline = (s.wp (writerOf io ruh)).curline)
    (nextPage_rename cfg.sp _) ?_ ?_
  · obtain ⟨wp, hnext, hwf', hcur, _⟩ | ⟨hnext, _⟩ := nextPage_spec hg.grid hwf
    · rw [hnext]
      intro wp' he
      obtain rfl := Option.some.inj he
      exact ⟨hwf', hcur⟩
    · rw [hnext]
      exact nofun
  · rintro a b rfl hstep
    cases a with
    | none =>
        refine Rel.bind (closeLine_sim h _) fun s₁ s₁' h₁ => ?_
        exact openLine_sim hg hr h₁ io ruh _
    | some wp =>
        obtain ⟨hwf', hcur⟩ := hstep wp rfl
        refine setWp_sim h hwf' ?_
        rw [hcur]
        exact h.addressed.curline_lt _ hw

/-- **Page allocation**: the same page of the renamed line. -/
theorem allocPage_sim (hg : Geometry cfg.sp) (hr : Renaming cfg σ π) (h : Sim cfg σ π s s') {io : IoType}
    {ruh : Nat} (hw : (writerOf io ruh).Valid cfg.nrRuh) (lpn : Nat) :
    Rel (fun a b => b.1 = a.1.rename σ ∧ Sim cfg σ π a.2 b.2) (allocPage cfg io ruh lpn s)
      (allocPage cfg io (π ruh) lpn s') := by
  have hw' : (writerOf io (π ruh)).Valid cfg.nrRuh := by
    rw [writerOf_rename]
    exact hr.writer_valid.mpr hw
  have hwf := h.addressed.wf _ hw
  have hcur := h.addressed.curline_lt _ hw
  have hwp : s'.wp (writerOf io (π ruh)) = (s.wp (writerOf io ruh)).rename σ := by
    rw [writerOf_rename, h.renamed.wp _ hw]
  have hp := WritePointer.ppa_valid hg hwf hcur
  have hnew' : getNewPage cfg io (π ruh) s' = .ok ((s.wp (writerOf io ruh)).ppa.rename σ) := by
    rw [getNewPage_eq hg hw', hwp]
    · rfl
    · rw [hwp]
      exact ⟨hwf.ch_lt, hwf.lun_lt, hwf.pg_lt, congrArg σ hwf.blk_eq, hwf.pl_eq⟩
    · rw [hwp]
      exact (hr.line_lt _).mpr hcur
  unfold allocPage
  rw [getNewPage_eq hg hw hwf hcur, hnew', ok_bind, ok_bind]
  refine Rel.bind (setMaptblEnt_sim h lpn hp) fun s₁ s₁' h₁ => ?_
  refine Rel.bind (setRmapEnt_sim hg hr h₁ lpn hp) fun s₂ s₂' h₂ => ?_
  refine Rel.bind (markPageValid_sim h₂ _) fun s₃ s₃' h₃ => ?_
  have hlog : Sim cfg σ π { s₃ with hist := .program (writerOf io ruh) (s.wp (writerOf io ruh)).ppa :: s₃.hist }
      { s₃' with
        hist := .program (writerOf io (π ruh)) ((s.wp (writerOf io ruh)).ppa.rename σ) :: s₃'.hist } :=
    ⟨{ h₃.renamed with lines := { h₃.renamed.lines with } }, { h₃.addressed with }, h₃.stats⟩
  refine Rel.bind (advanceWritePointer_sim hg hr hlog hw) fun s₄ s₄' h₄ => ?_
  exact ⟨rfl, h₄⟩

/-! ## Invalidation -/

theorem pqueueChangePriority_sim (h : Sim cfg σ π s s') (pri l : Nat) (hlo : 1 ≤ (s.lines l).pos)
    (hhi : (s.lines l).pos < s.victimLinePq.size) :
    Sim cfg σ π (pqueueChangePriority pri l s) (pqueueChangePriority pri (σ l) s') := by
  have hset := h.setLine l { s.lines l with vpc := pri } (h.addressed.id_eq l)
  have hpos : victimLineGetPos (Function.update s.lines l { s.lines l with vpc := pri }) l =
      (s.lines l).pos := by
    rw [victimLineGetPos, Function.update_self]
  have hq := hset.renamed.lines.victim.changePriority victimLineCmpPri σ.injective hset.renamed.lines.pri
    (s.lines l).vpc (a := l) (by rw [hpos]; exact hlo) (by rw [hpos]; exact hhi)
  unfold pqueueChangePriority
  rw [h.renamed.lines.line l]
  exact ⟨{ hset.renamed with lines := { hset.renamed.lines.setPq hq with } },
    { hset.addressed with id_eq := hset.addressed.id_eq }, hset.stats⟩

theorem fullToVictim_sim (h : Sim cfg σ π s s') (l : Nat) :
    Sim cfg σ π (fullToVictim l s) (fullToVictim (σ l) s') := by
  have herase : Sim cfg σ π
      { s with fullLineList := s.fullLineList.erase l, fullLineCnt := s.fullLineCnt - 1 }
      { s' with fullLineList := s'.fullLineList.erase (σ l), fullLineCnt := s'.fullLineCnt - 1 } := by
    refine ⟨{ h.renamed with
        lines := { h.renamed.lines with
          full := ?_, fullCnt := congrArg (· - 1) h.renamed.lines.fullCnt } },
      { h.addressed with }, h.stats⟩
    show s'.fullLineList.erase (σ l) = (s.fullLineList.erase l).map σ
    rw [List.map_erase σ.injective, h.renamed.lines.full]
  have hins := pqueueInsert_sim herase l
  exact ⟨{ hins.renamed with
      lines := { hins.renamed.lines with victimCnt := congrArg (· + 1) hins.renamed.lines.victimCnt } },
    { hins.addressed with }, hins.stats⟩

theorem lineInvalidate_sim (h : Sim cfg σ π s s') (l : Nat)
    (hpos : (s.lines l).pos ≠ 0 → (s.lines l).pos < s.victimLinePq.size) :
    Sim cfg σ π (lineInvalidate cfg.sp l s) (lineInvalidate cfg.sp (σ l) s') := by
  have hipc := h.setLine l { s.lines l with ipc := (s.lines l).ipc + 1 } (h.addressed.id_eq l)
  have hself : Function.update s.lines l { s.lines l with ipc := (s.lines l).ipc + 1 } l =
      { s.lines l with ipc := (s.lines l).ipc + 1 } := Function.update_self ..
  have hp' : ((s.lines l).rename σ π).pos = (s.lines l).pos := rfl
  have hfull' : ((s.lines l).rename σ π).vpc = (s.lines l).vpc := rfl
  unfold lineInvalidate
  rw [h.renamed.lines.line l]
  simp only [hp', hfull']
  by_cases hp : (s.lines l).pos ≠ 0
  · -- queued: the queue is told
    have hchg := pqueueChangePriority_sim hipc ((s.lines l).vpc - 1) l
      (by show 1 ≤ (Function.update s.lines l _ l).pos; rw [hself]; exact Nat.one_le_iff_ne_zero.mpr hp)
      (by show (Function.update s.lines l _ l).pos < _; rw [hself]; exact hpos hp)
    by_cases hfull : (s.lines l).vpc = cfg.sp.pgsPerLine
    · simp only [if_pos hp, if_pos hfull]
      exact fullToVictim_sim hchg l
    · simp only [if_pos hp, if_neg hfull]
      exact hchg
  · have hvpc := hipc.setLine l
      { s.lines l with ipc := (s.lines l).ipc + 1, vpc := (s.lines l).vpc - 1 } (h.addressed.id_eq l)
    by_cases hfull : (s.lines l).vpc = cfg.sp.pgsPerLine
    · simp only [if_neg hp, if_pos hfull, Function.update_self]
      exact fullToVictim_sim hvpc l
    · simp only [if_neg hp, if_neg hfull, Function.update_self]
      exact hvpc

theorem markPageInvalid_sim (h : Sim cfg σ π s s') (p : Ppa)
    (hpos : (s.lines p.blk).pos ≠ 0 → (s.lines p.blk).pos < s.victimLinePq.size) :
    Rel (Sim cfg σ π) (markPageInvalid cfg p s) (markPageInvalid cfg (p.rename σ) s') := by
  have hblk : s'.flash (p.rename σ).blkAddr = s.flash p.blkAddr := h.renamed.flash p.blkAddr
  have hset := h.setBlock p.blkAddr ((s.flash p.blkAddr).invalidate p.pg)
  have hvpc : (s'.lines (p.rename σ).blk).vpc = (s.lines p.blk).vpc := h.renamed.lines.vpc p.blk
  have hipc : (s'.lines (p.rename σ).blk).ipc = (s.lines p.blk).ipc := h.renamed.lines.ipc p.blk
  unfold markPageInvalid
  refine rel_assert_bind (by rw [h.renamed.status]) fun _ => ?_
  rw [hblk]
  refine rel_assert_bind Iff.rfl fun _ => ?_
  refine rel_assert_bind Iff.rfl fun _ => ?_
  refine rel_assert_bind (by rw [hipc]) fun _ => ?_
  refine rel_assert_bind (by rw [hipc, hvpc]) fun _ => ?_
  refine rel_assert_bind (by rw [hvpc]) fun _ => ?_
  exact lineInvalidate_sim hset p.blk hpos

/-- In a sound state a line with a position is queued at it. -/
theorem Sound.pos_lt {f : FdpFtl} (h : Sound cfg f) {l : Nat} (hl : l < cfg.sp.ttLines)
    (hpos : (f.lines l).pos ≠ 0) : (f.lines l).pos < f.victimLinePq.size := by
  obtain ⟨g, _, hinv⟩ := h
  have hplace : g.place l = .victim := by
    by_contra hne
    exact hpos (hinv.placed.pos_eq l hl hne)
  exact (hinv.placed.pq_wf.pos_of_mem ((hinv.placed.mem_pq l).mpr ⟨hl, hplace⟩)).2.1

theorem invalidateOld_sim (hg : Geometry cfg.sp) (hr : Renaming cfg σ π) (hs : Sound cfg s.toFdpFtl)
    (h : Sim cfg σ π s s') (lpn : Nat) :
    Rel (Sim cfg σ π) (invalidateOld cfg lpn s) (invalidateOld cfg lpn s') := by
  have hmap := h.renamed.maptbl lpn
  unfold invalidateOld
  cases hp : s.maptbl lpn with
  | none =>
      rw [hp] at hmap
      simp only [hmap, Option.map_none]
      exact h
  | some p =>
      rw [hp] at hmap
      simp only [hmap, Option.map_some]
      have hvalid := h.addressed.maptbl_valid lpn p hp
      have hl : p.blk < cfg.sp.ttLines := by
        rw [hg.ttLines_eq]
        exact hvalid.2.2.2.1
      refine Rel.bind (markPageInvalid_sim h p fun hpos => hs.pos_lt hl hpos) fun s₁ s₁' h₁ => ?_
      exact setRmapEnt_sim hg hr h₁ invalidLpn hvalid

/-! ## Garbage collection -/

variable {L : Latency τ} {L' : Latency τ'}

/-- The latency models may do as they like. -/
theorem Sim.setTm (h : Sim cfg σ π s s') (tm : τ) (tm' : τ') :
    Sim cfg σ π { s with tm := tm } { s' with tm := tm' } :=
  ⟨{ h.renamed with lines := { h.renamed.lines with } }, { h.addressed with }, h.stats⟩

theorem Sim.setCtx (h : Sim cfg σ π s s') (ctx ctx' : FdpCtx) (hctx : SameStats ctx ctx') :
    Sim cfg σ π { s with ctx := ctx } { s' with ctx := ctx' } :=
  ⟨{ h.renamed with lines := { h.renamed.lines with } }, { h.addressed with }, hctx⟩

theorem gcWritePage_sim (hg : Geometry cfg.sp) (hr : Renaming cfg σ π) (h : Sim cfg σ π s s') {p : Ppa}
    (hp : validPpa cfg.sp p) :
    Rel (Sim cfg σ π) (gcWritePage cfg L p s) (gcWritePage cfg L' (p.rename σ) s') := by
  unfold gcWritePage
  refine Rel.bind (getRmapEnt_sim hg hr h hp) ?_
  rintro _ lpn rfl
  refine rel_assert_bind Iff.rfl fun _ => ?_
  -- GC has one pointer, whatever the handle
  have hw : (writerOf .gc 0).Valid cfg.nrRuh := trivial
  have halloc := allocPage_sim hg hr h hw lpn
  rw [show allocPage cfg .gc (π 0) lpn s' = allocPage cfg .gc 0 lpn s' from rfl] at halloc
  refine Rel.bind halloc ?_
  rintro ⟨new, s₁⟩ ⟨new', s₁'⟩ ⟨rfl, h₁⟩
  have hctx := h₁.setCtx { s₁.ctx with mbmw := s₁.ctx.mbmw + .ofNat cfg.sp.pgsz }
    { s₁'.ctx with mbmw := s₁'.ctx.mbmw + .ofNat cfg.sp.pgsz }
    { h₁.stats with mbmw := congrArg (· + .ofNat cfg.sp.pgsz) h₁.stats.mbmw }
  cases hdelay : cfg.enableGcDelay with
  | false =>
      simp only [Bool.false_eq_true, if_false]
      exact hctx
  | true =>
      simp only [if_true]
      exact hctx.setTm _ _

theorem countValid_sim (h : Sim cfg σ π s s') (p : Ppa) :
    Rel (fun a b => b = a) (countValid cfg p s) (countValid cfg (p.rename σ) s') := by
  refine rel_foldlM _ ?_ rfl
  rintro i _ cnt _ rfl
  have hst : s'.flash.status ((p.rename σ).nthPg i) = s.flash.status (p.nthPg i) :=
    h.renamed.status (p.nthPg i)
  refine rel_assert_bind (by rw [hst]) fun _ => ?_
  rw [hst]
  exact rfl

theorem moveValid_sim (hg : Geometry cfg.sp) (hr : Renaming cfg σ π) (h : Sim cfg σ π s s') {p : Ppa}
    (hp : ∀ i, i < cfg.sp.pgsPerFlashpg → validPpa cfg.sp (p.nthPg i)) :
    Rel (Sim cfg σ π) (moveValid cfg L p s) (moveValid cfg L' (p.rename σ) s') := by
  refine rel_foldlM _ ?_ h
  intro i hi s₁ s₁' h₁
  have hst : s₁'.flash.status ((p.rename σ).nthPg i) = s₁.flash.status (p.nthPg i) :=
    h₁.renamed.status (p.nthPg i)
  rw [hst]
  split
  · exact gcWritePage_sim hg hr h₁ (hp i (List.mem_range.mp hi))
  · exact h₁

theorem cleanOneFlashpg_sim (hg : Geometry cfg.sp) (hr : Renaming cfg σ π) (h : Sim cfg σ π s s') {p : Ppa}
    (hp : ∀ i, i < cfg.sp.pgsPerFlashpg → validPpa cfg.sp (p.nthPg i)) :
    Rel (Sim cfg σ π) (cleanOneFlashpg cfg L p s) (cleanOneFlashpg cfg L' (p.rename σ) s') := by
  unfold cleanOneFlashpg
  refine Rel.bind (countValid_sim h p) ?_
  rintro _ cnt rfl
  by_cases hcnt : cnt = 0
  · rw [if_pos hcnt, if_pos hcnt]
    exact h
  · rw [if_neg hcnt, if_neg hcnt]
    cases hdelay : cfg.enableGcDelay with
    | false =>
        simp only [Bool.false_eq_true, if_false]
        exact moveValid_sim hg hr h hp
    | true =>
        simp only [if_true]
        exact moveValid_sim hg hr (h.setTm _ _) hp

theorem markBlockFree_sim (h : Sim cfg σ π s s') (p : Ppa) :
    Sim cfg σ π (markBlockFree cfg p s) (markBlockFree cfg (p.rename σ) s') := by
  have hset := h.setBlock p.blkAddr ((s.flash p.blkAddr).erase cfg.sp.pgsPerBlk)
  have hblk : s'.flash (p.rename σ).blkAddr = s.flash p.blkAddr := h.renamed.flash p.blkAddr
  unfold markBlockFree
  rw [hblk]
  exact ⟨{ hset.renamed with lines := { hset.renamed.lines with } }, { hset.addressed with },
    { h.stats with mbe := congrArg (· + .ofNat (cfg.sp.pgsPerBlk * cfg.sp.pgsz)) h.stats.mbe }⟩

theorem gcPpa_rename (hg : Geometry cfg.sp) (hr : Renaming cfg σ π) {v : Nat} (hv : v < cfg.sp.ttLines)
    (it : Nat × Nat × Nat) : gcPpa cfg.sp (σ v) it = (gcPpa cfg.sp v it).rename σ := by
  obtain ⟨hmod, hmod'⟩ := hr.mod_blkBits hg hv
  unfold gcPpa Ppa.rename
  rw [hmod, hmod']

theorem gcIter_sim (hg : Geometry cfg.sp) (hr : Renaming cfg σ π) (h : Sim cfg σ π s s') {v : Nat}
    (hv : v < cfg.sp.ttLines) {it : Nat × Nat × Nat} (hit : InSchedule cfg.sp it) :
    Rel (Sim cfg σ π) (gcIter cfg L v s it) (gcIter cfg L' (σ v) s' it) := by
  unfold gcIter
  rw [gcPpa_rename hg hr hv]
  have hp : ∀ i, i < cfg.sp.pgsPerFlashpg → validPpa cfg.sp ((gcPpa cfg.sp v it).nthPg i) := by
    intro i hi
    rw [gcPpa_nthPg hg hv hit hi]
    exact pageAt_valid hg hv hit hi
  refine Rel.bind (cleanOneFlashpg_sim hg hr h hp) fun s₁ s₁' h₁ => ?_
  by_cases hlast : it.1 = cfg.sp.flashpgsPerBlk - 1
  · simp only [if_pos hlast, markBlockFreeChecks_eq, ok_bind]
    have herase := markBlockFree_sim h₁ (gcPpa cfg.sp v it)
    cases hdelay : cfg.enableGcDelay with
    | false =>
        simp only [Bool.false_eq_true, if_false]
        exact herase
    | true =>
        simp only [if_true]
        exact herase.setTm _ _
  · simp only [if_neg hlast]
    exact h₁

theorem gcEmit_stats (L : Latency τ) (v : Nat) (s : Part τ) : SameStats s.ctx (gcEmit L v s).ctx := by
  unfold gcEmit
  split
  · exact ⟨fdpEmitEvent_hbmw .., fdpEmitEvent_mbmw .., fdpEmitEvent_mbe ..⟩
  · exact ⟨rfl, rfl, rfl⟩

/-- The events the two runs emit may differ; the state they leave does not. -/
theorem gcEmit_sim (L : Latency τ) (L' : Latency τ') (h : Sim cfg σ π s s') (v : Nat) :
    Sim cfg σ π (gcEmit L v s) (gcEmit L' (σ v) s') := by
  have hl := gcEmit_stats L v s
  have hl' := gcEmit_stats L' (σ v) s'
  refine ⟨?_, ?_, ?_⟩
  · rw [gcEmit_toFdpFtl, gcEmit_toFdpFtl]
    exact h.renamed
  · rw [gcEmit_toFdpFtl]
    exact h.addressed
  · exact ⟨by rw [hl'.hbmw, hl.hbmw, h.stats.hbmw], by rw [hl'.mbmw, hl.mbmw, h.stats.mbmw],
      by rw [hl'.mbe, hl.mbe, h.stats.mbe]⟩

theorem markLineFree_sim (h : Sim cfg σ π s s') (l : Nat) :
    Sim cfg σ π (markLineFree l s) (markLineFree (σ l) s') := by
  have hset := h.setLine l { s.lines l with ipc := 0, vpc := 0, ruh := -1 } (h.addressed.id_eq l)
  unfold markLineFree
  rw [h.renamed.lines.line l]
  refine ⟨{ hset.renamed with
      lines := { hset.renamed.lines with
        free := ?_, freeCnt := congrArg (· + 1) h.renamed.lines.freeCnt } },
    { hset.addressed with }, hset.stats⟩
  show s'.freeLineList ++ [σ l] = (s.freeLineList ++ [l]).map σ
  rw [h.renamed.lines.free, List.map_append]
  rfl

theorem reclaim_sim (hg : Geometry cfg.sp) (hr : Renaming cfg σ π) (h : Sim cfg σ π s s') {v : Nat}
    (hv : v < cfg.sp.ttLines) :
    Rel (Sim cfg σ π) (reclaim cfg L v s) (reclaim cfg L' (σ v) s') := by
  have hemit := gcEmit_sim L L' h v
  have hid := hemit.addressed.id_eq v
  have hid' : ((gcEmit L' (σ v) s').lines (σ v)).id = σ v := by
    rw [hemit.renamed.lines.line v]
    exact congrArg σ hid
  have hstart : Sim cfg σ π
      { gcEmit L v s with creditsToRefill := ((gcEmit L v s).lines v).ipc }
      { gcEmit L' (σ v) s' with creditsToRefill := ((gcEmit L' (σ v) s').lines (σ v)).ipc } :=
    ⟨{ hemit.renamed with lines := { hemit.renamed.lines with }, refill := hemit.renamed.lines.ipc v },
      { hemit.addressed with }, hemit.stats⟩
  obtain ⟨hmod, hmod'⟩ := hr.mod_blkBits hg hv
  unfold reclaim
  simp only [hid, hid', hmod, hmod']
  refine Rel.bind (rel_foldlM _ ?_ hstart) fun s₁ s₁' h₁ => markLineFree_sim h₁ v
  intro it hit s₁ s₁' h₁
  exact gcIter_sim hg hr h₁ hv (mem_gcSchedule.mp hit)

theorem selectVictimLine_sim (h : Sim cfg σ π s s') (force : Bool) :
    Option.Rel (fun a b => b.1 = σ a.1 ∧ Sim cfg σ π a.2 b.2) (selectVictimLine cfg force s)
      (selectVictimLine cfg force s') := by
  have hpeek := h.renamed.lines.victim.peek
  unfold selectVictimLine
  cases hv : s.victimLinePq.peek with
  | none =>
      rw [hv] at hpeek
      simp only [hpeek, Option.map_none]
      exact .none
  | some v =>
      rw [hv] at hpeek
      simp only [hpeek, Option.map_some, h.renamed.lines.vpc v]
      split
      · exact .none
      · have hsize : 1 < s.victimLinePq.size := by
          have hpos := h.renamed.lines.victim.size_pos
          have hne : s.victimLinePq.size ≠ 1 := by
            intro he
            rw [Pqueue.peek, if_pos he] at hv
            exact absurd hv nofun
          omega
        have hq := h.renamed.lines.victim.pop victimLineCmpPri σ.injective h.renamed.lines.pri hsize
        have hpop : Sim cfg σ π (pqueuePop s) (pqueuePop s') :=
          ⟨{ h.renamed with lines := { h.renamed.lines.setPq hq with } },
            { h.addressed with id_eq := h.addressed.id_eq }, h.stats⟩
        have hset := hpop.setLine v { (pqueuePop s).lines v with pos := 0 } (hpop.addressed.id_eq v)
        rw [hpop.renamed.lines.line v]
        refine .some ⟨rfl, { hset.renamed with
          lines := { hset.renamed.lines with
            victimCnt := congrArg (· - 1) hset.renamed.lines.victimCnt } }, { hset.addressed with },
          hset.stats⟩

/-- The victim of a sound state is a line of the geometry. -/
theorem Sound.victim_lt (hs : Sound cfg s.toFdpFtl) {force : Bool} {v : Nat} {s₁ : Part τ}
    (h : selectVictimLine cfg force s = some (v, s₁)) : v < cfg.sp.ttLines := by
  obtain ⟨g, _, hinv⟩ := hs
  unfold selectVictimLine at h
  cases hv : s.victimLinePq.peek with
  | none =>
      simp only [hv] at h
      exact absurd h nofun
  | some x =>
      simp only [hv] at h
      split at h
      · exact absurd h nofun
      · obtain ⟨rfl, _⟩ := Prod.mk.inj (Option.some.inj h)
        obtain ⟨hmem, _⟩ := Pqueue.mem_of_peek hinv.placed.pq_wf hv
        exact ((hinv.placed.mem_pq x).mp hmem).1

theorem doGc_sim (hg : Geometry cfg.sp) (hr : Renaming cfg σ π) (hs : Sound cfg s.toFdpFtl)
    (h : Sim cfg σ π s s') (force : Bool) :
    Rel (Option.Rel (Sim cfg σ π)) (doGc cfg L force s) (doGc cfg L' force s') := by
  have hsel := selectVictimLine_sim h force
  have hlt : ∀ v s₁, selectVictimLine cfg force s = some (v, s₁) → v < cfg.sp.ttLines :=
    fun v s₁ hv => hs.victim_lt hv
  unfold doGc
  generalize selectVictimLine cfg force s = a at hsel hlt ⊢
  generalize selectVictimLine cfg force s' = b at hsel ⊢
  cases hsel with
  | none => exact Option.Rel.none
  | @some a b hab =>
      obtain ⟨v, s₁⟩ := a
      obtain ⟨v', s₁'⟩ := b
      obtain ⟨hv', h₁⟩ : v' = σ v ∧ Sim cfg σ π s₁ s₁' := hab
      subst hv'
      refine Rel.bind (reclaim_sim hg hr h₁ (hlt v s₁ rfl)) fun s₂ s₂' h₂ => ?_
      exact Option.Rel.some h₂

theorem foregroundGc_sim (hg : Geometry cfg.sp) (hr : Renaming cfg σ π) (hs : Sound cfg s.toFdpFtl)
    (h : Sim cfg σ π s s') :
    Rel (Sim cfg σ π) (foregroundGc cfg L s) (foregroundGc cfg L' s') := by
  have hcnt : shouldGcHigh cfg s'.toFdpFtl ↔ shouldGcHigh cfg s.toFdpFtl := by
    unfold shouldGcHigh
    rw [h.renamed.lines.freeCnt]
  unfold foregroundGc
  by_cases hgc : shouldGcHigh cfg s.toFdpFtl
  · rw [if_pos hgc, if_pos (hcnt.mpr hgc)]
    refine Rel.bind (doGc_sim hg hr hs h true) ?_
    intro a b hab
    cases hab with
    | none => exact h
    | some h₁ => exact h₁
  · rw [if_neg hgc, if_neg fun hgc' => hgc (hcnt.mp hgc')]
    exact h

theorem Sim.setCredits (h : Sim cfg σ π s s') (n : Nat) :
    Sim cfg σ π { s with writeCredits := n } { s' with writeCredits := n } :=
  ⟨{ h.renamed with lines := { h.renamed.lines with }, credits := rfl }, { h.addressed with }, h.stats⟩

theorem consumeWriteCredit_sim (h : Sim cfg σ π s s') :
    Sim cfg σ π (consumeWriteCredit s) (consumeWriteCredit s') := by
  unfold consumeWriteCredit
  rw [h.renamed.credits]
  exact h.setCredits _

theorem checkAndRefill_sim (hg : Geometry cfg.sp) (hr : Renaming cfg σ π) (hs : Sound cfg s.toFdpFtl)
    (h : Sim cfg σ π s s') :
    Rel (Sim cfg σ π) (checkAndRefillWriteCredit cfg L s) (checkAndRefillWriteCredit cfg L' s') := by
  unfold checkAndRefillWriteCredit
  rw [h.renamed.credits]
  split
  · refine Rel.bind (foregroundGc_sim hg hr hs h) fun s₁ s₁' h₁ => ?_
    have hnew : u32 (s₁'.writeCredits + s₁'.creditsToRefill) = u32 (s₁.writeCredits + s₁.creditsToRefill) := by
      rw [h₁.renamed.credits, h₁.renamed.refill]
    rw [hnew]
    exact h₁.setCredits _
  · exact h

/-! ## One page of a host write -/

/-- **One page write**: with the handle renamed, the second run does what the first does — and if the first
    stops the module, so does the second. The completion times are the latency models' own. -/
theorem writePage_sim (hg : Geometry cfg.sp) (hr : Renaming cfg σ π) (hs : Sound cfg s.toFdpFtl)
    (h : Sim cfg σ π s s') (stime stime' : Nat) {ruh lpn : Nat} (hruh : ruh < cfg.nrRuh)
    (hlpn : lpn < cfg.sp.ttPgs) :
    Rel (fun a b => Sim cfg σ π a.2 b.2) (writePage cfg L stime ruh lpn s)
      (writePage cfg L' stime' (π ruh) lpn s') := by
  unfold writePage
  refine Rel.bind_sat (R := fun a b => Sim cfg σ π a.2 b.2) ?_
    (putPage_spec L hg hs stime hruh hlpn) ?_
  · unfold putPage programPage
    refine Rel.bind (R := fun a b => b.1 = a.1.rename σ ∧ Sim cfg σ π a.2 b.2) ?_ ?_
    · refine Rel.bind (invalidateOld_sim hg hr hs h lpn) fun s₁ s₁' h₁ => ?_
      have hw : (writerOf .user ruh).Valid cfg.nrRuh := hruh
      refine Rel.bind (allocPage_sim hg hr h₁ hw lpn) ?_
      rintro ⟨p, s₂⟩ ⟨p', s₂'⟩ h₂
      exact h₂
    · rintro ⟨p, s₁⟩ ⟨p', s₁'⟩ ⟨rfl, h₁⟩
      have hflush : Sim cfg σ π (flushWordline cfg L stime p s₁).2
          (flushWordline cfg L' stime' (p.rename σ) s₁').2 := by
        unfold flushWordline
        rw [show lastPgInWordline cfg.sp (p.rename σ) = lastPgInWordline cfg.sp p from rfl]
        split
        · exact h₁.setTm _ _
        · exact h₁
      exact consumeWriteCredit_sim hflush
  · rintro ⟨t, s₁⟩ ⟨t', s₁'⟩ h₁ hput
    refine Rel.bind (checkAndRefill_sim hg hr hput.sound h₁) fun s₂ s₂' h₂ => ?_
    exact h₂

/-! ## The start of both runs -/

/-- A permutation of the handles, and of the lines `fdp_init_ftl` opens for them. -/
def onHandles {n : Nat} (p : Equiv.Perm (Fin n)) : Equiv.Perm Nat := p.extendDomain Fin.equivSubtype

theorem onHandles_of_lt {n : Nat} (p : Equiv.Perm (Fin n)) {r : Nat} (h : r < n) :
    onHandles p r = p ⟨r, h⟩ :=
  Equiv.Perm.extendDomain_apply_subtype p Fin.equivSubtype h

theorem onHandles_of_ge {n : Nat} (p : Equiv.Perm (Fin n)) {r : Nat} (h : n ≤ r) : onHandles p r = r :=
  Equiv.Perm.extendDomain_apply_not_subtype p Fin.equivSubtype (Nat.not_lt.mpr h)

theorem onHandles_lt {n : Nat} (p : Equiv.Perm (Fin n)) (r : Nat) : onHandles p r < n ↔ r < n := by
  rcases Nat.lt_or_ge r n with h | h
  · rw [onHandles_of_lt p h]
    exact ⟨fun _ => h, fun _ => (p ⟨r, h⟩).isLt⟩
  · rw [onHandles_of_ge p h]

theorem onHandles_renaming (p : Equiv.Perm (Fin cfg.nrRuh)) (hlines : cfg.nrRuh + 1 ≤ cfg.sp.ttLines) :
    Renaming cfg (onHandles p) (onHandles p) where
  ruh_lt := onHandles_lt p
  line_lt := by
    intro l
    rcases Nat.lt_or_ge l cfg.nrRuh with h | h
    · have := (onHandles_lt p l).mpr h
      omega
    · rw [onHandles_of_ge p h]

theorem Sound.addressed {f : FdpFtl} (h : Sound cfg f) : Addressed cfg f := by
  obtain ⟨g, hq, hinv⟩ := h
  exact ⟨hinv.placed.id_eq, hinv.pointed.wf, hinv.pointed.curline_lt,
    fun lpn p hp => (hinv.mapped.of_maptbl lpn p hp (hq.not_stale lpn)).2.1⟩

/-- Handle `r` starts on line `r`, so permuting the handles permutes these lines. -/
theorem sim_initialised (hg : Geometry cfg.sp) (hlines : cfg.nrRuh + 1 ≤ cfg.sp.ttLines)
    (p : Equiv.Perm (Fin cfg.nrRuh)) {ctx ctx' : FdpCtx} (hctx : SameStats ctx ctx') (tm : τ) (tm' : τ') :
    Sim cfg (onHandles p) (onHandles p) (initialised cfg ctx tm) (initialised cfg ctx' tm') := by
  have hfree : ∀ l ∈ (List.range cfg.sp.ttLines).drop (cfg.nrRuh + 1), onHandles p l = l := by
    intro l hl
    refine onHandles_of_ge p ?_
    obtain ⟨i, hi, rfl⟩ := List.mem_drop_iff_getElem.mp hl
    rw [List.getElem_range]
    omega
  refine ⟨⟨fun _ => rfl, fun _ _ => rfl, ?_, ?_, fun _ => rfl, rfl, rfl⟩,
    (sound_initialised ctx tm hg hlines).addressed, hctx⟩
  · intro w hw
    cases w with
    | host r =>
        have hr : r < cfg.nrRuh := hw
        have hr' := (onHandles_lt p r).mpr hr
        show (if onHandles p r < cfg.nrRuh then WritePointer.start (onHandles p r) else _) =
          WritePointer.rename _ (if r < cfg.nrRuh then WritePointer.start r else _)
        rw [if_pos hr, if_pos hr']
        rfl
    | gc =>
        show WritePointer.start cfg.nrRuh = (WritePointer.start cfg.nrRuh).rename (onHandles p)
        unfold WritePointer.rename WritePointer.start
        rw [onHandles_of_ge p (Nat.le_refl _)]
  · refine ⟨?_, ?_, rfl, ⟨Nat.le_refl 1, rfl, ?_, fun _ => rfl⟩, rfl, rfl, rfl⟩
    · intro l
      show FdpLine.mk (onHandles p l) 0 0 (if onHandles p l < cfg.nrRuh then (onHandles p l : Int) else -1) 0 =
        FdpLine.rename _ _ ⟨l, 0, 0, if l < cfg.nrRuh then (l : Int) else -1, 0⟩
      rcases Nat.lt_or_ge l cfg.nrRuh with hl | hl
      · rw [if_pos hl, if_pos ((onHandles_lt p l).mpr hl), FdpLine.rename, relabel,
          if_pos (Int.natCast_nonneg l), Int.toNat_natCast]
      · rw [if_neg (Nat.not_lt.mpr hl), onHandles_of_ge p hl, if_neg (Nat.not_lt.mpr hl), FdpLine.rename,
          onHandles_of_ge p hl]
        rfl
    · show _ = ((List.range cfg.sp.ttLines).drop (cfg.nrRuh + 1)).map (onHandles p)
      rw [List.map_congr_left hfree]
      exact (List.map_id' _).symm
    · intro j hj hj'
      have hj'' : j < 1 := hj'
      omega

end NvmeVirt
