import NvmeVirt.Ftl.LongBlock

/-!
# `Ftl.Traversal` — how a write pointer goes through its line

`WritePointer.nth` is the pointer before its `i`-th page, by the digits of `i`: the page inside the wordline, the
channel, the LUN, the wordline of the block. `Visits` are the pages that `get_new_page` and `advance_write_pointer`
hand out one after the other, whatever else happens in between. The pointer itself always goes through all of the
line (`Visits.pointer`), but `get_new_page` cuts its coordinates to the fields of `struct ppa`, so that the pages it
hands out are those of the line exactly if the coordinates fit (`write_pointer_traversal_iff`).
-/

namespace NvmeVirt

open Counting Outcome

variable {τ : Type} {cfg : FtlConfig} {spp : SsdParams} {io : IoType} {ruh l i j : Nat} {s s₀ : Part τ}
  {ps : List Ppa} {p : Ppa}

/-! ## The pages in order -/

/-- The pointer on line `l` before its `i`-th page. -/
def WritePointer.nth (spp : SsdParams) (l i : Nat) : WritePointer :=
  { curline := l
    ch := i / spp.pgsPerOneshotpg % spp.nchs
    lun := i / spp.pgsPerOneshotpg / spp.nchs % spp.lunsPerCh
    pg := i / spp.pgsPerOneshotpg / spp.nchs / spp.lunsPerCh * spp.pgsPerOneshotpg + i % spp.pgsPerOneshotpg
    blk := l
    pl := 0 }

theorem wpIdx_nth (hg : Grid spp) (l i : Nat) : wpIdx spp (.nth spp l i) = i := by
  simp only [wpIdx, WritePointer.nth]
  rw [seqIdx_wordline _ _ _ (Nat.mod_lt _ hg.pgsPerOneshotpg_pos), Nat.div_add_mod', Nat.div_add_mod',
    Nat.div_add_mod']

theorem nth_zero (l : Nat) : WritePointer.nth spp l 0 = .start l := by
  simp [WritePointer.nth, WritePointer.start]

theorem nth_wf (hg : Grid spp) (hi : i < spp.pgsPerLine) : (WritePointer.nth spp l i).Wf spp := by
  refine ⟨Nat.mod_lt _ hg.nchs_pos, Nat.mod_lt _ hg.lunsPerCh_pos, ?_, rfl, rfl⟩
  have hsize : spp.pgsPerLine = spp.oneshotpgsPerBlk * spp.lunsPerCh * spp.nchs * spp.pgsPerOneshotpg := by
    rw [hg.pgsPerLine_eq, hg.pgsPerBlk_eq]
    ring
  have hwordline : i / spp.pgsPerOneshotpg / spp.nchs / spp.lunsPerCh < spp.oneshotpgsPerBlk := by
    rw [Nat.div_lt_iff_lt_mul hg.lunsPerCh_pos, Nat.div_lt_iff_lt_mul hg.nchs_pos,
      Nat.div_lt_iff_lt_mul hg.pgsPerOneshotpg_pos, ← hsize]
    exact hi
  rw [hg.pgsPerBlk_eq]
  exact radix_lt hwordline (Nat.mod_lt _ hg.pgsPerOneshotpg_pos)

/-- A pointer is where its position says. -/
theorem WritePointer.Wf.eq_nth (hg : Grid spp) {wp : WritePointer} (h : wp.Wf spp) (hi : wpIdx spp wp < spp.pgsPerLine) :
    wp = .nth spp wp.curline (wpIdx spp wp) :=
  h.eq_of_wpIdx hg (nth_wf hg hi) rfl (wpIdx_nth hg _ _).symm

/-- Every page of the line is the page of some position. -/
theorem exists_nth (hg : Grid spp) (l : Nat) {ch lun pg : Nat} (hch : ch < spp.nchs) (hlun : lun < spp.lunsPerCh)
    (hpg : pg < spp.pgsPerBlk) :
    ∃ i < spp.pgsPerLine, (WritePointer.nth spp l i).ppa = ⟨pg, l, 0, lun, ch⟩ := by
  set wp : WritePointer := ⟨l, ch, lun, pg, l, 0⟩ with hwp
  have hwf : wp.Wf spp := ⟨hch, hlun, hpg, rfl, rfl⟩
  have hlt : wpIdx spp wp < spp.pgsPerLine := seqIdx_lt hg hch hlun hpg
  refine ⟨wpIdx spp wp, hlt, ?_⟩
  rw [← hwf.eq_nth hg hlt]
  rfl

/-- Later pages of a block have greater numbers. -/
theorem nth_pg_lt (hg : Grid spp) (hij : i < j) (hch : (WritePointer.nth spp l i).ch = (WritePointer.nth spp l j).ch)
    (hlun : (WritePointer.nth spp l i).lun = (WritePointer.nth spp l j).lun) :
    (WritePointer.nth spp l i).pg < (WritePointer.nth spp l j).pg := by
  have hos := hg.pgsPerOneshotpg_pos
  by_contra hge
  -- otherwise the wordline, and in it the page, would be no earlier
  have hle : i / spp.pgsPerOneshotpg / spp.nchs / spp.lunsPerCh = j / spp.pgsPerOneshotpg / spp.nchs / spp.lunsPerCh := by
    refine Nat.le_antisymm ?_ ?_
    · exact Nat.div_le_div_right (Nat.div_le_div_right (Nat.div_le_div_right hij.le))
    · have hdiv := Nat.div_le_div_right (c := spp.pgsPerOneshotpg) (Nat.not_lt.mp hge)
      simp only [WritePointer.nth] at hdiv
      rwa [radix_div _ (Nat.mod_lt _ hos), radix_div _ (Nat.mod_lt _ hos)] at hdiv
  have hpage : j % spp.pgsPerOneshotpg ≤ i % spp.pgsPerOneshotpg := by
    simp only [WritePointer.nth, hle] at hge
    omega
  have hrow : i / spp.pgsPerOneshotpg / spp.nchs = j / spp.pgsPerOneshotpg / spp.nchs := by
    rw [← Nat.div_add_mod' (i / spp.pgsPerOneshotpg / spp.nchs) spp.lunsPerCh, hle,
      show i / spp.pgsPerOneshotpg / spp.nchs % spp.lunsPerCh = _ from hlun]
    exact Nat.div_add_mod' _ _
  have hword : i / spp.pgsPerOneshotpg = j / spp.pgsPerOneshotpg := by
    rw [← Nat.div_add_mod' (i / spp.pgsPerOneshotpg) spp.nchs, hrow,
      show i / spp.pgsPerOneshotpg % spp.nchs = _ from hch]
    exact Nat.div_add_mod' _ _
  have hi := Nat.div_add_mod' i spp.pgsPerOneshotpg
  have hj := Nat.div_add_mod' j spp.pgsPerOneshotpg
  rw [hword] at hi
  omega

theorem nth_pg_mod (hg : Grid spp) (l i : Nat) :
    (WritePointer.nth spp l i).pg % spp.pgsPerOneshotpg = i % spp.pgsPerOneshotpg :=
  radix_mod _ (Nat.mod_lt _ hg.pgsPerOneshotpg_pos)

/-- Inside a wordline the next page is the next one of the same block. -/
theorem nth_succ (hg : Grid spp) (h : (i + 1) % spp.pgsPerOneshotpg ≠ 0) :
    WritePointer.nth spp l (i + 1) =
      { WritePointer.nth spp l i with pg := (WritePointer.nth spp l i).pg + 1 } := by
  have hos := hg.pgsPerOneshotpg_pos
  have hlt : i % spp.pgsPerOneshotpg + 1 < spp.pgsPerOneshotpg := by
    have := Nat.mod_lt i hos
    by_contra hge
    have heq : i % spp.pgsPerOneshotpg + 1 = spp.pgsPerOneshotpg := by omega
    have hmod : (i + 1) % spp.pgsPerOneshotpg = 0 := by
      rw [← Nat.mod_add_mod, heq, Nat.mod_self]
    exact h hmod
  have hsplit : i + 1 = i / spp.pgsPerOneshotpg * spp.pgsPerOneshotpg + (i % spp.pgsPerOneshotpg + 1) := by
    rw [← Nat.add_assoc, Nat.div_add_mod']
  have hdiv : (i + 1) / spp.pgsPerOneshotpg = i / spp.pgsPerOneshotpg := by
    rw [hsplit, radix_div _ hlt]
  have hmod : (i + 1) % spp.pgsPerOneshotpg = i % spp.pgsPerOneshotpg + 1 := by
    conv_lhs => rw [hsplit]
    exact radix_mod _ hlt
  simp only [WritePointer.nth, hdiv, hmod, ← Nat.add_assoc]

/-! ## The pages handed out -/

/-- The pages handed out at a pointer, in order, and the state before the next one. Between two of them anything may
    happen that leaves the pointer alone. -/
inductive Visits (cfg : FtlConfig) (io : IoType) (ruh : Nat) (s₀ : Part τ) : List Ppa → Part τ → Prop
  | nil : Visits cfg io ruh s₀ [] s₀
  | visit {ps : List Ppa} {p : Ppa} {s s' s'' : Part τ} :
      Visits cfg io ruh s₀ ps s → getNewPage cfg io ruh s = .ok p → advanceWritePointer cfg io ruh s = .ok s' →
      getWp cfg io ruh s'' = getWp cfg io ruh s' → Visits cfg io ruh s₀ (ps ++ [p]) s''

theorem getWp_setWp {wp : WritePointer} (h : getWp cfg io ruh s = .ok wp) (wp' : WritePointer) :
    getWp cfg io ruh (setWp io ruh wp' s) = .ok wp' := by
  cases io with
  | user =>
      obtain ⟨_, hassert, _⟩ := bind_eq_ok h
      simp only [getWp, hassert, ok_bind, setWp, Function.update_self]
      rfl
  | gc => rfl

theorem getNewPage_of_getWp {wp : WritePointer} (h : getWp cfg io ruh s = .ok wp) (hpl : wp.pl = 0) :
    getNewPage cfg io ruh s = .ok wp.cut := by
  unfold getNewPage
  rw [h, ok_bind]
  simp only [hpl]
  rw [nvmevAssert_of (by decide)]
  simp only [WritePointer.cut, hpl]
  rfl

/-- **Advancing**: before the last page of the line only the pointer moves, on the last page the line is closed. -/
theorem advanceWritePointer_nth (hg : Grid cfg.sp) (h : getWp cfg io ruh s = .ok (.nth cfg.sp l i))
    (hi : i < cfg.sp.pgsPerLine) :
    (i + 1 < cfg.sp.pgsPerLine ∧
      advanceWritePointer cfg io ruh s = .ok (setWp io ruh (.nth cfg.sp l (i + 1)) s)) ∨
    (i + 1 = cfg.sp.pgsPerLine ∧ advanceWritePointer cfg io ruh s =
      closeLine cfg l s >>= openLine cfg io ruh (.nth cfg.sp l i)) := by
  have hwf : (WritePointer.nth cfg.sp l i).Wf cfg.sp := nth_wf hg hi
  have hidx := wpIdx_nth hg l i
  unfold advanceWritePointer
  rw [h, ok_bind]
  rcases nextPage_spec hg hwf with ⟨wp', hnext, hwf', hcur, hidx'⟩ | ⟨hnext, hend⟩
  · left
    rw [hidx] at hidx'
    have hlt : wpIdx cfg.sp wp' < cfg.sp.pgsPerLine := seqIdx_lt hg hwf'.ch_lt hwf'.lun_lt hwf'.pg_lt
    have hwp' := hwf'.eq_nth hg hlt
    rw [hcur, hidx'] at hwp'
    refine ⟨hidx' ▸ hlt, ?_⟩
    rw [hnext, hwp']
    rfl
  · right
    rw [hidx] at hend
    rw [hnext]
    exact ⟨hend, rfl⟩

/-- **The pointer goes through the positions of its line one by one.** -/
theorem Visits.pointer (hg : Grid cfg.sp) (hstart : getWp cfg io ruh s₀ = .ok (.start l))
    (h : Visits cfg io ruh s₀ ps s) (hlen : ps.length < cfg.sp.pgsPerLine) :
    getWp cfg io ruh s = .ok (.nth cfg.sp l ps.length) ∧
      ps = (List.range ps.length).map fun i => (WritePointer.nth cfg.sp l i).cut := by
  induction h with
  | nil =>
      rw [List.length_nil, nth_zero]
      exact ⟨hstart, rfl⟩
  | visit _ hpage hadv hsame ih =>
      rw [List.length_append, List.length_singleton] at hlen ⊢
      obtain ⟨hwp, hps⟩ := ih (by omega)
      rcases advanceWritePointer_nth hg hwp (by omega) with ⟨_, hok⟩ | ⟨hend, _⟩
      · cases hadv.symm.trans hok
        cases hpage.symm.trans (getNewPage_of_getWp hwp rfl)
        refine ⟨hsame.trans (getWp_setWp hwp _), ?_⟩
        rw [List.range_succ, List.map_append, ← hps]
        rfl
      · omega

/-- There is a visit of every length. -/
theorem exists_visits (hg : Grid cfg.sp) (hstart : getWp cfg io ruh s₀ = .ok (.start l)) {n : Nat}
    (hn : n < cfg.sp.pgsPerLine) : ∃ ps s, Visits cfg io ruh s₀ ps s ∧ ps.length = n := by
  induction n with
  | zero => exact ⟨[], s₀, .nil, rfl⟩
  | succ n ih =>
      obtain ⟨ps, s, hv, rfl⟩ := ih (by omega)
      obtain ⟨hwp, _⟩ := hv.pointer hg hstart (by omega)
      rcases advanceWritePointer_nth hg hwp (by omega) with ⟨_, hok⟩ | ⟨hend, _⟩
      · exact ⟨_, _, .visit hv (getNewPage_of_getWp hwp rfl) hok rfl, by simp⟩
      · omega

/-! ## The traversal -/

/-- The coordinates on line `l` fit the fields of `struct ppa`. -/
structure InFields (spp : SsdParams) (l : Nat) : Prop where
  pg_le : spp.pgsPerBlk ≤ 2 ^ pageBits
  lun_le : spp.lunsPerCh ≤ 2 ^ lunBits
  ch_le : spp.nchs ≤ 2 ^ chBits
  blk_lt : l < 2 ^ blkBits

/-- `p` is handed out after `ps`. -/
def HandedOut (cfg : FtlConfig) (io : IoType) (ruh : Nat) (s₀ : Part τ) (ps : List Ppa) (p : Ppa) : Prop :=
  ∃ s, Visits cfg io ruh s₀ ps s ∧ getNewPage cfg io ruh s = .ok p

/-- **The traversal of a line**: the first `pgs_per_line` pages are the pages of the line, each exactly once; the line
    is closed by the advance from the last of them and by no earlier one; the pages of a block come in increasing order;
    the pages of a wordline come one right after the other, and every `pgs_per_oneshotpg`-th page, no other, is the last
    of its wordline. -/
structure TraversesLine (cfg : FtlConfig) (io : IoType) (ruh l : Nat) (s₀ : Part τ) : Prop where
  hands_out : ∀ ps s, Visits cfg io ruh s₀ ps s → ps.length < cfg.sp.pgsPerLine → ∃ p, getNewPage cfg io ruh s = .ok p
  inside : ∀ ps p, HandedOut cfg io ruh s₀ ps p → ps.length < cfg.sp.pgsPerLine →
    p.ch < cfg.sp.nchs ∧ p.lun < cfg.sp.lunsPerCh ∧ p.pg < cfg.sp.pgsPerBlk ∧ p.blk = l ∧ p.pl = 0
  once : ∀ ps p, HandedOut cfg io ruh s₀ ps p → ps.length + 1 = cfg.sp.pgsPerLine →
    ∀ ch lun pg, ch < cfg.sp.nchs → lun < cfg.sp.lunsPerCh → pg < cfg.sp.pgsPerBlk →
      (ps ++ [p]).count ⟨pg, l, 0, lun, ch⟩ = 1
  open_before : ∀ ps s, Visits cfg io ruh s₀ ps s → ps.length + 1 < cfg.sp.pgsPerLine →
    ∃ wp, wp.curline = l ∧ advanceWritePointer cfg io ruh s = .ok (setWp io ruh wp s)
  closed_at : ∀ ps s, Visits cfg io ruh s₀ ps s → ps.length + 1 = cfg.sp.pgsPerLine →
    ∃ wp, advanceWritePointer cfg io ruh s = closeLine cfg l s >>= openLine cfg io ruh wp
  increasing : ∀ ps p, HandedOut cfg io ruh s₀ ps p → ps.length < cfg.sp.pgsPerLine →
    ∀ q ∈ ps, q.blkAddr = p.blkAddr → q.pg < p.pg
  wordline : ∀ ps p, HandedOut cfg io ruh s₀ ps p → ps.length < cfg.sp.pgsPerLine →
    ps.length % cfg.sp.pgsPerOneshotpg ≠ 0 → ∃ q, ps.getLast? = some q ∧ p = { q with pg := q.pg + 1 } ∧
      q.pg / cfg.sp.pgsPerOneshotpg = p.pg / cfg.sp.pgsPerOneshotpg
  last_pg : ∀ ps p, HandedOut cfg io ruh s₀ ps p → ps.length < cfg.sp.pgsPerLine →
    (lastPgInWordline cfg.sp p = true ↔ (ps.length + 1) % cfg.sp.pgsPerOneshotpg = 0)

theorem WritePointer.Wf.cut_eq {wp : WritePointer} (h : wp.Wf spp) (hfit : InFields spp wp.curline) : wp.cut = wp.ppa := by
  have hblk := hfit.blk_lt
  rw [← h.blk_eq] at hblk
  simp only [WritePointer.cut, WritePointer.ppa, h.pl_eq, Nat.zero_mod, Nat.mod_eq_of_lt (h.ch_lt.trans_le hfit.ch_le),
    Nat.mod_eq_of_lt (h.lun_lt.trans_le hfit.lun_le), Nat.mod_eq_of_lt (h.pg_lt.trans_le hfit.pg_le), Nat.mod_eq_of_lt hblk]

theorem HandedOut.eq_map (hg : Grid cfg.sp) (hstart : getWp cfg io ruh s₀ = .ok (.start l))
    (h : HandedOut cfg io ruh s₀ ps p) (hlen : ps.length < cfg.sp.pgsPerLine) :
    p = (WritePointer.nth cfg.sp l ps.length).cut ∧
      ps = (List.range ps.length).map fun i => (WritePointer.nth cfg.sp l i).cut := by
  obtain ⟨s, hv, hpage⟩ := h
  obtain ⟨hwp, hps⟩ := hv.pointer hg hstart hlen
  exact ⟨Except.ok.inj (hpage.symm.trans (getNewPage_of_getWp hwp rfl)), hps⟩

theorem cut_nth (hg : Grid cfg.sp) (hfit : InFields cfg.sp l) (hi : i < cfg.sp.pgsPerLine) :
    (WritePointer.nth cfg.sp l i).cut = (WritePointer.nth cfg.sp l i).ppa :=
  (nth_wf hg hi).cut_eq hfit

/-- With coordinates that fit, the pages are those of the positions. -/
theorem HandedOut.eq_ppa (hg : Grid cfg.sp) (hfit : InFields cfg.sp l) (hstart : getWp cfg io ruh s₀ = .ok (.start l))
    (h : HandedOut cfg io ruh s₀ ps p) (hlen : ps.length < cfg.sp.pgsPerLine) :
    p = (WritePointer.nth cfg.sp l ps.length).ppa ∧
      ps = (List.range ps.length).map fun i => (WritePointer.nth cfg.sp l i).ppa := by
  obtain ⟨hp, hps⟩ := h.eq_map hg hstart hlen
  refine ⟨hp.trans (cut_nth hg hfit hlen), hps.trans ?_⟩
  refine List.map_congr_left fun i hi => cut_nth hg hfit ?_
  exact (List.mem_range.mp hi).trans hlen

theorem nth_ppa_inj (hg : Grid spp)
    (h : (WritePointer.nth spp l i).ppa = (WritePointer.nth spp l j).ppa) : i = j := by
  have heq : wpIdx spp (.nth spp l i) = wpIdx spp (.nth spp l j) := by
    have hpg := congrArg Ppa.pg h
    have hlun := congrArg Ppa.lun h
    have hch := congrArg Ppa.ch h
    simp only [WritePointer.ppa] at hpg hlun hch
    rw [wpIdx, wpIdx, hpg, hlun, hch]
  rwa [wpIdx_nth hg, wpIdx_nth hg] at heq

/-- The pages of a whole line, each exactly once. -/
theorem count_nth (hg : Grid spp) (l : Nat) {ch lun pg : Nat} (hch : ch < spp.nchs) (hlun : lun < spp.lunsPerCh)
    (hpg : pg < spp.pgsPerBlk) :
    ((List.range spp.pgsPerLine).map fun i => (WritePointer.nth spp l i).ppa).count ⟨pg, l, 0, lun, ch⟩ = 1 := by
  obtain ⟨i, hi, hppa⟩ := exists_nth hg l hch hlun hpg
  refine List.count_eq_one_of_mem ?_ ?_
  · refine List.Nodup.map (fun a b hab => ?_) List.nodup_range
    exact nth_ppa_inj hg hab
  · exact List.mem_map.mpr ⟨i, List.mem_range.mpr hi, hppa⟩

theorem traversesLine_of_fit (hg : Grid cfg.sp) (hfit : InFields cfg.sp l)
    (hstart : getWp cfg io ruh s₀ = .ok (.start l)) : TraversesLine cfg io ruh l s₀ where
  hands_out ps s hv hlen := ⟨_, getNewPage_of_getWp (hv.pointer hg hstart hlen).1 rfl⟩
  inside ps p hp hlen := by
    obtain ⟨rfl, _⟩ := hp.eq_ppa hg hfit hstart hlen
    have hwf : (WritePointer.nth cfg.sp l ps.length).Wf cfg.sp := nth_wf hg hlen
    exact ⟨hwf.ch_lt, hwf.lun_lt, hwf.pg_lt, rfl, rfl⟩
  once ps p hp hlen ch lun pg hch hlun hpg := by
    obtain ⟨hpe, hps⟩ := hp.eq_ppa hg hfit hstart (by omega)
    have hall : ps ++ [p] = (List.range cfg.sp.pgsPerLine).map fun i => (WritePointer.nth cfg.sp l i).ppa := by
      rw [← hlen, List.range_succ, List.map_append, ← hps, hpe]
      rfl
    rw [hall]
    exact count_nth hg l hch hlun hpg
  open_before ps s hv hlen := by
    obtain ⟨hwp, _⟩ := hv.pointer hg hstart (by omega)
    rcases advanceWritePointer_nth hg hwp (by omega) with ⟨_, hok⟩ | ⟨hend, _⟩
    · exact ⟨_, rfl, hok⟩
    · omega
  closed_at ps s hv hlen := by
    obtain ⟨hwp, _⟩ := hv.pointer hg hstart (by omega)
    rcases advanceWritePointer_nth hg hwp (by omega) with ⟨hlt, _⟩ | ⟨_, hclose⟩
    · omega
    · exact ⟨_, hclose⟩
  increasing ps p hp hlen q hq hblk := by
    obtain ⟨rfl, hps⟩ := hp.eq_ppa hg hfit hstart hlen
    rw [hps] at hq
    obtain ⟨i, hi, rfl⟩ := List.mem_map.mp hq
    exact nth_pg_lt (l := l) hg (List.mem_range.mp hi) (congrArg BlkAddr.ch hblk) (congrArg BlkAddr.lun hblk)
  wordline ps p hp hlen hmod := by
    obtain ⟨hpe, hps⟩ := hp.eq_ppa hg hfit hstart hlen
    obtain ⟨n, hn⟩ : ∃ n, ps.length = n + 1 := by
      cases hz : ps.length with
      | zero => rw [hz, Nat.zero_mod] at hmod; exact absurd rfl hmod
      | succ n => exact ⟨n, rfl⟩
    rw [hn] at hmod hpe hps
    have hsucc := nth_succ (l := l) hg hmod
    refine ⟨(WritePointer.nth cfg.sp l n).ppa, ?_, ?_, ?_⟩
    · rw [hps, List.range_succ, List.map_append]
      exact List.getLast?_concat
    · rw [hpe, hsucc]
      rfl
    · -- the wordline of a page is the page number without its last digit
      have hos := hg.pgsPerOneshotpg_pos
      rw [hpe, hsucc]
      have hmod' := nth_pg_mod hg l (n + 1)
      rw [hsucc] at hmod'
      have hne : ((WritePointer.nth cfg.sp l n).pg + 1) % cfg.sp.pgsPerOneshotpg ≠ 0 := fun h => hmod (hmod'.symm.trans h)
      exact (Nat.succ_div_of_not_dvd fun hd => hne (Nat.mod_eq_zero_of_dvd hd)).symm
  last_pg ps p hp hlen := by
    obtain ⟨rfl, _⟩ := hp.eq_ppa hg hfit hstart hlen
    have hos := hg.pgsPerOneshotpg_pos
    have hmod : (WritePointer.nth cfg.sp l ps.length).ppa.pg % cfg.sp.pgsPerOneshotpg = _ := nth_pg_mod hg l ps.length
    rw [lastPgInWordline, hmod, beq_iff_eq]
    have hlt := Nat.mod_lt ps.length hos
    constructor
    · intro h
      rw [← Nat.mod_add_mod, h, Nat.sub_add_cancel hos, Nat.mod_self]
    · intro h
      rw [← Nat.mod_add_mod] at h
      by_contra hne
      rw [Nat.mod_eq_of_lt (by omega)] at h
      omega

/-- A page that is handed out has coordinates inside the fields. -/
theorem cut_lt (wp : WritePointer) :
    wp.cut.pg < 2 ^ pageBits ∧ wp.cut.blk < 2 ^ blkBits ∧ wp.cut.lun < 2 ^ lunBits ∧ wp.cut.ch < 2 ^ chBits :=
  ⟨Nat.mod_lt _ (by decide), Nat.mod_lt _ (by decide), Nat.mod_lt _ (by decide), Nat.mod_lt _ (by decide)⟩

/-- A pointer that traverses its line needs all of its coordinates. -/
theorem TraversesLine.inFields (hg : Grid cfg.sp) (hpos : 0 < cfg.sp.pgsPerBlk)
    (hstart : getWp cfg io ruh s₀ = .ok (.start l)) (h : TraversesLine cfg io ruh l s₀) : InFields cfg.sp l := by
  have hch := hg.nchs_pos
  have hlun := hg.lunsPerCh_pos
  have hline : 0 < cfg.sp.pgsPerLine := by
    rw [hg.pgsPerLine_eq]
    exact Nat.mul_pos (Nat.mul_pos hlun hch) hpos
  -- the last page of the last block has to be handed out
  obtain ⟨ps, s, hv, hlen⟩ := exists_visits hg hstart (Nat.sub_lt hline Nat.one_pos)
  obtain ⟨p, hp⟩ := h.hands_out ps s hv (by omega)
  have hcount := h.once ps p ⟨s, hv, hp⟩ (by omega) (cfg.sp.nchs - 1) (cfg.sp.lunsPerCh - 1) (cfg.sp.pgsPerBlk - 1)
    (by omega) (by omega) (by omega)
  have hmem : (⟨cfg.sp.pgsPerBlk - 1, l, 0, cfg.sp.lunsPerCh - 1, cfg.sp.nchs - 1⟩ : Ppa) ∈ ps ++ [p] :=
    List.count_pos_iff.mp (by omega)
  obtain ⟨hpe, hps⟩ := HandedOut.eq_map hg hstart ⟨s, hv, hp⟩ (by omega)
  obtain ⟨wp, hwp⟩ : ∃ wp : WritePointer, (⟨cfg.sp.pgsPerBlk - 1, l, 0, cfg.sp.lunsPerCh - 1, cfg.sp.nchs - 1⟩ : Ppa) =
      wp.cut := by
    rcases List.mem_append.mp hmem with hm | hm
    · rw [hps] at hm
      obtain ⟨i, _, hi⟩ := List.mem_map.mp hm
      exact ⟨_, hi.symm⟩
    · rw [List.mem_singleton.mp hm, hpe]
      exact ⟨_, rfl⟩
  obtain ⟨hpg, hblk, hl, hc⟩ := cut_lt wp
  rw [← hwp] at hpg hblk hl hc
  refine ⟨?_, ?_, ?_, hblk⟩
  · exact Nat.le_of_pred_lt hpg
  · exact Nat.le_of_pred_lt hl
  · exact Nat.le_of_pred_lt hc

/-- **A write pointer traverses its line exactly if the coordinates fit `struct ppa`**, on every geometry, for every
    pointer, from every state in which it is at the start of a line. -/
theorem write_pointer_traversal_iff (hg : Grid cfg.sp) (hpos : 0 < cfg.sp.pgsPerBlk)
    (hstart : getWp cfg io ruh s₀ = .ok (.start l)) : TraversesLine cfg io ruh l s₀ ↔ InFields cfg.sp l :=
  ⟨fun h => h.inFields hg hpos hstart, fun hfit => traversesLine_of_fit hg hfit hstart⟩

/-! ## The shipped FDP target -/

/-- A partition of the FDP target. -/
def traversalConfig (size : Nat) : FtlConfig := ⟨ssdInitParams samsungFdp size 4, 8, 9, true⟩

/-- A partition of 64 MiB: all of its coordinates fit. -/
theorem write_pointer_traversal_small :
    TraversesLine (traversalConfig (2 ^ 26)) .user 0 0 (initialised (traversalConfig (2 ^ 26)) (fdpInitCtx 0) ()) := by
  have hgrid : Grid (traversalConfig (2 ^ 26)).sp :=
    grid_ssdInitParams (by decide) (by decide) (by decide +kernel) (by decide +kernel) (by decide +kernel)
  refine (write_pointer_traversal_iff hgrid (by decide +kernel) rfl).mpr ?_
  constructor <;> decide +kernel

/-- A partition of 1 TiB has blocks of 131072 pages: its pointers come back to page 0 in the middle of a line. -/
theorem write_pointer_revisits :
    ¬ TraversesLine (traversalConfig (2 ^ 40)) .user 0 0 (initialised (traversalConfig (2 ^ 40)) (fdpInitCtx 0) ()) := by
  have hgrid : Grid (traversalConfig (2 ^ 40)).sp :=
    grid_ssdInitParams (by decide) (by decide) (by decide +kernel) (by decide +kernel) (by decide +kernel)
  intro h
  have hle : 131072 ≤ 2 ^ pageBits := (h.inFields hgrid (by decide +kernel) rfl).pg_le
  exact absurd hle (by decide)

end NvmeVirt
