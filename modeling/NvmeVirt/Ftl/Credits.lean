import NvmeVirt.Ftl.Run

/-!
# `Ftl.Credits` — why the write credits keep a line free, and when

A partition may take a line only if one is free, but it collects garbage only when its write credits run
out. The argument that this is enough is amortised. `Stocked` keeps, besides a page of room for each credit,
a line of room for every write pointer. A page write spends one credit and one page of room; a collection
refills as many credits as it gains pages of room, the invalid pages of its victim; a refill without
collection is covered by the lines above the threshold.

The one refill that nothing covers is the one after a collection that found no victim: `do_gc` then returns
`-1`, which is ignored. `GcReady` excludes it, and `Stocked.writePage` shows that nothing else can go wrong.
-/

namespace NvmeVirt

open Outcome

variable {τ : Type} {cfg : FtlConfig} {L : Latency τ} {s s₁ : Part τ}

/-! ## Counters during a page -/

theorem OldInvalidated.counts {lpn : Nat} (h : OldInvalidated lpn s s₁) :
    s.victimLineCnt ≤ s₁.victimLineCnt ∧ s₁.freeLineCnt = s.freeLineCnt := by
  cases h with
  | unmapped => exact ⟨Nat.le_refl _, rfl⟩
  | mapped _ _ _ _ _ _ _ hvictims => exact ⟨hvictims, rfl⟩

theorem PageTaken.counts {io : IoType} {ruh lpn : Nat} {p : Ppa} (h : PageTaken cfg io ruh lpn s (p, s₁)) :
    s.victimLineCnt ≤ s₁.victimLineCnt ∧ s.freeLineCnt ≤ s₁.freeLineCnt + 1 := by
  obtain ⟨_, ⟨_, _, _, _, _, _, _, _, _, hfree, hvictims⟩⟩ := h
  cases io <;> exact ⟨hvictims, hfree⟩

/-- For a page of the host, victims are only added, and at most one line is taken. -/
theorem PagePut.counts {stime ruh lpn : Nat} {t : Option Nat} (h : PagePut cfg L stime ruh lpn s (t, s₁)) :
    s.victimLineCnt ≤ s₁.victimLineCnt ∧ s.freeLineCnt ≤ s₁.freeLineCnt + 1 := by
  obtain ⟨hold, htaken, _, _⟩ := h
  obtain ⟨hvictims, hfree⟩ := hold.counts
  obtain ⟨hvictims', hfree'⟩ := htaken.counts
  exact ⟨Nat.le_trans hvictims hvictims', hfree ▸ hfree'⟩

/-! ## The invariant -/

/-- What the flow control relies on: a collection starts while every write pointer can still get a line and
    one more is left, and the credits of a line fit their 32 bits. -/
structure FtlConfig.Flow (cfg : FtlConfig) : Prop where
  geometry : Geometry cfg.sp
  thres_eq : cfg.gcThresLinesHigh = cfg.nrRuh + 1
  lines_enough : cfg.nrRuh + 2 ≤ cfg.sp.ttLines
  pgsPerLine_lt : cfg.sp.pgsPerLine < 2 ^ 32

/-- **A stocked partition**: credits are left, there is a page of room for each of them, and beyond that a
    line of room for every write pointer. -/
structure Stocked (cfg : FtlConfig) (s : FdpFtl) : Prop where
  sound : Sound cfg s
  credits_pos : 0 < s.writeCredits
  credits_le : s.writeCredits ≤ cfg.sp.pgsPerLine
  refill_pos : 0 < s.creditsToRefill
  refill_le : s.creditsToRefill ≤ cfg.sp.pgsPerLine
  room_le : s.writeCredits + (cfg.nrRuh + 1) * cfg.sp.pgsPerLine ≤ room cfg s

/-- **A collection would help**: if the next page write uses up the credits with no more lines free than the
    collection starts at, counting the one the write itself may take, then there is a victim. -/
def GcReady (cfg : FtlConfig) (s : FdpFtl) : Prop :=
  s.writeCredits = 1 → s.freeLineCnt ≤ cfg.gcThresLinesHigh + 1 → 0 < s.victimLineCnt

instance (cfg : FtlConfig) (s : FdpFtl) : Decidable (GcReady cfg s) :=
  inferInstanceAs (Decidable (_ → _ → _))

theorem Sound.peek_ne_none {s : FdpFtl} (h : Sound cfg s) (hcnt : 0 < s.victimLineCnt) :
    s.victimLinePq.peek ≠ none := by
  obtain ⟨g, _, hinv⟩ := h
  have hsize := hinv.placed.victim_cnt
  have hne : s.victimLinePq.size ≠ 1 := by omega
  rw [Pqueue.peek, if_neg hne]
  exact nofun

theorem Sound.freeLineCnt_mul_le_room {s : FdpFtl} (h : Sound cfg s) :
    s.freeLineCnt * cfg.sp.pgsPerLine ≤ room cfg s := by
  obtain ⟨g, _, hinv⟩ := h
  rw [hinv.placed.free_cnt, room, Nat.add_assoc]
  exact Nat.le_add_right _ _

theorem Stocked.refilled {s : FdpFtl} {n : Nat} (hsound : Sound cfg s) (hn : 0 < n)
    (hn' : n ≤ cfg.sp.pgsPerLine) (hpos : 0 < s.creditsToRefill)
    (hle : s.creditsToRefill ≤ cfg.sp.pgsPerLine)
    (hroom : n + (cfg.nrRuh + 1) * cfg.sp.pgsPerLine ≤ room cfg s) :
    Stocked cfg { s with writeCredits := n } :=
  ⟨hsound.setCredits n s.creditsToRefill, hn, hn', hpos, hle, hroom⟩

/-- The credits after a refill from zero. -/
theorem u32_refill {n : Nat} (hf : cfg.Flow) (h : n ≤ cfg.sp.pgsPerLine) : u32 (0 + n) = n := by
  rw [Nat.zero_add]
  exact u32_of_lt (Nat.lt_of_le_of_lt h hf.pgsPerLine_lt)

/-- The three refills, each with what covers it. -/
theorem Refilled.stocked {s' : Part τ} (hf : cfg.Flow) (hsound : Sound cfg s.toFdpFtl)
    (hcredits : s.writeCredits ≤ cfg.sp.pgsPerLine)
    (hpos : 0 < s.creditsToRefill) (hle : s.creditsToRefill ≤ cfg.sp.pgsPerLine)
    (hroom : s.writeCredits + (cfg.nrRuh + 1) * cfg.sp.pgsPerLine ≤ room cfg s.toFdpFtl)
    (hgc : s.writeCredits = 0 → shouldGcHigh cfg s.toFdpFtl → s.victimLinePq.peek ≠ none)
    (h : Refilled cfg s s') : Stocked cfg s'.toFdpFtl := by
  have hs' := h.sound hsound
  cases h with
  | enough hne => exact ⟨hsound, Nat.pos_of_ne_zero hne, hcredits, hpos, hle, hroom⟩
  | refill hzero hno =>
      -- without a collection there are at least `nrRuh + 2` free lines
      have hfree : cfg.nrRuh + 2 ≤ s.freeLineCnt := by
        rcases hno with hno | hnone
        · unfold shouldGcHigh at hno
          have hthres := hf.thres_eq
          omega
        · by_contra hlow
          refine hgc hzero ?_ hnone
          have hthres := hf.thres_eq
          unfold shouldGcHigh
          omega
      have hlines := Nat.mul_le_mul_right cfg.sp.pgsPerLine hfree
      have hcover := Nat.le_trans hlines hsound.freeLineCnt_mul_le_room
      have hnew : u32 (s.writeCredits + s.creditsToRefill) = s.creditsToRefill := by
        rw [hzero]
        exact u32_refill hf hle
      rw [hnew]
      refine .refilled hsound hpos hle hpos hle ?_
      rw [Nat.add_mul] at hcover ⊢
      omega
  | gc hzero hhigh hv hr =>
      rename_i v s₁
      obtain ⟨g, _, hinv⟩ := hsound
      obtain ⟨hipc, hsum⟩ := hinv.victim_counters hv
      have hipc_le : (s.lines v).ipc ≤ cfg.sp.pgsPerLine := by omega
      have hnew : u32 (s₁.writeCredits + s₁.creditsToRefill) = (s.lines v).ipc := by
        rw [hr.credits_eq, hr.refill_eq, hzero]
        exact u32_refill hf hipc_le
      rw [hnew]
      refine .refilled hr.sound hipc hipc_le ?_ ?_ ?_
      · rw [hr.refill_eq]
        exact hipc
      · rw [hr.refill_eq]
        exact hipc_le
      · rw [hr.room_eq]
        omega

/-! ## Initialisation and page writes -/

/-- All pages of a fresh partition can be programmed. -/
theorem room_initialised (ctx : FdpCtx) (tm : τ) (hlines : cfg.nrRuh + 1 ≤ cfg.sp.ttLines) :
    room cfg (initialised cfg ctx tm).toFdpFtl = cfg.sp.ttLines * cfg.sp.pgsPerLine := by
  have hfree : (initialised cfg ctx tm).freeLineList.length = cfg.sp.ttLines - (cfg.nrRuh + 1) := by
    simp [initialised]
  have husers : ∑ r ∈ Finset.range cfg.nrRuh,
      (cfg.sp.pgsPerLine - wpIdx cfg.sp ((initialised cfg ctx tm).wpRuh r)) =
        cfg.nrRuh * cfg.sp.pgsPerLine := by
    rw [Finset.sum_const_nat (m := cfg.sp.pgsPerLine), Finset.card_range]
    intro r hr
    have hwp : (initialised cfg ctx tm).wpRuh r = .start r := by
      simp [initialised, preparedUsers, Finset.mem_range.mp hr]
    rw [hwp, wpIdx_start, Nat.sub_zero]
  have hgc : wpIdx cfg.sp (initialised cfg ctx tm).gcWp = 0 := wpIdx_start ..
  rw [room, hfree, husers, hgc, Nat.sub_zero, Nat.add_assoc, ← Nat.succ_mul, ← Nat.add_mul]
  congr 1
  omega

theorem stocked_initialised (ctx : FdpCtx) (tm : τ) (hf : cfg.Flow) :
    Stocked cfg (initialised cfg ctx tm).toFdpFtl := by
  have hS := hf.geometry.pgsPerLine_pos
  have hlines : cfg.nrRuh + 1 ≤ cfg.sp.ttLines := Nat.le_of_succ_le hf.lines_enough
  have hcredits : (initialised cfg ctx tm).writeCredits = cfg.sp.pgsPerLine := u32_of_lt hf.pgsPerLine_lt
  have hrefill : (initialised cfg ctx tm).creditsToRefill = cfg.sp.pgsPerLine :=
    u32_of_lt hf.pgsPerLine_lt
  refine ⟨sound_initialised _ _ hf.geometry hlines, ?_, ?_, ?_, ?_, ?_⟩
  · rw [hcredits]
    exact hS
  · rw [hcredits]
  · rw [hrefill]
    exact hS
  · rw [hrefill]
  · have hcover := Nat.mul_le_mul_right cfg.sp.pgsPerLine hf.lines_enough
    rw [hcredits, room_initialised ctx tm hlines]
    rw [Nat.add_mul] at hcover ⊢
    omega

/-- **A page write with room for its page** puts the page; what is then to be shown is what the check of the
    credits does. -/
theorem sat_writePage {L : Latency τ} {stime ruh lpn : Nat} {Q : Option Nat × Part τ → Prop}
    (hg : Geometry cfg.sp) (h : Sound cfg s.toFdpFtl) (hruh : ruh < cfg.nrRuh) (hlpn : lpn < cfg.sp.ttPgs)
    (hroom : cfg.nrRuh * cfg.sp.pgsPerLine + 1 < room cfg s.toFdpFtl)
    (hcheck : ∀ t s₁, Put cfg ruh lpn s s₁ → PagePut cfg L stime ruh lpn s (t, s₁) →
      Sat (fun _ => False) (fun s₂ => Q (t, s₂)) (checkAndRefillWriteCredit cfg L s₁)) :
    Sat (fun _ => False) Q (writePage cfg L stime ruh lpn s) := by
  have hput := (putPage_spec L hg h stime hruh hlpn).and (putPage_cases cfg L stime ruh lpn s)
  unfold writePage
  -- no line left means less than a line of room per pointer
  refine (hput.mono_error fun e he => absurd he.2 (Nat.not_le.mpr hroom)).bind ?_
  rintro ⟨t, s₁⟩ ⟨hdone, hcases⟩
  exact (hcheck t s₁ hdone hcases).bind fun s₂ h₂ => h₂

/-- **A page write of a stocked partition** that is ready for a collection succeeds and leaves it
    stocked. -/
theorem Stocked.writePage (L : Latency τ) (hf : cfg.Flow) (h : Stocked cfg s.toFdpFtl)
    (hready : GcReady cfg s.toFdpFtl) (stime : Nat) {ruh lpn : Nat} (hruh : ruh < cfg.nrRuh)
    (hlpn : lpn < cfg.sp.ttPgs) :
    Sat (fun _ => False) (fun r => Stocked cfg r.2.toFdpFtl) (writePage cfg L stime ruh lpn s) := by
  have hS := hf.geometry.pgsPerLine_pos
  have hroom := h.room_le
  have hcpos := h.credits_pos
  have hcle := h.credits_le
  rw [Nat.add_mul, Nat.one_mul] at hroom
  refine sat_writePage hf.geometry h.sound hruh hlpn (by omega) fun t s₁ hput hcases => ?_
  obtain ⟨hs₁, hroom₁, hcred₁, hrefill₁⟩ := hput
  obtain ⟨hvic, hfree⟩ := PagePut.counts hcases
  have hlt : s.writeCredits < 2 ^ 32 := Nat.lt_of_le_of_lt hcle hf.pgsPerLine_lt
  rw [u32Dec_of_pos hcpos hlt] at hcred₁
  have hgc : s₁.writeCredits = 0 → shouldGcHigh cfg s₁.toFdpFtl → s₁.victimLinePq.peek ≠ none := by
    intro hzero hhigh
    refine hs₁.peek_ne_none (Nat.lt_of_lt_of_le (hready (by omega) ?_) hvic)
    unfold shouldGcHigh at hhigh
    omega
  have hroom₁' : s₁.writeCredits + (cfg.nrRuh + 1) * cfg.sp.pgsPerLine ≤ room cfg s₁.toFdpFtl := by
    rw [Nat.add_mul, Nat.one_mul]
    omega
  refine ((checkAndRefill_spec L hf.geometry hs₁).mono_error ?_).mono ?_
  · -- a collection that runs dry had less room than the invariant keeps
    rintro e ⟨_, hzero, _, v, hv, hlow⟩
    obtain ⟨g, _, hinv⟩ := hs₁
    obtain ⟨hipc, hsum⟩ := hinv.victim_counters hv
    rw [Nat.add_mul, Nat.one_mul] at hroom₁'
    omega
  · intro s₂ hr
    exact hr.stocked hf hs₁ (by omega) (hrefill₁ ▸ h.refill_pos) (hrefill₁ ▸ h.refill_le) hroom₁' hgc

end NvmeVirt
