import NvmeVirt.Ftl.Invariant
import NvmeVirt.Lib.Outcome

/-!
# `Ftl.Init` — the partition `fdp_init_ftl` sets up

Handle `r` gets line `r`, garbage collection gets the next one, all other lines stay free: `fdpInitFtl_eq`
gives the state outright, `sound_initialised` the invariant.
-/

namespace NvmeVirt

open Counting Outcome

variable {τ : Type} {cfg : FtlConfig}

/-- The partition after `prepare_write_pointer` ran for the handles below `k`. -/
def preparedUsers (cfg : FtlConfig) (ctx : FdpCtx) (tm : τ) (k : Nat) : Part τ :=
  { initTables cfg ctx tm with
    wpRuh := fun r => if r < k then .start r else ⟨0, 0, 0, 0, 0, 0⟩
    lines := fun l => { id := l, ipc := 0, vpc := 0, ruh := if l < k then (l : Int) else -1, pos := 0 }
    freeLineList := (List.range cfg.sp.ttLines).drop k
    freeLineCnt := cfg.sp.ttLines - k }

/-- The partition `fdp_init_ftl` leaves. -/
def initialised (cfg : FtlConfig) (ctx : FdpCtx) (tm : τ) : Part τ :=
  { preparedUsers cfg ctx tm cfg.nrRuh with
    gcWp := .start cfg.nrRuh
    freeLineList := (List.range cfg.sp.ttLines).drop (cfg.nrRuh + 1)
    freeLineCnt := cfg.sp.ttLines - (cfg.nrRuh + 1)
    writeCredits := u32 cfg.sp.pgsPerLine
    creditsToRefill := u32 cfg.sp.pgsPerLine }

/-- The first line of the free list is the next one. -/
theorem drop_range_eq_cons {k n : Nat} (h : k < n) :
    (List.range n).drop k = k :: (List.range n).drop (k + 1) := by
  rw [List.drop_eq_getElem_cons (by simpa using h), List.getElem_range]

/-- **One handle**: line `k` leaves the free list and is labelled for handle `k`. -/
theorem prepareWritePointer_user (ctx : FdpCtx) (tm : τ) {k : Nat} (hk : k < cfg.nrRuh)
    (hlines : k < cfg.sp.ttLines) :
    prepareWritePointer cfg .user k (preparedUsers cfg ctx tm k) =
      .ok (preparedUsers cfg ctx tm (k + 1)) := by
  have hfree : (preparedUsers cfg ctx tm k).freeLineList =
      k :: (List.range cfg.sp.ttLines).drop (k + 1) := drop_range_eq_cons hlines
  simp only [prepareWritePointer, getWp, nvmevAssert_of hk, ok_bind, pure_eq_ok, getNextFreeLine, hfree]
  congr 1
  unfold setWp setRuh preparedUsers initTables
  dsimp only
  congr 2
  · funext r
    by_cases hr : r = k
    · subst hr
      simp [WritePointer.start]
    · have : (r < k + 1) = (r < k) := by
        apply propext
        omega
      simp [hr, this]
  · funext l
    by_cases hl : l = k
    · subst hl
      simp [ruhLabel]
    · have : (l < k + 1) = (l < k) := by
        apply propext
        omega
      simp [hl, this]

/-- **`fdp_init_ftl`** succeeds when there is a line for every handle and one for garbage collection. -/
theorem fdpInitFtl_eq (ctx : FdpCtx) (tm : τ) (hlines : cfg.nrRuh + 1 ≤ cfg.sp.ttLines) :
    fdpInitFtl cfg ctx tm = .ok (initialised cfg ctx tm) := by
  have hzero : initTables cfg ctx tm = preparedUsers cfg ctx tm 0 := by
    simp [initTables, preparedUsers]
  have husers : (List.range cfg.nrRuh).foldlM (fun s ruh => prepareWritePointer cfg .user ruh s)
      (initTables cfg ctx tm) = .ok (preparedUsers cfg ctx tm cfg.nrRuh) := by
    refine Sat.eq_ok ?_
    refine sat_foldlM_range (fun k s => s = preparedUsers cfg ctx tm k) _ ?_ hzero
    rintro k hk s rfl
    rw [prepareWritePointer_user ctx tm hk (by omega)]
    exact rfl
  have hfree : (preparedUsers cfg ctx tm cfg.nrRuh).freeLineList =
      cfg.nrRuh :: (List.range cfg.sp.ttLines).drop (cfg.nrRuh + 1) :=
    drop_range_eq_cons (by omega)
  rw [fdpInitFtl, husers, ok_bind]
  simp only [prepareWritePointer, getWp, ok_bind, getNextFreeLine, hfree, pure_eq_ok]
  congr 1
  unfold initWriteFlowControl setWp setRuh initialised preparedUsers initTables
  dsimp only
  congr 2
  · simp [WritePointer.start]
  · funext l
    by_cases hl : l = cfg.nrRuh
    · subst hl
      simp [ruhLabel]
    · simp [hl]

/-- Where the lines are after initialisation. -/
def initGhost (cfg : FtlConfig) : Ghost where
  place := fun l =>
    if l < cfg.nrRuh then .opened (.host l) else if l = cfg.nrRuh then .opened .gc else .free
  fill := fun _ => 0
  ahead := fun _ => 0
  stale := fun _ => False
  cleaned := fun _ => False
  erased := fun _ => False

theorem initGhost_quiet (cfg : FtlConfig) : (initGhost cfg).Quiet := by
  refine ⟨?_, fun _ => rfl, fun _ h => h, fun _ h => h, fun _ h => h⟩
  intro l
  show (if l < cfg.nrRuh then _ else if l = cfg.nrRuh then _ else _) ≠ _
  split
  · simp
  · split <;> simp

theorem initGhost_place_free (cfg : FtlConfig) (l : Nat) :
    (initGhost cfg).place l = .free ↔ cfg.nrRuh + 1 ≤ l := by
  show (if l < cfg.nrRuh then _ else if l = cfg.nrRuh then _ else _) = _ ↔ _
  split
  · simp only [reduceCtorEq, false_iff]
    omega
  · split
    · simp only [reduceCtorEq, false_iff]
      omega
    · simp only [true_iff]
      omega

theorem initGhost_place_opened (cfg : FtlConfig) (l : Nat) (w : Writer) :
    (initGhost cfg).place l = .opened w ↔
      (w = .host l ∧ l < cfg.nrRuh) ∨ (w = .gc ∧ l = cfg.nrRuh) := by
  show (if l < cfg.nrRuh then _ else if l = cfg.nrRuh then _ else _) = _ ↔ _
  split
  · rename_i hl
    simp only [Place.opened.injEq, hl, and_true]
    constructor
    · exact fun h => Or.inl h.symm
    · rintro (h | ⟨_, h⟩)
      · exact h.symm
      · omega
  · rename_i hl
    split
    · rename_i hl'
      simp only [Place.opened.injEq, hl', Nat.lt_irrefl, and_false, false_or, and_true]
      exact eq_comm
    · rename_i hl'
      simp [hl, hl']

/-- No line is full, in the victim queue or being cleaned. -/
theorem initGhost_place_of_ne (cfg : FtlConfig) (l : Nat) {pl : Place} (h1 : pl ≠ .free)
    (h2 : ∀ w, pl ≠ .opened w) : (initGhost cfg).place l ≠ pl := by
  show (if l < cfg.nrRuh then _ else if l = cfg.nrRuh then _ else _) ≠ _
  split
  · exact (h2 _).symm
  · split
    · exact (h2 _).symm
    · exact h1.symm

section initialised

variable (ctx : FdpCtx) (tm : τ)

/-- A new block has no valid and no invalid page. -/
theorem countBelow_init {P : PgStatus → Prop} [DecidablePred P] (hP : ¬ P .free) (n : Nat) :
    countBelow P NandBlock.init.pg n = 0 :=
  countBelow_eq_zero fun _ _ => hP

theorem initialised_counted : Counted cfg.sp (initGhost cfg) (initialised cfg ctx tm).toFdpFtl where
  status_free := fun p _ => iff_of_true rfl (Or.inr (Nat.zero_le _))
  blk_vpc := fun _ => (countBelow_init (by decide) _).symm
  blk_ipc := fun _ => (countBelow_init (by decide) _).symm
  line_vpc := fun _ _ _ => (Finset.sum_eq_zero fun _ _ => rfl).symm
  line_ipc := fun _ _ _ => (Finset.sum_eq_zero fun _ _ => rfl).symm
  line_fill := fun _ _ => rfl

/-- The lines not handed out are on the free list, and there are no others anywhere. -/
theorem initialised_placed : Placed cfg.sp (initGhost cfg) (initialised cfg ctx tm).toFdpFtl where
  id_eq := fun _ => rfl
  mem_free := by
    intro l
    rw [initGhost_place_free]
    show l ∈ (List.range cfg.sp.ttLines).drop (cfg.nrRuh + 1) ↔ _
    rw [List.mem_drop_iff_getElem]
    simp only [List.getElem_range, List.length_range]
    constructor
    · rintro ⟨i, hi, rfl⟩
      omega
    · rintro ⟨hl, hge⟩
      exact ⟨l - (cfg.nrRuh + 1), by omega, by omega⟩
  free_nodup := List.nodup_range.sublist (List.drop_sublist _ _)
  free_cnt := by simp [initialised]
  mem_full := by
    intro l
    refine iff_of_false (by simp [initialised, preparedUsers, initTables]) ?_
    exact fun h => initGhost_place_of_ne cfg l (by simp) (by simp) h.2
  full_nodup := List.nodup_nil
  full_cnt := rfl
  pq_wf := ⟨Nat.le_refl 1, fun j h1 h2 => absurd h2 (Nat.not_lt.mpr h1)⟩
  pq_ordered := fun j h2 h1 => absurd h1 (Nat.not_lt.mpr (Nat.le_of_succ_le h2))
  mem_pq := by
    intro l
    refine iff_of_false ?_ (fun h => initGhost_place_of_ne cfg l (by simp) (by simp) h.2)
    rintro ⟨j, h1, h2, _⟩
    exact absurd h2 (Nat.not_lt.mpr h1)
  victim_cnt := rfl
  pos_eq := fun _ _ _ => rfl

/-- Every write pointer is at the start of the line opened for it. -/
theorem initialised_wp (hlines : cfg.nrRuh + 1 ≤ cfg.sp.ttLines) {w : Writer} (hw : w.Valid cfg.nrRuh) :
    ∃ l, (initialised cfg ctx tm).wp w = .start l ∧ l < cfg.sp.ttLines ∧ (initGhost cfg).place l = .opened w := by
  cases w with
  | host r =>
      have hr : r < cfg.nrRuh := hw
      refine ⟨r, ?_, by omega, (initGhost_place_opened cfg r _).mpr (Or.inl ⟨rfl, hr⟩)⟩
      simp [FdpFtl.wp, initialised, preparedUsers, hr]
  | gc => exact ⟨cfg.nrRuh, rfl, by omega, (initGhost_place_opened cfg _ _).mpr (Or.inr ⟨rfl, rfl⟩)⟩

theorem initialised_pointed (hg : Geometry cfg.sp) (hlines : cfg.nrRuh + 1 ≤ cfg.sp.ttLines) :
    Pointed cfg.sp cfg.nrRuh (initGhost cfg) (initialised cfg ctx tm).toFdpFtl := by
  refine ⟨fun w hw => ?_, fun w hw => ?_, fun w hw => ?_, fun w hw => ?_, fun l w _ hpl => ?_⟩
  case refine_5 =>
    rcases (initGhost_place_opened cfg l w).mp hpl with ⟨rfl, hl⟩ | ⟨rfl, rfl⟩
    · refine ⟨hl, ?_⟩
      simp [FdpFtl.wp, initialised, preparedUsers, hl, WritePointer.start]
    · exact ⟨trivial, rfl⟩
  all_goals
    obtain ⟨l, hl, hlt, hpl⟩ := initialised_wp ctx tm hlines hw
    rw [hl]
  · exact WritePointer.start_wf hg l
  · exact hlt
  · exact hpl
  · exact (wpIdx_start l).symm

theorem initialised_settled : Settled cfg.sp (initGhost cfg) (initialised cfg ctx tm).toFdpFtl where
  free_fill := fun _ _ _ => rfl
  full_fill := fun l _ h => absurd h (initGhost_place_of_ne cfg l (by simp) (by simp))
  full_ipc := fun _ _ _ => rfl
  victim_fill := fun l _ h => absurd h (initGhost_place_of_ne cfg l (by simp) (by simp))
  victim_ipc := fun l _ h => absurd h (initGhost_place_of_ne cfg l (by simp) (by simp))
  cleaning_fill := fun l _ h => absurd h (initGhost_place_of_ne cfg l (by simp) (by simp))

/-- `prepare_write_pointer` labels the line of handle `r` with `r`; the line of garbage collection keeps the
    label of a free line. -/
theorem initialised_labelled :
    Labelled cfg.sp cfg.nrRuh (initGhost cfg) (initialised cfg ctx tm).toFdpFtl where
  opened_ruh := by
    intro l w _ hpl
    show (if l < cfg.nrRuh then (l : Int) else -1) = w.label
    rcases (initGhost_place_opened cfg l w).mp hpl with ⟨rfl, hl⟩ | ⟨rfl, rfl⟩
    · rw [if_pos hl]
      rfl
    · rw [if_neg (Nat.lt_irrefl _)]
      rfl
  free_ruh := by
    intro l _ hpl
    rw [initGhost_place_free] at hpl
    exact if_neg (Nat.not_lt.mpr (Nat.le_of_succ_le hpl))
  ruh_range := by
    intro l _
    show ∃ w : Writer, w.Valid cfg.nrRuh ∧ (if l < cfg.nrRuh then (l : Int) else -1) = w.label
    split
    · rename_i hl
      exact ⟨.host l, hl, rfl⟩
    · exact ⟨.gc, trivial, rfl⟩
  of_free := fun _ _ _ => rfl
  of_programmed := fun _ _ h => absurd rfl h

/-- Nothing has been programmed. -/
theorem initialised_balanced : Balanced cfg.sp (initialised cfg ctx tm).toFdpFtl := by
  have hnone : programmedPages cfg.sp (initialised cfg ctx tm).flash = 0 :=
    Finset.sum_eq_zero fun _ _ => Finset.sum_eq_zero fun _ _ => countBelow_init (by decide) _
  unfold Balanced
  rw [hnone]
  rfl

/-- **The initial partition satisfies the invariant.** -/
theorem initialised_inv (hg : Geometry cfg.sp) (hlines : cfg.nrRuh + 1 ≤ cfg.sp.ttLines) :
    Inv cfg (initGhost cfg) (initialised cfg ctx tm).toFdpFtl where
  confined := (initGhost_quiet cfg).confined
  counted := initialised_counted ctx tm
  placed := initialised_placed ctx tm
  pointed := initialised_pointed ctx tm hg hlines
  settled := initialised_settled ctx tm
  mapped := ⟨fun _ _ h => absurd h (Option.some_ne_none _).symm,
    fun _ _ h => absurd (show PgStatus.free = .valid from h) (by decide)⟩
  labelled := initialised_labelled ctx tm
  balanced := initialised_balanced ctx tm

end initialised

/-- A partition starts sound. -/
theorem sound_initialised (ctx : FdpCtx) (tm : τ) (hg : Geometry cfg.sp)
    (hlines : cfg.nrRuh + 1 ≤ cfg.sp.ttLines) : Sound cfg (initialised cfg ctx tm).toFdpFtl :=
  ⟨initGhost cfg, initGhost_quiet cfg, initialised_inv ctx tm hg hlines⟩

end NvmeVirt
