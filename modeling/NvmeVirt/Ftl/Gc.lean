import NvmeVirt.Ftl.Write

/-!
# `Ftl.Gc` — garbage collection, write credits and the page write (`fdp_ftl.c`, second half)

`do_gc` is three nested loops over the flash pages, channels and LUNs of the victim; they are one fold over
`gcSchedule`, the list of iterations in the order the source makes them. `writePage` is the body of the loop
of `fdp_write`, `fdpInitFtl` the initialisation of a partition.
-/

namespace NvmeVirt

variable {τ : Type} (cfg : FtlConfig) (L : Latency τ)

/-- Hand a command to the latency model, keeping its state. -/
def issueNand (cmd : NandCmd) (s : Part τ) : Part τ := { s with tm := (L.advanceNand s.tm cmd).1 }

/-! ## Moving a page -/

/-- `gc_write_page`: the old page stays valid until its block is erased. -/
def gcWritePage (old : Ppa) (s : Part τ) : Except Fault (Part τ) := do
  let lpn ← getRmapEnt cfg old s
  nvmevAssert (lpn < cfg.sp.ttPgs)
  let (new, s) ← allocPage cfg .gc 0 lpn s
  let s := { s with ctx := { s.ctx with mbmw := s.ctx.mbmw + .ofNat cfg.sp.pgsz } }
  if cfg.enableGcDelay then
    let last := lastPgInWordline cfg.sp new
    return issueNand L
      { type := .gc
        cmd := if last then .write else .nop
        xferSize := if last then cfg.sp.pgsz * cfg.sp.pgsPerOneshotpg else 0
        stime := 0
        interleavePciDma := false
        ppa := new } s
  else return s

/-- `ppa_copy` after `i` increments of its 16-bit page field. -/
def Ppa.nthPg (p : Ppa) (i : Nat) : Ppa := { p with pg := (p.pg + i) % 2 ^ pageBits }

/-- First loop of `clean_one_flashpg`: no page of a victim is free; count the valid ones. -/
def countValid (ppa : Ppa) (s : Part τ) : Except Fault Nat :=
  (List.range cfg.sp.pgsPerFlashpg).foldlM (fun cnt i => do
    nvmevAssert (s.flash.status (ppa.nthPg i) ≠ .free)
    return if s.flash.status (ppa.nthPg i) = .valid then cnt + 1 else cnt) 0

/-- Second loop of `clean_one_flashpg`: move the valid pages. -/
def moveValid (ppa : Ppa) (s : Part τ) : Except Fault (Part τ) :=
  (List.range cfg.sp.pgsPerFlashpg).foldlM (fun s i =>
    if s.flash.status (ppa.nthPg i) = .valid then gcWritePage cfg L (ppa.nthPg i) s else .ok s) s

/-- `clean_one_flashpg` -/
def cleanOneFlashpg (ppa : Ppa) (s : Part τ) : Except Fault (Part τ) := do
  let cnt ← countValid cfg ppa s
  if cnt = 0 then return s
  let s :=
    if cfg.enableGcDelay then
      issueNand L
        { type := .gc
          cmd := .read
          xferSize := cfg.sp.pgsz * cnt
          stime := 0
          interleavePciDma := false
          ppa := ppa } s
    else s
  moveValid cfg L ppa s

/-! ## Erasing -/

/-- The block after an erase. -/
def NandBlock.erase (b : NandBlock) (pgsPerBlk : Nat) : NandBlock :=
  { pg := fun i => if i < pgsPerBlk then .free else b.pg i
    ipc := 0
    vpc := 0
    eraseCnt := b.eraseCnt + 1 }

/-- The assertions of `mark_block_free`; the first is made for every page of the block. -/
def markBlockFreeChecks : Except Fault Unit := do
  nvmevAssert (nandPgNsecs cfg.sp = cfg.sp.secsPerPg)
  nvmevAssert (nandBlkNpgs cfg.sp = cfg.sp.pgsPerBlk)

theorem markBlockFreeChecks_eq : markBlockFreeChecks cfg = .ok () := by
  have hpg : nandPgNsecs cfg.sp = cfg.sp.secsPerPg := rfl
  have hblk : nandBlkNpgs cfg.sp = cfg.sp.pgsPerBlk := rfl
  unfold markBlockFreeChecks
  rw [nvmevAssert_of hpg]
  exact nvmevAssert_of hblk

/-- `mark_block_free`, after its assertions -/
def markBlockFree (ppa : Ppa) (s : Part τ) : Part τ :=
  { s with
    flash := Function.update s.flash ppa.blkAddr ((s.flash ppa.blkAddr).erase cfg.sp.pgsPerBlk)
    ctx := { s.ctx with mbe := s.ctx.mbe + .ofNat (cfg.sp.pgsPerBlk * cfg.sp.pgsz) }
    hist := .erase ppa.blkAddr :: s.hist }

/-- `mark_line_free` -/
def markLineFree (l : Nat) (s : Part τ) : Part τ :=
  { s with
    lines := Function.update s.lines l { s.lines l with ipc := 0, vpc := 0, ruh := -1 }
    freeLineList := s.freeLineList ++ [l]
    freeLineCnt := s.freeLineCnt + 1 }

/-! ## `do_gc` -/

/-- `select_victim_line` -/
def selectVictimLine (force : Bool) (s : Part τ) : Option (Nat × Part τ) :=
  match s.victimLinePq.peek with
  | none => none
  | some v =>
      if !force && (s.lines v).vpc > cfg.sp.pgsPerLine / 8 then none
      else
        let s := pqueuePop s
        some (v, { s with
          lines := Function.update s.lines v { s.lines v with pos := 0 }
          victimLineCnt := s.victimLineCnt - 1 })

/-- The iterations of the loops of `do_gc`: flash page, channel, LUN. -/
def gcSchedule (spp : SsdParams) : List (Nat × Nat × Nat) :=
  (List.range spp.flashpgsPerBlk).flatMap fun f =>
    (List.range spp.nchs).flatMap fun ch => (List.range spp.lunsPerCh).map fun lun => (f, ch, lun)

/-- `ppa` in one iteration. -/
def gcPpa (spp : SsdParams) (v : Nat) (it : Nat × Nat × Nat) : Ppa :=
  { pg := it.1 * spp.pgsPerFlashpg % 2 ^ pageBits
    blk := v % 2 ^ blkBits
    pl := 0
    lun := it.2.2 % 2 ^ lunBits
    ch := it.2.1 % 2 ^ chBits }

/-- The body of the loops: clean one flash page, and erase the block after its last one. -/
def gcIter (v : Nat) (s : Part τ) (it : Nat × Nat × Nat) : Except Fault (Part τ) := do
  let ppa := gcPpa cfg.sp v it
  let s ← cleanOneFlashpg cfg L ppa s
  if it.1 = cfg.sp.flashpgsPerBlk - 1 then
    markBlockFreeChecks cfg
    let s := markBlockFree cfg ppa s
    if cfg.enableGcDelay then
      return issueNand L
        { type := .gc, cmd := .erase, xferSize := 0, stime := 0, interleavePciDma := false, ppa := ppa } s
    else return s
  else return s

/-- The event `do_gc` emits for its victim: a line written through a handle is about to be modified. -/
def gcEmit (v : Nat) (s : Part τ) : Part τ :=
  if 0 ≤ (s.lines v).ruh then
    { s with
      ctx := fdpEmitEvent evtImplicitModifiedRu eventFPiv (s.lines v).ruh.toNat 0 (L.localClock s.tm)
        s.ctx }
  else s

/-- `do_gc`, after the victim is selected -/
def reclaim (v : Nat) (s : Part τ) : Except Fault (Part τ) := do
  let s := gcEmit L v s
  let id := (s.lines v).id
  let s := { s with creditsToRefill := (s.lines v).ipc }
  let s ← (gcSchedule cfg.sp).foldlM (gcIter cfg L id) s
  return markLineFree (id % 2 ^ blkBits) s

/-- `do_gc`: `none` is the `-1` of the source, which its caller ignores. -/
def doGc (force : Bool) (s : Part τ) : Except Fault (Option (Part τ)) :=
  match selectVictimLine cfg force s with
  | none => .ok none
  | some (v, s) => do
      let s ← reclaim cfg L v s
      return some s

/-- `should_gc_high` -/
def shouldGcHigh (s : FdpFtl) : Prop := s.freeLineCnt ≤ cfg.gcThresLinesHigh

instance (s : FdpFtl) : Decidable (shouldGcHigh cfg s) := inferInstanceAs (Decidable (_ ≤ _))

/-- `foreground_gc` -/
def foregroundGc (s : Part τ) : Except Fault (Part τ) := do
  if shouldGcHigh cfg s.toFdpFtl then
    match ← doGc cfg L true s with
    | none => return s
    | some s => return s
  else return s

/-! ## Write credits -/

/-- `consume_write_credit` -/
def consumeWriteCredit (s : Part τ) : Part τ :=
  { s with writeCredits := u32Dec s.writeCredits }

/-- `check_and_refill_write_credit`; the credits are unsigned, so `<= 0` is `= 0`. -/
def checkAndRefillWriteCredit (s : Part τ) : Except Fault (Part τ) := do
  if s.writeCredits = 0 then
    let s ← foregroundGc cfg L s
    return { s with writeCredits := u32 (s.writeCredits + s.creditsToRefill) }
  else return s

/-! ## One page of a host write -/

/-- `fdp_write`, invalidating the page that held the LPN. -/
def invalidateOld (lpn : Nat) (s : Part τ) : Except Fault (Part τ) :=
  match s.maptbl lpn with
  | none => .ok s
  | some ppa => do
      let s ← markPageInvalid cfg ppa s
      setRmapEnt cfg invalidLpn ppa s

/-- `fdp_write`, the loop body up to the credits: the LPN gets a new page of its handle. The page returned
    is the one programmed. -/
def programPage (ruh lpn : Nat) (s : Part τ) : Except Fault (Ppa × Part τ) := do
  let s ← invalidateOld cfg lpn s
  let (ppa, s) ← allocPage cfg .user ruh lpn s
  return (ppa, s)

/-- The NAND command of a completed wordline, at start time `stime`; returns its completion time. -/
def flushWordline (stime : Nat) (ppa : Ppa) (s : Part τ) : Option Nat × Part τ :=
  if lastPgInWordline cfg.sp ppa then
    let r := L.advanceNand s.tm
      { type := .user
        cmd := .write
        xferSize := cfg.sp.pgsz * cfg.sp.pgsPerOneshotpg
        stime := stime
        interleavePciDma := false
        ppa := ppa }
    (some r.2, { s with tm := r.1 })
  else (none, s)

/-- The body of the loop of `fdp_write` up to the check of the credits: program the page, flush the
    wordline it completes, and spend a credit. Returns the completion time of the wordline, if one was
    flushed. -/
def putPage (stime ruh lpn : Nat) (s : Part τ) : Except Fault (Option Nat × Part τ) := do
  let (ppa, s) ← programPage cfg ruh lpn s
  let (t, s) := flushWordline cfg L stime ppa s
  return (t, consumeWriteCredit s)

/-- The body of the loop of `fdp_write` -/
def writePage (stime ruh lpn : Nat) (s : Part τ) : Except Fault (Option Nat × Part τ) := do
  let (t, s) ← putPage cfg L stime ruh lpn s
  let s ← checkAndRefillWriteCredit cfg L s
  return (t, s)

/-! ## Initialisation -/

/-- `init_maptbl`, `init_rmap`, `init_lines`, on a partition whose flash is new -/
def initTables (ctx : FdpCtx) (tm : τ) : Part τ where
  maptbl := fun _ => none
  rmap := fun _ => invalidLpn
  wpRuh := fun _ => ⟨0, 0, 0, 0, 0, 0⟩
  gcWp := ⟨0, 0, 0, 0, 0, 0⟩
  lines := fun l => { id := l, ipc := 0, vpc := 0, ruh := -1, pos := 0 }
  freeLineList := List.range cfg.sp.ttLines
  victimLinePq := Pqueue.init fun _ => 0
  fullLineList := []
  freeLineCnt := cfg.sp.ttLines
  victimLineCnt := 0
  fullLineCnt := 0
  writeCredits := 0
  creditsToRefill := 0
  flash := fun _ => NandBlock.init
  hist := []
  ctx := ctx
  tm := tm

/-- `init_write_flow_control` -/
def initWriteFlowControl (s : Part τ) : Part τ :=
  { s with writeCredits := u32 cfg.sp.pgsPerLine, creditsToRefill := u32 cfg.sp.pgsPerLine }

/-- `fdp_init_ftl` -/
def fdpInitFtl (ctx : FdpCtx) (tm : τ) : Except Fault (Part τ) := do
  let s ← (List.range cfg.nrRuh).foldlM (fun s ruh => prepareWritePointer cfg .user ruh s)
    (initTables cfg ctx tm)
  let s ← prepareWritePointer cfg .gc 0 s
  return initWriteFlowControl cfg s

end NvmeVirt
