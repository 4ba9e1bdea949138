import NvmeVirt.Ftl.State

/-!
# `Ftl.Write` — write pointers, line lists and page status (`fdp_ftl.c`, first half)

Everything a page program needs: the free list, the write pointers and their traversal of a line, the
mapping tables, and the counters of pages, blocks and lines. Functions keep the source's names and order of
effects; a check that can stop the module is an `Except` fault.
-/

namespace NvmeVirt

variable {τ : Type}

/-! ## Mapping tables -/

/-- `INVALID_LPN` -/
def invalidLpn : Nat := 2 ^ 64 - 1

/-- `last_pg_in_wordline` -/
def lastPgInWordline (spp : SsdParams) (ppa : Ppa) : Bool :=
  ppa.pg % spp.pgsPerOneshotpg == spp.pgsPerOneshotpg - 1

/-- `set_maptbl_ent` -/
def setMaptblEnt (cfg : FtlConfig) (lpn : Nat) (ppa : Ppa) (s : Part τ) : Except Fault (Part τ) := do
  nvmevAssert (lpn < cfg.sp.ttPgs)
  return { s with maptbl := Function.update s.maptbl lpn (some ppa) }

/-- The sum computed by `ppa2pgidx`. -/
def pgidx (spp : SsdParams) (ppa : Ppa) : Nat :=
  ppa.ch * spp.pgsPerCh + ppa.lun * spp.pgsPerLun + ppa.pl * spp.pgsPerPl + ppa.blk * spp.pgsPerBlk +
    ppa.pg

/-- `ppa2pgidx` -/
def ppa2pgidx (cfg : FtlConfig) (ppa : Ppa) : Except Fault Nat := do
  nvmevAssert (pgidx cfg.sp ppa < cfg.sp.ttPgs)
  return pgidx cfg.sp ppa

/-- `get_rmap_ent` -/
def getRmapEnt (cfg : FtlConfig) (ppa : Ppa) (s : Part τ) : Except Fault Nat := do
  let i ← ppa2pgidx cfg ppa
  return s.rmap i

/-- `set_rmap_ent` -/
def setRmapEnt (cfg : FtlConfig) (lpn : Nat) (ppa : Ppa) (s : Part τ) : Except Fault (Part τ) := do
  let i ← ppa2pgidx cfg ppa
  return { s with rmap := Function.update s.rmap i lpn }

/-! ## The victim queue -/

/-- `victim_line_cmp_pri` -/
def victimLineCmpPri (next curr : Nat) : Bool := curr < next

/-- `victim_line_get_pri` -/
def victimLineGetPri (lines : Nat → FdpLine) (l : Nat) : Nat := (lines l).vpc

/-- `victim_line_get_pos` -/
def victimLineGetPos (lines : Nat → FdpLine) (l : Nat) : Nat := (lines l).pos

/-- `victim_line_set_pos`, for all the positions a heap operation wrote -/
def victimLineSetPos (lines : Nat → FdpLine) (pos : Nat → Nat) (l : Nat) : FdpLine :=
  { lines l with pos := pos l }

/-- `pqueue_insert(lm->victim_line_pq, line)` -/
def pqueueInsert (l : Nat) (s : Part τ) : Part τ :=
  let r := Pqueue.insert victimLineCmpPri (victimLineGetPri s.lines) s.victimLinePq
    (victimLineGetPos s.lines) l
  { s with victimLinePq := r.1, lines := victimLineSetPos s.lines r.2 }

/-- `pqueue_change_priority(lm->victim_line_pq, pri, line)`; `victim_line_set_pri` stores into `vpc` -/
def pqueueChangePriority (pri l : Nat) (s : Part τ) : Part τ :=
  let old := (s.lines l).vpc
  let lines := Function.update s.lines l { s.lines l with vpc := pri }
  let r := Pqueue.changePriority victimLineCmpPri (victimLineGetPri lines) s.victimLinePq
    (victimLineGetPos lines) old l
  { s with victimLinePq := r.1, lines := victimLineSetPos lines r.2 }

/-- `pqueue_pop(lm->victim_line_pq)` -/
def pqueuePop (s : Part τ) : Part τ :=
  let r := Pqueue.pop victimLineCmpPri (victimLineGetPri s.lines) s.victimLinePq
    (victimLineGetPos s.lines)
  { s with victimLinePq := r.1, lines := victimLineSetPos s.lines r.2 }

/-! ## Lines and write pointers -/

/-- `get_next_free_line` -/
def getNextFreeLine (s : Part τ) : Option Nat × Part τ :=
  match s.freeLineList with
  | [] => (none, s)
  | l :: rest => (some l, { s with freeLineList := rest, freeLineCnt := s.freeLineCnt - 1 })

/-- `__get_wp` -/
def getWp (cfg : FtlConfig) (io : IoType) (ruh : Nat) (s : Part τ) : Except Fault WritePointer :=
  match io with
  | .user => do
      nvmevAssert (ruh < cfg.nrRuh)
      return s.wpRuh ruh
  | .gc => .ok s.gcWp

/-- Store through the pointer `__get_wp` returned. -/
def setWp (io : IoType) (ruh : Nat) (wp : WritePointer) (s : Part τ) : Part τ :=
  match io with
  | .user => { s with wpRuh := Function.update s.wpRuh ruh wp }
  | .gc => { s with gcWp := wp }

/-- `(io_type == USER_IO) ? (int)ruh : -1` -/
def ruhLabel (io : IoType) (ruh : Nat) : Int :=
  match io with
  | .user => ruh
  | .gc => -1

/-- `line->ruh = ...` -/
def setRuh (l : Nat) (ruh : Int) (s : Part τ) : Part τ :=
  { s with lines := Function.update s.lines l { s.lines l with ruh := ruh } }

/-- `prepare_write_pointer` -/
def prepareWritePointer (cfg : FtlConfig) (io : IoType) (ruh : Nat) (s : Part τ) :
    Except Fault (Part τ) := do
  let _ ← getWp cfg io ruh s
  match getNextFreeLine s with
  | (none, _) => .error .bug
  | (some l, s) =>
      let s := setRuh l (ruhLabel io ruh) s
      return setWp io ruh
        { curline := l, ch := 0, lun := 0, pg := 0, blk := (s.lines l).id, pl := 0 } s

/-- The coordinate part of `advance_write_pointer`: the next page of the line, or `none` with the pointer
    rewound when the line is used up. Each `goto out` of the source is a `some`. -/
def nextPage (spp : SsdParams) (wp : WritePointer) : Except Fault (Option WritePointer) := do
  checkAddr wp.pg spp.pgsPerBlk
  if (wp.pg + 1) % spp.pgsPerOneshotpg ≠ 0 then
    return some { wp with pg := wp.pg + 1 }
  let pg := wp.pg + 1 - spp.pgsPerOneshotpg
  checkAddr wp.ch spp.nchs
  if wp.ch + 1 ≠ spp.nchs then
    return some { wp with pg := pg, ch := wp.ch + 1 }
  checkAddr wp.lun spp.lunsPerCh
  if wp.lun + 1 ≠ spp.lunsPerCh then
    return some { wp with pg := pg, ch := 0, lun := wp.lun + 1 }
  if pg + spp.pgsPerOneshotpg ≠ spp.pgsPerBlk then
    return some { wp with pg := pg + spp.pgsPerOneshotpg, ch := 0, lun := 0 }
  return none

/-- `advance_write_pointer`, from `wpp->pg = 0` on: a line that is used up goes to the full list or to the
    victim queue. -/
def closeLine (cfg : FtlConfig) (l : Nat) (s : Part τ) : Except Fault (Part τ) := do
  if (s.lines l).vpc = cfg.sp.pgsPerLine then
    nvmevAssert ((s.lines l).ipc = 0)
    return { s with fullLineList := s.fullLineList ++ [l], fullLineCnt := s.fullLineCnt + 1 }
  else
    nvmevAssert ((s.lines l).vpc < cfg.sp.pgsPerLine)
    nvmevAssert (0 < (s.lines l).ipc)
    let s := pqueueInsert l s
    return { s with victimLineCnt := s.victimLineCnt + 1 }

/-- `advance_write_pointer`, the rest: take a free line for the pointer. `wpp->curline` is dereferenced
    without a check, so an empty free list stops the module. -/
def openLine (cfg : FtlConfig) (io : IoType) (ruh : Nat) (wp : WritePointer) (s : Part τ) :
    Except Fault (Part τ) := do
  checkAddr wp.blk cfg.sp.blksPerPl
  match getNextFreeLine s with
  | (none, _) => .error .nullLine
  | (some l, s) =>
      let s := setRuh l (ruhLabel io ruh) s
      let wp := { curline := l, ch := 0, lun := 0, pg := 0, blk := (s.lines l).id, pl := wp.pl }
      checkAddr wp.blk cfg.sp.blksPerPl
      nvmevAssert (wp.pg = 0)
      nvmevAssert (wp.lun = 0)
      nvmevAssert (wp.ch = 0)
      nvmevAssert (wp.pl = 0)
      return setWp io ruh wp s

/-- `advance_write_pointer` -/
def advanceWritePointer (cfg : FtlConfig) (io : IoType) (ruh : Nat) (s : Part τ) :
    Except Fault (Part τ) := do
  let wp ← getWp cfg io ruh s
  match ← nextPage cfg.sp wp with
  | some wp => return setWp io ruh wp s
  | none => do
      let s ← closeLine cfg wp.curline s
      openLine cfg io ruh wp s

/-- `get_new_page`: the coordinates are cut to the bit-fields of `struct ppa`. -/
def getNewPage (cfg : FtlConfig) (io : IoType) (ruh : Nat) (s : Part τ) : Except Fault Ppa := do
  let wp ← getWp cfg io ruh s
  let ppa : Ppa :=
    { pg := wp.pg % 2 ^ pageBits
      blk := wp.blk % 2 ^ blkBits
      pl := wp.pl % 2 ^ plBits
      lun := wp.lun % 2 ^ lunBits
      ch := wp.ch % 2 ^ chBits }
  nvmevAssert (ppa.pl = 0)
  return ppa

/-! ## Page status -/

/-- The block after one of its valid pages became invalid. -/
def NandBlock.invalidate (b : NandBlock) (pg : Nat) : NandBlock :=
  { b with pg := Function.update b.pg pg .invalid, ipc := b.ipc + 1, vpc := b.vpc - 1 }

/-- The block after one of its free pages was programmed. -/
def NandBlock.program (b : NandBlock) (pg : Nat) : NandBlock :=
  { b with pg := Function.update b.pg pg .valid, vpc := b.vpc + 1 }

/-- The tail of `mark_page_invalid`: a line whose pages were all valid leaves the full list. -/
def fullToVictim (l : Nat) (s : Part τ) : Part τ :=
  let s := { s with fullLineList := s.fullLineList.erase l, fullLineCnt := s.fullLineCnt - 1 }
  let s := pqueueInsert l s
  { s with victimLineCnt := s.victimLineCnt + 1 }

/-- The line part of `mark_page_invalid`: counters, and the line's place in the victim queue. -/
def lineInvalidate (spp : SsdParams) (l : Nat) (s : Part τ) : Part τ :=
  let line := s.lines l
  let s := { s with lines := Function.update s.lines l { line with ipc := line.ipc + 1 } }
  let s :=
    if line.pos ≠ 0 then pqueueChangePriority (line.vpc - 1) l s
    else { s with lines := Function.update s.lines l { s.lines l with vpc := line.vpc - 1 } }
  if line.vpc = spp.pgsPerLine then fullToVictim l s else s

/-- `mark_page_invalid` -/
def markPageInvalid (cfg : FtlConfig) (ppa : Ppa) (s : Part τ) : Except Fault (Part τ) := do
  nvmevAssert (s.flash.status ppa = .valid)
  let blk := s.flash ppa.blkAddr
  nvmevAssert (blk.ipc < cfg.sp.pgsPerBlk)
  nvmevAssert (0 < blk.vpc ∧ blk.vpc ≤ cfg.sp.pgsPerBlk)
  let s := { s with flash := Function.update s.flash ppa.blkAddr (blk.invalidate ppa.pg) }
  let line := s.lines ppa.blk
  nvmevAssert (line.ipc < cfg.sp.pgsPerLine)
  nvmevAssert (line.vpc = cfg.sp.pgsPerLine → line.ipc = 0)
  nvmevAssert (0 < line.vpc ∧ line.vpc ≤ cfg.sp.pgsPerLine)
  return lineInvalidate cfg.sp ppa.blk s

/-- `mark_page_valid` -/
def markPageValid (cfg : FtlConfig) (ppa : Ppa) (s : Part τ) : Except Fault (Part τ) := do
  nvmevAssert (s.flash.status ppa = .free)
  let blk := s.flash ppa.blkAddr
  nvmevAssert (blk.vpc < cfg.sp.pgsPerBlk)
  let line := s.lines ppa.blk
  nvmevAssert (line.vpc < cfg.sp.pgsPerLine)
  return { s with
    flash := Function.update s.flash ppa.blkAddr (blk.program ppa.pg)
    lines := Function.update s.lines ppa.blk { line with vpc := line.vpc + 1 } }

/-- Whose write pointer an allocation uses. -/
def writerOf (io : IoType) (ruh : Nat) : Writer :=
  match io with
  | .user => .host ruh
  | .gc => .gc

/-- The page allocation that `fdp_write` and `gc_write_page` share: take the page at the write pointer,
    enter it in both tables, mark it valid and advance. Returns the page. -/
def allocPage (cfg : FtlConfig) (io : IoType) (ruh lpn : Nat) (s : Part τ) :
    Except Fault (Ppa × Part τ) := do
  let ppa ← getNewPage cfg io ruh s
  let s ← setMaptblEnt cfg lpn ppa s
  let s ← setRmapEnt cfg lpn ppa s
  let s ← markPageValid cfg ppa s
  let s := { s with hist := .program (writerOf io ruh) ppa :: s.hist }
  let s ← advanceWritePointer cfg io ruh s
  return (ppa, s)

end NvmeVirt
