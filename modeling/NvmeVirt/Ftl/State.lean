import NvmeVirt.Pqueue
import NvmeVirt.Ssd.Nand

/-!
# `Ftl.State` — the state of an FDP partition and of the endurance group (`fdp_ftl.h`, `fdp_ctx`)

`FdpFtl` is `struct fdp_ftl`, with `struct fdp_line_mgmt` and `struct fdp_write_flow_control` inlined and
the partition's flash array beside it. A line is referred to by its index in `lm->lines`, which is what the
pointers of the source designate. `Part` adds what a partition shares with its siblings while it runs: the
endurance-group statistics `fdp_ctx` and the latency model.

`hist` is a history variable: the flash operations of the partition, newest first. No modelled function
reads it; `lastWriter` interprets it.
-/

namespace NvmeVirt

/-! ## Endurance-group state -/

/-- `NVME_FDP_RUHA_*` -/
inductive RuhAttr where
  | unused | host | ctrl
deriving DecidableEq, Repr

/-- `NVME_FDP_EVT_RU_NOT_FULLY_WRITTEN` -/
def evtRuNotFullyWritten : Nat := 0x0

/-- `NVME_FDP_EVT_INVALID_PID` -/
def evtInvalidPid : Nat := 0x3

/-- `NVME_FDP_EVT_IMPLICIT_MODIFIED_RU` -/
def evtImplicitModifiedRu : Nat := 0x81

/-- `NVME_FDP_EVENT_F_PIV` -/
def eventFPiv : Nat := 1

/-- `NVME_FDP_EVENT_F_NSIDV` -/
def eventFNsidv : Nat := 2

/-- `FDP_NR_EVENTS` -/
def fdpNrEvents : Nat := 63

/-- `struct nvme_fdp_event`, less its reserved and type-specific bytes, which stay zero. -/
structure FdpEvent where
  type : Nat
  flags : Nat
  pid : Nat
  timestamp : Nat
  nsid : Nat
deriving DecidableEq, Repr

/-- The singleton `fdp_ctx`. -/
structure FdpCtx where
  hbmw : UInt64
  mbmw : UInt64
  mbe : UInt64
  runs : Nat
  ruhAttr : Nat → RuhAttr
  /-- `(type, enabled)` -/
  events : List (Nat × Bool)
  ring : Nat → FdpEvent
  ringHead : Nat
  nrEvents : Nat

/-- `fdp_init_ctx(runs)`; the event mask keeps its static initialiser. -/
def fdpInitCtx (runs : Nat) : FdpCtx where
  hbmw := 0
  mbmw := 0
  mbe := 0
  runs := runs
  ruhAttr := fun _ => .unused
  events := [(evtRuNotFullyWritten, false), (evtInvalidPid, false), (evtImplicitModifiedRu, false)]
  ring := fun _ => ⟨0, 0, 0, 0, 0⟩
  ringHead := 0
  nrEvents := 0

/-- Is an event type enabled? The first entry of that type decides, an unknown type is disabled. -/
def FdpCtx.enabled (ctx : FdpCtx) (type : Nat) : Bool :=
  match ctx.events.find? (fun e => e.1 == type) with
  | some e => e.2
  | none => false

/-- `fdp_emit_event(type, flags, pid, nsid)` at clock reading `now` -/
def fdpEmitEvent (type flags pid nsid now : Nat) (ctx : FdpCtx) : FdpCtx :=
  if ctx.enabled type then
    { ctx with
      ring := Function.update ctx.ring ctx.ringHead ⟨type, flags, pid, now, nsid⟩
      ringHead := (ctx.ringHead + 1) % fdpNrEvents
      nrEvents := if ctx.nrEvents < fdpNrEvents then ctx.nrEvents + 1 else ctx.nrEvents }
  else ctx

@[simp] theorem fdpEmitEvent_hbmw (ty fl pid ns now : Nat) (c : FdpCtx) :
    (fdpEmitEvent ty fl pid ns now c).hbmw = c.hbmw := by
  unfold fdpEmitEvent; split <;> rfl

@[simp] theorem fdpEmitEvent_mbmw (ty fl pid ns now : Nat) (c : FdpCtx) :
    (fdpEmitEvent ty fl pid ns now c).mbmw = c.mbmw := by
  unfold fdpEmitEvent; split <;> rfl

@[simp] theorem fdpEmitEvent_mbe (ty fl pid ns now : Nat) (c : FdpCtx) :
    (fdpEmitEvent ty fl pid ns now c).mbe = c.mbe := by
  unfold fdpEmitEvent; split <;> rfl

/-! ## Lines, write pointers, partition -/

/-- `struct fdp_line`; its `entry` is modelled by membership in the two lists of the partition. -/
structure FdpLine where
  id : Nat
  ipc : Nat
  vpc : Nat
  /-- the handle the line is or was last open for; `-1` for GC and free lines -/
  ruh : Int
  pos : Nat
deriving DecidableEq, Repr

/-- `struct fdp_write_pointer` -/
structure WritePointer where
  curline : Nat
  ch : Nat
  lun : Nat
  pg : Nat
  blk : Nat
  pl : Nat
deriving DecidableEq, Repr

/-- Who programs a page: a host write through a reclaim unit handle, or garbage collection. -/
inductive Writer where
  | host (ruh : Nat)
  | gc
deriving DecidableEq, Repr

/-- A flash operation of the history. -/
inductive FlashOp where
  | program (w : Writer) (p : Ppa)
  | erase (b : BlkAddr)
deriving DecidableEq, Repr

/-- `struct fdp_ftl` -/
structure FdpFtl where
  maptbl : Nat → Option Ppa
  rmap : Nat → Nat
  wpRuh : Nat → WritePointer
  gcWp : WritePointer
  -- `struct fdp_line_mgmt`
  lines : Nat → FdpLine
  freeLineList : List Nat
  victimLinePq : Pqueue Nat
  fullLineList : List Nat
  freeLineCnt : Nat
  victimLineCnt : Nat
  fullLineCnt : Nat
  -- `struct fdp_write_flow_control`
  writeCredits : Nat
  creditsToRefill : Nat
  /-- `ssd->ch[..].lun[..].pl[..].blk[..]` -/
  flash : Flash
  /-- history variable -/
  hist : List FlashOp

/-- A partition while it runs: its own state, the shared statistics and the latency model. -/
structure Part (τ : Type) extends FdpFtl where
  ctx : FdpCtx
  tm : τ

/-- The constants a partition works with: its geometry, the number of user write pointers
    (`FDP_NR_RUH`), and the two members of `struct fdpparams` the code reads. -/
structure FtlConfig where
  sp : SsdParams
  nrRuh : Nat
  gcThresLinesHigh : Nat
  enableGcDelay : Bool

/-! ## The history -/

/-- Who programmed page `p` since its block was last erased. -/
def lastWriter : List FlashOp → Ppa → Option Writer
  | [], _ => none
  | .program w q :: h, p => if q = p then some w else lastWriter h p
  | .erase b :: h, p => if p.blkAddr = b then none else lastWriter h p

/-- Number of page programs in the history. -/
def nrPrograms : List FlashOp → Nat
  | [] => 0
  | .program _ _ :: h => nrPrograms h + 1
  | .erase _ :: h => nrPrograms h

/-- Number of block erases in the history. -/
def nrErases : List FlashOp → Nat
  | [] => 0
  | .program _ _ :: h => nrErases h
  | .erase _ :: h => nrErases h + 1

end NvmeVirt
