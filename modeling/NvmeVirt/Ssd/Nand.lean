import Mathlib.Logic.Function.Basic
import NvmeVirt.Lib.Outcome
import NvmeVirt.Ssd.Params

/-!
# `Ssd.Nand` — physical addresses, the flash array and the write buffer (`ssd.h`, `ssd.c`)

The flash array of one partition is a map from block addresses to blocks; `get_ch`, `get_lun`, `get_pl`
and `get_blk` of the source only walk down to that block. The latency model (`ssd_advance_nand`,
`ssd_advance_pcie`, `ssd_advance_write_buffer`) is an **interface** here: it has a state of its own, reads
the clock, and hands back completion times; nothing in the mapping code looks at either. What is proved
over an arbitrary `Latency` therefore holds for every clock and every bandwidth model.
-/

namespace NvmeVirt

/-! ## Addresses -/

/-- Coordinates of a block: `ssd->ch[ch].lun[lun].pl[pl].blk[blk]`. -/
structure BlkAddr where
  ch : Nat
  lun : Nat
  pl : Nat
  blk : Nat
deriving DecidableEq, Repr

/-- `struct ppa`, field by field. `UNMAPPED_PPA` is modelled by `none` in the mapping table: `get_new_page`
    clears the reserved bits, so no address it builds is all ones. -/
structure Ppa where
  pg : Nat
  blk : Nat
  pl : Nat
  lun : Nat
  ch : Nat
deriving DecidableEq, Repr

/-- The block a page lies in. -/
def Ppa.blkAddr (p : Ppa) : BlkAddr := ⟨p.ch, p.lun, p.pl, p.blk⟩

/-- `valid_ppa` -/
def validPpa (spp : SsdParams) (p : Ppa) : Prop :=
  p.ch < spp.nchs ∧ p.lun < spp.lunsPerCh ∧ p.pl < spp.plsPerLun ∧ p.blk < spp.blksPerPl ∧
    p.pg < spp.pgsPerBlk

instance (spp : SsdParams) (p : Ppa) : Decidable (validPpa spp p) :=
  inferInstanceAs (Decidable (_ ∧ _ ∧ _ ∧ _ ∧ _))

/-! ## Blocks -/

/-- `PG_FREE`, `PG_INVALID`, `PG_VALID` -/
inductive PgStatus where
  | free | invalid | valid
deriving DecidableEq, Repr

/-- `struct nand_block`: the status of its pages, its counters and its erase count. -/
structure NandBlock where
  pg : Nat → PgStatus
  ipc : Nat
  vpc : Nat
  eraseCnt : Nat

/-- `ssd_init_nand_blk` -/
def NandBlock.init : NandBlock := ⟨fun _ => .free, 0, 0, 0⟩

/-- `blk->npgs`: `ssd_init_nand_blk` stores the number of pages of a block and nothing writes it again. -/
def nandBlkNpgs (spp : SsdParams) : Nat := spp.pgsPerBlk

/-- `pg->nsecs`: `ssd_init_nand_page` stores the number of sectors of a page and nothing writes it again. -/
def nandPgNsecs (spp : SsdParams) : Nat := spp.secsPerPg

/-- The flash array of one partition. -/
abbrev Flash := BlkAddr → NandBlock

/-- `get_pg(ssd, ppa)->status` -/
def Flash.status (f : Flash) (p : Ppa) : PgStatus := (f p.blkAddr).pg p.pg

/-! ## The latency model as seen by the FTL -/

/-- `NAND_READ`, `NAND_WRITE`, `NAND_ERASE`, `NAND_NOP` -/
inductive NandOp where
  | read | write | erase | nop
deriving DecidableEq, Repr

/-- `USER_IO`, `GC_IO` -/
inductive IoType where
  | user | gc
deriving DecidableEq, Repr

/-- `struct nand_cmd` -/
structure NandCmd where
  type : IoType
  cmd : NandOp
  xferSize : Nat
  stime : Nat
  interleavePciDma : Bool
  ppa : Ppa

/-- The latency model of one partition: state `τ`, and the calls the FTL makes. The two `advance` calls
    return the new state and a completion time. -/
structure Latency (τ : Type) where
  /-- `ssd_advance_nand` -/
  advanceNand : τ → NandCmd → τ × Nat
  /-- `ssd_advance_write_buffer(ssd, request_time, length)` -/
  advanceWriteBuffer : τ → Nat → Nat → τ × Nat
  /-- `ssd_next_idle_time(ssd)` -/
  nextIdleTime : τ → Nat
  /-- `local_clock()` -/
  localClock : τ → Nat

/-- A latency model without state or delay, to evaluate the FTL on concrete inputs. -/
def Latency.instant : Latency Unit where
  advanceNand := fun t _ => (t, 0)
  advanceWriteBuffer := fun t _ _ => (t, 0)
  nextIdleTime := fun _ => 0
  localClock := fun _ => 0

/-! ## Faults -/

/-- What stops the module: a failed `NVMEV_ASSERT` (a `BUG_ON`), or the dereference of the `NULL` that
    `get_next_free_line` returns when no line is free. -/
inductive Fault where
  | bug
  | nullLine
deriving DecidableEq, Repr

/-- `NVMEV_ASSERT(c)` -/
def nvmevAssert (c : Prop) [Decidable c] : Except Fault Unit :=
  if c then .ok () else .error .bug

theorem nvmevAssert_of {c : Prop} [Decidable c] (h : c) : nvmevAssert c = .ok () := if_pos h

/-- What follows an assertion may rely on it. -/
theorem sat_nvmevAssert_bind {α : Type} {c : Prop} [Decidable c] {E : Fault → Prop} {Q : α → Prop}
    {f : Unit → Except Fault α} (hE : E .bug) (h : c → Outcome.Sat E Q (f ())) :
    Outcome.Sat E Q (nvmevAssert c >>= f) := by
  unfold nvmevAssert
  split
  · rename_i hc
    exact h hc
  · exact hE

/-- `check_addr(a, max)`; the coordinates are unsigned. -/
def checkAddr (a max : Nat) : Except Fault Unit := nvmevAssert (a < max)

/-! ## The write buffer -/

/-- `struct buffer` -/
structure Buffer where
  size : Nat
  remaining : Nat
deriving DecidableEq, Repr

/-- `buffer_init` -/
def bufferInit (size : Nat) : Buffer := ⟨size, size⟩

/-- `buffer_allocate`: all or nothing; returns the number of bytes granted. -/
def bufferAllocate (buf : Buffer) (size : Nat) : Except Fault (Nat × Buffer) := do
  nvmevAssert (size ≤ buf.size)
  let size := if buf.remaining < size then 0 else size
  return (u32 size, { buf with remaining := buf.remaining - size })

/-- A buffer that is short grants nothing. -/
theorem bufferAllocate_of_short {buf : Buffer} {size : Nat} (hs : size ≤ buf.size) (h : buf.remaining < size) :
    bufferAllocate buf size = .ok (0, buf) := by
  simp only [bufferAllocate, nvmevAssert_of hs, Outcome.ok_bind, if_pos h]
  rfl

theorem bufferAllocate_of_le {buf : Buffer} {size : Nat} (hs : size ≤ buf.size) (hu : size < 2 ^ 32)
    (h : size ≤ buf.remaining) :
    bufferAllocate buf size = .ok (size, { buf with remaining := buf.remaining - size }) := by
  simp only [bufferAllocate, nvmevAssert_of hs, Outcome.ok_bind, if_neg (Nat.not_lt.mpr h), u32_of_lt hu]
  rfl

/-- A buffer smaller than the request is a bug. -/
theorem bufferAllocate_of_lt {buf : Buffer} {size : Nat} (hs : buf.size < size) :
    bufferAllocate buf size = .error .bug := by
  simp only [bufferAllocate, nvmevAssert, if_neg (Nat.not_le.mpr hs), Outcome.error_bind]

/-- `buffer_release` -/
def bufferRelease (buf : Buffer) (size : Nat) : Buffer :=
  { buf with remaining := u64 (buf.remaining + size) }

end NvmeVirt
