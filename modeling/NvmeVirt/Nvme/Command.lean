import NvmeVirt.Ssd.Nand

/-!
# `Nvme.Command` — commands, requests and results (`nvme.h`, `nvmev.h`)

Commands keep the widths of `struct nvme_rw_command`; what the handlers compute from them is `Nat` with the
wrap-around of the C expression written out.
-/

namespace NvmeVirt

/-- The opcodes the modelled handlers tell apart. -/
inductive Opcode where
  | flush | write | read | zoneMgmtSend | zoneMgmtRecv | zoneAppend | other
deriving DecidableEq, Repr

/-- The members of `struct nvme_rw_command` that the modelled code reads. -/
structure NvmeCommand where
  opcode : Opcode
  commandId : UInt16
  nsid : UInt32
  prp1 : UInt64
  prp2 : UInt64
  slba : UInt64
  length : UInt16
  control : UInt16
  dsmgmt : UInt32
deriving DecidableEq, Repr

/-- `NVME_SC_SUCCESS` -/
def scSuccess : Nat := 0x0

/-- `NVME_SC_INVALID_FIELD` -/
def scInvalidField : Nat := 0x2

/-- `cmd->rw.length + 1` -/
def NvmeCommand.nrLba (cmd : NvmeCommand) : Nat := cmd.length.toNat + 1

theorem NvmeCommand.nrLba_pos (cmd : NvmeCommand) : 0 < cmd.nrLba := Nat.succ_pos _

theorem NvmeCommand.nrLba_le (cmd : NvmeCommand) : cmd.nrLba ≤ 65536 := cmd.length.toNat_lt

/-- `lba + nr_lba - 1` on `uint64_t` -/
def NvmeCommand.lastLba (cmd : NvmeCommand) : Nat := u64 (cmd.slba.toNat + cmd.nrLba - 1)

/-- `cmd->rw.control & NVME_RW_FUA` -/
def NvmeCommand.fua (cmd : NvmeCommand) : Bool := cmd.control.toNat.testBit 14

/-- `(cmd->rw.control >> NVME_RW_DTYPE_SHIFT) & NVME_RW_DTYPE_MASK` -/
def NvmeCommand.dtype (cmd : NvmeCommand) : Nat := cmd.control.toNat / 2 ^ 4 % 2 ^ 4

/-- `cmd->rw.dsmgmt >> 16` -/
def NvmeCommand.dspec (cmd : NvmeCommand) : Nat := cmd.dsmgmt.toNat / 2 ^ 16

/-- `LBA_TO_BYTE(nr_lba)` -/
def NvmeCommand.bytes (lbaBits : Nat) (cmd : NvmeCommand) : Nat := cmd.nrLba * 2 ^ lbaBits

/-- `__cmd_io_offset`; `size_t` has 64 bits. -/
def cmdIoOffset (lbaBits : Nat) (cmd : NvmeCommand) : Nat := u64 (cmd.slba.toNat * 2 ^ lbaBits)

/-- `__cmd_io_size` -/
def cmdIoSize (lbaBits : Nat) (cmd : NvmeCommand) : Nat := (cmd.length.toNat + 1) * 2 ^ lbaBits

/-- `struct nvmev_request` -/
structure NvmevRequest where
  cmd : NvmeCommand
  sqId : Nat
  nsecsStart : Nat

/-- `struct nvmev_result` -/
structure NvmevResult where
  status : Nat
  nsecsTarget : Nat
  result : Nat
deriving DecidableEq, Repr

/-- What `__nvmev_proc_io` hands to a command handler. -/
def NvmevResult.init (nsecsStart : Nat) : NvmevResult := ⟨scSuccess, nsecsStart, 0⟩

/-- The arguments of a `schedule_internal_operation` call that vary. -/
structure InternalOp where
  nsecsTarget : Nat
  buffsToRelease : Nat
deriving DecidableEq, Repr

/-- What a `proc_io_cmd` handler that returned `true` leaves behind: `*ret`, and the internal operations it
    scheduled, in order. A handler that returned `false` is modelled by `none`. -/
structure Handled where
  ret : NvmevResult
  ops : List InternalOp
deriving DecidableEq, Repr

/-- `struct nvme_completion` -/
structure NvmeCompletion where
  result0 : Nat
  result1 : Nat
  sqHead : Nat
  sqId : Nat
  commandId : UInt16
  status : Nat
deriving DecidableEq, Repr

/-- The phase tag, bit 0 of the status field. -/
def NvmeCompletion.phaseTag (c : NvmeCompletion) : Bool := c.status % 2 == 1

/-- `phase | (ret << 1)`, stored in 16 bits -/
def cqeStatus (phase : Bool) (ret : Nat) : Nat := (phase.toNat + 2 * ret) % 2 ^ 16

theorem cqeStatus_tag (phase : Bool) (ret : Nat) : (cqeStatus phase ret % 2 == 1) = phase := by
  cases phase with
  | false =>
      have h : cqeStatus false ret % 2 = 0 := by
        simp only [cqeStatus, Bool.toNat_false]
        omega
      rw [h]
      rfl
  | true =>
      have h : cqeStatus true ret % 2 = 1 := by
        simp only [cqeStatus, Bool.toNat_true]
        omega
      rw [h]
      rfl

end NvmeVirt
