import Mathlib.Logic.Function.Iterate
import NvmeVirt.Admin.Queue

/-!
# `Admin.Host` — the host's side of the admin queue

The host sets up the registers while the controller is disabled, enables it, waits for CSTS.RDY, submits
commands and polls the completion queue by the phase tag. After every enable it starts at index 0 of cleared
queues, expecting phase 1.

`Served` is what the host may expect. The device meets it if it starts where the host does. That is `Fresh`, and
nothing in `nvmev_proc_bars` establishes it on an enable: only a changed AQA or ACQ resets the phase.
-/

namespace NvmeVirt

/-! ## The two sides -/

/-- Device, shared memory and host. -/
structure AdminSys extends AdminDev where
  /-- The host's submission tail. -/
  tail : Nat
  /-- The host's completion head and the phase it expects there. -/
  head : Nat
  hostPhase : Bool
  /-- The commands submitted since the controller was enabled, and the ids completed to the host. -/
  submitted : List AdminCommand
  received : List UInt16

/-- The address of the first submission entry. -/
def BarRegs.sqBase (bar : BarRegs) : Nat := bar.asq / 4096 * nrSqePerPage

/-- The address of the first completion entry. -/
def BarRegs.cqBase (bar : BarRegs) : Nat := bar.acq / 4096 * nrCqePerPage

def BarRegs.sqSize (bar : BarRegs) : Nat := bar.aqa.asqs + 1

def BarRegs.cqSize (bar : BarRegs) : Nat := bar.aqa.acqs + 1

theorem BarRegs.sqSize_pos (bar : BarRegs) : 0 < bar.sqSize := Nat.succ_pos _

theorem BarRegs.cqSize_pos (bar : BarRegs) : 0 < bar.cqSize := Nat.succ_pos _

namespace AdminSys

variable (s : AdminSys)

/-- The host has enabled the controller, has seen it ready and has not asked it to stop. -/
def Up : Prop := s.bar.cc.en = true ∧ s.bar.cc.shn = 0 ∧ s.rdy = true

instance : Decidable s.Up := inferInstanceAs (Decidable (_ ∧ _ ∧ _))

/-- The host puts a command into the next slot and rings the doorbell. -/
def submit (cmd : AdminCommand) : AdminSys :=
  let tail := if s.tail + 1 = s.bar.sqSize then 0 else s.tail + 1
  { s with
    sqMem := Function.update s.sqMem (s.bar.sqBase + s.tail) cmd
    tail := tail
    sqDb := tail
    submitted := s.submitted ++ [cmd] }

/-- The host looks at the next completion slot, and takes the entry if its phase tag matches. -/
def poll : AdminSys :=
  let e := s.cqMem (s.bar.cqBase + s.head)
  if e.phaseTag = s.hostPhase then
    if s.head + 1 = s.bar.cqSize then
      { s with received := s.received ++ [e.commandId], head := 0, hostPhase := !s.hostPhase, cqDb := 0 }
    else { s with received := s.received ++ [e.commandId], head := s.head + 1, cqDb := s.head + 1 }
  else s

/-- The host writes CC. To enable the controller it first clears the completion queue and forgets what it
    had in flight. -/
def writeCc (cc : Cc) : AdminSys :=
  let s := { s with bar := { s.bar with cc := cc } }
  if cc.en = true ∧ cc.shn = 0 then
    { s with
      cqMem := fun a => if s.bar.cqBase ≤ a ∧ a < s.bar.cqBase + s.bar.cqSize then ⟨0, 0, 0, 0, 0, 0⟩ else s.cqMem a
      tail := 0
      head := 0
      hostPhase := true
      submitted := []
      received := [] }
  else s

end AdminSys

/-- What can happen: a register write, a dispatcher pass over the registers or the doorbells, a submission, a
    look at the completion queue. -/
inductive AdminAct where
  | setAqa (aqa : Aqa)
  | setAsq (addr : Nat)
  | setAcq (addr : Nat)
  | setCc (cc : Cc)
  | bars
  | dbs
  | submit (cmd : AdminCommand)
  | poll

/-- What a host does: it moves the queues only while the controller is down, enables it only then, and submits into
    free slots of the submission queue. -/
def AdminAct.Allowed (s : AdminSys) : AdminAct → Prop
  | .setAqa _ | .setAsq _ | .setAcq _ => s.bar.cc.en = false ∧ s.rdy = false
  | .setCc cc =>
      (cc.en = true ∧ cc.shn = 0 ∧ s.bar.cc.en = false ∧ s.rdy = false) ∨
        (cc.en = false ∧ s.bar.cc.en = true) ∨ (cc.en = true ∧ cc.shn = 1 ∧ s.Up)
  | .bars | .dbs => True
  | .submit _ => s.Up ∧ s.submitted.length + 1 < s.received.length + s.bar.sqSize
  | .poll => s.Up

/-- The action itself. -/
def AdminSys.act (fdp : Bool) (s : AdminSys) : AdminAct → Except AdminFault AdminSys
  | .setAqa aqa => .ok { s with bar := { s.bar with aqa := aqa } }
  | .setAsq addr => .ok { s with bar := { s.bar with asq := addr } }
  | .setAcq addr => .ok { s with bar := { s.bar with acq := addr } }
  | .setCc cc => .ok (s.writeCc cc)
  | .bars => do
      let d ← procBars s.toAdminDev
      return { s with toAdminDev := d }
  | .dbs => do
      let d ← procDbsAdmin fdp s.toAdminDev
      return { s with toAdminDev := d }
  | .submit cmd => .ok (s.submit cmd)
  | .poll => .ok s.poll

/-- The module just loaded; the host's memory holds anything. -/
def AdminSys.boot (events : List (Nat × Bool)) (sqMem : Nat → AdminCommand) (cqMem : Nat → NvmeCompletion) :
    AdminSys :=
  let bar : BarRegs := ⟨⟨0, 0⟩, 0, 0, ⟨false, 0, 0⟩⟩
  ⟨⟨bar, bar, false, 0, none, 0, 0, 0, 0, 0, 0, events, sqMem, cqMem⟩, 0, 0, true, [], []⟩

/-- **Runs** of the two sides whose actions all satisfy `G`. -/
inductive AdminRun (fdp : Bool) (G : AdminSys → AdminAct → Prop) : AdminSys → Prop where
  | boot (events : List (Nat × Bool)) (sqMem : Nat → AdminCommand) (cqMem : Nat → NvmeCompletion) :
      AdminRun fdp G (.boot events sqMem cqMem)
  | step {s s' : AdminSys} {a : AdminAct} (hr : AdminRun fdp G s) (ha : a.Allowed s) (hg : G s a)
      (h : s.act fdp a = .ok s') : AdminRun fdp G s'

/-- **Every command is served**: the completions the host has taken are those of its first commands, in
    order; and with one pass over the doorbells and as many polls as it takes it has them all, and sees no
    other. -/
def AdminSys.Served (fdp : Bool) (s : AdminSys) : Prop :=
  s.received <+: s.submitted.map (·.commandId) ∧
    ∃ s', s.act fdp .dbs = .ok s' ∧
      ∃ n, (AdminSys.poll^[n] s').received = s.submitted.map (·.commandId) ∧
        (AdminSys.poll^[n] s').poll = AdminSys.poll^[n] s'

/-! ## When the device keeps its part -/

/-- A command that is completed: not an abort, a queue it creates or deletes is an I/O queue, and a namespace it
    identifies exists. -/
def AdminCommand.Completed (cmd : AdminCommand) : Prop :=
  cmd.opcode ≠ .abortCmd ∧
    (cmd.opcode ∈ [.deleteSq, .createSq, .deleteCq, .createCq] → 1 ≤ cmd.qid ∧ cmd.qid ≤ nrMaxIoQueue) ∧
    (cmd.opcode = .identify → cmd.cns ∈ [0x00, 0x03, 0x05] → 1 ≤ cmd.nsid.toNat ∧ cmd.nsid.toNat ≤ nrNamespaces)

instance (cmd : AdminCommand) : Decidable cmd.Completed := inferInstanceAs (Decidable (_ ∧ _ ∧ _))

/-- The next pass over the registers is the one that enables the controller. -/
def AdminSys.Enabling (s : AdminSys) : Prop :=
  s.oldBar.aqa = s.bar.aqa ∧ s.oldBar.asq = s.bar.asq ∧ s.oldBar.acq = s.bar.acq ∧
    s.oldBar.cc ≠ s.bar.cc ∧ s.bar.cc.en = true ∧ s.bar.cc.shn = 0

instance (s : AdminSys) : Decidable s.Enabling := inferInstanceAs (Decidable (_ ∧ _ ∧ _ ∧ _ ∧ _ ∧ _))

/-- A device queue that is where the host starts, and whose page tables cover the queues. -/
def AdminQueue.Fresh (q : AdminQueue) : Prop :=
  q.cqHead = 0 ∧ q.phase = true ∧ q.sqDepth ≤ nrSqePerPage * q.nvmeSq.length ∧
    q.cqDepth ≤ nrCqePerPage * q.nvmeCq.length

instance (q : AdminQueue) : Decidable q.Fresh := inferInstanceAs (Decidable (_ ∧ _ ∧ _ ∧ _))

/-- **A fresh device**: head 0, phase 1, no doorbell left over, and no tag set in the completion queue. -/
def AdminSys.Fresh (s : AdminSys) : Prop :=
  (s.adminQ.any fun q => decide q.Fresh) = true ∧ s.sqDb = 0 ∧ s.oldSqDb = 0 ∧
    ∀ i, i < s.bar.cqSize → (s.cqMem (s.bar.cqBase + i)).phaseTag = false

instance (s : AdminSys) : Decidable s.Fresh := inferInstanceAs (Decidable (_ ∧ _ ∧ _ ∧ ∀ i, i < _ → _))

/-- **Clean actions**: only commands that are completed are submitted, while the completion queue has room for all
    that are in flight, and the controller is enabled only in a fresh state. -/
def AdminClean (s : AdminSys) : AdminAct → Prop
  | .submit cmd => cmd.Completed ∧ s.submitted.length < s.received.length + s.bar.cqSize
  | .bars => s.Enabling → s.Fresh
  | _ => True

end NvmeVirt
