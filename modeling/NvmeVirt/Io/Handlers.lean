import NvmeVirt.Io.Device
import NvmeVirt.Fdp.Run

/-!
# `Io.Handlers` — the namespaces behind the dispatcher

The `proc_io_cmd` handlers of the FDP and conventional namespaces as handlers of the device. They differ in what the
worker does when an internal operation is due: the release of the buffer is compiled in for conventional namespaces (and
zoned ones, whose runs are those of `Zns.Run`), so in the FDP build a due operation does nothing.
-/

namespace NvmeVirt

open Outcome

variable {τ : Type}

def Handled.reply (h : Handled) : Reply InternalOp := ⟨h.ret, h.ops⟩

/-- `fdp_proc_nvme_io_cmd`, `conv_proc_nvme_io_cmd`: the command stays as it is. -/
def blockProcIoCmd (c : NsConfig) (k : Hooks) (L : Nat → Latency τ) (req : NvmevRequest) (ns : FdpNs τ) :
    Except Fault (Option (Reply InternalOp) × NvmeCommand × FdpNs τ) := do
  let (h, ns) ← procNvmeIoCmd c k L req ns
  return (h.map Handled.reply, req.cmd, ns)

theorem blockProcIoCmd_cmd {c : NsConfig} {k : Hooks} {L : Nat → Latency τ} {req : NvmevRequest} {ns ns' : FdpNs τ}
    {reply : Option (Reply InternalOp)} {cmd : NvmeCommand}
    (h : blockProcIoCmd c k L req ns = .ok (reply, cmd, ns')) : cmd = req.cmd := by
  obtain ⟨r, _, hr⟩ := bind_eq_ok h
  cases hr
  rfl

/-- The FDP namespace. -/
def fdpHandler (c : NsConfig) (L : Nat → Latency τ) : IoHandler InternalOp (FdpNs τ) where
  target := InternalOp.nsecsTarget
  procIoCmd := blockProcIoCmd c (fdpHooks c) L
  -- `buffer_release` is not compiled in
  release _ ns := ns
  same_id h := by rw [blockProcIoCmd_cmd h]

/-- The conventional namespace. -/
def convHandler (c : NsConfig) (L : Nat → Latency τ) : IoHandler InternalOp (FdpNs τ) where
  target := InternalOp.nsecsTarget
  procIoCmd := blockProcIoCmd c convHooks L
  release op ns := { ns with wbuf := bufferRelease ns.wbuf op.buffsToRelease }
  same_id h := by rw [blockProcIoCmd_cmd h]

/-! ## A device -/

/-- One worker, and queues of the size the controller advertises (`mqes`). -/
def oneWorker : DevConfig where
  nrIoWorkers := 1
  queueSize := fun _ => 1024
  cqid := id
  cqSize := fun _ => 1024
  pfnValid := fun _ => true
  workers_pos := Nat.one_pos
  size_pos := fun _ => by decide

/-- The FDP device of 64 MiB. -/
def fdpDevice : IoHandler InternalOp (FdpNs Unit) := fdpHandler (fdpNsConfig 67108864) fun _ => Latency.instant

/-- Its namespace as `fdp_init_namespace` leaves it. -/
def fdpFresh : FdpNs Unit :=
  freshNs (fdpNsConfig 67108864) (fdpInitCtx (u64 ((fdpSp 67108864).pgsPerLine * (fdpSp 67108864).pgsz))) ()

theorem fdpInitNamespace_fresh : fdpInitNamespace 67108864 () = .ok fdpFresh :=
  initNamespace_eq _ () (fdp_lines_enough _)

end NvmeVirt
