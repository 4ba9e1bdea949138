import NvmeVirt.Fdp.Run

/-!
# `Fdp.Range` — the range check of the handlers against the range the workers copy

The handlers check the last page of a command against the physical pages of a partition; the I/O workers
copy bytes at `slba << LBA_BITS` of the namespace, whose advertised size is what over-provisioning leaves.
`io_inside_namespace_iff` says for which ranges the two agree: those that end within the advertised size,
and those the check refuses.
-/

namespace NvmeVirt

open Outcome

/-- The targets whose handlers are `procNvmeIoCmd`. -/
inductive Target where
  | fdp | conv

/-- The namespace a target makes of a device size. -/
def Target.nsConfig : Target → Nat → NsConfig
  | .fdp => fdpNsConfig
  | .conv => convNsConfig

/-- The hooks of a target's write handler. -/
def Target.hooks : Target → Nat → Hooks
  | .fdp, size => fdpHooks (fdpNsConfig size)
  | .conv, _ => convHooks

/-- The bytes `__do_perform_io` moves for a command lie inside the namespace, and neither
    `lba + nr_lba - 1` nor `slba << LBA_BITS` wraps around. -/
def IoInside (c : NsConfig) (cmd : NvmeCommand) : Prop :=
  cmdIoOffset c.lbaBits cmd + cmdIoSize c.lbaBits cmd ≤ c.size ∧
    cmd.slba.toNat + cmd.nrLba - 1 < 2 ^ 64 ∧ cmd.slba.toNat * 2 ^ c.lbaBits < 2 ^ 64

instance (c : NsConfig) (cmd : NvmeCommand) : Decidable (IoInside c cmd) :=
  inferInstanceAs (Decidable (_ ∧ _ ∧ _))

theorem ioInside_iff {c : NsConfig} (hsize : c.size < 2 ^ 64) (cmd : NvmeCommand) :
    IoInside c cmd ↔ cmd.slba.toNat + cmd.nrLba ≤ c.size / 2 ^ c.lbaBits := by
  have hpow := Nat.two_pow_pos c.lbaBits
  have hone : cmd.slba.toNat ≤ cmd.slba.toNat * 2 ^ c.lbaBits := Nat.le_mul_of_pos_right _ hpow
  have hn : cmd.nrLba ≤ cmd.nrLba * 2 ^ c.lbaBits := Nat.le_mul_of_pos_right _ hpow
  rw [Nat.le_div_iff_mul_le hpow, Nat.add_mul]
  constructor
  · rintro ⟨hin, _, hwrap⟩
    rw [cmdIoOffset, u64_of_lt hwrap] at hin
    exact hin
  · intro hin
    have hnr := cmd.nrLba_pos
    have hwrap : cmd.slba.toNat * 2 ^ c.lbaBits < 2 ^ 64 := by omega
    refine ⟨?_, by omega, hwrap⟩
    rw [cmdIoOffset, u64_of_lt hwrap]
    exact hin

theorem Target.size_lt (t : Target) (size : Nat) : (t.nsConfig size).size < 2 ^ 64 := by
  have hlt : u64 (size * 100) < 2 ^ 64 := Nat.mod_lt _ (Nat.two_pow_pos 64)
  cases t with
  | fdp => exact Nat.lt_of_le_of_lt (Nat.div_le_self _ _) hlt
  | conv => exact Nat.lt_of_le_of_lt (Nat.div_le_self _ _) hlt

theorem Target.lbaBits_eq (t : Target) (size : Nat) : (t.nsConfig size).lbaBits = 9 := by
  cases t <;> rfl

/-- Every accepted read or write of `length + 1` blocks at `slba`, in any run, stays inside the
    namespace. -/
def StaysInside (t : Target) (size : Nat) (slba : UInt64) (length : UInt16) : Prop :=
  ∀ (τ : Type) (L : Nat → Latency τ) (log : List NvmeCommand) (ns ns' : FdpNs τ) (req : NvmevRequest)
    (r : Handled), NsRun (t.nsConfig size) (t.hooks size) L log ns →
    req.cmd.opcode = .read ∨ req.cmd.opcode = .write → req.cmd.slba = slba → req.cmd.length = length →
    procNvmeIoCmd (t.nsConfig size) (t.hooks size) L req ns = .ok (some r, ns') →
    r.ret.status = scSuccess → IoInside (t.nsConfig size) req.cmd

/-- A read or write that was accepted passed the range check. -/
theorem accepted_in_range {τ : Type} {c : NsConfig} {k : Hooks} {L : Nat → Latency τ} {ns ns' : FdpNs τ}
    {req : NvmevRequest} {r : Handled} (hlba : c.lbaBits ≤ 15)
    (hop : req.cmd.opcode = .read ∨ req.cmd.opcode = .write)
    (h : procNvmeIoCmd c k L req ns = .ok (some r, ns')) : ¬ outOfRange c req.cmd := by
  rcases hop with hop | hop
  · intro hoor
    simp only [procNvmeIoCmd, hop, readCommand, if_pos hoor] at h
    cases (Prod.mk.inj (Except.ok.inj h)).1
  · simp only [procNvmeIoCmd, hop] at h
    cases writeCommand_cases hlba h with
    | rejected hin _ => exact hin
    | written hin _ _ _ _ => exact hin

theorem readCommand_accepted {τ : Type} {c : NsConfig} (L : Nat → Latency τ) (ns : FdpNs τ)
    {req : NvmevRequest} (h : ¬ outOfRange c req.cmd) :
    ∃ r ns', readCommand c L req ns = (some r, ns') ∧ r.ret.status = scSuccess := by
  rw [readCommand, if_neg h]
  exact ⟨_, _, rfl, rfl⟩

/-- A namespace exists for every size: initialisation needs one line per write pointer only. -/
theorem Target.exists_nsRun (t : Target) (size : Nat) :
    ∃ ns : FdpNs Unit, NsRun (t.nsConfig size) (t.hooks size) (fun _ => Latency.instant) [] ns := by
  have hlines : (t.nsConfig size).ftl.nrRuh + 1 ≤ (t.nsConfig size).ftl.sp.ttLines := by
    cases t with
    | fdp => exact fdp_lines_enough size
    | conv => exact conv_lines_enough size
  have hinit : ∃ ns : FdpNs Unit, initNamespace (t.nsConfig size) (fdpInitCtx 0) () = .ok ns := by
    rw [initNamespace, fdpInitFtl_eq _ _ hlines]
    exact ⟨_, rfl⟩
  obtain ⟨ns, hns⟩ := hinit
  exact ⟨ns, .init hns⟩

/-- **I/O stays inside the namespace** exactly for ranges that end within the advertised size, and for
    ranges whose last page, as the check computes it, is beyond the physical pages. -/
theorem io_inside_namespace_iff (t : Target) (size : Nat) (slba : UInt64) (length : UInt16) :
    StaysInside t size slba length ↔
      slba.toNat + (length.toNat + 1) ≤ (t.nsConfig size).size / 512 ∨
      (t.nsConfig size).ftl.sp.ttPgs ≤
        (slba.toNat + length.toNat) % 2 ^ 64 / (t.nsConfig size).ftl.sp.secsPerPg /
          (t.nsConfig size).nrParts := by
  have hlba := t.lbaBits_eq size
  have hinside : ∀ cmd : NvmeCommand, cmd.slba = slba → cmd.length = length →
      (IoInside (t.nsConfig size) cmd ↔
        slba.toNat + (length.toNat + 1) ≤ (t.nsConfig size).size / 512) := by
    rintro cmd rfl rfl
    rw [ioInside_iff (t.size_lt size) cmd, hlba]
    rfl
  have hrange : ∀ cmd : NvmeCommand, cmd.slba = slba → cmd.length = length →
      (outOfRange (t.nsConfig size) cmd ↔ (t.nsConfig size).ftl.sp.ttPgs ≤
        (slba.toNat + length.toNat) % 2 ^ 64 / (t.nsConfig size).ftl.sp.secsPerPg /
          (t.nsConfig size).nrParts) := by
    rintro cmd rfl rfl
    rfl
  constructor
  · intro hstays
    by_contra hnot
    rw [not_or] at hnot
    -- a read of the range on a fresh device is accepted
    obtain ⟨ns, hrun⟩ := t.exists_nsRun size
    let req : NvmevRequest :=
      { cmd := { (writeReq slba length none).cmd with opcode := .read }, sqId := 1, nsecsStart := 0 }
    have hin : ¬ outOfRange (t.nsConfig size) req.cmd := fun h => hnot.2 ((hrange req.cmd rfl rfl).mp h)
    obtain ⟨r, ns', hread, hstatus⟩ := readCommand_accepted (fun _ => Latency.instant) ns hin
    exact hnot.1 ((hinside req.cmd rfl rfl).mp
      (hstays Unit _ [] ns ns' req r hrun (Or.inl rfl) rfl rfl (congrArg Except.ok hread) hstatus))
  · rintro hcond τ L log ns ns' req r _ hop hslba hlen hproc _
    have hin := accepted_in_range (by rw [hlba]; decide) hop hproc
    rcases hcond with hend | hoor
    · exact (hinside req.cmd hslba hlen).mpr hend
    · exact absurd ((hrange req.cmd hslba hlen).mpr hoor) hin

/-- A 4 KiB write at block 122504 of a 64 MiB FDP device is completed with success; its bytes lie beyond the
    advertised 62718564 bytes. -/
theorem write_beyond_advertised_size :
    ∃ log, ∃ ns : FdpNs Unit,
      NsRun (fdpNsConfig 67108864) (fdpHooks (fdpNsConfig 67108864)) (fun _ => Latency.instant) log ns ∧
      log = [(writeReq 122504 7 none).cmd] ∧
      (fdpNsConfig 67108864).size ≤ cmdIoOffset 9 (writeReq 122504 7 none).cmd ∧
      ¬ IoInside (fdpNsConfig 67108864) (writeReq 122504 7 none).cmd := by
  obtain ⟨log, ns, hrun, hlog⟩ := exists_nsRun (fdpNsConfig 67108864) (fdpHooks (fdpNsConfig 67108864))
    (fun _ => Latency.instant) 0 () [writeReq 122504 7 none] (fun r => r.1)
    (a := [(writeReq 122504 7 none).cmd]) (by decide +kernel)
  exact ⟨log, ns, hrun, hlog, by decide +kernel, by decide +kernel⟩

end NvmeVirt
