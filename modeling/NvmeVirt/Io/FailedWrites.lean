import NvmeVirt.Io.Handlers

/-!
# `Io.FailedWrites` — what a failed write does to the storage

The handler decides whether a write succeeds, but the worker does not look at the status of an entry before it copies
the data. The only step of the device that touches the storage is that copy, and it stores what the PRPs designate
whatever the status is. So a failed write leaves the storage alone exactly if it would have stored what is there anyway
(`failed_write_storage_iff`).
-/

namespace NvmeVirt

open Outcome

variable {ω σ : Type} {c : DevConfig} {H : IoHandler ω σ}

/-- An entry for a write or zone append whose handler set an error status. -/
structure FailedWrite (d : Dev ω σ) (k e : Nat) : Prop where
  request : ((d.workers k).workQueue e).isInternal = false
  write : (d.origin k e).opcode.dir = .toStorage
  failed : ((d.workers k).workQueue e).status ≠ scSuccess

/-- Worker `k` is at entry `e`. -/
def Serves (d : Dev ω σ) (k e : Nat) : Prop :=
  e ≠ noEntry ∧ (d.pcs k = .visit e ∨ (∃ currNsecs, d.pcs k = .finish e currNsecs) ∨ d.pcs k = .advance e)

/-- The bytes a command designates are those at its place in the storage. -/
def StoredAlready (c : DevConfig) (m : IoMem) (cmd : NvmeCommand) : Prop :=
  gather (cmd.prps c.pfnValid) (cmdIoSize lbaBits cmd) m.host =
    some (bytesAt m.storage (cmdIoOffset lbaBits cmd) (cmdIoSize lbaBits cmd))

/-- **A harmless visit**: if the entry is still to be copied, and its slot holds a write, the data is stored already. -/
def HarmlessVisit (c : DevConfig) (d : Dev ω σ) (k e : Nat) : Prop :=
  let w := (d.workers k).workQueue e
  let cmd := d.slots w.sqid w.sqEntry
  d.pcs k = .visit e → w.isCompleted = false → w.isCopied = false → cmd.opcode.dir = .toStorage →
    StoredAlready c d.mem cmd

/-- **What a transfer leaves in the storage.** -/
theorem doPerformIo_storage_iff {pfnValid : Nat → Bool} {cmd : NvmeCommand} {m m' : IoMem}
    (h : doPerformIo pfnValid cmd m = some m') :
    m'.storage = m.storage ↔ (cmd.opcode.dir = .toStorage →
      gather (cmd.prps pfnValid) (cmdIoSize lbaBits cmd) m.host =
        some (bytesAt m.storage (cmdIoOffset lbaBits cmd) (cmdIoSize lbaBits cmd))) := by
  unfold doPerformIo at h
  cases hdir : cmd.opcode.dir with
  | toStorage =>
      rw [hdir] at h
      rcases transfer_toStorage (cmd.prps pfnValid) (cmdIoOffset lbaBits cmd) (cmdIoSize lbaBits cmd) m with
        ⟨_, hnone⟩ | ⟨bytes, m₁, hgather, hsome, hlen, hwrote⟩
      · rw [hnone] at h
        cases h
      · rw [hsome] at h
        cases h
        have hbytes := hwrote.bytes_eq
        rw [hlen] at hbytes
        constructor
        · intro hsame _
          rw [hgather, ← hbytes, hsame]
        · intro hstored
          rw [hgather] at hstored
          have heq := hbytes.trans (Option.some.inj (hstored rfl))
          funext x
          by_cases hx : cmdIoOffset lbaBits cmd ≤ x ∧ x < cmdIoOffset lbaBits cmd + bytes.length
          · have hi := bytesAt_eq_iff.mp heq (x - cmdIoOffset lbaBits cmd) (by omega)
            rwa [Nat.add_sub_cancel' hx.1] at hi
          · exact hwrote.frame x hx
  | toHost =>
      rw [hdir, transfer_toHost] at h
      obtain ⟨host, _, rfl⟩ := Option.map_eq_some_iff.mp h
      exact iff_of_true rfl nofun
  | none =>
      rw [hdir] at h
      rw [transfer_none h]
      exact iff_of_true rfl nofun

variable {d d' : Dev ω σ} {k e now : Nat}

/-- The storage after a step of a worker at entry `e`. -/
theorem Worked.storage_iff (h : Worked c H d k now d') (hserves : Serves d k e)
    (hreq : ((d.workers k).workQueue e).isInternal = false) :
    d'.mem.storage = d.mem.storage ↔ HarmlessVisit c d k e := by
  obtain ⟨hne, hat⟩ := hserves
  -- a worker that stands elsewhere does not copy
  have hpcs : ∀ {pc : WorkerPc}, d.pcs k = pc → (∀ x, pc ≠ .visit x) → HarmlessVisit c d k e :=
    fun hpc hno hvisit => absurd (hpc.symm.trans hvisit) (hno e)
  have hentry : ∀ {x : Nat}, d.pcs k = .visit x → x = e := by
    intro x hx
    rcases hat with h | ⟨t, h⟩ | h
    · exact WorkerPc.visit.inj (hx.symm.trans h)
    · cases hx.symm.trans h
    · cases hx.symm.trans h
  cases h with
  | start hpc => exact iff_of_true rfl (hpcs hpc nofun)
  | wrap hpc => exact absurd (hentry hpc).symm hne
  | skip hpc _ hdone =>
      obtain rfl := hentry hpc
      exact iff_of_true rfl fun _ hnot => absurd (hnot.symm.trans hdone) Bool.false_ne_true
  | look hpc _ _ hcopied =>
      obtain rfl := hentry hpc
      exact iff_of_true rfl fun _ _ hnot => absurd (hnot.symm.trans hcopied) Bool.false_ne_true
  | mark hpc _ _ _ hint =>
      obtain rfl := hentry hpc
      cases hint.symm.trans hreq
  | copy hpc _ hdone hcopied _ hio =>
      obtain rfl := hentry hpc
      refine (doPerformIo_storage_iff hio).trans ⟨fun hstored _ _ _ hdir => hstored hdir, fun h hdir => ?_⟩
      exact h hpc hdone hcopied hdir
  | settle hpc _ =>
      refine iff_of_true ?_ (hpcs hpc nofun)
      unfold Dev.settle
      split <;> rfl
  | early hpc _ => exact iff_of_true rfl (hpcs hpc nofun)
  | next hpc => exact iff_of_true rfl (hpcs hpc nofun)

/-- **When a failed write changes no data.** In every state of every run: no step of the host or the dispatcher, the
    dispatch of the failed command among them, touches the storage; and a step of a worker at the entry of a failed
    write leaves it alone exactly if the visit is harmless. (A handler cannot write the storage itself, as the zone
    reset of the source does with a `memset`; those of writes and appends do not.) -/
theorem failed_write_storage_iff {G : Dev ω σ → DevAct → Prop} {slots : Nat → Nat → NvmeCommand} {mem : IoMem} {ns : σ}
    (hrun : DevRun c H G (Dev.boot slots mem ns) d) :
    (∀ a d', d.act c H a = .ok d' → (∀ k now, a ≠ .work k now) → d'.mem.storage = d.mem.storage) ∧
    ∀ k e now d', Serves d k e → FailedWrite d k e → d.act c H (.work k now) = .ok d' →
      (d'.mem.storage = d.mem.storage ↔ HarmlessVisit c d k e) := by
  have hok := hrun.workersOk (workersOk_boot slots mem ns)
  refine ⟨fun a d' hact hno => ?_, fun k e now d' hserves hfailed hact => ?_⟩
  · cases act_cases hok hact with
    | procIo hcase => cases hcase <;> rfl
    | work _ _ => exact absurd rfl (hno _ _)
    | _ => rfl
  · cases act_cases hok hact with
    | work _ hcase => exact hcase.storage_iff hserves hfailed.request

/-! ## A write through a handle that does not exist -/

/-- One block for the beginning of the device, through placement handle 8; the handles are 0 to 7. -/
def invalidHandleWrite : NvmeCommand := { (writeReq 0 0 (some 8)).cmd with prp1 := 4096 }

/-- The command in slot 0 of queue 1, and the first byte of its buffer. -/
def invalidHandleDev (byte : UInt8) : Dev InternalOp (FdpNs Unit) :=
  Dev.boot (fun _ _ => invalidHandleWrite) ⟨fun a => if a = 4096 then byte else 0, fun _ => 0⟩ fdpFresh

/-- The host submits it, the dispatcher takes it, and the worker comes to its entry and goes on. -/
def invalidHandleRun (byte : UInt8) :
    Except DevFault (Dev InternalOp (FdpNs Unit) × Dev InternalOp (FdpNs Unit)) := do
  let d ← (invalidHandleDev byte).acts oneWorker fdpDevice (fun _ _ => True)
    [.ringDoorbell 1 1, .procDbs 1, .procIo 0, .work 0 0]
  return (d, ← d.act oneWorker fdpDevice (.work 0 0))

instance (c : DevConfig) (m : IoMem) (cmd : NvmeCommand) : Decidable (StoredAlready c m cmd) :=
  inferInstanceAs (Decidable (_ = _))

/-- What there is to see at the entry, before and after the visit. -/
theorem exists_invalid_handle_run (byte first : UInt8) (stored : Bool)
    (h : (invalidHandleRun byte).toOption.map (fun r =>
        ((r.1.pcs 0, ((r.1.workers 0).workQueue 0).isInternal, (r.1.origin 0 0).opcode,
          ((r.1.workers 0).workQueue 0).status),
        (r.1.mem.storage 0, r.2.mem.storage 0, decide (StoredAlready oneWorker r.1.mem
          (r.1.slots ((r.1.workers 0).workQueue 0).sqid ((r.1.workers 0).workQueue 0).sqEntry))))) =
      some ((.visit 0, false, .write, scInvalidField), (0, first, stored))) :
    ∃ d d', DevRun oneWorker fdpDevice (fun _ _ => True) (invalidHandleDev byte) d ∧
      d.act oneWorker fdpDevice (.work 0 0) = .ok d' ∧ Serves d 0 0 ∧ FailedWrite d 0 0 ∧
      d.mem.storage 0 = 0 ∧ d'.mem.storage 0 = first ∧ (stored = true → HarmlessVisit oneWorker d 0 0) := by
  obtain ⟨⟨d, d'⟩, hok, hsee⟩ := exists_ok_of_observed h
  obtain ⟨d₁, hrun, hstep⟩ := bind_eq_ok hok
  obtain ⟨d₂, hact, hret⟩ := bind_eq_ok hstep
  cases hret
  simp only [Prod.mk.injEq] at hsee
  obtain ⟨⟨hpc, hint, hop, hstatus⟩, hbefore, hafter, hstored⟩ := hsee
  refine ⟨d, d', devRun_of_acts hrun, hact, ⟨by decide, Or.inl hpc⟩, ⟨hint, by rw [hop]; rfl, by rw [hstatus]; decide⟩,
    hbefore, hafter, fun htrue _ _ _ _ => ?_⟩
  exact of_decide_eq_true (hstored.trans htrue)

/-- A buffer of zeros for a block of zeros: the rejected write is harmless. -/
theorem failed_write_storage_same :
    ∃ d d', DevRun oneWorker fdpDevice (fun _ _ => True) (invalidHandleDev 0) d ∧ FailedWrite d 0 0 ∧
      d.act oneWorker fdpDevice (.work 0 0) = .ok d' ∧ d'.mem.storage = d.mem.storage := by
  obtain ⟨d, d', hrun, hact, hserves, hfailed, _, _, hstored⟩ :=
    exists_invalid_handle_run 0 0 true (by decide +kernel)
  exact ⟨d, d', hrun, hfailed, hact,
    ((failed_write_storage_iff hrun).2 0 0 0 d' hserves hfailed hact).mpr (hstored rfl)⟩

/-- **The data of a rejected write is stored.** The command is completed with Invalid Field, and the worker that comes
    to its entry writes to the first block. -/
theorem failed_write_stores :
    ∃ d d', DevRun oneWorker fdpDevice (fun _ _ => True) (invalidHandleDev 1) d ∧ Serves d 0 0 ∧ FailedWrite d 0 0 ∧
      d.act oneWorker fdpDevice (.work 0 0) = .ok d' ∧ d'.mem.storage ≠ d.mem.storage := by
  obtain ⟨d, d', hrun, hact, hserves, hfailed, hbefore, hafter, _⟩ :=
    exists_invalid_handle_run 1 1 false (by decide +kernel)
  refine ⟨d, d', hrun, hserves, hfailed, hact, fun hsame => ?_⟩
  rw [hsame, hbefore] at hafter
  exact absurd hafter (by decide)

end NvmeVirt
