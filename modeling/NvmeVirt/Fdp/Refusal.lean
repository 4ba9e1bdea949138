import NvmeVirt.Fdp.Run

/-!
# `Fdp.Refusal` — commands the handler refuses

When `fdp_proc_nvme_io_cmd` returns `false` the dispatcher stops at the submission entry and dispatches it
again on its next pass. That is meant for a write that finds the write buffer full: the workers release space,
and the command is accepted later. `refusal_transient_iff` says for which commands and states a refusal is of
this kind and leaves no trace. Two things stand against it: the range check refuses with the same return
value, and the usage attribute of the handle is recorded before the buffer is asked.
-/

namespace NvmeVirt

variable {τ : Type} {c : NsConfig} {L : Nat → Latency τ} {ns ns' : FdpNs τ} {req : NvmevRequest}

/-- Mapping tables, lines, credits, statistics, usage attributes, event ring and write buffer are as before;
    the latency model is not looked at. -/
structure SameDevice (ns ns' : FdpNs τ) : Prop where
  ftls_eq : ns'.ftls = ns.ftls
  ctx_eq : ns'.ctx = ns.ctx
  wbuf_eq : ns'.wbuf = ns.wbuf

/-- **A refusal is transient and leaves no trace**: the handler returns `false` only for a write that needs
    more than the buffer has left, and then has changed nothing. -/
def RefusalTransient (c : NsConfig) (L : Nat → Latency τ) (req : NvmevRequest) (ns : FdpNs τ) : Prop :=
  ∀ ns', fdpProcNvmeIoCmd c L req ns = .ok (none, ns') →
    (req.cmd.opcode = .write ∧ ns.wbuf.remaining < req.cmd.bytes c.lbaBits) ∧ SameDevice ns ns'

/-- The handle of a write is already marked the way the write marks it. -/
def UsageRecorded (nrRuh : Nat) (cmd : NvmeCommand) (ctx : FdpCtx) : Prop :=
  if cmd.dtype = directivePlacement then cmd.dspec < nrRuh → ctx.ruhAttr cmd.dspec = .host
  else ctx.ruhAttr 0 ≠ .unused

/-- Routing a command whose usage is recorded changes nothing, unless it rejects the command. -/
theorem fdpRoute_ctx_eq_iff {nrRuh now ruh : Nat} {cmd : NvmeCommand} {ctx ctx' : FdpCtx}
    (h : fdpRoute nrRuh cmd now ctx = (some ruh, ctx')) : ctx' = ctx ↔ UsageRecorded nrRuh cmd ctx := by
  unfold fdpRoute at h
  unfold UsageRecorded
  split at h
  · rename_i hplace
    rw [if_pos hplace]
    split at h
    · cases h
    · rename_i hlt
      obtain ⟨-, rfl⟩ := Prod.mk.inj h
      constructor
      · intro heq _
        rw [← heq]
        exact Function.update_self ..
      · intro hhost
        have hsame : Function.update ctx.ruhAttr cmd.dspec .host = ctx.ruhAttr := by
          rw [← hhost (Nat.lt_of_not_le hlt), Function.update_eq_self]
        rw [hsame]
  · rename_i hplace
    rw [if_neg hplace]
    split at h
    · rename_i hunused
      obtain ⟨-, rfl⟩ := Prod.mk.inj h
      refine iff_of_false (fun heq => ?_) (not_not_intro hunused)
      have hctrl : Function.update ctx.ruhAttr 0 RuhAttr.ctrl 0 = ctx.ruhAttr 0 :=
        congrFun (congrArg FdpCtx.ruhAttr heq) 0
      rw [Function.update_self, hunused] at hctrl
      cases hctrl
    · rename_i hused
      obtain ⟨-, rfl⟩ := Prod.mk.inj h
      exact iff_of_true rfl hused

theorem usageRecorded_of_rejected {nrRuh now : Nat} {cmd : NvmeCommand} {ctx ctx' : FdpCtx}
    (h : fdpRoute nrRuh cmd now ctx = (none, ctx')) : UsageRecorded nrRuh cmd ctx := by
  unfold fdpRoute at h
  unfold UsageRecorded
  split at h
  · rename_i hplace
    rw [if_pos hplace]
    split at h
    · rename_i hge
      exact fun hlt => absurd hge (Nat.not_le.mpr hlt)
    · cases h
  · split at h <;> cases h

/-- **The commands whose refusal is harmless** in a state: reads that pass the range check; writes that pass
    it or need more than the buffer has left, and that have their usage recorded if they are to be refused for
    the buffer. -/
def RefusalHarmless (c : NsConfig) (req : NvmevRequest) (ns : FdpNs τ) : Prop :=
  match req.cmd.opcode with
  | .read => ¬ outOfRange c req.cmd
  | .write =>
      (outOfRange c req.cmd → ns.wbuf.remaining < req.cmd.bytes c.lbaBits) ∧
        (¬ outOfRange c req.cmd → ns.wbuf.remaining < req.cmd.bytes c.lbaBits →
          req.cmd.bytes c.lbaBits ≤ ns.wbuf.size → UsageRecorded c.ftl.nrRuh req.cmd ns.ctx)
  | _ => True

/-- A write in range that finds the buffer short is refused, after its handle was marked. -/
theorem writeCommand_of_short {k : Hooks} {ruh : Nat} {ctx : FdpCtx} (hin : ¬ outOfRange c req.cmd)
    (hroute : k.route req.cmd ((L 0).localClock ns.tm) ns.ctx = (some ruh, ctx))
    (hshort : ns.wbuf.remaining < req.cmd.bytes c.lbaBits) (hsize : req.cmd.bytes c.lbaBits ≤ ns.wbuf.size) :
    writeCommand c k L req ns = .ok (none, { ns with ctx := ctx }) := by
  have hpos : 0 < req.cmd.bytes c.lbaBits := Nat.lt_of_le_of_lt (Nat.zero_le _) hshort
  rw [writeCommand]
  simp only [if_neg hin, hroute, bufferAllocate_of_short hsize hshort, Outcome.ok_bind, if_pos hpos]
  rfl

/-- `buffer_allocate` stops the module when a write is larger than the whole buffer. -/
theorem writeCommand_of_oversized {k : Hooks} {ruh : Nat} {ctx : FdpCtx} (hin : ¬ outOfRange c req.cmd)
    (hroute : k.route req.cmd ((L 0).localClock ns.tm) ns.ctx = (some ruh, ctx))
    (hsize : ns.wbuf.size < req.cmd.bytes c.lbaBits) : writeCommand c k L req ns = .error .bug := by
  rw [writeCommand]
  simp only [if_neg hin, hroute, bufferAllocate_of_lt hsize, Outcome.error_bind]

/-- **When a refusal is transient and free of side effects.** -/
theorem refusal_transient_iff (hlba : c.lbaBits ≤ 15) (L : Nat → Latency τ) (req : NvmevRequest)
    (ns : FdpNs τ) : RefusalTransient c L req ns ↔ RefusalHarmless c req ns := by
  unfold RefusalTransient RefusalHarmless fdpProcNvmeIoCmd procNvmeIoCmd
  cases hop : req.cmd.opcode with
  | read =>
      dsimp only
      constructor
      · intro h hoor
        have href := h ns (by rw [readCommand, if_pos hoor])
        cases href.1.1
      · intro hin ns' h
        rw [readCommand, if_neg hin] at h
        cases h
  | write =>
      dsimp only
      constructor
      · intro h
        refine ⟨fun hoor => ?_, fun hin hshort hsize => ?_⟩
        · exact (h ns (by rw [writeCommand, if_pos hoor]; rfl)).1.2
        · -- the refused write left the state as it was only if marking the handle changed nothing
          cases hroute : (fdpHooks c).route req.cmd ((L 0).localClock ns.tm) ns.ctx with
          | mk ruh ctx =>
              cases ruh with
              | none => exact usageRecorded_of_rejected hroute
              | some ruh =>
                  obtain ⟨-, hsame⟩ := h _ (writeCommand_of_short hin hroute hshort hsize)
                  exact (fdpRoute_ctx_eq_iff hroute).mp hsame.ctx_eq
      · rintro ⟨hoor, hrec⟩ ns' h
        cases writeCommand_cases hlba h with
        | outOfRange hout => exact ⟨⟨rfl, hoor hout⟩, rfl, rfl, rfl⟩
        | refused hin hroute hshort =>
            have hsize : req.cmd.bytes c.lbaBits ≤ ns.wbuf.size := by
              by_contra hlt
              rw [writeCommand_of_oversized hin hroute (Nat.not_le.mp hlt)] at h
              cases h
            have hctx := (fdpRoute_ctx_eq_iff hroute).mpr (hrec hin hshort hsize)
            exact ⟨⟨rfl, hshort⟩, rfl, hctx, rfl⟩
  | _ =>
      refine iff_of_true (fun ns' h => ?_) trivial
      cases h

/-- Without a directive, once handle 0 is in use: a write that finds the buffer full is refused without a
    trace. -/
theorem refusal_transient_full_buffer :
    ∃ log, ∃ ns : FdpNs Unit,
      NsRun (fdpNsConfig 67108864) (fdpHooks (fdpNsConfig 67108864)) (fun _ => Latency.instant) log ns ∧
      ns.wbuf.remaining = 0 ∧
      RefusalTransient (fdpNsConfig 67108864) (fun _ => Latency.instant) (writeReq 8 7 none) ns := by
  obtain ⟨log, ns, hrun, hattr⟩ := exists_nsRun (fdpNsConfig 67108864) (fdpHooks (fdpNsConfig 67108864))
    (fun _ => Latency.instant) 0 () [writeReq 0 7 none] (fun r => r.2.ctx.ruhAttr 0)
    (a := .ctrl) (by decide +kernel)
  refine ⟨log, _, .buffer hrun ⟨268435456, 0⟩, rfl, (refusal_transient_iff (by decide) _ _ _).mpr ?_⟩
  refine ⟨fun _ => show 0 < NvmeCommand.bytes 9 (writeReq 8 7 none).cmd by decide, fun _ _ _ => ?_⟩
  show (if (writeReq 8 7 none).cmd.dtype = directivePlacement then _ else ns.ctx.ruhAttr 0 ≠ .unused)
  rw [if_neg (by decide), hattr]
  exact nofun

/-- A read of the block after the last one of a fresh 64 MiB device is refused, and so it will be on every
    later pass: the buffer has nothing to do with it. -/
theorem read_refused_for_ever :
    ∃ ns : FdpNs Unit,
      NsRun (fdpNsConfig 67108864) (fdpHooks (fdpNsConfig 67108864)) (fun _ => Latency.instant) [] ns ∧
      ¬ RefusalTransient (fdpNsConfig 67108864) (fun _ => Latency.instant)
        ⟨{ (writeReq 131072 0 none).cmd with opcode := .read }, 1, 0⟩ ns := by
  have hinit := initNamespace_eq (c := fdpNsConfig 67108864) (fdpInitCtx 0) () (fdp_lines_enough _)
  refine ⟨_, .init hinit, fun h => ?_⟩
  have hoor : outOfRange (fdpNsConfig 67108864) { (writeReq 131072 0 none).cmd with opcode := .read } := by
    decide +kernel
  have href := h _ (by
    show Except.ok (readCommand _ _ _ _) = _
    rw [readCommand, if_pos hoor])
  cases href.1.1

end NvmeVirt
