import NvmeVirt.Ftl.Gc
import NvmeVirt.Fdp.Config
import NvmeVirt.Nvme.Command

/-!
# `Fdp.Namespace` — the namespace: command handlers over the partitions (`fdp_ftl.c`, `conv_ftl.c`)

A namespace is its partitions, the write buffer and latency model they share, and the endurance-group
state. LPNs are striped over the partitions: page `lpn` is page `lpn / nr_parts` of partition
`lpn % nr_parts`.

`conv_ftl.c` is the same code with one user write pointer, without placement directives, statistics and
events. `writeCommand` is the common text of `conv_write` and `fdp_write`; the two insertions of `fdp_write`
are its `Hooks`. On the conventional target the line labels and statistics that the shared definitions keep
are history variables.
-/

namespace NvmeVirt

variable {τ : Type}

/-! ## Configuration -/

/-- What the handlers read besides the partitions. -/
structure NsConfig where
  ftl : FtlConfig
  nrParts : Nat
  lbaBits : Nat
  /-- `ns->size` -/
  size : Nat

/-- `ns->size = (uint64_t)((size * 100) / cpp.pba_pcent)` -/
def nsSize (c : SsdConfig) (size : Nat) : Nat := u64 (size * 100) / c.pbaPcent

/-- `fdp_init_namespace`, the constants -/
def fdpNsConfig (size : Nat) : NsConfig where
  ftl := fdpFtlConfig size
  nrParts := 4
  lbaBits := 9
  size := nsSize samsungFdp size

/-- `conv_init_namespace`, the constants; one user write pointer -/
def convNsConfig (size : Nat) : NsConfig where
  ftl :=
    { sp := ssdInitParams samsung970Pro size 4
      nrRuh := 1
      gcThresLinesHigh := 2
      enableGcDelay := true }
  nrParts := 4
  lbaBits := 9
  size := nsSize samsung970Pro size

/-- Partitions, write pointers, and a page that is a whole number of blocks. -/
structure NsConfig.Blocked (c : NsConfig) : Prop where
  nrRuh_pos : 0 < c.ftl.nrRuh
  nrParts_pos : 0 < c.nrParts
  lbaBits_le : c.lbaBits ≤ 15
  secsPerPg_pos : 0 < c.ftl.sp.secsPerPg
  secsPerPg_le : c.ftl.sp.secsPerPg ≤ 4096
  pgsz_eq : c.ftl.sp.pgsz = c.ftl.sp.secsPerPg * 2 ^ c.lbaBits

/-- **A consistent namespace**: its partitions also have a geometry and a line for every write pointer. -/
structure NsConfig.Wf (c : NsConfig) : Prop extends c.Blocked where
  geometry : Geometry c.ftl.sp
  lines_enough : c.ftl.nrRuh + 1 ≤ c.ftl.sp.ttLines

theorem fdpNsConfig_blocked (size : Nat) : (fdpNsConfig size).Blocked where
  nrRuh_pos := show 0 < 8 by decide
  nrParts_pos := show 0 < 4 by decide
  lbaBits_le := show 9 ≤ 15 by decide
  secsPerPg_pos := by
    show 0 < (fdpFtlConfig size).sp.secsPerPg
    rw [fdp_secsPerPg]
    decide
  secsPerPg_le := by
    show (fdpFtlConfig size).sp.secsPerPg ≤ 4096
    rw [fdp_secsPerPg]
    decide
  pgsz_eq := by
    show (fdpFtlConfig size).sp.pgsz = (fdpFtlConfig size).sp.secsPerPg * 2 ^ 9
    rw [fdp_secsPerPg, fdp_pgsz]
    decide

/-- The FDP target is consistent for every size from 4 bytes to 512 GiB. -/
theorem fdpNsConfig_wf {size : Nat} (h1 : 4 ≤ size) (h2 : size ≤ 2 ^ 39) : (fdpNsConfig size).Wf :=
  { fdpNsConfig_blocked size with geometry := fdp_geometry h1 h2, lines_enough := fdp_lines_enough size }

theorem conv_ttLines (size : Nat) : (convNsConfig size).ftl.sp.ttLines = 8192 := by
  simp [convNsConfig, ssdInitParams, samsung970Pro, ulongOfInt, i32]

theorem conv_lines_enough (size : Nat) :
    (convNsConfig size).ftl.nrRuh + 1 ≤ (convNsConfig size).ftl.sp.ttLines := by
  rw [conv_ttLines]
  show 1 + 1 ≤ 8192
  decide

theorem conv_secsPerPg (size : Nat) : (convNsConfig size).ftl.sp.secsPerPg = 8 := rfl

theorem conv_pgsz (size : Nat) : (convNsConfig size).ftl.sp.pgsz = 4096 := rfl

theorem conv_pgsPerOneshotpg (size : Nat) : (convNsConfig size).ftl.sp.pgsPerOneshotpg = 8 := rfl

/-! ## State -/

/-- `struct nvmev_ns` with its FTL instances and what they share. -/
structure FdpNs (τ : Type) where
  ftls : Nat → FdpFtl
  wbuf : Buffer
  ctx : FdpCtx
  tm : τ

/-- Partition `i` while it runs. -/
def FdpNs.part (ns : FdpNs τ) (i : Nat) : Part τ :=
  { toFdpFtl := ns.ftls i, ctx := ns.ctx, tm := ns.tm }

/-- The namespace after partition `i` ran. -/
def FdpNs.setPart (ns : FdpNs τ) (i : Nat) (s : Part τ) : FdpNs τ :=
  { ns with ftls := Function.update ns.ftls i s.toFdpFtl, ctx := s.ctx, tm := s.tm }

/-- `fdp_init_namespace`. Every partition starts from the same empty flash; `ctx` is what `fdp_init_ctx`
    left. -/
def initNamespace (c : NsConfig) (ctx : FdpCtx) (tm : τ) : Except Fault (FdpNs τ) := do
  let s ← fdpInitFtl c.ftl ctx tm
  return {
      ftls := fun _ => s.toFdpFtl
      wbuf := bufferInit c.ftl.sp.writeBufferSize
      ctx := s.ctx
      tm := s.tm }

/-- `fdp_init_ctx((uint64_t)spp.pgs_per_line * spp.pgsz)` followed by the rest of `fdp_init_namespace` -/
def fdpInitNamespace (size : Nat) (tm : τ) : Except Fault (FdpNs τ) :=
  initNamespace (fdpNsConfig size) (fdpInitCtx (u64 ((fdpSp size).pgsPerLine * (fdpSp size).pgsz))) tm

/-! ## Write -/

/-- `start_lpn` -/
def startLpn (c : NsConfig) (cmd : NvmeCommand) : Nat := cmd.slba.toNat / c.ftl.sp.secsPerPg

/-- `end_lpn` -/
def endLpn (c : NsConfig) (cmd : NvmeCommand) : Nat := cmd.lastLba / c.ftl.sp.secsPerPg

/-- The LPNs of the loop `for (lpn = start_lpn; lpn <= end_lpn; lpn++)`. -/
def cmdLpns (c : NsConfig) (cmd : NvmeCommand) : List Nat :=
  List.range' (startLpn c cmd) (endLpn c cmd + 1 - startLpn c cmd)

/-- `(end_lpn / nr_parts) >= spp->tt_pgs` -/
def outOfRange (c : NsConfig) (cmd : NvmeCommand) : Prop := c.ftl.sp.ttPgs ≤ endLpn c cmd / c.nrParts

instance (c : NsConfig) (cmd : NvmeCommand) : Decidable (outOfRange c cmd) :=
  inferInstanceAs (Decidable (_ ≤ _))

/-- Without pages every range is refused. -/
theorem outOfRange_of_small {size : Nat} (h : size < 4) (cmd : NvmeCommand) : outOfRange (fdpNsConfig size) cmd :=
  (fdp_ttPgs_of_lt h).trans_le (Nat.zero_le _)

/-- `NVME_DIRECTIVE_PLACEMENT` -/
def directivePlacement : Nat := 2

/-- What `fdp_write` has over `conv_write`: `route` picks the handle, or rejects the command; `account`
    counts the bytes of an accepted command. -/
structure Hooks where
  route : NvmeCommand → Nat → FdpCtx → Option Nat × FdpCtx
  account : Nat → FdpCtx → FdpCtx

/-- `fdp_write`, "Placement directive routing", at clock reading `now` -/
def fdpRoute (nrRuh : Nat) (cmd : NvmeCommand) (now : Nat) (ctx : FdpCtx) : Option Nat × FdpCtx :=
  if cmd.dtype = directivePlacement then
    if nrRuh ≤ cmd.dspec then
      (none, fdpEmitEvent evtInvalidPid (eventFPiv ||| eventFNsidv) cmd.dspec cmd.nsid.toNat now ctx)
    else (some cmd.dspec, { ctx with ruhAttr := Function.update ctx.ruhAttr cmd.dspec .host })
  else if ctx.ruhAttr 0 = .unused then
    -- non-placement writes implicitly use RUH 0
    (some 0, { ctx with ruhAttr := Function.update ctx.ruhAttr 0 .ctrl })
  else (some 0, ctx)

/-- `fdp_write`, "FDP statistics" -/
def fdpAccount (bytes : Nat) (ctx : FdpCtx) : FdpCtx :=
  { ctx with hbmw := ctx.hbmw + .ofNat bytes, mbmw := ctx.mbmw + .ofNat bytes }

def fdpHooks (c : NsConfig) : Hooks := ⟨fdpRoute c.ftl.nrRuh, fdpAccount⟩

def convHooks : Hooks := ⟨fun _ _ ctx => (some 0, ctx), fun _ ctx => ctx⟩

/-- The locals of the write loop. -/
structure WriteLoop (τ : Type) where
  ns : FdpNs τ
  nsecsLatest : Nat
  ops : List InternalOp

/-- One round of the write loop: a page write on the LPN's partition, and the internal operation that
    releases the buffer of the wordline it completed. -/
def writeLoopBody (c : NsConfig) (L : Nat → Latency τ) (stime ruh : Nat) (st : WriteLoop τ) (lpn : Nat) :
    Except Fault (WriteLoop τ) := do
  let i := lpn % c.nrParts
  let (t, s) ← writePage c.ftl (L i) stime ruh (lpn / c.nrParts) (st.ns.part i)
  match t with
  | none => return { st with ns := st.ns.setPart i s }
  | some t =>
      return {
          ns := st.ns.setPart i s
          nsecsLatest := max t st.nsecsLatest
          ops := st.ops ++ [⟨t, c.ftl.sp.pgsPerOneshotpg * c.ftl.sp.pgsz⟩] }

/-- `conv_write`, and `fdp_write` with its hooks -/
def writeCommand (c : NsConfig) (k : Hooks) (L : Nat → Latency τ) (req : NvmevRequest) (ns : FdpNs τ) :
    Except Fault (Option Handled × FdpNs τ) := do
  let bytes := req.cmd.bytes c.lbaBits
  if outOfRange c req.cmd then return (none, ns)
  let (ruh, ctx) := k.route req.cmd ((L 0).localClock ns.tm) ns.ctx
  let ns := { ns with ctx := ctx }
  match ruh with
  | none => return (some ⟨⟨scInvalidField, req.nsecsStart, 0⟩, []⟩, ns)
  | some ruh => do
      let (granted, wbuf) ← bufferAllocate ns.wbuf bytes
      let ns := { ns with wbuf := wbuf }
      if granted < bytes then return (none, ns)
      let ns := { ns with ctx := k.account bytes ns.ctx }
      let (tm, nsecsXferCompleted) := (L 0).advanceWriteBuffer ns.tm req.nsecsStart bytes
      let st ← (cmdLpns c req.cmd).foldlM (writeLoopBody c L nsecsXferCompleted ruh)
        ⟨{ ns with tm := tm }, nsecsXferCompleted, []⟩
      let target :=
        if req.cmd.fua || !c.ftl.sp.writeEarlyCompletion then st.nsecsLatest else nsecsXferCompleted
      return (some ⟨⟨scSuccess, target, 0⟩, st.ops⟩, st.ns)

/-- `fdp_write` -/
def fdpWrite (c : NsConfig) (L : Nat → Latency τ) (req : NvmevRequest) (ns : FdpNs τ) :
    Except Fault (Option Handled × FdpNs τ) :=
  writeCommand c (fdpHooks c) L req ns

/-- `conv_write` -/
def convWrite (c : NsConfig) (L : Nat → Latency τ) (req : NvmevRequest) (ns : FdpNs τ) :
    Except Fault (Option Handled × FdpNs τ) :=
  writeCommand c convHooks L req ns

/-! ## Read -/

/-- `is_same_flash_page` -/
def isSameFlashPage (spp : SsdParams) (p q : Ppa) : Bool :=
  p.blkAddr = q.blkAddr ∧ p.pg / spp.pgsPerFlashpg = q.pg / spp.pgsPerFlashpg

/-- The locals of the read loops. -/
structure ReadLoop (τ : Type) where
  xferSize : Nat
  prevPpa : Option Ppa
  nsecsLatest : Nat
  tm : τ

/-- Issue the flash read that has been aggregated, if there is one. -/
def issueRead (L : Latency τ) (stime : Nat) (st : ReadLoop τ) : ReadLoop τ :=
  match st.prevPpa with
  | none => st
  | some p =>
      if 0 < st.xferSize then
        let r := L.advanceNand st.tm
          { type := .user
            cmd := .read
            xferSize := st.xferSize
            stime := stime
            interleavePciDma := true
            ppa := p }
        { st with nsecsLatest := max r.2 st.nsecsLatest, tm := r.1 }
      else st

/-- The inner loop body of the read handlers: pages of one flash page are read together. -/
def readPage (spp : SsdParams) (f : FdpFtl) (L : Latency τ) (stime localLpn : Nat) (st : ReadLoop τ) :
    ReadLoop τ :=
  match f.maptbl localLpn with
  | none => st
  | some cur =>
      if ¬ validPpa spp cur then st
      else if (st.prevPpa.any fun p => isSameFlashPage spp cur p) then
        { st with xferSize := st.xferSize + spp.pgsz }
      else { issueRead L stime st with xferSize := spp.pgsz, prevPpa := some cur }

/-- The outer loop body: the LPNs `start`, `start + nr_parts`, ... up to `end` lie on one partition. -/
def readStripe (c : NsConfig) (L : Nat → Latency τ) (ns : FdpNs τ) (stime last : Nat)
    (r : Nat × τ) (start : Nat) : Nat × τ :=
  let i := start % c.nrParts
  let lpns := (List.range ((last - start) / c.nrParts + 1)).map fun j => start + j * c.nrParts
  let st := lpns.foldl (fun st lpn => readPage c.ftl.sp (ns.ftls i) (L i) stime (lpn / c.nrParts) st)
    ⟨0, (ns.ftls i).maptbl (start / c.nrParts), r.1, r.2⟩
  let st := issueRead (L i) stime st
  (st.nsecsLatest, st.tm)

/-- `fdp_read`, `conv_read`: only the latency model moves. -/
def readCommand (c : NsConfig) (L : Nat → Latency τ) (req : NvmevRequest) (ns : FdpNs τ) :
    Option Handled × FdpNs τ :=
  if outOfRange c req.cmd then (none, ns)
  else
    let stime := req.nsecsStart +
      (if req.cmd.bytes c.lbaBits ≤ 4 * 2 ^ 10 * c.nrParts then c.ftl.sp.fw4kbRdLat
        else c.ftl.sp.fwRdLat)
    let starts := ((List.range c.nrParts).map (startLpn c req.cmd + ·)).filter (· ≤ endLpn c req.cmd)
    let r := starts.foldl (readStripe c L ns stime (endLpn c req.cmd)) (req.nsecsStart, ns.tm)
    (some ⟨⟨scSuccess, r.1, 0⟩, []⟩, { ns with tm := r.2 })

/-! ## Flush and dispatch -/

/-- `fdp_flush`, `conv_flush` -/
def flushCommand (c : NsConfig) (L : Nat → Latency τ) (ns : FdpNs τ) : NvmevResult :=
  let latest := (List.range c.nrParts).foldl (fun t i => max t ((L i).nextIdleTime ns.tm))
    ((L 0).localClock ns.tm)
  ⟨scSuccess, latest, 0⟩

/-- `conv_proc_nvme_io_cmd`, and `fdp_proc_nvme_io_cmd` with its hooks; an unknown opcode leaves `*ret` as
    the dispatcher initialised it. -/
def procNvmeIoCmd (c : NsConfig) (k : Hooks) (L : Nat → Latency τ) (req : NvmevRequest) (ns : FdpNs τ) :
    Except Fault (Option Handled × FdpNs τ) :=
  match req.cmd.opcode with
  | .write => writeCommand c k L req ns
  | .read => .ok (readCommand c L req ns)
  | .flush => .ok (some ⟨flushCommand c L ns, []⟩, ns)
  | _ => .ok (some ⟨.init req.nsecsStart, []⟩, ns)

/-- `fdp_proc_nvme_io_cmd` -/
def fdpProcNvmeIoCmd (c : NsConfig) (L : Nat → Latency τ) (req : NvmevRequest) (ns : FdpNs τ) :
    Except Fault (Option Handled × FdpNs τ) :=
  procNvmeIoCmd c (fdpHooks c) L req ns

/-- `conv_proc_nvme_io_cmd` -/
def convProcNvmeIoCmd (c : NsConfig) (L : Nat → Latency τ) (req : NvmevRequest) (ns : FdpNs τ) :
    Except Fault (Option Handled × FdpNs τ) :=
  procNvmeIoCmd c convHooks L req ns

/-! ## Set Features -/

/-- `fdp_set_feature_events`: switch event types on or off. -/
def fdpSetFeatureEvents (descs : List (Nat × Nat)) (ctx : FdpCtx) : FdpCtx :=
  descs.foldl (fun ctx d =>
    { ctx with events := ctx.events.map fun e => if e.1 = d.1 then (e.1, d.2 % 2 == 1) else e }) ctx

theorem fdpSetFeatureEvents_stats (descs : List (Nat × Nat)) (ctx : FdpCtx) :
    (fdpSetFeatureEvents descs ctx).hbmw = ctx.hbmw ∧ (fdpSetFeatureEvents descs ctx).mbmw = ctx.mbmw ∧
      (fdpSetFeatureEvents descs ctx).mbe = ctx.mbe := by
  unfold fdpSetFeatureEvents
  induction descs generalizing ctx with
  | nil => exact ⟨rfl, rfl, rfl⟩
  | cons d descs ih =>
      rw [List.foldl_cons]
      exact ih _

end NvmeVirt
