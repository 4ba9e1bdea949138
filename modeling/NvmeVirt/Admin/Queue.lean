import NvmeVirt.Nvme.Command

/-!
# `Admin.Queue` — registers, admin queue and its commands (`pci.c`, `admin.c`, `main.c`)

The controller registers that concern the admin queue, `nvmev_proc_bars`, which notices that the host changed
one of them, and `nvmev_proc_dbs` as far as the admin doorbells go. Queue memory is the host's: `sqMem` and
`cqMem` are indexed by entry address, 64 submission or 256 completion entries a page.

A command carries what its handler reads. The pages a handler fills for the host and the I/O queues it creates
are left out; what it tells the host in its completion is `adminReply`.
-/

namespace NvmeVirt

/-! ## Commands -/

/-- `enum nvme_admin_opcode`, as far as `__nvmev_proc_admin_req` tells them apart -/
inductive AdminOpcode where
  | deleteSq | createSq | getLogPage | deleteCq | createCq | identify | abortCmd | setFeatures
  | getFeatures | asyncEvent | other
deriving DecidableEq, Repr

/-- What the admin handlers read of a command. -/
structure AdminCommand where
  opcode : AdminOpcode
  commandId : UInt16
  /-- `create_sq.sqid`, `create_cq.cqid` or `delete_queue.qid` -/
  qid : Nat
  nsid : UInt32
  cns : Nat
  fid : Nat
  dword11 : Nat
  /-- The event descriptors in the page at `prp1`, unless that is NULL. -/
  descs : Option (List (Nat × Nat))
deriving DecidableEq, Repr

/-- `NVME_SC_INVALID_OPCODE` -/
def scInvalidOpcode : Nat := 0x1

/-- `NVME_SC_FEATURE_NOT_CHANGEABLE` -/
def scFeatureNotChangeable : Nat := 0x10e

/-- `NVME_FEAT_NUM_QUEUES` -/
def featNumQueues : Nat := 0x07

/-- `NVME_FEAT_FDP` -/
def featFdp : Nat := 0x1d

/-- `NVME_FEAT_FDP_EVENTS` -/
def featFdpEvents : Nat := 0x1e

/-- `NR_MAX_IO_QUEUE` -/
def nrMaxIoQueue : Nat := 72

/-- `NR_NAMESPACES` -/
def nrNamespaces : Nat := 1

/-! ## Registers and device -/

/-- `bar->aqa`; both sizes are 0-based. -/
structure Aqa where
  asqs : Nat
  acqs : Nat
deriving DecidableEq, Repr

/-- `bar->cc`; `rest` stands for the fields the device does not look at. -/
structure Cc where
  en : Bool
  shn : Nat
  rest : Nat
deriving DecidableEq, Repr

/-- The registers `nvmev_proc_bars` compares with their last value. -/
structure BarRegs where
  aqa : Aqa
  asq : Nat
  acq : Nat
  cc : Cc
deriving DecidableEq, Repr

/-- `struct nvmev_admin_queue`; `nvmeSq` and `nvmeCq` are the page frames of the two queues. -/
structure AdminQueue where
  phase : Bool
  sqDepth : Nat
  cqDepth : Nat
  cqHead : Nat
  nvmeSq : List Nat
  nvmeCq : List Nat

/-- The device as far as the admin queue goes, with the queue memory of the host. -/
structure AdminDev where
  bar : BarRegs
  oldBar : BarRegs
  /-- `bar->csts.rdy` -/
  rdy : Bool
  /-- `bar->csts.shst` -/
  shst : Nat
  adminQ : Option AdminQueue
  /-- `dbs[0]`, `old_dbs[0]`, `dbs[1]`, `old_dbs[1]` -/
  sqDb : Nat
  oldSqDb : Nat
  cqDb : Nat
  oldCqDb : Nat
  nrSq : Nat
  nrCq : Nat
  /-- `fdp_ctx.events` -/
  events : List (Nat × Bool)
  sqMem : Nat → AdminCommand
  cqMem : Nat → NvmeCompletion

/-- A NULL pointer or an index outside its table. -/
inductive AdminFault where
  | nullQueue | badPage | badQueueId | badNsid
deriving DecidableEq, Repr

/-! ## Completions -/

/-- `NR_SQE_PER_PAGE` -/
def nrSqePerPage : Nat := 64

/-- `NR_CQE_PER_PAGE` -/
def nrCqePerPage : Nat := 256

/-- The address of `sq_entry(eid)`, `cq_entry(eid)` -/
def entryAddr (perPage : Nat) (pages : List Nat) (eid : Nat) : Except AdminFault Nat :=
  match pages[eid / perPage]? with
  | none => .error .badPage
  | some pfn => .ok (pfn * perPage + eid % perPage)

/-- `nvmev_vdev->admin_q`, dereferenced -/
def AdminDev.queue (d : AdminDev) : Except AdminFault AdminQueue :=
  match d.adminQ with
  | none => .error .nullQueue
  | some q => .ok q

/-- `sq_entry(eid)` -/
def AdminDev.sqEntry (d : AdminDev) (eid : Nat) : Except AdminFault AdminCommand := do
  let q ← d.queue
  let a ← entryAddr nrSqePerPage q.nvmeSq eid
  return d.sqMem a

/-- The queue after a completion entry was made. -/
def AdminQueue.advance (q : AdminQueue) : AdminQueue :=
  if q.cqHead + 1 = q.cqDepth then { q with cqHead := 0, phase := !q.phase }
  else { q with cqHead := q.cqHead + 1 }

/-- `__make_cq_entry_results` -/
def makeCqEntryResults (eid ret result0 result1 : Nat) (d : AdminDev) : Except AdminFault AdminDev := do
  let q ← d.queue
  let cmd ← d.sqEntry eid
  let a ← entryAddr nrCqePerPage q.nvmeCq q.cqHead
  return { d with
    cqMem := Function.update d.cqMem a
      { result0 := result0
        result1 := result1
        sqHead := eid
        sqId := 0
        commandId := cmd.commandId
        status := cqeStatus q.phase ret }
    adminQ := some q.advance }

/-! ## Handlers -/

/-- `(nr_cq - 1) << 16 | (nr_sq - 1)` -/
def numQueuesResult (d : AdminDev) : Nat := u32 (u32Dec d.nrCq * 2 ^ 16) ||| u32Dec d.nrSq

/-- `fdp_set_feature_events`: the events, and how many descriptors named one. -/
def setEvents (cmd : AdminCommand) (events : List (Nat × Bool)) : List (Nat × Bool) × Nat :=
  match cmd.descs with
  | none => (events, 0)
  | some descs =>
      (descs.take (cmd.dword11 / 2 ^ 16 % 2 ^ 8)).foldl (fun r desc =>
        (r.1.map fun e => if e.1 = desc.1 then (e.1, desc.2 % 2 == 1) else e,
          r.2 + r.1.countP fun e => e.1 = desc.1)) (events, 0)

/-- `__nvmev_admin_set_features`: status, `result0` and the device. -/
def adminSetFeatures (fdp : Bool) (cmd : AdminCommand) (d : AdminDev) : Nat × Nat × AdminDev :=
  if cmd.fid = featNumQueues then
    let d := { d with
      nrSq := min (cmd.dword11 % 2 ^ 16 + 1) nrMaxIoQueue
      nrCq := min (cmd.dword11 / 2 ^ 16 % 2 ^ 16 + 1) nrMaxIoQueue }
    (scSuccess, numQueuesResult d, d)
  else if fdp ∧ cmd.fid = featFdp then
    -- FDP is always on with configuration 0
    if cmd.dword11 % 2 ≠ 1 ∨ cmd.dword11 / 2 ^ 8 % 2 ^ 8 ≠ 0 then (scFeatureNotChangeable, 0, d)
    else (scSuccess, 0, d)
  else if fdp ∧ cmd.fid = featFdpEvents then
    let r := setEvents cmd d.events
    (scSuccess, r.2, { d with events := r.1 })
  else (scSuccess, 0, d)

/-- `__nvmev_admin_get_features`: `result0` -/
def adminGetFeatures (fdp : Bool) (cmd : AdminCommand) (d : AdminDev) : Nat :=
  if cmd.fid = featNumQueues then numQueuesResult d
  else if fdp ∧ cmd.fid = featFdp then 0x1
  else if fdp ∧ cmd.fid = featFdpEvents then d.events.length
  else 0

/-- The doorbells a queue creation resets; the tables of I/O queues have `NR_MAX_IO_QUEUE + 1` entries. -/
def resetSqDb (qid : Nat) (d : AdminDev) : Except AdminFault AdminDev :=
  if nrMaxIoQueue < qid then .error .badQueueId
  else if qid = 0 then .ok { d with sqDb := 0, oldSqDb := 0 }
  else .ok d

@[inherit_doc resetSqDb] def resetCqDb (qid : Nat) (d : AdminDev) : Except AdminFault AdminDev :=
  if nrMaxIoQueue < qid then .error .badQueueId
  else if qid = 0 then .ok { d with cqDb := 0, oldCqDb := 0 }
  else .ok d

/-- `__nvmev_admin_identify`: the status. Three of the handlers read `ns[nsid - 1]`. -/
def adminIdentify (cmd : AdminCommand) : Except AdminFault Nat :=
  if cmd.cns ∈ [0x00, 0x03, 0x05] then
    if 1 ≤ cmd.nsid.toNat ∧ cmd.nsid.toNat ≤ nrNamespaces then .ok scSuccess else .error .badNsid
  else if cmd.cns ∈ [0x01, 0x02, 0x06] then .ok scSuccess
  else .ok scInvalidOpcode

/-- The handler of a command up to its completion: status and `result0`, or none for a command that is not
    completed. -/
def adminReply (fdp : Bool) (cmd : AdminCommand) (d : AdminDev) :
    Except AdminFault (Option (Nat × Nat) × AdminDev) :=
  match cmd.opcode with
  | .deleteSq | .deleteCq =>
      if nrMaxIoQueue < cmd.qid then .error .badQueueId else .ok (some (scSuccess, 0), d)
  | .createSq => do
      let d ← resetSqDb cmd.qid d
      return (some (scSuccess, 0), d)
  | .createCq => do
      let d ← resetCqDb cmd.qid d
      return (some (scSuccess, 0), d)
  | .getLogPage => .ok (some (scSuccess, 0), d)
  | .identify => do
      let status ← adminIdentify cmd
      return (some (status, 0), d)
  | .abortCmd => .ok (none, d)
  | .setFeatures =>
      let r := adminSetFeatures fdp cmd d
      .ok (some (r.1, r.2.1), r.2.2)
  | .getFeatures => .ok (some (scSuccess, adminGetFeatures fdp cmd d), d)
  | .asyncEvent => .ok (some (scSuccess, 0), d)
  | .other => .ok (some (scInvalidOpcode, 0), d)

/-- `__nvmev_proc_admin_req` -/
def procAdminReq (fdp : Bool) (eid : Nat) (d : AdminDev) : Except AdminFault AdminDev := do
  let cmd ← d.sqEntry eid
  match ← adminReply fdp cmd d with
  | (none, d) => return d
  | (some (ret, result0), d) => makeCqEntryResults eid ret result0 0 d

/-- The loop of `nvmev_proc_admin_sq`: `n` commands from slot `curr` on. -/
def procAdminSqLoop (fdp : Bool) : Nat → Nat → AdminDev → Except AdminFault AdminDev
  | 0, _, d => .ok d
  | n + 1, curr, d => do
      let d ← procAdminReq fdp curr d
      let q ← d.queue
      procAdminSqLoop fdp n (if curr + 1 = q.sqDepth then 0 else curr + 1) d

/-- `nvmev_proc_admin_sq(new_db, old_db)` -/
def procAdminSq (fdp : Bool) (newDb oldDb : Nat) (d : AdminDev) : Except AdminFault AdminDev := do
  let q ← d.queue
  let numProc := if newDb < oldDb then newDb + q.sqDepth - oldDb else newDb - oldDb
  procAdminSqLoop fdp numProc oldDb d

/-- `nvmev_proc_dbs`, "Admin queue" -/
def procDbsAdmin (fdp : Bool) (d : AdminDev) : Except AdminFault AdminDev := do
  let newDb := d.sqDb
  let d ←
    if newDb ≠ d.oldSqDb then do
      let d ← procAdminSq fdp newDb d.oldSqDb d
      pure { d with oldSqDb := newDb }
    else pure d
  return { d with oldCqDb := d.cqDb }

/-! ## Registers -/

/-- The page frames of a queue of `depth` entries at address `addr`. -/
def queuePages (addr perPage depth : Nat) : List Nat :=
  (List.range (divRoundUp depth perPage)).map (addr / 4096 + ·)

/-- `kzalloc(sizeof(struct nvmev_admin_queue))` -/
def AdminQueue.zero : AdminQueue := ⟨false, 0, 0, 0, [], []⟩

/-- `nvmev_proc_bars`: handles one changed register a call, AQA before ASQ before ACQ before CC. -/
def procBars (d : AdminDev) : Except AdminFault AdminDev :=
  if d.oldBar.aqa ≠ d.bar.aqa then
    .ok { d with
      oldBar := { d.oldBar with aqa := d.bar.aqa }
      adminQ := some { d.adminQ.getD .zero with
        cqHead := 0
        phase := true
        sqDepth := d.bar.aqa.asqs + 1
        cqDepth := d.bar.aqa.acqs + 1 }
      sqDb := 0
      oldSqDb := 0
      cqDb := 0
      oldCqDb := 0 }
  else if d.oldBar.asq ≠ d.bar.asq then
    match d.adminQ with
    | none => .ok d
    | some q =>
        .ok { d with
          oldBar := { d.oldBar with asq := d.bar.asq }
          adminQ := some { q with
            sqDepth := d.bar.aqa.asqs + 1
            nvmeSq := queuePages d.bar.asq nrSqePerPage (d.bar.aqa.asqs + 1) }
          sqDb := 0
          oldSqDb := 0 }
  else if d.oldBar.acq ≠ d.bar.acq then
    match d.adminQ with
    | none => .ok d
    | some q =>
        .ok { d with
          oldBar := { d.oldBar with acq := d.bar.acq }
          adminQ := some { q with
            cqDepth := d.bar.aqa.acqs + 1
            nvmeCq := queuePages d.bar.acq nrCqePerPage (d.bar.aqa.acqs + 1)
            cqHead := 0
            phase := true }
          cqDb := 0
          oldCqDb := 0 }
  else if d.oldBar.cc ≠ d.bar.cc then do
    let d := { d with rdy := if d.bar.cc.en then d.rdy || d.adminQ.isSome else false }
    let d ←
      if d.bar.cc.shn = 1 then do
        let q ← d.queue
        pure { d with
          shst := 2
          sqDb := 0
          oldSqDb := 0
          cqDb := 0
          oldCqDb := 0
          adminQ := some { q with cqHead := 0 } }
      else pure d
    return { d with oldBar := { d.oldBar with cc := d.bar.cc } }
  else .ok d

end NvmeVirt
