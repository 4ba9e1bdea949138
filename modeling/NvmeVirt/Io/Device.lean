import NvmeVirt.Io.Duties
import NvmeVirt.Nvme.DataPath

/-!
# `Io.Device` — host, dispatcher and workers together (`main.c`, `io.c`)

The host writes commands into submission slots and rings doorbells. The dispatcher (`nvmev_proc_dbs`,
`nvmev_proc_io_sq`) takes the commands between the old and the new doorbell one by one, has the namespace's
`proc_io_cmd` decide them, and enqueues what is left to do. The workers (`nvmev_io_worker`) walk their lists, copy the
data of each entry once and post its completion when it is due. A step of the model is one action of the host, one
command of the dispatcher, or one of the four stretches of a worker's loop; nothing is assumed of their order, nor of
the clocks.

* `procIo_cases`, `work_cases` — what a step of the dispatcher and of a worker can do; everything that holds in every
  run is derived from them.
* `DevRun.workersOk` — the lists of the workers stay intact, wherever the workers stand.
-/

namespace NvmeVirt

open Chain Outcome

/-! ## The model -/

/-- What a handler that returned `true` leaves behind: `*ret` and the internal operations it scheduled, in order. -/
structure Reply (ω : Type) where
  ret : NvmevResult
  ops : List ω

/-- What a namespace type contributes: `proc_io_cmd`, which may rewrite the command in its slot (zone append) but
    keeps its identifier, and what the worker does when an internal operation is due. A handler does not reach the
    storage: the one that does in the source, the zone reset with its `memset`, is not a handler of this kind. -/
structure IoHandler (ω σ : Type) where
  /-- the `nsecs_target` of an operation -/
  target : ω → Nat
  procIoCmd : NvmevRequest → σ → Except Fault (Option (Reply ω) × NvmeCommand × σ)
  release : ω → σ → σ
  same_id : ∀ {req s reply cmd s'}, procIoCmd req s = .ok (reply, cmd, s') → cmd.commandId = req.cmd.commandId

/-- What does not change while I/O runs: the workers, the sizes of the queues, and `sq->cqid`. -/
structure DevConfig where
  nrIoWorkers : Nat
  queueSize : Nat → Nat
  cqid : Nat → Nat
  cqSize : Nat → Nat
  pfnValid : Nat → Bool
  workers_pos : 0 < nrIoWorkers
  size_pos : ∀ q, 0 < queueSize q

/-- `__get_io_worker` -/
def DevConfig.getIoWorker (c : DevConfig) (sqid : Nat) : Nat := (sqid - 1) % c.nrIoWorkers

/-- The locals of `nvmev_proc_io_sq`. -/
structure Scan where
  sqid : Nat
  newDb : Nat
  oldDb : Nat
  seq : Nat
  sqEntry : Nat

/-- `num_proc` -/
def DevConfig.numProc (c : DevConfig) (s : Scan) : Nat :=
  if s.oldDb ≤ s.newDb then s.newDb - s.oldDb else s.newDb + c.queueSize s.sqid - s.oldDb

/-- `++seq`, and `++sq_entry` around the end of the queue -/
def DevConfig.advance (c : DevConfig) (s : Scan) : Scan :=
  { s with
    seq := s.seq + 1
    sqEntry := if s.sqEntry + 1 = c.queueSize s.sqid then 0 else s.sqEntry + 1 }

/-- A command the dispatcher stepped over, and what its handler made of it. -/
structure Taken (ω : Type) where
  sqid : Nat
  sqEntry : Nat
  cmd : NvmeCommand
  reply : Reply ω

/-- An entry written to a completion queue. -/
structure Posted where
  cqid : Nat
  cqEntry : Nat
  cqe : NvmeCompletion

/-- A transfer: the command found in the slot, and the one the dispatcher accepted. -/
structure DataCopy where
  found : NvmeCommand
  accepted : NvmeCommand

/-- **The state.** The last five members are history: no step reads them. Logs have the newest entry first. -/
structure Dev (ω σ : Type) where
  slots : Nat → Nat → NvmeCommand
  dbs : Nat → Nat
  mem : IoMem
  oldDbs : Nat → Nat
  scan : Option Scan
  ns : σ
  workers : Nat → IoWorker ω
  pcs : Nat → WorkerPc
  cqHead : Nat → Nat
  phase : Nat → Bool
  taken : List (Taken ω)
  posted : List Posted
  released : List ω
  copies : List DataCopy
  /-- the command an entry of a worker was filled for -/
  origin : Nat → Nat → NvmeCommand

/-- The device as it is when its queues have been created. -/
def Dev.boot {ω σ : Type} (slots : Nat → Nat → NvmeCommand) (mem : IoMem) (ns : σ) : Dev ω σ where
  slots := slots
  dbs := fun _ => 0
  mem := mem
  oldDbs := fun _ => 0
  scan := none
  ns := ns
  workers := fun _ => ioWorkerInit
  pcs := fun _ => .top
  cqHead := fun _ => 0
  phase := fun _ => true
  taken := []
  posted := []
  released := []
  copies := []
  origin := fun _ _ => ⟨.other, 0, 0, 0, 0, 0, 0, 0, 0⟩

/-- Why a step does not happen: the handler or a `BUG_ON` stops the module, the PRPs of a command lead to a `NULL`
    access, or it is not the turn of the step. -/
inductive DevFault where
  | handler (f : Fault)
  | list (f : IoFault)
  | nullPrp
  | disabled
deriving DecidableEq, Repr

inductive DevAct where
  /-- the host writes a command -/
  | writeSlot (q slot : Nat) (cmd : NvmeCommand)
  /-- the host writes a doorbell -/
  | ringDoorbell (q newDb : Nat)
  /-- the host changes its memory -/
  | writeMem (host : HostMem)
  /-- `nvmev_proc_dbs` finds a new doorbell -/
  | procDbs (q : Nat)
  /-- `nvmev_proc_io_sq` takes a command, at the given time -/
  | procIo (now : Nat)
  /-- `nvmev_proc_io_sq` has taken the last command -/
  | scanDone
  /-- a worker goes on, at the given time -/
  | work (k now : Nat)

variable {ω σ : Type} (c : DevConfig) (H : IoHandler ω σ)

namespace Dev

/-! ### The dispatcher -/

/-- What `nvmev_proc_io_sq` returns goes to `old_dbs`. -/
def endScan (d : Dev ω σ) (s : Scan) : Dev ω σ :=
  { d with
    scan := none
    oldDbs := Function.update d.oldDbs s.sqid ((s.oldDb + s.seq) % c.queueSize s.sqid) }

/-- `__reclaim_completed_reqs` -/
def reclaimCompletedReqs (workers : Nat → IoWorker ω) : Except IoFault (Nat → IoWorker ω) :=
  (List.range c.nrIoWorkers).foldlM (fun ws turn => do return Function.update ws turn (← (ws turn).reclaim)) workers

/-- The second half of `__nvmev_proc_io`, for a command that was not refused. `req` is the command as the host wrote
    it, `cmd` as the handler left it. -/
def accept (d : Dev ω σ) (s : Scan) (req cmd : NvmeCommand) (h : Reply ω) : Except IoFault (Dev ω σ) := do
  let k := c.getIoWorker s.sqid
  let w ← (d.workers k).scheduleOps H.target s.sqid h.ops
  let w' ← w.enqueueIoReq s.sqid (c.cqid s.sqid) s.sqEntry cmd.commandId h.ret
  let workers ← reclaimCompletedReqs c (Function.update d.workers k w')
  return { d with
    scan := some (c.advance s)
    workers := workers
    taken := ⟨s.sqid, s.sqEntry, req, h⟩ :: d.taken
    origin := Function.update d.origin k (Function.update (d.origin k) w.freeSeq cmd) }

/-- The handler may have changed the command in its slot and the state of the namespace. -/
def afterHandler (d : Dev ω σ) (s : Scan) (cmd : NvmeCommand) (ns : σ) : Dev ω σ :=
  { d with
    slots := Function.update d.slots s.sqid (Function.update (d.slots s.sqid) s.sqEntry cmd)
    ns := ns }

/-- One round of the loop of `nvmev_proc_io_sq`, with `__nvmev_proc_io`. A refused command ends the loop. -/
def procIo (d : Dev ω σ) (now : Nat) : Except DevFault (Dev ω σ) :=
  match d.scan with
  | none => .error .disabled
  | some s =>
      if s.seq < c.numProc s then
        let cmd := d.slots s.sqid s.sqEntry
        match H.procIoCmd ⟨cmd, s.sqid, now⟩ d.ns with
        | .error f => .error (.handler f)
        | .ok (none, cmd', ns) => .ok ((d.afterHandler s cmd' ns).endScan c s)
        | .ok (some h, cmd', ns) => ((d.afterHandler s cmd' ns).accept c H s cmd cmd' h).mapError .list
      else .error .disabled

/-! ### The workers -/

def setWorker (d : Dev ω σ) (k : Nat) (w : IoWorker ω) : Dev ω σ :=
  { d with workers := Function.update d.workers k w }

def setPc (d : Dev ω σ) (k : Nat) (pc : WorkerPc) : Dev ω σ := { d with pcs := Function.update d.pcs k pc }

@[simp] theorem setWorker_workers (d : Dev ω σ) (k : Nat) (w : IoWorker ω) : (d.setWorker k w).workers k = w :=
  Function.update_self ..

theorem setWorker_workers_of_ne (d : Dev ω σ) {k i : Nat} (w : IoWorker ω) (h : i ≠ k) :
    (d.setWorker k w).workers i = d.workers i := Function.update_of_ne h _ _

/-- The copy of an entry, through the slot it names. -/
def copyData (d : Dev ω σ) (k curr : Nat) : Except DevFault (Dev ω σ) :=
  let w := (d.workers k).workQueue curr
  let copied := d.setWorker k ((d.workers k).markCopied curr)
  if w.isCopied then .ok d
  else if w.isInternal then .ok copied
  else
    let cmd := d.slots w.sqid w.sqEntry
    match doPerformIo c.pfnValid cmd d.mem with
    | none => .error .nullPrp
    | some mem => .ok { copied with mem := mem, copies := ⟨cmd, d.origin k curr⟩ :: d.copies }

/-- `__fill_cq_result` -/
def fillCqResult (d : Dev ω σ) (w : IoWork ω) : Dev ω σ :=
  let q := w.cqid
  let wrap : Prop := d.cqHead q + 1 = c.cqSize q
  { d with
    posted :=
      { cqid := q
        cqEntry := d.cqHead q
        cqe :=
          { result0 := w.result0
            result1 := w.result1
            sqHead := w.sqEntry
            sqId := w.sqid
            commandId := w.commandId
            status := cqeStatus (d.phase q) w.status } } :: d.posted
    cqHead := Function.update d.cqHead q (if wrap then 0 else d.cqHead q + 1)
    phase := Function.update d.phase q (if wrap then !d.phase q else d.phase q) }

/-- What is done for an entry that is due. -/
def settle (d : Dev ω σ) (w : IoWork ω) : Dev ω σ :=
  if w.isInternal then
    { d with
      ns := w.op.elim d.ns fun op => H.release op d.ns
      released := w.op.toList ++ d.released }
  else d.fillCqResult c w

/-- The next stretch of a worker's loop. -/
def work (d : Dev ω σ) (k now : Nat) : Except DevFault (Dev ω σ) :=
  let w := d.workers k
  match d.pcs k with
  | .top => .ok (d.setPc k (.visit w.ioSeq))
  | .visit curr =>
      if curr = noEntry then .ok (d.setPc k .top)
      else
        let d := d.setWorker k { w with latestNsecs := now }
        if (w.workQueue curr).isCompleted then .ok (d.setPc k (.advance curr))
        else do return (← d.copyData c k curr).setPc k (.finish curr now)
  | .finish curr currNsecs =>
      if (w.workQueue curr).nsecsTarget ≤ currNsecs then
        .ok (((d.settle c H (w.workQueue curr)).setWorker k (w.markCompleted curr)).setPc k (.advance curr))
      else .ok (d.setPc k (.advance curr))
  | .advance curr => .ok (d.setPc k (.visit (w.next curr)))

/-! ### Steps and runs -/

def act (d : Dev ω σ) : DevAct → Except DevFault (Dev ω σ)
  | .writeSlot q slot cmd =>
      .ok { d with slots := Function.update d.slots q (Function.update (d.slots q) slot cmd) }
  | .ringDoorbell q newDb =>
      if newDb < c.queueSize q then .ok { d with dbs := Function.update d.dbs q newDb } else .error .disabled
  | .writeMem host => .ok { d with mem := { d.mem with host := host } }
  | .procDbs q =>
      if d.scan.isNone ∧ d.dbs q ≠ d.oldDbs q then
        .ok { d with scan := some ⟨q, d.dbs q, d.oldDbs q, 0, d.oldDbs q⟩ }
      else .error .disabled
  | .procIo now => d.procIo c H now
  | .scanDone =>
      match d.scan with
      | none => .error .disabled
      | some s => if s.seq < c.numProc s then .error .disabled else .ok (d.endScan c s)
  | .work k now => if k < c.nrIoWorkers then d.work c H k now else .error .disabled

end Dev

/-- The runs from one state to another whose steps all satisfy `G`. -/
inductive DevRun (G : Dev ω σ → DevAct → Prop) (d₀ : Dev ω σ) : Dev ω σ → Prop
  | refl : DevRun G d₀ d₀
  | step {d d' : Dev ω σ} {a : DevAct} : DevRun G d₀ d → G d a → d.act c H a = .ok d' → DevRun G d₀ d'

/-! ## What a step does -/

/-- The completion a command should get. -/
def Taken.report (t : Taken ω) : Report :=
  ⟨t.sqid, c.cqid t.sqid, t.sqEntry, t.cmd.commandId, t.reply.ret.status % 2 ^ 15, u32 t.reply.ret.result,
    u32 (t.reply.ret.result / 2 ^ 32)⟩

/-- All that is to be done for a command. -/
def Taken.duties (t : Taken ω) : List (Duty ω) := t.reply.ops.map .release ++ [.complete (t.report c)]

/-- Every worker is in order. -/
def WorkersOk (d : Dev ω σ) : Prop := ∀ k, k < c.nrIoWorkers → WorkerOk (d.workers k) (d.pcs k)

variable {c H} {d d' : Dev ω σ} {k now : Nat}

theorem DevRun.trans {G : Dev ω σ → DevAct → Prop} {d₁ d₂ d₃ : Dev ω σ} (h₁ : DevRun c H G d₁ d₂)
    (h₂ : DevRun c H G d₂ d₃) : DevRun c H G d₁ d₃ := by
  induction h₂ with
  | refl => exact h₁
  | step _ hG hact ih => exact .step ih hG hact

theorem DevRun.mono {G G' : Dev ω σ → DevAct → Prop} (h : DevRun c H G d d') (hG : ∀ d a, G d a → G' d a) :
    DevRun c H G' d d' := by
  induction h with
  | refl => exact .refl
  | step _ hstep hact ih => exact .step ih (hG _ _ hstep) hact

/-- Steps one after the other, as long as they satisfy `G`. -/
def Dev.acts (c : DevConfig) (H : IoHandler ω σ) (G : Dev ω σ → DevAct → Prop) [∀ d a, Decidable (G d a)]
    (d : Dev ω σ) (as : List DevAct) : Except DevFault (Dev ω σ) :=
  as.foldlM (fun d a => if G d a then d.act c H a else .error .disabled) d

theorem devRun_of_acts {G : Dev ω σ → DevAct → Prop} [∀ d a, Decidable (G d a)] {as : List DevAct}
    (h : d.acts c H G as = .ok d') : DevRun c H G d d' := by
  induction as generalizing d with
  | nil =>
      cases h
      exact .refl
  | cons a as ih =>
      obtain ⟨d₁, hact, hrest⟩ := bind_eq_ok (f := fun d => Dev.acts c H G d as) h
      dsimp only at hact
      split at hact
      · next hG => exact (DevRun.step .refl hG hact).trans (ih hrest)
      · cases hact

theorem DevConfig.getIoWorker_lt (sqid : Nat) : c.getIoWorker sqid < c.nrIoWorkers := Nat.mod_lt _ c.workers_pos

/-- What a worker with `free` free entries gets for a command that is taken: with an entry for each operation and the
    request, and one to spare, all duties of the command, and otherwise not its completion. -/
structure Enlisted (c : DevConfig) (t : Taken ω) (free entry : Nat) (new : List (Nat × IoWork ω)) : Prop where
  within : ((new.flatMap fun x => x.2.duties : List (Duty ω)) : Multiset (Duty ω)) ≤ t.duties c
  room : t.reply.ops.length + 2 ≤ free →
    ((new.flatMap fun x => x.2.duties : List (Duty ω)) : Multiset (Duty ω)) = t.duties c
  full : ¬ t.reply.ops.length + 2 ≤ free → ∀ r, .complete r ∉ new.flatMap fun x => x.2.duties
  uncopied : ∀ x ∈ new, x.2.isCopied = false → x.1 = entry ∧ x.2.isInternal = false
  slot : ∀ x ∈ new, x.2.isInternal = false → x.2.sqid = t.sqid ∧ x.2.sqEntry = t.sqEntry

/-- **What `nvmev_proc_io_sq` can do with the next command.** -/
inductive ProcIo (c : DevConfig) (H : IoHandler ω σ) (d : Dev ω σ) (now : Nat) : Dev ω σ → Prop
  | refused {s : Scan} {cmd : NvmeCommand} {ns : σ} (hscan : d.scan = some s) (hseq : s.seq < c.numProc s)
      (hproc : H.procIoCmd ⟨d.slots s.sqid s.sqEntry, s.sqid, now⟩ d.ns = .ok (none, cmd, ns)) :
      ProcIo c H d now ((d.afterHandler s cmd ns).endScan c s)
  | accepted {s : Scan} {h : Reply ω} {cmd : NvmeCommand} {ns : σ} (hscan : d.scan = some s)
      (hseq : s.seq < c.numProc s)
      (hproc : H.procIoCmd ⟨d.slots s.sqid s.sqEntry, s.sqid, now⟩ d.ns = .ok (some h, cmd, ns))
      {workers : Nat → IoWorker ω} {entry : Nat} {new : List (Nat × IoWork ω)}
      (hothers : ∀ k, k < c.nrIoWorkers → k ≠ c.getIoWorker s.sqid → Fed (d.pcs k) (d.workers k) [] (workers k))
      (hfed : Fed (d.pcs (c.getIoWorker s.sqid)) (d.workers (c.getIoWorker s.sqid)) new
        (workers (c.getIoWorker s.sqid)))
      (hnew : Enlisted c ⟨s.sqid, s.sqEntry, d.slots s.sqid s.sqEntry, h⟩
        (d.workers (c.getIoWorker s.sqid)).freeEntries.length entry new)
      (hentry : entry ∈ (workers (c.getIoWorker s.sqid)).uncopied → ∃ x ∈ new, x.1 = entry) :
      ProcIo c H d now { d.afterHandler s cmd ns with
        scan := some (c.advance s)
        workers := workers
        taken := ⟨s.sqid, s.sqEntry, d.slots s.sqid s.sqEntry, h⟩ :: d.taken
        origin := Function.update d.origin (c.getIoWorker s.sqid)
          (Function.update (d.origin (c.getIoWorker s.sqid)) entry cmd) }

/-- `__reclaim_completed_reqs` succeeds, and moves completed entries only. -/
theorem reclaimCompletedReqs_fed (ws : Nat → IoWorker ω) (pcs : Nat → WorkerPc)
    (h : ∀ k, k < c.nrIoWorkers → WorkerOk (ws k) (pcs k)) :
    ∃ ws', Dev.reclaimCompletedReqs c ws = .ok ws' ∧ ∀ k, k < c.nrIoWorkers → Fed (pcs k) (ws k) [] (ws' k) := by
  have hsat : Sat (fun _ => False)
      (fun ws' => (∀ k, k < c.nrIoWorkers → Fed (pcs k) (ws k) [] (ws' k)) ∧
        ∀ k, c.nrIoWorkers ≤ k → ws' k = ws k) (Dev.reclaimCompletedReqs c ws) := by
    refine sat_foldlM_range (fun i (ws' : Nat → IoWorker ω) =>
      (∀ k, k < i → Fed (pcs k) (ws k) [] (ws' k)) ∧ ∀ k, i ≤ k → ws' k = ws k) c.nrIoWorkers ?_
      ⟨fun k hk => absurd hk (Nat.not_lt_zero k), fun _ _ => rfl⟩
    rintro i hi ws' ⟨hdone, hrest⟩
    obtain ⟨w', hok, hfed⟩ := reclaim_fed (h i hi)
    rw [hrest i (Nat.le_refl i), hok]
    refine ⟨fun k hk => ?_, fun k hk => ?_⟩
    · rcases Nat.lt_succ_iff_lt_or_eq.mp hk with hlt | rfl
      · rw [Function.update_of_ne (Nat.ne_of_lt hlt)]
        exact hdone k hlt
      · rw [Function.update_self]
        exact hfed
    · rw [Function.update_of_ne (by omega : k ≠ i)]
      exact hrest k (by omega)
  obtain ⟨ws', hok, hws⟩ := hsat.exists_ok
  exact ⟨ws', hok, hws.1⟩

/-- A request without an entry is lost; with one, it is the only entry that is still to be copied. -/
theorem enlisted_request {t : Taken ω} {w w₁ w' : IoWorker ω} {pc : WorkerPc}
    {ops : List (Nat × IoWork ω)} (hfed : Fed pc w ops w₁)
    (hint : ∀ x ∈ ops, x.2.isInternal = true ∧ x.2.isCopied = true)
    (hfree : w₁.freeEntries.length = max 1 (w.freeEntries.length - t.reply.ops.length))
    (hle : ((ops.flatMap fun x => x.2.duties : List (Duty ω)) : Multiset (Duty ω)) ≤
      (t.reply.ops.map .release : List (Duty ω)))
    (hduties : t.reply.ops.length < w.freeEntries.length →
      ((ops.flatMap fun x => x.2.duties : List (Duty ω)) : Multiset (Duty ω)) = (t.reply.ops.map .release : List (Duty ω)))
    (hok : w₁.enqueueIoReq t.sqid (c.cqid t.sqid) t.sqEntry t.cmd.commandId t.reply.ret = .ok w') :
    ∃ new, Fed pc w new w' ∧ Enlisted c t w.freeEntries.length w₁.freeSeq new ∧
      (w₁.freeSeq ∈ w'.uncopied → ∃ x ∈ new, x.1 = w₁.freeSeq) := by
  have hnone : ∀ r, .complete r ∉ ops.flatMap fun x => x.2.duties := by
    intro r hr
    obtain ⟨x, hx, hxr⟩ := List.mem_flatMap.mp hr
    simp only [IoWork.duties, (hint x hx).1, if_true] at hxr
    split at hxr <;> simp at hxr
  rcases enqueue_fed hfed.ok (.fillRequest t.sqid (c.cqid t.sqid) t.sqEntry t.cmd.commandId t.reply.ret) with
    ⟨hfull, hsame⟩ | ⟨hroom, w₂, hok', _, hfed'⟩
  · obtain rfl : w₁ = w' := Except.ok.inj (hsame.symm.trans hok)
    refine ⟨ops, hfed, ⟨?_, fun hroom => ?_, fun _ => hnone, fun x hx hnot => ?_, fun x hx hnot => ?_⟩, fun hmem => ?_⟩
    · rw [Taken.duties, ← Multiset.coe_add]
      exact hle.trans (Multiset.le_add_right _ _)
    · omega
    · rw [(hint x hx).2] at hnot
      cases hnot
    · rw [(hint x hx).1] at hnot
      cases hnot
    · exact absurd (IoWorker.mem_uncopied.mp hmem).1 hfed.ok.freeSeq_notMem
  · obtain rfl : w₂ = w' := Except.ok.inj (hok'.symm.trans hok)
    refine ⟨_, hfed.trans hfed', ⟨?_, fun hroom' => ?_, fun hnot => ?_, fun x hx hnot => ?_, fun x hx hnot => ?_⟩,
      fun _ => ⟨_, List.mem_cons_self .., rfl⟩⟩
    · rw [List.flatMap_append, ← Multiset.coe_add, add_comm, Taken.duties, ← Multiset.coe_add]
      exact Multiset.add_le_add_right hle
    · rw [List.flatMap_append, ← Multiset.coe_add, hduties (by omega), add_comm, Multiset.coe_add]
      rfl
    · omega
    · rcases List.mem_append.mp hx with hx | hx
      · rw [List.mem_singleton.mp hx]
        exact ⟨rfl, rfl⟩
      · rw [(hint x hx).2] at hnot
        cases hnot
    · rcases List.mem_append.mp hx with hx | hx
      · rw [List.mem_singleton.mp hx]
        exact ⟨rfl, rfl⟩
      · rw [(hint x hx).1] at hnot
        cases hnot

/-- Enqueueing never stops. -/
theorem exists_enqueued {w : IoWorker ω} {pc : WorkerPc} (h : WorkerOk w pc)
    (fill : IoWork ω → IoWork ω) : ∃ w', w.enqueue fill = .ok w' := by
  rcases enqueue_fed h fill with ⟨_, hok⟩ | ⟨_, w', hok, _⟩
  · exact ⟨w, hok⟩
  · exact ⟨w', hok⟩

/-- **Accepting a command**: the operations of the handler, the request, and reclaiming, one after the other. -/
theorem accept_fed (hok : WorkersOk c d) (s : Scan) {req cmd : NvmeCommand} (h : Reply ω)
    (hid : cmd.commandId = req.commandId) :
    ∃ workers entry new, d.accept c H s req cmd h = .ok
        { d with
          scan := some (c.advance s)
          workers := workers
          taken := ⟨s.sqid, s.sqEntry, req, h⟩ :: d.taken
          origin := Function.update d.origin (c.getIoWorker s.sqid)
            (Function.update (d.origin (c.getIoWorker s.sqid)) entry cmd) } ∧
      (∀ k, k < c.nrIoWorkers → k ≠ c.getIoWorker s.sqid → Fed (d.pcs k) (d.workers k) [] (workers k)) ∧
      Fed (d.pcs (c.getIoWorker s.sqid)) (d.workers (c.getIoWorker s.sqid)) new (workers (c.getIoWorker s.sqid)) ∧
      Enlisted c ⟨s.sqid, s.sqEntry, req, h⟩ (d.workers (c.getIoWorker s.sqid)).freeEntries.length entry new ∧
      (entry ∈ (workers (c.getIoWorker s.sqid)).uncopied → ∃ x ∈ new, x.1 = entry) := by
  have hk := c.getIoWorker_lt s.sqid
  obtain ⟨w₁, ops, hsched, hfed, hint, hfree, hle, hduties⟩ := scheduleOps_fed (hok _ hk) H.target s.sqid h.ops
  obtain ⟨w₂, hreq⟩ := exists_enqueued hfed.ok
    (.fillRequest s.sqid (c.cqid s.sqid) s.sqEntry req.commandId h.ret)
  obtain ⟨new, hfed₂, hnew, hentry⟩ :=
    enlisted_request (t := ⟨s.sqid, s.sqEntry, req, h⟩) hfed hint hfree hle hduties hreq
  obtain ⟨ws, hreclaim, hws⟩ := reclaimCompletedReqs_fed (c := c)
    (Function.update d.workers (c.getIoWorker s.sqid) w₂) d.pcs (by
      intro k hk'
      by_cases hkt : k = c.getIoWorker s.sqid
      · rw [hkt, Function.update_self]
        exact hfed₂.ok
      · rw [Function.update_of_ne hkt]
        exact hok k hk')
  have hfed₃ := hws _ hk
  rw [Function.update_self] at hfed₃
  refine ⟨ws, w₁.freeSeq, new, ?_, fun k hk' hkt => ?_, hfed₂.trans hfed₃, hnew, fun hmem => hentry ?_⟩
  · unfold Dev.accept IoWorker.enqueueIoReq
    dsimp only
    rw [hsched, ok_bind, hid, hreq, ok_bind, hreclaim, ok_bind]
    rfl
  · have hfedk := hws k hk'
    rwa [Function.update_of_ne hkt] at hfedk
  · exact ((hfed₃.uncopied _ hmem).resolve_left (List.not_mem_nil)).1

/-- **The dispatcher never stops on the lists**, and what it does is one of the cases. -/
theorem procIo_cases (hok : WorkersOk c d) (now : Nat) :
    (∃ f, d.procIo c H now = .error f ∧ ∀ l, f ≠ .list l) ∨
      ∃ d', d.procIo c H now = .ok d' ∧ ProcIo c H d now d' := by
  unfold Dev.procIo
  cases hscan : d.scan with
  | none => exact Or.inl ⟨_, rfl, nofun⟩
  | some s =>
      dsimp only
      by_cases hseq : s.seq < c.numProc s
      · rw [if_pos hseq]
        cases hproc : H.procIoCmd ⟨d.slots s.sqid s.sqEntry, s.sqid, now⟩ d.ns with
        | error f => exact Or.inl ⟨_, rfl, nofun⟩
        | ok reply =>
            obtain ⟨h, cmd, ns⟩ := reply
            cases h with
            | none => exact Or.inr ⟨_, rfl, .refused hscan hseq hproc⟩
            | some h =>
                obtain ⟨workers, entry, new, haccept, hothers, hfed, hnew, hentry⟩ :=
                  accept_fed (d := d.afterHandler s cmd ns) hok s h (H.same_id hproc)
                dsimp only
                rw [haccept]
                exact Or.inr ⟨_, rfl, .accepted hscan hseq hproc hothers hfed hnew hentry⟩
      · rw [if_neg hseq]
        exact Or.inl ⟨_, rfl, nofun⟩

/-- **What a worker can do next.** -/
inductive Worked (c : DevConfig) (H : IoHandler ω σ) (d : Dev ω σ) (k now : Nat) : Dev ω σ → Prop
  | start (hpc : d.pcs k = .top) : Worked c H d k now (d.setPc k (.visit (d.workers k).ioSeq))
  | wrap (hpc : d.pcs k = .visit noEntry) : Worked c H d k now (d.setPc k .top)
  | skip {curr : Nat} (hpc : d.pcs k = .visit curr) (hne : curr ≠ noEntry)
      (hdone : ((d.workers k).workQueue curr).isCompleted = true) :
      Worked c H d k now ((d.setWorker k { d.workers k with latestNsecs := now }).setPc k (.advance curr))
  | look {curr : Nat} (hpc : d.pcs k = .visit curr) (hne : curr ≠ noEntry)
      (hdone : ((d.workers k).workQueue curr).isCompleted = false)
      (hcopied : ((d.workers k).workQueue curr).isCopied = true) :
      Worked c H d k now ((d.setWorker k { d.workers k with latestNsecs := now }).setPc k (.finish curr now))
  | mark {curr : Nat} (hpc : d.pcs k = .visit curr) (hne : curr ≠ noEntry)
      (hdone : ((d.workers k).workQueue curr).isCompleted = false)
      (hcopied : ((d.workers k).workQueue curr).isCopied = false)
      (hint : ((d.workers k).workQueue curr).isInternal = true) :
      Worked c H d k now
        ((d.setWorker k (IoWorker.markCopied { d.workers k with latestNsecs := now } curr)).setPc k (.finish curr now))
  | copy {curr : Nat} {mem : IoMem} (hpc : d.pcs k = .visit curr) (hne : curr ≠ noEntry)
      (hdone : ((d.workers k).workQueue curr).isCompleted = false)
      (hcopied : ((d.workers k).workQueue curr).isCopied = false)
      (hint : ((d.workers k).workQueue curr).isInternal = false)
      (hio : doPerformIo c.pfnValid
        (d.slots ((d.workers k).workQueue curr).sqid ((d.workers k).workQueue curr).sqEntry) d.mem = some mem) :
      Worked c H d k now
        { (d.setWorker k (IoWorker.markCopied { d.workers k with latestNsecs := now } curr)).setPc k (.finish curr now)
          with
          mem := mem
          copies := ⟨d.slots ((d.workers k).workQueue curr).sqid ((d.workers k).workQueue curr).sqEntry,
            d.origin k curr⟩ :: d.copies }
  | settle {curr currNsecs : Nat} (hpc : d.pcs k = .finish curr currNsecs)
      (hdue : ((d.workers k).workQueue curr).nsecsTarget ≤ currNsecs) :
      Worked c H d k now (((d.settle c H ((d.workers k).workQueue curr)).setWorker k
        ((d.workers k).markCompleted curr)).setPc k (.advance curr))
  | early {curr currNsecs : Nat} (hpc : d.pcs k = .finish curr currNsecs)
      (hdue : ¬ ((d.workers k).workQueue curr).nsecsTarget ≤ currNsecs) :
      Worked c H d k now (d.setPc k (.advance curr))
  | next {curr : Nat} (hpc : d.pcs k = .advance curr) :
      Worked c H d k now (d.setPc k (.visit ((d.workers k).next curr)))

theorem work_cases (h : d.work c H k now = .ok d') : Worked c H d k now d' := by
  unfold Dev.work at h
  cases hpc : d.pcs k with
  | top =>
      rw [hpc] at h
      cases h
      exact .start hpc
  | visit curr =>
      rw [hpc] at h
      dsimp only at h
      by_cases hne : curr = noEntry
      · rw [if_pos hne] at h
        cases h
        exact .wrap (hne ▸ hpc)
      · rw [if_neg hne] at h
        cases hdone : ((d.workers k).workQueue curr).isCompleted with
        | true =>
            rw [hdone, if_pos rfl] at h
            cases h
            exact .skip hpc hne hdone
        | false =>
            rw [hdone, if_neg Bool.false_ne_true] at h
            obtain ⟨d₁, hcopy, hd⟩ := bind_eq_ok h
            cases hd
            unfold Dev.copyData at hcopy
            simp only [Dev.setWorker, Function.update_self, Function.update_idem] at hcopy
            cases hcopied : ((d.workers k).workQueue curr).isCopied with
            | true =>
                rw [hcopied, if_pos rfl] at hcopy
                cases hcopy
                exact .look hpc hne hdone hcopied
            | false =>
                rw [hcopied, if_neg Bool.false_ne_true] at hcopy
                cases hint : ((d.workers k).workQueue curr).isInternal with
                | true =>
                    rw [hint, if_pos rfl] at hcopy
                    cases hcopy
                    exact .mark hpc hne hdone hcopied hint
                | false =>
                    rw [hint, if_neg Bool.false_ne_true] at hcopy
                    cases hio : doPerformIo c.pfnValid
                        (d.slots ((d.workers k).workQueue curr).sqid ((d.workers k).workQueue curr).sqEntry) d.mem with
                    | none =>
                        rw [hio] at hcopy
                        cases hcopy
                    | some mem =>
                        rw [hio] at hcopy
                        cases hcopy
                        exact .copy hpc hne hdone hcopied hint hio
  | finish curr currNsecs =>
      rw [hpc] at h
      dsimp only at h
      by_cases hdue : ((d.workers k).workQueue curr).nsecsTarget ≤ currNsecs
      · rw [if_pos hdue] at h
        cases h
        exact .settle hpc hdue
      · rw [if_neg hdue] at h
        cases h
        exact .early hpc hdue
  | advance curr =>
      rw [hpc] at h
      cases h
      exact .next hpc

/-- **The steps of the device.** -/
inductive Stepped (c : DevConfig) (H : IoHandler ω σ) (d : Dev ω σ) : DevAct → Dev ω σ → Prop
  | writeSlot {q slot : Nat} {cmd : NvmeCommand} : Stepped c H d (.writeSlot q slot cmd)
      { d with slots := Function.update d.slots q (Function.update (d.slots q) slot cmd) }
  | ringDoorbell {q newDb : Nat} (hdb : newDb < c.queueSize q) :
      Stepped c H d (.ringDoorbell q newDb) { d with dbs := Function.update d.dbs q newDb }
  | writeMem {host : HostMem} : Stepped c H d (.writeMem host) { d with mem := { d.mem with host := host } }
  | procDbs {q : Nat} (hscan : d.scan = none) (hne : d.dbs q ≠ d.oldDbs q) :
      Stepped c H d (.procDbs q) { d with scan := some ⟨q, d.dbs q, d.oldDbs q, 0, d.oldDbs q⟩ }
  | procIo {now : Nat} {d' : Dev ω σ} (h : ProcIo c H d now d') : Stepped c H d (.procIo now) d'
  | scanDone {s : Scan} (hscan : d.scan = some s) (hseq : ¬ s.seq < c.numProc s) :
      Stepped c H d .scanDone (d.endScan c s)
  | work {k now : Nat} {d' : Dev ω σ} (hk : k < c.nrIoWorkers) (h : Worked c H d k now d') :
      Stepped c H d (.work k now) d'

theorem act_cases {a : DevAct} (hok : WorkersOk c d) (h : d.act c H a = .ok d') : Stepped c H d a d' := by
  cases a with
  | writeSlot q slot cmd =>
      cases h
      exact .writeSlot
  | ringDoorbell q newDb =>
      simp only [Dev.act] at h
      split at h
      · next hdb =>
          cases h
          exact .ringDoorbell hdb
      · cases h
  | writeMem host =>
      cases h
      exact .writeMem
  | procDbs q =>
      simp only [Dev.act] at h
      split at h
      · next hq =>
          cases h
          exact .procDbs (Option.isNone_iff_eq_none.mp hq.1) hq.2
      · cases h
  | procIo now =>
      rcases procIo_cases (H := H) hok now with ⟨f, herr, _⟩ | ⟨d₁, hd₁, hcase⟩
      · cases herr.symm.trans h
      · cases hd₁.symm.trans h
        exact .procIo hcase
  | scanDone =>
      simp only [Dev.act] at h
      cases hscan : d.scan with
      | none =>
          rw [hscan] at h
          cases h
      | some s =>
          rw [hscan] at h
          dsimp only at h
          split at h
          · cases h
          · next hseq =>
              cases h
              exact .scanDone hscan hseq
  | work k now =>
      simp only [Dev.act] at h
      split at h
      · next hk => exact .work hk (work_cases h)
      · cases h

/-- No step stops on a `BUG_ON` of the lists, or in a loop along them. -/
theorem act_ne_list {a : DevAct} (hok : WorkersOk c d) (f : IoFault) : d.act c H a ≠ .error (.list f) := by
  cases a with
  | procIo now =>
      rcases procIo_cases (H := H) hok now with ⟨f', herr, hne⟩ | ⟨d₁, hd₁, _⟩
      · rw [Dev.act, herr]
        exact fun h => hne f (Except.error.inj h)
      · rw [Dev.act, hd₁]
        exact nofun
  | work k now =>
      intro h
      simp only [Dev.act, Dev.work] at h
      split at h
      · cases hpc : d.pcs k with
        | visit curr =>
            rw [hpc] at h
            simp only [Dev.copyData] at h
            repeat' split at h
            all_goals cases h
        | _ =>
            rw [hpc] at h
            simp only at h
            repeat' split at h
            all_goals cases h
      · cases h
  | _ =>
      simp only [Dev.act]
      repeat' split
      all_goals exact nofun

/-! ## The workers stay in order -/

theorem workersOk_boot (slots : Nat → Nat → NvmeCommand) (mem : IoMem) (ns : σ) :
    WorkersOk c (Dev.boot slots mem ns : Dev ω σ) := fun _ _ => workerOk_init

theorem ProcIo.workersOk (h : ProcIo c H d now d') (hok : WorkersOk c d) : WorkersOk c d' := by
  cases h with
  | refused _ _ _ => exact hok
  | @accepted s h cmd ns hscan hseq hproc workers entry new hothers hfed hnew hentry =>
      intro k hk
      by_cases hkt : k = c.getIoWorker s.sqid
      · subst hkt
        exact hfed.ok
      · exact (hothers k hk hkt).ok

/-- A step of worker `k` that leaves it in order. -/
theorem WorkersOk.update (hok : WorkersOk c d) {w : IoWorker ω} {pc : WorkerPc} (h : WorkerOk w pc) :
    WorkersOk c ((d.setWorker k w).setPc k pc) := by
  intro i hi
  by_cases hik : i = k
  · subst hik
    simpa [Dev.setWorker, Dev.setPc] using h
  · simpa [Dev.setWorker, Dev.setPc, hik] using hok i hi

theorem WorkersOk.setPc (hok : WorkersOk c d) {pc : WorkerPc} (h : WorkerOk (d.workers k) pc) :
    WorkersOk c (d.setPc k pc) := by
  have hd : d.setWorker k (d.workers k) = d := by
    rw [Dev.setWorker, Function.update_eq_self]
  rw [← hd]
  exact hok.update h

theorem Worked.workersOk (h : Worked c H d k now d') (hk : k < c.nrIoWorkers) (hok : WorkersOk c d) :
    WorkersOk c d' := by
  have hw := hok k hk
  cases h with
  | start hpc => exact hok.setPc hw.start
  | wrap hpc => exact hok.setPc hw.top
  | skip hpc hne hdone =>
      rw [hpc] at hw
      exact hok.update ((hw.setLatest now).skip hne)
  | look hpc hne hdone hcopied =>
      rw [hpc] at hw
      exact hok.update ((hw.setLatest now).finish hne hdone hcopied now)
  | mark hpc hne hdone hcopied hint =>
      rw [hpc] at hw
      exact hok.update ((hw.setLatest now).markCopied.finish hne ((markCopied_isCompleted _).trans hdone)
        markCopied_isCopied now)
  | copy hpc hne hdone hcopied hint hio =>
      rw [hpc] at hw
      exact hok.update ((hw.setLatest now).markCopied.finish hne ((markCopied_isCompleted _).trans hdone)
        markCopied_isCopied now)
  | settle hpc hdue =>
      rw [hpc] at hw
      refine WorkersOk.update ?_ hw.markCompleted
      unfold Dev.settle
      split <;> exact hok
  | early hpc hdue =>
      rw [hpc] at hw
      exact hok.setPc hw.leave
  | next hpc =>
      rw [hpc] at hw
      exact hok.setPc hw.next

/-- **A step keeps the workers in order.** -/
theorem workersOk_step {a : DevAct} (hok : WorkersOk c d) (h : d.act c H a = .ok d') : WorkersOk c d' := by
  cases act_cases hok h with
  | procIo hcase => exact hcase.workersOk hok
  | work hk hcase => exact hcase.workersOk hk hok
  | _ => exact hok

theorem DevRun.workersOk {G : Dev ω σ → DevAct → Prop} (h : DevRun c H G d d') (hok : WorkersOk c d) :
    WorkersOk c d' := by
  induction h with
  | refl => exact hok
  | step _ _ hact ih => exact workersOk_step ih hact

end NvmeVirt
