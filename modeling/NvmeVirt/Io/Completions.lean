import NvmeVirt.Io.Handlers
import NvmeVirt.Io.Progress

/-!
# `Io.Completions` — exactly one completion per command

A worker has 16384 entries, of which the last free one is never handed out. With more commands outstanding on the
queues of one worker, `__enqueue_io_req` returns without an entry and `__nvmev_proc_io` reports success all the same:
the dispatcher steps over the command, and no completion will ever be posted for it. The queues the device advertises
allow for more than four times as many commands.

* `completion_exactly_once` — as long as there is room, every command is completed exactly once, and a command for which
  there is none is lost.
* `completion_lost` — seventeen full queues of flush commands on one worker.
-/

namespace NvmeVirt

open Chain Outcome

variable {ω σ : Type} {c : DevConfig} {H : IoHandler ω σ} {d d' : Dev ω σ}

/-- **Exactly one completion per command taken.** In every run whose commands find room:

    the commands taken are those completed by one posted entry each, with their identifier, status and result, and those
    an entry of a list stands for, and nothing else is posted; the commands of each queue were taken from slot after
    slot; the workers alone, without the dispatcher, complete all of them, unless PRPs lead through a `NULL` pointer; no
    step stops on the lists; and the next command is served exactly if it finds room. -/
theorem completion_exactly_once {slots : Nat → Nat → NvmeCommand} {mem : IoMem} {ns : σ}
    (h : DevRun c H (HasRoom c H) (Dev.boot slots mem ns) d) :
    Served c d ∧
    (∀ q, ((d.takenOf q).map Taken.sqEntry).reverse =
      (List.range (d.takenOf q).length).map (· % c.queueSize q)) ∧
    (Copyable c d → ∃ d', DevRun c H WorkersOnly d d' ∧ d'.taken = d.taken ∧
      (d'.posted.map Posted.report).Perm (d.taken.map (Taken.report c))) ∧
    (∀ a f, d.act c H a ≠ .error (.list f)) ∧
    ∀ now d', d.act c H (.procIo now) = .ok d' → (Served c d' ↔ Room c H d now) := by
  have hok := h.workersOk (workersOk_boot slots mem ns)
  have hacc := h.accounted (workersOk_boot slots mem ns) (accounted_boot slots mem ns)
  refine ⟨hacc.served, (h.consecutive (workersOk_boot slots mem ns) (consecutive_boot slots mem ns)).order,
    fun hcopy => ?_, fun a f => act_ne_list hok f, fun now d' hact => ?_⟩
  · obtain ⟨d', hrun, htaken, hidle⟩ := exists_all_idle (H := H) hok hcopy
    refine ⟨d', hrun, htaken, ?_⟩
    have hroom : DevRun c H (HasRoom c H) d d' := hrun.mono fun d a ha => by
      cases a with
      | work k now => trivial
      | _ => exact absurd ha id
    have hserved := (hroom.accounted hok hacc).served
    rw [Served, hidle, htaken] at hserved
    have hnone : completions (0 : Multiset (Duty ω)) = 0 := Multiset.zero_bind _
    rw [hnone, add_zero, Multiset.coe_eq_coe] at hserved
    exact hserved.symm
  · cases act_cases hok hact with
    | procIo hcase => exact hcase.served_iff hacc

/-! ## One worker for many queues -/

def flushCmd : NvmeCommand := { (writeReq 0 0 none).cmd with opcode := .flush }

theorem fdpDevice_flush (q now : Nat) (ns : FdpNs Unit) :
    ∃ ret, fdpDevice.procIoCmd ⟨flushCmd, q, now⟩ ns = .ok (some ⟨ret, []⟩, flushCmd, ns) := ⟨_, rfl⟩

/-- A command its handler accepts is taken. -/
theorem exists_taken {s : Scan} {h : Reply ω} {cmd : NvmeCommand} {ns : σ} {now : Nat} (hok : WorkersOk c d)
    (hscan : d.scan = some s) (hseq : s.seq < c.numProc s)
    (hproc : H.procIoCmd ⟨d.slots s.sqid s.sqEntry, s.sqid, now⟩ d.ns = .ok (some h, cmd, ns)) :
    ∃ d', d.act c H (.procIo now) = .ok d' ∧ d'.scan = some (c.advance s) ∧ d'.posted = d.posted ∧
      d'.dbs = d.dbs ∧ d'.oldDbs = d.oldDbs ∧ d'.taken = ⟨s.sqid, s.sqEntry, d.slots s.sqid s.sqEntry, h⟩ :: d.taken ∧
      d'.slots = Function.update d.slots s.sqid (Function.update (d.slots s.sqid) s.sqEntry cmd) := by
  rcases procIo_cases (H := H) hok now with ⟨f, herr, hne⟩ | ⟨d', hd', hcase⟩
  · -- only the lists could stop it
    rw [Dev.procIo, hscan] at herr
    simp only [if_pos hseq, hproc] at herr
    cases haccept : (d.afterHandler s cmd ns).accept c H s (d.slots s.sqid s.sqEntry) cmd h with
    | ok d' =>
        rw [haccept] at herr
        cases herr
    | error l =>
        rw [haccept] at herr
        exact absurd (Except.error.inj herr).symm (hne l)
  · refine ⟨d', hd', ?_⟩
    cases hcase with
    | refused hscan' _ hproc' =>
        cases hscan.symm.trans hscan'
        cases hproc.symm.trans hproc'
    | accepted hscan' _ hproc' _ _ _ _ =>
        cases hscan.symm.trans hscan'
        cases hproc.symm.trans hproc'
        exact ⟨rfl, rfl, rfl, rfl, rfl, rfl⟩

/-- In every queue a flush in slot 0, and behind it writes of block 0. -/
def flushThenWrites (_ slot : Nat) : NvmeCommand :=
  if slot = 0 then flushCmd else { (writeReq 0 0 none).cmd with prp1 := 4096 }

/-- Two flushes and a write, from two queues: the worker has completed the first two, and the last is taken. -/
theorem completion_exactly_once_two_queues :
    ∃ ns, fdpInitNamespace 67108864 () = .ok ns ∧ ∃ d,
      DevRun oneWorker fdpDevice (HasRoom oneWorker fdpDevice)
        (Dev.boot flushThenWrites ⟨fun _ => 0, fun _ => 0⟩ ns) d ∧
      d.taken.length = 3 ∧ d.posted.length = 2 ∧ Served oneWorker d := by
  refine ⟨fdpFresh, fdpInitNamespace_fresh, ?_⟩
  obtain ⟨d, hrun, hsee⟩ := exists_roomRun oneWorker fdpDevice (fun _ _ => True) flushThenWrites ⟨fun _ => 0, fun _ => 0⟩
    fdpFresh ([.ringDoorbell 1 2, .procDbs 1, .procIo 0, .procIo 0, .scanDone] ++ List.replicate 6 (.work 0 0) ++
      [.ringDoorbell 2 2, .procDbs 2, .procIo 0])
    (fun d => (d.taken.length, d.posted.length)) (a := (3, 2)) (by decide +kernel)
  obtain ⟨htaken, hposted⟩ := Prod.mk.inj hsee
  have hroom := hrun.mono fun d a h => h.1
  exact ⟨d, hroom, htaken, hposted, (completion_exactly_once hroom).1⟩

/-- Every slot holds a flush command, and the worker has posted nothing. -/
structure Flushing (d : Dev InternalOp (FdpNs Unit)) : Prop where
  ok : WorkersOk oneWorker d
  slots : ∀ q s, d.slots q s = flushCmd
  posted : d.posted = []

/-- The dispatcher takes `n` flush commands from a queue, one after the other. -/
theorem exists_flushed {d : Dev InternalOp (FdpNs Unit)} {q : Nat} (hd : Flushing d)
    (hscan : d.scan = some ⟨q, 1023, 0, 0, 0⟩) {n : Nat} (hn : n ≤ 1023) :
    ∃ d', DevRun oneWorker fdpDevice (fun _ _ => True) d d' ∧ Flushing d' ∧ d'.scan = some ⟨q, 1023, 0, n, n⟩ ∧
      d'.dbs = d.dbs ∧ d'.oldDbs = d.oldDbs ∧ d'.taken.length = d.taken.length + n := by
  induction n with
  | zero => exact ⟨d, .refl, hd, hscan, rfl, rfl, rfl⟩
  | succ n ih =>
      obtain ⟨d₁, hrun, hd₁, hscan₁, hdbs, hold, htaken⟩ := ih (by omega)
      obtain ⟨ret, hproc⟩ := fdpDevice_flush q 0 d₁.ns
      obtain ⟨d₂, hact, hscan₂, hposted, hdbs₂, hold₂, htaken₂, hslots⟩ := exists_taken (H := fdpDevice) hd₁.ok hscan₁
        (show n < 1023 by omega) (by rw [hd₁.slots]; exact hproc)
      refine ⟨d₂, .step hrun trivial hact, ?_, ?_, hdbs₂.trans hdbs, hold₂.trans hold, ?_⟩
      · refine ⟨workersOk_step hd₁.ok hact, fun q' s => ?_, hposted.trans hd₁.posted⟩
        have hself : Function.update (d₁.slots q) n flushCmd = d₁.slots q := by
          rw [← hd₁.slots q n]
          exact Function.update_eq_self ..
        rw [hslots, hself, Function.update_eq_self]
        exact hd₁.slots q' s
      · rw [hscan₂, DevConfig.advance]
        have hwrap : ¬ n + 1 = 1024 := by omega
        simp [oneWorker, hwrap]
      · rw [htaken₂, List.length_cons, htaken]
        omega

/-- The host fills a queue, and the dispatcher takes all of it. -/
theorem exists_queue_flushed {d : Dev InternalOp (FdpNs Unit)} {q : Nat} (hd : Flushing d) (hscan : d.scan = none)
    (hold : d.oldDbs q = 0) :
    ∃ d', DevRun oneWorker fdpDevice (fun _ _ => True) d d' ∧ Flushing d' ∧ d'.scan = none ∧
      (∀ i, i ≠ q → d'.oldDbs i = d.oldDbs i) ∧ d'.taken.length = d.taken.length + 1023 := by
  have hring : d.act oneWorker fdpDevice (.ringDoorbell q 1023) = .ok { d with dbs := Function.update d.dbs q 1023 } := by
    rw [Dev.act, if_pos (by show 1023 < 1024; decide)]
  have hbegin : Dev.act oneWorker fdpDevice { d with dbs := Function.update d.dbs q 1023 } (.procDbs q) = .ok
      { d with dbs := Function.update d.dbs q 1023, scan := some ⟨q, 1023, 0, 0, 0⟩ } := by
    simp [Dev.act, hscan, hold]
  have hd₁ : Flushing { d with dbs := Function.update d.dbs q 1023, scan := some ⟨q, 1023, 0, 0, 0⟩ } :=
    ⟨hd.ok, hd.slots, hd.posted⟩
  obtain ⟨d₂, hrun, hd₂, hscan₂, _, hold₂, htaken⟩ := exists_flushed hd₁ rfl (Nat.le_refl 1023)
  have hend : d₂.act oneWorker fdpDevice .scanDone = .ok (d₂.endScan oneWorker ⟨q, 1023, 0, 1023, 1023⟩) := by
    simp [Dev.act, hscan₂, DevConfig.numProc]
  refine ⟨_, .step (DevRun.trans (.step (.step .refl trivial hring) trivial hbegin) hrun) trivial hend,
    ⟨workersOk_step hd₂.ok hend, hd₂.slots, hd₂.posted⟩, rfl, fun i hi => ?_, htaken⟩
  show Function.update d₂.oldDbs q _ i = d.oldDbs i
  rw [Function.update_of_ne hi, hold₂]

/-- So it does with `n` queues. -/
theorem exists_queues_flushed {d : Dev InternalOp (FdpNs Unit)} (hd : Flushing d) (hscan : d.scan = none)
    (hold : ∀ q, d.oldDbs q = 0) (n : Nat) :
    ∃ d', DevRun oneWorker fdpDevice (fun _ _ => True) d d' ∧ Flushing d' ∧ d'.scan = none ∧
      (∀ q, n < q → d'.oldDbs q = 0) ∧ d'.taken.length = d.taken.length + 1023 * n := by
  induction n with
  | zero => exact ⟨d, .refl, hd, hscan, fun q _ => hold q, by rw [Nat.mul_zero, Nat.add_zero]⟩
  | succ n ih =>
      obtain ⟨d₁, hrun₁, hd₁, hscan₁, hold₁, htaken₁⟩ := ih
      obtain ⟨d₂, hrun₂, hd₂, hscan₂, hold₂, htaken₂⟩ := exists_queue_flushed hd₁ hscan₁ (hold₁ (n + 1) (by omega))
      refine ⟨d₂, hrun₁.trans hrun₂, hd₂, hscan₂, fun q hq => ?_, ?_⟩
      · rw [hold₂ q (by omega)]
        exact hold₁ q (by omega)
      · rw [htaken₂, htaken₁, Nat.mul_succ, Nat.add_assoc]

/-- A worker owes at most as many completions as it has entries. -/
theorem card_completions_outstanding {w : IoWorker ω} {pc : WorkerPc} (h : WorkerOk w pc) :
    Multiset.card (completions w.outstanding) ≤ nrMaxParallelIo := by
  obtain ⟨fresh, used, io, hl, _⟩ := h
  have hlen := hl.length_add
  have hone : ∀ x : IoWork ω, (x.duties.flatMap Duty.reports).length ≤ 1 := by
    intro x
    unfold IoWork.duties
    split
    · simp
    · split
      · cases x.op <;> simp [Duty.reports]
      · simp [Duty.reports]
  have hsum : ∀ l : List Nat,
      ((l.flatMap fun e => (w.workQueue e).duties).flatMap Duty.reports).length ≤ l.length := by
    intro l
    induction l with
    | nil => exact Nat.le_refl 0
    | cons e l ih =>
        have he := hone (w.workQueue e)
        rw [List.flatMap_cons, List.flatMap_append, List.length_append, List.length_cons]
        omega
  have hio := hsum io
  rw [IoWorker.outstanding, hl.ioEntries_eq, completions_coe, Multiset.coe_card]
  omega

/-- **Completions are lost.** One worker serves seventeen queues of 1024 entries; the host fills them with flush commands
    on a freshly initialised FDP device, and the dispatcher takes them all before the worker gets its turn. -/
theorem completion_lost :
    ∃ ns, fdpInitNamespace 67108864 () = .ok ns ∧ ∃ d,
      DevRun oneWorker fdpDevice (fun _ _ => True)
        (Dev.boot (fun _ _ => flushCmd) ⟨fun _ => 0, fun _ => 0⟩ ns) d ∧ ¬ Served oneWorker d := by
  refine ⟨fdpFresh, fdpInitNamespace_fresh, ?_⟩
  obtain ⟨d, hrun, hd, _, _, htaken⟩ := exists_queues_flushed
    (d := Dev.boot (fun _ _ => flushCmd) ⟨fun _ => 0, fun _ => 0⟩ fdpFresh)
    ⟨workersOk_boot _ _ _, fun _ _ => rfl, rfl⟩ rfl (fun _ => rfl) 17
  refine ⟨d, hrun, fun hserved => ?_⟩
  have hcard := congrArg Multiset.card hserved
  have hone : d.outstanding oneWorker = (d.workers 0).outstanding := Finset.sum_range_one _
  have hle := card_completions_outstanding (hd.ok 0 Nat.one_pos)
  rw [hone, hd.posted, Multiset.card_add, Multiset.coe_card, List.length_map, htaken] at hcard
  have hmax : nrMaxParallelIo = 16384 := rfl
  simp [Dev.boot] at hcard
  omega

end NvmeVirt
