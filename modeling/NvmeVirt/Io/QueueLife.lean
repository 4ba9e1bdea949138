import NvmeVirt.Admin.Queue
import NvmeVirt.Io.Interrupts
import NvmeVirt.Io.Progress

/-!
# `Io.QueueLife` — queues that come and go (`admin.c`, `io.c`)

I/O queues are created and deleted by admin commands, on the thread of the dispatcher and between two of its scans. A
work entry names its queues by their identifiers, and the workers look them up without a check: `__do_perform_io` in
`sqes`, `__fill_cq_result` in `cqes`. A queue that is deleted leaves `NULL` there.

* `queues_never_null` — a host that deletes a queue only when nothing is left to be done for it never gets a worker to
  follow such a pointer.
* `deleteSq_safe_iff` — for submission queues that is exact: deleting one with a command that is still to be copied
  brings the workers to it.
-/

namespace NvmeVirt

open Outcome

/-! ## The model -/

/-- The device with the tables of its queues. Sizes and the `cqid` of a submission queue are those of its creation. -/
structure QueueDev (ω σ : Type) where
  dev : Dev ω σ
  config : DevConfig
  sqLive : Nat → Bool
  cqLive : Nat → Bool
  nrSq : Nat

inductive QueueAct where
  | dev (a : DevAct)
  | createCq (qid : Nat) (qsize : UInt16)
  | createSq (qid cqid : Nat) (qsize : UInt16)
  | deleteCq (qid : Nat)
  | deleteSq (qid : Nat)
  /-- `NVME_FEAT_NUM_QUEUES` -/
  | setNumQueues (dword11 : Nat)

inductive QueueFault where
  | dev (f : DevFault)
  /-- an access through a `NULL` entry of `sqes` or `cqes` -/
  | nullQueue
  /-- an index behind the end of `sqes` or `cqes` -/
  | badQueueId
deriving DecidableEq, Repr

variable {ω σ : Type} (H : IoHandler ω σ)

/-- The submission queue a step reads a command from. -/
def Dev.reads (d : Dev ω σ) : DevAct → Option Nat
  | .work k _ =>
      match d.pcs k with
      | .visit curr =>
          let w := (d.workers k).workQueue curr
          if curr ≠ noEntry ∧ w.isCompleted = false ∧ w.isCopied = false ∧ w.isInternal = false then some w.sqid
          else none
      | .top | .finish .. | .advance _ => none
  | .procIo _ => d.scan.map (·.sqid)
  | _ => none

/-- An entry whose command, of the queue `q`, is still to be copied. -/
def IoWorker.Waits (w : IoWorker ω) (q e : Nat) : Prop :=
  e ∈ w.uncopied ∧ (w.workQueue e).isCompleted = false ∧ (w.workQueue e).isInternal = false ∧ (w.workQueue e).sqid = q

instance (w : IoWorker ω) (q e : Nat) : Decidable (w.Waits q e) := inferInstanceAs (Decidable (_ ∧ _))

namespace QueueDev

/-- `kzalloc`, before any queue is created -/
def boot (config : DevConfig) (d : Dev ω σ) : QueueDev ω σ := ⟨d, config, fun _ => false, fun _ => false, 0⟩

def setDev (x : QueueDev ω σ) (d : Dev ω σ) : QueueDev ω σ := { x with dev := d }

/-- `__nvmev_admin_create_cq` -/
def createCq (x : QueueDev ω σ) (qid : Nat) (qsize : UInt16) : QueueDev ω σ :=
  { x with
    config := { x.config with cqSize := Function.update x.config.cqSize qid (qsize.toNat + 1) }
    dev := { x.dev with
      cqHead := Function.update x.dev.cqHead qid 0
      phase := Function.update x.dev.phase qid true }
    cqLive := Function.update x.cqLive qid true }

/-- `__nvmev_admin_create_sq` -/
def createSq (x : QueueDev ω σ) (qid cqid : Nat) (qsize : UInt16) : QueueDev ω σ :=
  { x with
    config := { x.config with
      queueSize := Function.update x.config.queueSize qid (qsize.toNat + 1)
      cqid := Function.update x.config.cqid qid cqid
      size_pos := fun q => by
        by_cases hq : q = qid
        · rw [hq, Function.update_self]
          exact Nat.succ_pos _
        · rw [Function.update_of_ne hq]
          exact x.config.size_pos q }
    dev := { x.dev with
      dbs := Function.update x.dev.dbs qid 0
      oldDbs := Function.update x.dev.oldDbs qid 0 }
    sqLive := Function.update x.sqLive qid true }

/-- `__nvmev_admin_delete_cq` -/
def deleteCq (x : QueueDev ω σ) (qid : Nat) : QueueDev ω σ := { x with cqLive := Function.update x.cqLive qid false }

/-- `__nvmev_admin_delete_sq` -/
def deleteSq (x : QueueDev ω σ) (qid : Nat) : QueueDev ω σ := { x with sqLive := Function.update x.sqLive qid false }

/-- `nvmev_proc_dbs` looks at the queues that exist, up to `nr_sq`; and a worker that moves exists. -/
def enabled (x : QueueDev ω σ) : DevAct → Bool
  | .procDbs q => decide (1 ≤ q ∧ q ≤ x.nrSq) && x.sqLive q
  | .work k _ => decide (k < x.config.nrIoWorkers)
  | _ => true

/-- The queues a step reads from or posts to exist. -/
def finds (x : QueueDev ω σ) (a : DevAct) : Bool := (x.dev.reads a).all x.sqLive && (x.dev.fills a).all x.cqLive

/-- An admin command that names the queue `qid`, between two scans. -/
def admin (x : QueueDev ω σ) (qid : Nat) (x' : QueueDev ω σ) : Except QueueFault (QueueDev ω σ) :=
  if x.dev.scan.isSome then .error (.dev .disabled)
  else if nrMaxIoQueue < qid then .error .badQueueId
  else .ok x'

def act (x : QueueDev ω σ) : QueueAct → Except QueueFault (QueueDev ω σ)
  | .dev a =>
      if x.enabled a then
        if x.finds a then do return x.setDev (← (x.dev.act x.config H a).mapError .dev)
        else .error .nullQueue
      else .error (.dev .disabled)
  | .createCq qid qsize => x.admin qid (x.createCq qid qsize)
  | .createSq qid cqid qsize => x.admin qid (x.createSq qid cqid qsize)
  | .deleteCq qid => x.admin qid (x.deleteCq qid)
  | .deleteSq qid => x.admin qid (x.deleteSq qid)
  | .setNumQueues dword11 => x.admin 0 { x with nrSq := min (dword11 % 2 ^ 16 + 1) nrMaxIoQueue }

/-- A command of the submission queue is still to be copied. -/
def SqBusy (x : QueueDev ω σ) (q : Nat) : Prop :=
  ∃ k, k < x.config.nrIoWorkers ∧ ∃ e, (x.dev.workers k).Waits q e

/-- A completion is still to be posted to the queue, or a submission queue is mapped to it. -/
def CqBusy (x : QueueDev ω σ) (q : Nat) : Prop :=
  (∃ r, .complete r ∈ x.dev.outstanding x.config ∧ r.cqid = q) ∨ ∃ sq, x.sqLive sq = true ∧ x.config.cqid sq = q

end QueueDev

/-- **The host** maps a submission queue to a completion queue that exists, and deletes a queue only when nothing is
    left to be done for it. -/
def QueueRule (x : QueueDev ω σ) : QueueAct → Prop
  | .dev _ | .createCq .. | .setNumQueues _ => True
  | .createSq _ cqid _ => x.cqLive cqid = true
  | .deleteCq qid => ¬ x.CqBusy qid
  | .deleteSq qid => ¬ x.SqBusy qid

/-- Runs whose steps satisfy `G`. -/
inductive QueueRun (G : QueueDev ω σ → QueueAct → Prop) (x₀ : QueueDev ω σ) : QueueDev ω σ → Prop
  | refl : QueueRun G x₀ x₀
  | step {x x' : QueueDev ω σ} {a : QueueAct} : QueueRun G x₀ x → G x a → x.act H a = .ok x' → QueueRun G x₀ x'

/-! ## What the workers do -/

variable {H} {c : DevConfig} {d d' : Dev ω σ} {x x' x₀ : QueueDev ω σ} {k now q e : Nat}

theorem waits_markCopied {w : IoWorker ω} {curr : Nat} : (w.markCopied curr).Waits q e ↔ w.Waits q e ∧ e ≠ curr := by
  rw [IoWorker.Waits, IoWorker.Waits, mem_uncopied_markCopied]
  by_cases he : e = curr
  · simp [he]
  · simp [he, markCopied_of_ne he]

theorem waits_markCompleted {w : IoWorker ω} {curr : Nat} :
    (w.markCompleted curr).Waits q e ↔ w.Waits q e ∧ e ≠ curr := by
  rw [IoWorker.Waits, IoWorker.Waits, uncopied_markCompleted]
  by_cases he : e = curr
  · simp [he, IoWorker.markCompleted]
  · simp [he, markCompleted_of_ne he]

/-- **A step of a worker adds no entry to those that wait**, and takes one away only by reading from its queue. -/
theorem Worked.waits (h : Worked c H d k now d') (hok : WorkerOk (d.workers k) (d.pcs k)) (i q e : Nat) :
    ((d'.workers i).Waits q e → (d.workers i).Waits q e) ∧
      ((d.workers i).Waits q e → d.reads (.work k now) = some q ∨ (d'.workers i).Waits q e) := by
  by_cases hi : i = k
  · subst hi
    -- the worker has done with one entry
    have hdone : ∀ {w : IoWorker ω} {curr : Nat}, d'.workers i = w →
        (w.Waits q e ↔ (d.workers i).Waits q e ∧ e ≠ curr) →
        ((d.workers i).Waits q curr → d.reads (.work i now) = some q) →
        ((d'.workers i).Waits q e → (d.workers i).Waits q e) ∧
          ((d.workers i).Waits q e → d.reads (.work i now) = some q ∨ (d'.workers i).Waits q e) := by
      rintro w curr rfl hwaits hcurr
      rw [hwaits]
      refine ⟨And.left, fun hw => ?_⟩
      by_cases he : e = curr
      · exact Or.inl (hcurr (he ▸ hw))
      · exact Or.inr ⟨hw, he⟩
    cases h with
    | start _ | wrap _ | early _ _ | next _ => exact ⟨id, Or.inr⟩
    | skip _ _ _ | look _ _ _ _ =>
        rw [show Dev.workers _ i = _ from Function.update_self ..]
        exact ⟨id, Or.inr⟩
    | mark hpc hne hcompleted hcopied hint =>
        exact hdone (Function.update_self ..) waits_markCopied fun hw => absurd (hint.symm.trans hw.2.2.1) (by decide)
    | copy hpc hne hcompleted hcopied hint hio =>
        exact hdone (Function.update_self ..) waits_markCopied fun hw => by simp [Dev.reads, hpc, hne, hw.2, hcopied]
    | settle hpc hdue =>
        rw [hpc] at hok
        obtain ⟨fresh, used, io, hl, -, -, hcopied⟩ := hok
        exact hdone (Function.update_self ..) waits_markCompleted fun hw =>
          absurd (hcopied.symm.trans (IoWorker.mem_uncopied.mp hw.1).2) (by decide)
  · rw [(h.onlyWorker.others i hi).1]
    exact ⟨id, Or.inr⟩

theorem Worked.scan_eq (h : Worked c H d k now d') : d'.scan = d.scan := by
  cases h with
  | settle hpc hdue =>
      show (d.settle c H _).scan = _
      unfold Dev.settle
      split <;> rfl
  | _ => rfl

/-- A worker takes duties away. -/
theorem Worked.outstanding_le (h : Worked c H d k now d') (hk : k < c.nrIoWorkers) (hok : WorkersOk c d) :
    d'.outstanding c ≤ d.outstanding c := by
  have hmore : d.discharged ≤ d'.discharged := by
    cases h with
    | @settle curr currNsecs hpc hdue =>
        have hw := hok k hk
        rw [hpc] at hw
        obtain ⟨fresh, used, io, hl, -, hdone, -⟩ := hw
        show d.discharged ≤ (d.settle c H _).discharged
        rw [discharged_settle hdone]
        exact Multiset.le_add_left _ _
    | _ => exact le_rfl
  have hsum := (h.duties hk hok).2
  exact le_of_add_le_add_left ((add_le_add_left hmore _).trans hsum.le)

/-- What an entry owes, the device owes. -/
theorem mem_outstanding (hk : k < c.nrIoWorkers) (he : e ∈ (d.workers k).ioEntries)
    (hdone : ((d.workers k).workQueue e).isCompleted = false)
    (hint : ((d.workers k).workQueue e).isInternal = false) :
    .complete ((d.workers k).workQueue e).report ∈ d.outstanding c := by
  have hle := Finset.single_le_sum (f := fun i => (d.workers i).outstanding) (fun i _ => Multiset.zero_le _)
    (Finset.mem_range.mpr hk)
  refine Multiset.mem_of_le hle (Multiset.mem_coe.mpr (List.mem_flatMap.mpr ⟨e, he, ?_⟩))
  rw [IoWork.duties, hdone, hint]
  exact List.mem_singleton.mpr rfl

/-! ## Queues stay attached -/

/-- **Whoever names a queue finds it.** -/
structure Attached (x : QueueDev ω σ) : Prop where
  workers : WorkersOk x.config x.dev
  scanned : ∀ s, x.dev.scan = some s → x.sqLive s.sqid = true
  paired : ∀ q, x.sqLive q = true → x.cqLive (x.config.cqid q) = true
  copies : ∀ q, x.SqBusy q → x.sqLive q = true
  completes : ∀ r, .complete r ∈ x.dev.outstanding x.config → x.cqLive r.cqid = true

theorem attached_boot (config : DevConfig) (slots : Nat → Nat → NvmeCommand) (mem : IoMem) (ns : σ) :
    Attached (QueueDev.boot config (Dev.boot slots mem ns : Dev ω σ)) where
  workers := workersOk_boot slots mem ns
  scanned _ h := by cases h
  paired _ h := by cases h
  copies q hbusy := by
    obtain ⟨k, -, e, he, -⟩ := hbusy
    have hmem : e ∈ (ioWorkerInit : IoWorker ω).ioEntries := (IoWorker.mem_uncopied.mp he).1
    rw [listed_init.ioEntries_eq] at hmem
    cases hmem
  completes r hr := by
    obtain ⟨k, -, hk⟩ := Multiset.mem_sum.mp hr
    have hmem : .complete r ∈ (ioWorkerInit : IoWorker ω).outstanding := hk
    rw [IoWorker.outstanding, listed_init.ioEntries_eq] at hmem
    exact absurd hmem (Multiset.notMem_zero _)

/-- What a step reads from or posts to exists. -/
theorem Attached.finds (h : Attached x) {a : DevAct} (henabled : x.enabled a = true) : x.finds a = true := by
  rw [QueueDev.finds, Bool.and_eq_true, Option.all_eq_true, Option.all_eq_true]
  refine ⟨fun q hq => ?_, fun q hq => ?_⟩
  · cases a with
    | procIo now =>
        obtain ⟨s, hscan, rfl⟩ := Option.map_eq_some_iff.mp hq
        exact h.scanned s hscan
    | work k now =>
        have hk := of_decide_eq_true henabled
        have hw := h.workers k hk
        simp only [Dev.reads] at hq
        split at hq
        · next curr hpc =>
            rw [hpc] at hw
            split at hq
            · next hcond =>
                obtain ⟨hne, hdone, hcopied, hint⟩ := hcond
                have hmem := IoWorker.mem_uncopied.mpr ⟨hw.mem_ioEntries hne hdone, hcopied⟩
                exact h.copies q ⟨k, hk, curr, hmem, hdone, hint, Option.some.inj hq⟩
            · cases hq
        all_goals cases hq
    | _ => cases hq
  · cases a with
    | work k now =>
        have hk := of_decide_eq_true henabled
        have hw := h.workers k hk
        simp only [Dev.fills] at hq
        split at hq
        · next curr currNsecs hpc =>
            rw [hpc] at hw
            split at hq
            · next hcond =>
                obtain ⟨fresh, used, io, hl, hmem, hdone, -⟩ := hw
                rw [← hl.ioEntries_eq] at hmem
                exact Option.some.inj hq ▸ h.completes _ (mem_outstanding hk hmem hdone hcond.2)
            · cases hq
        all_goals cases hq
    | _ => cases hq

/-- **The dispatcher** takes a command from the queue that is scanned. -/
theorem Attached.procIo (h : Attached x) (hcase : ProcIo x.config H x.dev now d') (hok : WorkersOk x.config d') :
    Attached (x.setDev d') := by
  cases hcase with
  | refused hscan hseq hproc => exact { h with workers := hok, scanned := fun _ hs => by cases hs }
  | @accepted s reply cmd ns hscan hseq hproc workers entry new hothers hfed hnew hentry =>
      have hlive := h.scanned s hscan
      refine ⟨hok, fun s' hs' => ?_, h.paired, fun q hbusy => ?_, fun r hr => ?_⟩
      · cases hs'
        exact hlive
      · obtain ⟨k, hk, e, he, hdone, hint, hsqid⟩ := hbusy
        rcases uncopied_of_accepted (t := ⟨s.sqid, s.sqEntry, _, reply⟩) hothers hfed hnew hentry hk he with
          ⟨hold, hwork, -⟩ | ⟨-, -, -, hsqid', -⟩
        · dsimp only [QueueDev.setDev] at hdone hint hsqid
          rw [hwork] at hdone hint hsqid
          exact h.copies q ⟨k, hk, e, hold, hdone, hint, hsqid⟩
        · exact (hsqid'.symm.trans hsqid) ▸ hlive
      · have hsum := sum_outstanding (c := x.config) x.dev.workers workers (x.config.getIoWorker_lt s.sqid)
          (fun i hi hik => by rw [(hothers i hi hik).outstanding]; simp) hfed.outstanding
        have hr' : .complete r ∈ ∑ i ∈ Finset.range x.config.nrIoWorkers, (workers i).outstanding := hr
        rw [hsum, Multiset.mem_add] at hr'
        rcases hr' with hr' | hr'
        · have hmem := Multiset.mem_of_le hnew.within hr'
          simp only [Taken.duties, Multiset.mem_coe, List.mem_append, List.mem_map, reduceCtorEq, and_false,
            exists_false, false_or, List.mem_singleton, Duty.complete.injEq] at hmem
          rw [hmem]
          exact h.paired _ hlive
        · exact h.completes r hr'

/-- **A step of the device.** -/
theorem Attached.dev (h : Attached x) {a : DevAct} (henabled : x.enabled a = true)
    (hact : x.dev.act x.config H a = .ok d') :
    Attached (x.setDev d') := by
  have hok := workersOk_step h.workers hact
  cases act_cases h.workers hact with
  | writeSlot | ringDoorbell _ | writeMem => exact { h with workers := hok }
  | procDbs hscan hne =>
      refine ⟨hok, fun s hs => ?_, h.paired, h.copies, h.completes⟩
      cases hs
      exact (Bool.and_eq_true_iff.mp henabled).2
  | scanDone hscan hseq => exact { h with workers := hok, scanned := fun _ hs => by cases hs }
  | procIo hcase => exact h.procIo hcase hok
  | @work k now _ hk hcase =>
      refine ⟨hok, fun s hs => h.scanned s (hcase.scan_eq ▸ hs), h.paired, fun q hbusy => ?_, fun r hr => ?_⟩
      · obtain ⟨i, hi, e, hwaits⟩ := hbusy
        exact h.copies q ⟨i, hi, e, (hcase.waits (h.workers k hk) i q e).1 hwaits⟩
      · exact h.completes r (Multiset.mem_of_le (hcase.outstanding_le hk h.workers) hr)

/-- An admin command that took place was one between scans. -/
theorem admin_eq_ok {qid : Nat} {y : QueueDev ω σ} (h : x.admin qid y = .ok x') : x.dev.scan = none ∧ x' = y := by
  unfold QueueDev.admin at h
  split at h
  · cases h
  · next hscan =>
      split at h
      · cases h
      · cases h
        exact ⟨by simpa using hscan, rfl⟩

/-- One more queue is found. -/
theorem update_true {live : Nat → Bool} (qid : Nat) (h : live q = true) : Function.update live qid true q = true := by
  by_cases hq : q = qid
  · rw [hq, Function.update_self]
  · rwa [Function.update_of_ne hq]

theorem Attached.createCq (h : Attached x) (qid : Nat) (qsize : UInt16) : Attached (x.createCq qid qsize) :=
  ⟨h.workers, h.scanned, fun q hq => update_true qid (h.paired q hq), h.copies,
    fun r hr => update_true qid (h.completes r hr)⟩

theorem Attached.createSq (h : Attached x) {qid cqid : Nat} (qsize : UInt16) (hcq : x.cqLive cqid = true) :
    Attached (x.createSq qid cqid qsize) := by
  refine ⟨h.workers, fun s hs => update_true qid (h.scanned s hs), fun q hq => ?_,
    fun q hbusy => update_true qid (h.copies q hbusy), h.completes⟩
  show x.cqLive (Function.update x.config.cqid qid cqid q) = true
  by_cases hqq : q = qid
  · rw [hqq, Function.update_self]
    exact hcq
  · rw [Function.update_of_ne hqq]
    exact h.paired q (Function.update_of_ne hqq true x.sqLive ▸ hq)

theorem Attached.deleteCq (h : Attached x) {qid : Nat} (hfree : ¬ x.CqBusy qid) : Attached (x.deleteCq qid) := by
  refine ⟨h.workers, h.scanned, fun q hq => ?_, h.copies, fun r hr => ?_⟩
  · have hne : x.config.cqid q ≠ qid := fun heq => hfree (Or.inr ⟨q, hq, heq⟩)
    exact (Function.update_of_ne hne false x.cqLive).trans (h.paired q hq)
  · have hne : r.cqid ≠ qid := fun heq => hfree (Or.inl ⟨r, hr, heq⟩)
    exact (Function.update_of_ne hne false x.cqLive).trans (h.completes r hr)

theorem Attached.deleteSq (h : Attached x) {qid : Nat} (hscan : x.dev.scan = none) (hfree : ¬ x.SqBusy qid) :
    Attached (x.deleteSq qid) := by
  refine ⟨h.workers, fun s hs => ?_, fun q hq => h.paired q ?_, fun q hbusy => ?_, h.completes⟩
  · cases hscan.symm.trans hs
  · dsimp only [QueueDev.deleteSq] at hq
    by_cases hqq : q = qid
    · rw [hqq, Function.update_self] at hq
      cases hq
    · rwa [Function.update_of_ne hqq] at hq
  · have hne : q ≠ qid := fun heq => hfree (heq ▸ hbusy)
    exact (Function.update_of_ne hne false x.sqLive).trans (h.copies q hbusy)

/-- A step of the device that took place. -/
theorem act_dev_eq_ok {a : DevAct} (h : x.act H (.dev a) = .ok x') :
    x.enabled a = true ∧ ∃ d', x.dev.act x.config H a = .ok d' ∧ x' = x.setDev d' := by
  simp only [QueueDev.act] at h
  split at h
  · next henabled =>
      split at h
      · cases hdev : x.dev.act x.config H a with
        | ok d' =>
            rw [hdev] at h
            cases h
            exact ⟨henabled, d', rfl, rfl⟩
        | error f =>
            rw [hdev] at h
            cases h
      · cases h
  · cases h

theorem attached_step {a : QueueAct} (h : Attached x) (hrule : QueueRule x a) (hact : x.act H a = .ok x') :
    Attached x' := by
  cases a with
  | dev a =>
      obtain ⟨henabled, d', hdev, rfl⟩ := act_dev_eq_ok hact
      exact h.dev henabled hdev
  | createCq qid qsize => exact (admin_eq_ok hact).2 ▸ h.createCq qid qsize
  | createSq qid cqid qsize => exact (admin_eq_ok hact).2 ▸ h.createSq qsize hrule
  | deleteCq qid => exact (admin_eq_ok hact).2 ▸ h.deleteCq hrule
  | deleteSq qid => exact (admin_eq_ok hact).2 ▸ h.deleteSq (admin_eq_ok hact).1 hrule
  | setNumQueues dword11 => exact (admin_eq_ok hact).2 ▸ { h with }

theorem QueueRun.attached {G : QueueDev ω σ → QueueAct → Prop} (hG : ∀ x a, G x a → QueueRule x a)
    (h : QueueRun H G x₀ x) (h₀ : Attached x₀) : Attached x := by
  induction h with
  | refl => exact h₀
  | step _ hstep hact ih => exact attached_step ih (hG _ _ hstep) hact

theorem Attached.act_ne_nullQueue (h : Attached x) (a : DevAct) : x.act H (.dev a) ≠ .error .nullQueue := by
  simp only [QueueDev.act]
  split
  · next henabled =>
      rw [if_pos (h.finds henabled)]
      cases hdev : x.dev.act x.config H a with
      | ok d' => exact fun heq => by cases heq
      | error f => exact fun heq => by cases heq
  · exact fun heq => by cases heq

/-- **No queue pointer is followed that is `NULL`**, in any run of a host that keeps to the rule, whatever the order of
    the steps. -/
theorem queues_never_null {config : DevConfig} {slots : Nat → Nat → NvmeCommand} {mem : IoMem} {ns : σ}
    (h : QueueRun H QueueRule (QueueDev.boot config (Dev.boot slots mem ns)) x) (a : DevAct) :
    x.act H (.dev a) ≠ .error .nullQueue :=
  (h.attached (fun _ _ => id) (attached_boot config slots mem ns)).act_ne_nullQueue a

/-! ## Deleting a submission queue -/

/-- Only workers move. -/
def WorkersMove (_ : QueueDev ω σ) : QueueAct → Prop
  | .dev (.work _ _) => True
  | _ => False

/-- As long as no worker runs into the queue, the workers go on as if it were there, and the command waits. -/
theorem deleted_queue_reached (hok : WorkersOk x.config x.dev) (hdead : x.sqLive q = false)
    (hwaits : (x.dev.workers k).Waits q e) (hrun : DevRun x.config H WorkersOnly x.dev d) :
    (∃ y i now, QueueRun H WorkersMove x y ∧ y.act H (.dev (.work i now)) = .error .nullQueue) ∨
    (QueueRun H WorkersMove x (x.setDev d) ∧ (d.workers k).Waits q e) := by
  induction hrun with
  | refl => exact Or.inr ⟨.refl, hwaits⟩
  | @step d d' a hrun hG hstep ih =>
      cases a with
      | work i now =>
          rcases ih with hnull | ⟨hqueue, hwaits₁⟩
          · exact Or.inl hnull
          · have hok₁ := hrun.workersOk hok
            obtain ⟨hi, hworked⟩ : i < x.config.nrIoWorkers ∧ Worked x.config H d i now d' := by
              cases act_cases hok₁ hstep with
              | work hi hcase => exact ⟨hi, hcase⟩
            have hact : (x.setDev d).act H (.dev (.work i now)) =
                if (x.setDev d).finds (.work i now) then .ok (x.setDev d')
                else .error .nullQueue := by
              simp only [QueueDev.act]
              rw [if_pos (show (x.setDev d).enabled (.work i now) = true from
                decide_eq_true hi), show (x.setDev d).dev.act (x.setDev d).config H _ = _ from hstep]
              rfl
            cases hfinds : (x.setDev d).finds (.work i now) with
            | false =>
                rw [hfinds, if_neg Bool.false_ne_true] at hact
                exact Or.inl ⟨x.setDev d, i, now, hqueue, hact⟩
            | true =>
                rw [hfinds, if_pos rfl] at hact
                refine Or.inr ⟨hqueue.step (a := .dev (.work i now)) trivial hact, ?_⟩
                refine ((hworked.waits (hok₁ i hi) k q e).2 hwaits₁).resolve_left fun hreads => ?_
                simp [QueueDev.finds, QueueDev.setDev, hreads, hdead] at hfinds
      | _ => cases hG

/-- The workers go on as they would with the queue. -/
theorem deleted_queue_apart {y : QueueDev ω σ} (h : Attached x) (hrun : QueueRun H WorkersMove (x.deleteSq q) y) :
    ∃ d, y = (x.deleteSq q).setDev d ∧ Attached (x.setDev d) := by
  induction hrun with
  | refl => exact ⟨x.dev, rfl, h⟩
  | @step y y' a _ hG hact ih =>
      obtain ⟨d, rfl, hatt⟩ := ih
      cases a with
      | dev a =>
          cases a with
          | work k now =>
              obtain ⟨henabled, d', hdev, rfl⟩ := act_dev_eq_ok hact
              exact ⟨d', rfl, hatt.dev (a := .work k now) henabled hdev⟩
          | _ => cases hG
      | _ => cases hG

/-- The one pointer they can find `NULL` is that of the deleted queue. -/
theorem reads_of_nullQueue {now : Nat} (h : Attached (x.setDev d))
    (hnull : ((x.deleteSq q).setDev d).act H (.dev (.work k now)) = .error .nullQueue) :
    d.reads (.work k now) = some q := by
  simp only [QueueDev.act] at hnull
  split at hnull
  · next henabled =>
      obtain ⟨hreads, hfills⟩ := Bool.and_eq_true_iff.mp (h.finds (a := .work k now) henabled)
      split at hnull
      · cases hdev : ((x.deleteSq q).setDev d).dev.act ((x.deleteSq q).setDev d).config H (.work k now) with
        | ok d' =>
            rw [hdev] at hnull
            cases hnull
        | error f =>
            rw [hdev] at hnull
            cases hnull
      · next hlost =>
          by_contra hne
          refine hlost (Bool.and_eq_true_iff.mpr ⟨?_, hfills⟩)
          rw [Option.all_eq_true] at hreads ⊢
          intro r hr
          have hrq : r ≠ q := fun he => hne (he ▸ hr)
          exact (Function.update_of_ne hrq _ _).trans (hreads r hr)
  · cases hnull

/-- **Deleting a submission queue is safe exactly if no command of it is still to be copied.** The workers follow no
    `NULL` pointer, however they go on, exactly in that case, and the only one they can follow is that of the deleted
    queue. (The commands that are still to be copied have PRPs that can be walked.) -/
theorem deleteSq_safe_iff {config : DevConfig} {slots : Nat → Nat → NvmeCommand} {mem : IoMem} {ns : σ}
    (h : QueueRun H QueueRule (QueueDev.boot config (Dev.boot slots mem ns)) x) (hscan : x.dev.scan = none)
    (hcopy : Copyable x.config x.dev) (q : Nat) :
    ((∀ y, QueueRun H WorkersMove (x.deleteSq q) y → ∀ k now, y.act H (.dev (.work k now)) ≠ .error .nullQueue) ↔
      ¬ x.SqBusy q) ∧
    ∀ y, QueueRun H WorkersMove (x.deleteSq q) y → ∀ k now, y.act H (.dev (.work k now)) = .error .nullQueue →
      y.dev.reads (.work k now) = some q := by
  have hok := h.attached (fun _ _ => id) (attached_boot config slots mem ns)
  refine ⟨⟨?_, ?_⟩, fun y hy k now hnull => ?_⟩
  · rintro hsafe ⟨k, hk, e, hwaits⟩
    obtain ⟨d, hrun, hidle⟩ := exists_idle (H := H) hk hok.workers (hcopy k hk)
    have hdead : (x.deleteSq q).sqLive q = false := Function.update_self ..
    rcases deleted_queue_reached (x := x.deleteSq q) hok.workers hdead hwaits hrun.1 with
      ⟨y, i, now, hy, hnull⟩ | ⟨-, he, hdone, hint, -⟩
    · exact hsafe y hy i now hnull
    · -- a worker without duties has no such entry
      rw [IoWorker.outstanding, Multiset.coe_eq_zero, List.flatMap_eq_nil_iff] at hidle
      have hnil := hidle e (IoWorker.mem_uncopied.mp he).1
      simp [IoWork.duties, hdone, hint] at hnil
  · intro hfree y hy k now
    have hrule : ∀ (x : QueueDev ω σ) (a : QueueAct), WorkersMove x a → QueueRule x a := by
      intro x a ha
      cases a with
      | dev a => trivial
      | _ => cases ha
    exact (hy.attached hrule (hok.deleteSq hscan hfree)).act_ne_nullQueue _
  · obtain ⟨d, rfl, hatt⟩ := deleted_queue_apart hok hy
    exact reads_of_nullQueue hatt hnull

/-! ## A run -/

/-- A pair of queues, and a write in the submission queue. -/
def onePair : QueueDev InternalOp (FdpNs Unit) :=
  { ((QueueDev.boot oneWorker (writeThenFlush fdpFresh)).createCq 1 1023).createSq 1 1 1023 with nrSq := 1 }

theorem onePair_run :
    QueueRun firmwareDevice QueueRule (QueueDev.boot oneWorker (writeThenFlush fdpFresh)) onePair := by
  have hcq := QueueRun.step (H := firmwareDevice) (G := QueueRule) (a := .createCq 1 1023)
    (.refl : QueueRun _ _ (QueueDev.boot oneWorker (writeThenFlush fdpFresh)) _) trivial rfl
  have hsq := hcq.step (a := .createSq 1 1 1023) rfl rfl
  exact hsq.step (a := .setNumQueues 0) trivial rfl

/-- The write is taken, and waits. -/
theorem busyQueue_run :
    ∃ x, QueueRun firmwareDevice QueueRule (QueueDev.boot oneWorker (writeThenFlush fdpFresh)) x ∧ x.dev.scan = none ∧
      Copyable x.config x.dev ∧ x.SqBusy 1 := by
  have hobs : ([.ringDoorbell 1 1, .procDbs 1, .procIo 0, .scanDone].foldlM
      (fun x a => QueueDev.act firmwareDevice x (.dev a)) onePair).toOption.map
      (fun x => (x.dev.scan.isNone, x.config.nrIoWorkers, decide (∃ e ∈ (x.dev.workers 0).uncopied,
          (x.dev.workers 0).Waits 1 e),
        (x.dev.workers 0).uncopied.all fun e =>
          (x.dev.slots ((x.dev.workers 0).workQueue e).sqid ((x.dev.workers 0).workQueue e).sqEntry).prp2.toNat %
            pageSize == 0)) = some (true, 1, true, true) := by decide +kernel
  obtain ⟨x, hok, hsee⟩ := exists_ok_of_observed hobs
  simp only [Prod.mk.injEq] at hsee
  obtain ⟨hscan, hone, hwaits, hprps⟩ := hsee
  have hrun : QueueRun firmwareDevice QueueRule _ x :=
    of_foldlM_eq_ok (fun _ a _ hx h => hx.step (a := .dev a) trivial h) onePair_run hok
  refine ⟨x, hrun, Option.isNone_iff_eq_none.mp hscan, fun k hk e he m => ?_, ?_⟩
  · obtain rfl : k = 0 := by omega
    exact prpLoop_ne_none (beq_iff_eq.mp (List.all_eq_true.mp hprps e he)) (Or.inl (Nat.zero_le 1))
  · obtain ⟨e, -, hwait⟩ := of_decide_eq_true hwaits
    exact ⟨0, by omega, e, hwait⟩

/-- The worker reads the command of the write, and finds its queue. -/
theorem queues_never_null_write :
    ∃ x, QueueRun firmwareDevice QueueRule (QueueDev.boot oneWorker (writeThenFlush fdpFresh)) x ∧ x.SqBusy 1 ∧
      x.act firmwareDevice (.dev (.work 0 0)) ≠ .error .nullQueue := by
  obtain ⟨x, hrun, -, -, hbusy⟩ := busyQueue_run
  exact ⟨x, hrun, hbusy, queues_never_null hrun _⟩

/-- The queue is deleted before the write is copied, and the worker follows a `NULL` pointer. -/
theorem deleteSq_safe_busy :
    ∃ x, QueueRun firmwareDevice QueueRule (QueueDev.boot oneWorker (writeThenFlush fdpFresh)) x ∧ x.SqBusy 1 ∧
      ¬ ∀ y, QueueRun firmwareDevice WorkersMove (x.deleteSq 1) y →
        ∀ k now, y.act firmwareDevice (.dev (.work k now)) ≠ .error .nullQueue := by
  obtain ⟨x, hrun, hscan, hcopy, hbusy⟩ := busyQueue_run
  exact ⟨x, hrun, hbusy, fun hsafe => (deleteSq_safe_iff hrun hscan hcopy 1).1.mp hsafe hbusy⟩

end NvmeVirt
