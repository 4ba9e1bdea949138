import NvmeVirt.Io.Device
import NvmeVirt.Lib.Ring
import Mathlib.Algebra.BigOperators.Group.Finset.Basic

/-!
# `Io.Accounts` — every command taken is accounted for

In runs in which the worker has room for every command that is accepted, the duties of all commands taken are those
discharged (completions posted, operations released) and those outstanding (`DutiesAccounted`). The commands of a queue are
taken slot by slot (`Consecutive`), in any run.
-/

namespace NvmeVirt

open Chain Outcome

variable {ω σ : Type} (c : DevConfig) (H : IoHandler ω σ)

/-- The report a posted entry makes; bit 0 of its status field is the phase tag. -/
def Posted.report (p : Posted) : Report :=
  ⟨p.cqe.sqId, p.cqid, p.cqe.sqHead, p.cqe.commandId, p.cqe.status / 2, p.cqe.result0, p.cqe.result1⟩

namespace Dev

/-- The duties of all commands taken. -/
def issued (d : Dev ω σ) : Multiset (Duty ω) := (d.taken.flatMap (Taken.duties c) : List (Duty ω))

/-- The duties that were discharged. -/
def discharged (d : Dev ω σ) : Multiset (Duty ω) :=
  (d.posted.map fun p => .complete p.report : List (Duty ω)) + (d.released.map .release : List (Duty ω))

/-- The duties of the entries in the lists. -/
def outstanding (d : Dev ω σ) : Multiset (Duty ω) := ∑ k ∈ Finset.range c.nrIoWorkers, (d.workers k).outstanding

end Dev

def DutiesAccounted (d : Dev ω σ) : Prop := d.issued c = d.discharged + d.outstanding c

/-- What is discharged or outstanding was issued, once. -/
def DutiesWithin (d : Dev ω σ) : Prop := d.discharged + d.outstanding c ≤ d.issued c

/-- **Room.** The worker has a free entry for every operation the handler schedules and for the request, and one more,
    which is never handed out. -/
def Room (d : Dev ω σ) (now : Nat) : Prop :=
  ∀ s h cmd ns, d.scan = some s →
    H.procIoCmd ⟨d.slots s.sqid s.sqEntry, s.sqid, now⟩ d.ns = .ok (some h, cmd, ns) →
    h.ops.length + 2 ≤ (d.workers (c.getIoWorker s.sqid)).freeEntries.length

/-- Steps that find room. -/
def HasRoom (d : Dev ω σ) : DevAct → Prop
  | .procIo now => Room c H d now
  | _ => True

/-- Room, counted by the entries in use, so that it can be evaluated. -/
def Dev.fits (d : Dev ω σ) : DevAct → Bool
  | .procIo now => d.scan.all fun s =>
      match H.procIoCmd ⟨d.slots s.sqid s.sqEntry, s.sqid, now⟩ d.ns with
      | .ok (some h, _, _) =>
          h.ops.length + 2 + (d.workers (c.getIoWorker s.sqid)).ioEntries.length ≤ nrMaxParallelIo
      | _ => true
  | _ => true

variable {c H} {d d' : Dev ω σ} {k now : Nat}

theorem hasRoom_of_fits (hok : WorkersOk c d) {a : DevAct} (h : d.fits c H a = true) : HasRoom c H d a := by
  cases a with
  | procIo now =>
      intro s r cmd ns hscan hproc
      obtain ⟨fresh, used, io, hl, _⟩ := hok _ (c.getIoWorker_lt s.sqid)
      have hlen := hl.length_add
      simp only [Dev.fits, hscan, Option.all_some, hproc, hl.ioEntries_eq, decide_eq_true_eq] at h
      rw [hl.length_freeEntries]
      omega
  | _ => trivial

/-- Steps that were evaluated, with room, as far as an observation. -/
theorem exists_roomRun {α : Type} (c : DevConfig) (H : IoHandler ω σ) (G : Dev ω σ → DevAct → Prop)
    [∀ d a, Decidable (G d a)] (slots : Nat → Nat → NvmeCommand) (mem : IoMem) (ns : σ) (acts : List DevAct)
    (see : Dev ω σ → α) {a : α}
    (h : (acts.foldlM (Outcome.admitted (Dev.act c H) fun d a => d.fits c H a && decide (G d a))
      (Dev.boot slots mem ns)).map see = some a) :
    ∃ d, DevRun c H (fun d a => HasRoom c H d a ∧ G d a) (Dev.boot slots mem ns) d ∧ see d = a := by
  obtain ⟨d, hrun, hsee⟩ := Outcome.exists_played (P := fun d =>
    DevRun c H (fun d a => HasRoom c H d a ∧ G d a) (Dev.boot slots mem ns) d ∧ WorkersOk c d)
    (fun d x d' hd hx hact => by
      obtain ⟨hfits, hG⟩ := Bool.and_eq_true_iff.mp hx
      exact ⟨.step hd.1 ⟨hasRoom_of_fits hd.2 hfits, of_decide_eq_true hG⟩ hact, workersOk_step hd.2 hact⟩)
    ⟨.refl, workersOk_boot slots mem ns⟩ h
  exact ⟨d, hrun.1, hsee⟩

/-! ## Sums over the workers -/

/-- One worker gets more. -/
theorem sum_outstanding (ws ws' : Nat → IoWorker ω) {x : Multiset (Duty ω)} (hk : k < c.nrIoWorkers)
    (hothers : ∀ i, i < c.nrIoWorkers → i ≠ k → (ws' i).outstanding = (ws i).outstanding)
    (h : (ws' k).outstanding = x + (ws k).outstanding) :
    ∑ i ∈ Finset.range c.nrIoWorkers, (ws' i).outstanding =
      x + ∑ i ∈ Finset.range c.nrIoWorkers, (ws i).outstanding := by
  have hmem : k ∈ Finset.range c.nrIoWorkers := Finset.mem_range.mpr hk
  rw [← Finset.add_sum_erase _ _ hmem, ← Finset.add_sum_erase _ (fun i => (ws i).outstanding) hmem, h, add_assoc]
  congr 2
  refine Finset.sum_congr rfl fun i hi => ?_
  rw [Finset.mem_erase, Finset.mem_range] at hi
  exact hothers i hi.2 hi.1

/-- A worker is replaced by one with the same duties. -/
theorem outstanding_setWorker {w : IoWorker ω} (hk : k < c.nrIoWorkers)
    (h : w.outstanding = (d.workers k).outstanding) : (d.setWorker k w).outstanding c = d.outstanding c := by
  have hsum := sum_outstanding d.workers (d.setWorker k w).workers (x := 0) hk
    (fun i _ hik => by rw [d.setWorker_workers_of_ne w hik])
    (by rw [d.setWorker_workers, zero_add, h])
  rwa [zero_add] at hsum

/-! ## Steps -/

theorem accounted_boot (slots : Nat → Nat → NvmeCommand) (mem : IoMem) (ns : σ) :
    DutiesAccounted c (Dev.boot slots mem ns : Dev ω σ) := by
  have hnone : (ioWorkerInit : IoWorker ω).outstanding = 0 := by
    rw [IoWorker.outstanding, listed_init.ioEntries_eq]
    rfl
  have hzero : (Dev.boot slots mem ns : Dev ω σ).outstanding c = 0 := Finset.sum_eq_zero fun k _ => hnone
  rw [DutiesAccounted, hzero]
  rfl

/-- **A command with room** adds its duties. -/
theorem ProcIo.accounted (h : ProcIo c H d now d') (hacc : DutiesAccounted c d) (hroom : Room c H d now) :
    DutiesAccounted c d' := by
  cases h with
  | refused _ _ _ => exact hacc
  | @accepted s h cmd ns hscan hseq hproc workers entry new hothers hfed hnew hentry =>
      have hduties := hnew.room (hroom s h cmd ns hscan hproc)
      have hsum := sum_outstanding (c := c) d.workers workers (c.getIoWorker_lt s.sqid)
        (fun i hi hik => by rw [(hothers i hi hik).outstanding]; simp)
        (hfed.outstanding.trans (by rw [hduties]))
      have hissued :
          ((⟨s.sqid, s.sqEntry, d.slots s.sqid s.sqEntry, h⟩ :: d.taken).flatMap (Taken.duties c) : List (Duty ω)) =
          Taken.duties c ⟨s.sqid, s.sqEntry, d.slots s.sqid s.sqEntry, h⟩ ++ d.taken.flatMap (Taken.duties c) :=
        List.flatMap_cons
      show (((_ :: d.taken).flatMap (Taken.duties c) : List (Duty ω)) : Multiset (Duty ω)) =
        d.discharged + ∑ i ∈ Finset.range c.nrIoWorkers, (workers i).outstanding
      rw [hsum, hissued, ← Multiset.coe_add, add_left_comm]
      congr 1

theorem cqeStatus_div (phase : Bool) (ret : Nat) : cqeStatus phase ret / 2 = ret % 2 ^ 15 := by
  unfold cqeStatus
  cases phase <;> simp <;> omega

/-- **An entry that is due** goes from the outstanding duties to the discharged ones. -/
theorem discharged_settle {w : IoWork ω} (hdone : w.isCompleted = false) :
    (d.settle c H w).discharged = (w.duties : Multiset (Duty ω)) + d.discharged := by
  unfold Dev.settle IoWork.duties Dev.discharged
  rw [hdone, if_neg (Bool.false_ne_true : ¬ false = true)]
  by_cases hint : w.isInternal = true
  · rw [if_pos hint, if_pos hint]
    dsimp only
    rw [List.map_append, ← Multiset.coe_add, add_left_comm]
  · rw [if_neg hint, if_neg hint]
    have hreport : Posted.report
        ⟨w.cqid, d.cqHead w.cqid, ⟨w.result0, w.result1, w.sqEntry, w.sqid, w.commandId,
          cqeStatus (d.phase w.cqid) w.status⟩⟩ = w.report := by
      simp only [Posted.report, IoWork.report, cqeStatus_div]
    simp only [Dev.fillCqResult, List.map_cons, hreport, ← add_assoc]
    rfl

/-- **A worker** issues no duty, and what it takes from the outstanding ones it discharges. -/
theorem Worked.duties (h : Worked c H d k now d') (hk : k < c.nrIoWorkers) (hok : WorkersOk c d) :
    d'.issued c = d.issued c ∧ d'.discharged + d'.outstanding c = d.discharged + d.outstanding c := by
  have hw := hok k hk
  cases h with
  | start _ | wrap _ | early _ _ | next _ => exact ⟨rfl, rfl⟩
  | skip _ _ _ | look _ _ _ _ =>
      have hset := outstanding_setWorker (d := d) (w := { d.workers k with latestNsecs := now }) hk rfl
      exact ⟨rfl, congrArg (d.discharged + ·) hset⟩
  | @mark curr _ _ _ _ _ | @copy curr _ _ _ _ _ _ _ =>
      have hset := outstanding_setWorker (d := d)
        (w := IoWorker.markCopied { d.workers k with latestNsecs := now } curr) hk outstanding_markCopied
      exact ⟨rfl, congrArg (d.discharged + ·) hset⟩
  | @settle curr currNsecs hpc hdue =>
      rw [hpc] at hw
      have hdone : ((d.workers k).workQueue curr).isCompleted = false := by
        obtain ⟨_, _, _, _, hpcok⟩ := hw
        exact hpcok.2.1
      have hsum := sum_outstanding (Function.update d.workers k ((d.workers k).markCompleted curr)) d.workers hk
        (fun i _ hik => by rw [Function.update_of_ne hik])
        ((outstanding_markCompleted hw).trans (by rw [Function.update_self]))
      have hissued : (d.settle c H ((d.workers k).workQueue curr)).taken = d.taken := by
        unfold Dev.settle
        split <;> rfl
      have hworkers : (d.settle c H ((d.workers k).workQueue curr)).workers = d.workers := by
        unfold Dev.settle
        split <;> rfl
      refine ⟨?_, ?_⟩
      · show (((d.settle c H _).taken.flatMap (Taken.duties c) : List (Duty ω)) : Multiset (Duty ω)) = _
        rw [hissued]
        rfl
      · show (d.settle c H _).discharged +
            ∑ i ∈ Finset.range c.nrIoWorkers, (Function.update (d.settle c H _).workers k _ i).outstanding =
          d.discharged + ∑ i ∈ Finset.range c.nrIoWorkers, (d.workers i).outstanding
        rw [hworkers, discharged_settle hdone, hsum, add_assoc, add_left_comm]

theorem Worked.accounted (h : Worked c H d k now d') (hk : k < c.nrIoWorkers) (hok : WorkersOk c d)
    (hacc : DutiesAccounted c d) : DutiesAccounted c d' := by
  obtain ⟨hissued, hsame⟩ := h.duties hk hok
  rw [DutiesAccounted, hissued, hsame]
  exact hacc

/-- **A step with room keeps the accounts.** -/
theorem accounted_step {a : DevAct} (hok : WorkersOk c d) (hacc : DutiesAccounted c d) (hroom : HasRoom c H d a)
    (h : d.act c H a = .ok d') : DutiesAccounted c d' := by
  cases act_cases hok h with
  | procIo hcase => exact hcase.accounted hacc hroom
  | work hk hcase => exact hcase.accounted hk hok hacc
  | _ => exact hacc

theorem DevRun.accounted (h : DevRun c H (HasRoom c H) d d') (hok : WorkersOk c d) (hacc : DutiesAccounted c d) :
    DutiesAccounted c d' := by
  induction h with
  | refl => exact hacc
  | step hrun hroom hact ih => exact accounted_step (hrun.workersOk hok) ih hroom hact

/-! ### Without room

A duty can get lost then, but none is made up. -/

theorem ProcIo.dutiesWithin (h : ProcIo c H d now d') (hin : DutiesWithin c d) : DutiesWithin c d' := by
  cases h with
  | refused _ _ _ => exact hin
  | @accepted s h cmd ns hscan hseq hproc workers entry new hothers hfed hnew hentry =>
      have hsum := sum_outstanding (c := c) d.workers workers (c.getIoWorker_lt s.sqid)
        (fun i hi hik => by rw [(hothers i hi hik).outstanding]; simp) hfed.outstanding
      show d.discharged + ∑ i ∈ Finset.range c.nrIoWorkers, (workers i).outstanding ≤
        (((⟨s.sqid, s.sqEntry, d.slots s.sqid s.sqEntry, h⟩ :: d.taken).flatMap (Taken.duties c) : List (Duty ω)) :
          Multiset (Duty ω))
      rw [hsum, List.flatMap_cons, ← Multiset.coe_add, add_left_comm]
      exact add_le_add hnew.within hin

theorem Worked.dutiesWithin (h : Worked c H d k now d') (hk : k < c.nrIoWorkers) (hok : WorkersOk c d)
    (hin : DutiesWithin c d) : DutiesWithin c d' := by
  obtain ⟨hissued, hsame⟩ := h.duties hk hok
  rw [DutiesWithin, hissued, hsame]
  exact hin

theorem dutiesWithin_step {a : DevAct} (hok : WorkersOk c d) (hin : DutiesWithin c d) (h : d.act c H a = .ok d') :
    DutiesWithin c d' := by
  cases act_cases hok h with
  | procIo hcase => exact hcase.dutiesWithin hin
  | work hk hcase => exact hcase.dutiesWithin hk hok hin
  | _ => exact hin

/-! ## Completions -/

def Duty.reports : Duty ω → List Report
  | .complete r => [r]
  | .release _ => []

/-- The completions among the duties. -/
def completions (s : Multiset (Duty ω)) : Multiset Report := s.bind fun x => (x.reports : Multiset Report)

theorem completions_add (s t : Multiset (Duty ω)) : completions (s + t) = completions s + completions t :=
  Multiset.add_bind ..

theorem completions_coe (l : List (Duty ω)) :
    completions (l : Multiset (Duty ω)) = (l.flatMap Duty.reports : List Report) :=
  Multiset.coe_bind ..

theorem completions_eq_zero {l : List (Duty ω)} (h : ∀ r, .complete r ∉ l) : completions (l : Multiset (Duty ω)) = 0 := by
  rw [completions_coe, Multiset.coe_eq_zero, List.flatMap_eq_nil_iff]
  intro x hx
  cases x with
  | complete r => exact absurd hx (h r)
  | release op => rfl

theorem Taken.reports_duties (t : Taken ω) : (t.duties c).flatMap Duty.reports = [t.report c] := by
  have hops : (t.reply.ops.map Duty.release).flatMap Duty.reports = [] := by
    rw [List.flatMap_eq_nil_iff]
    intro x hx
    obtain ⟨op, _, rfl⟩ := List.mem_map.mp hx
    rfl
  rw [Taken.duties, List.flatMap_append, hops]
  rfl

theorem completions_issued : completions (d.issued c) = (d.taken.map (Taken.report c) : List Report) := by
  rw [Dev.issued, completions_coe, List.flatMap_assoc]
  simp only [Taken.reports_duties, List.map_eq_flatMap]

theorem completions_discharged : completions d.discharged = (d.posted.map Posted.report : List Report) := by
  have hrel : (d.released.map Duty.release).flatMap Duty.reports = [] := by simp [Duty.reports]
  rw [Dev.discharged, completions_add, completions_coe, completions_coe, hrel, Multiset.coe_nil, add_zero,
    List.flatMap_map]
  simp only [Duty.reports, List.map_eq_flatMap]

/-- **Served.** Every command taken has been completed by one posted entry, or one entry in the lists owes its
    completion; and nothing else has been posted. -/
def Served (c : DevConfig) (d : Dev ω σ) : Prop :=
  ((d.taken.map (Taken.report c) : List Report) : Multiset Report) =
    (d.posted.map Posted.report : List Report) + completions (d.outstanding c)

theorem DutiesAccounted.served (h : DutiesAccounted c d) : Served c d := by
  have hcompl := congrArg completions h
  rwa [completions_add, completions_issued, completions_discharged] at hcompl

/-- **The next command is served exactly if there is room for it.** -/
theorem ProcIo.served_iff (h : ProcIo c H d now d') (hacc : DutiesAccounted c d) : Served c d' ↔ Room c H d now := by
  refine ⟨fun hserved => ?_, fun hroom => (h.accounted hacc hroom).served⟩
  cases h with
  | refused hscan hseq hproc =>
      intro s h cmd ns hscan' hproc'
      cases hscan.symm.trans hscan'
      cases hproc.symm.trans hproc'
  | @accepted s h cmd ns hscan hseq hproc workers entry new hothers hfed hnew hentry =>
      intro s' h' cmd' ns' hscan' hproc'
      cases hscan.symm.trans hscan'
      cases hproc.symm.trans hproc'
      by_contra hfull
      -- the completion went nowhere, so the command is one too many
      have hsum := sum_outstanding (c := c) d.workers workers (c.getIoWorker_lt s.sqid)
        (fun i hi hik => by rw [(hothers i hi hik).outstanding]; simp) hfed.outstanding
      have hserved' : (((_ :: d.taken).map (Taken.report c) : List Report) : Multiset Report) =
        (d.posted.map Posted.report : List Report) +
          completions (∑ i ∈ Finset.range c.nrIoWorkers, (workers i).outstanding) := hserved
      rw [hsum, completions_add, completions_eq_zero (hnew.full hfull), zero_add] at hserved'
      have hcard := congrArg Multiset.card (hserved'.trans hacc.served.symm)
      simp at hcard

/-! ## Slots -/

namespace Dev

/-- The commands taken from a queue, newest first. -/
def takenOf (d : Dev ω σ) (q : Nat) : List (Taken ω) := d.taken.filter (·.sqid == q)

/-- The slot the dispatcher looks at next. -/
def position (d : Dev ω σ) (q : Nat) : Nat :=
  match d.scan with
  | none => d.oldDbs q
  | some s => if s.sqid = q then s.sqEntry else d.oldDbs q

end Dev

/-- **The commands of a queue are taken from slot after slot**, around the end of the queue. -/
structure Consecutive (c : DevConfig) (d : Dev ω σ) : Prop where
  order : ∀ q, ((d.takenOf q).map Taken.sqEntry).reverse =
    (List.range (d.takenOf q).length).map (· % c.queueSize q)
  position : ∀ q, d.position q = (d.takenOf q).length % c.queueSize q
  scanning : ∀ s, d.scan = some s → s.sqEntry = (s.oldDb + s.seq) % c.queueSize s.sqid

theorem consecutive_boot (slots : Nat → Nat → NvmeCommand) (mem : IoMem) (ns : σ) :
    Consecutive c (Dev.boot slots mem ns : Dev ω σ) where
  order _ := rfl
  position _ := (Nat.zero_mod _).symm
  scanning _ h := nomatch h

theorem Dev.position_of_scan {s : Scan} (hscan : d.scan = some s) : d.position s.sqid = s.sqEntry := by
  simp [Dev.position, hscan]

theorem Consecutive.position_lt (h : Consecutive c d) (q : Nat) : d.position q < c.queueSize q := by
  rw [h.position q]
  exact Nat.mod_lt _ (c.size_pos q)

/-- The end of a scan leaves the position where it is. -/
theorem Consecutive.position_endScan {s : Scan} (h : Consecutive c d) (hscan : d.scan = some s) (q : Nat) :
    (d.endScan c s).position q = d.position q := by
  unfold Dev.position
  rw [hscan]
  simp only [Dev.endScan]
  by_cases hq : s.sqid = q
  · rw [if_pos hq, hq, Function.update_self, h.scanning s hscan, hq]
  · rw [if_neg hq, Function.update_of_ne (Ne.symm hq)]

/-- So does its beginning. -/
theorem Dev.position_procDbs {q : Nat} (hscan : d.scan = none) (i : Nat) :
    Dev.position { d with scan := some ⟨q, d.dbs q, d.oldDbs q, 0, d.oldDbs q⟩ } i = d.position i := by
  unfold Dev.position
  rw [hscan]
  by_cases hq : q = i
  · simp [hq]
  · simp [hq]

theorem Consecutive.endScan {s : Scan} (h : Consecutive c d) (hscan : d.scan = some s) :
    Consecutive c (d.endScan c s) where
  order := h.order
  position q := (h.position_endScan hscan q).trans (h.position q)
  scanning _ hs := nomatch hs

theorem ProcIo.consecutive (h : ProcIo c H d now d') (hcons : Consecutive c d) : Consecutive c d' := by
  cases h with
  | @refused s cmd ns hscan hseq hproc =>
      have hcons' : Consecutive c (d.afterHandler s cmd ns) := ⟨hcons.order, hcons.position, hcons.scanning⟩
      exact hcons'.endScan hscan
  | @accepted s h cmd ns hscan hseq hproc workers entry new hothers hfed hnew hentry =>
      have hpos : s.sqEntry = (d.takenOf s.sqid).length % c.queueSize s.sqid := by
        rw [← hcons.position s.sqid, Dev.position_of_scan hscan]
      have hnext : (c.advance s).sqEntry = ((d.takenOf s.sqid).length + 1) % c.queueSize s.sqid := by
        rw [← Ring.succ_slot (c.size_pos s.sqid), ← hpos]
        rfl
      refine { order := fun q => ?_, position := fun q => ?_, scanning := fun s' hs' => ?_ }
      · by_cases hq : s.sqid = q
        · subst hq
          have horder := hcons.order s.sqid
          simp only [Dev.takenOf, List.filter_cons, beq_self_eq_true, if_true, List.map_cons, List.reverse_cons,
            List.length_cons, List.range_succ, List.map_append, List.map_nil] at horder ⊢
          rw [horder, hpos]
          rfl
        · have horder := hcons.order q
          simpa [Dev.takenOf, hq] using horder
      · by_cases hq : s.sqid = q
        · subst hq
          simpa [Dev.position, Dev.takenOf, DevConfig.advance] using hnext
        · have hposq := hcons.position q
          simpa [Dev.position, Dev.takenOf, Dev.afterHandler, DevConfig.advance, hscan, hq] using hposq
      · cases hs'
        have hold := hcons.scanning s hscan
        show (c.advance s).sqEntry = (s.oldDb + (s.seq + 1)) % c.queueSize s.sqid
        rw [← Nat.add_assoc, ← Ring.succ_slot (c.size_pos s.sqid), ← hold]
        rfl

theorem Worked.consecutive (h : Worked c H d k now d') (hcons : Consecutive c d) : Consecutive c d' := by
  cases h with
  | settle _ _ =>
      unfold Dev.settle
      split <;> exact ⟨hcons.order, hcons.position, hcons.scanning⟩
  | _ => exact ⟨hcons.order, hcons.position, hcons.scanning⟩

theorem consecutive_step {a : DevAct} (hok : WorkersOk c d) (hcons : Consecutive c d)
    (h : d.act c H a = .ok d') : Consecutive c d' := by
  cases act_cases hok h with
  | procIo hcase => exact hcase.consecutive hcons
  | work hk hcase => exact hcase.consecutive hcons
  | scanDone hscan _ => exact hcons.endScan hscan
  | @procDbs q hscan _ =>
      have hlt : d.oldDbs q < c.queueSize q := by
        have hpos := hcons.position_lt q
        simpa only [Dev.position, hscan] using hpos
      refine { order := hcons.order, position := fun q' => ?_, scanning := fun s hs => ?_ }
      · exact (Dev.position_procDbs hscan q').trans (hcons.position q')
      · cases hs
        exact (Nat.mod_eq_of_lt hlt).symm
  | _ => exact ⟨hcons.order, hcons.position, hcons.scanning⟩

theorem DevRun.consecutive {G : Dev ω σ → DevAct → Prop} (h : DevRun c H G d d') (hok : WorkersOk c d)
    (hcons : Consecutive c d) : Consecutive c d' := by
  induction h with
  | refl => exact hcons
  | step hrun _ hact ih => exact consecutive_step (hrun.workersOk hok) ih hact

end NvmeVirt
