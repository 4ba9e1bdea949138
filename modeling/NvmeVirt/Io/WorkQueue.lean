import NvmeVirt.Lib.Chain
import NvmeVirt.Lib.Outcome
import NvmeVirt.Nvme.Command
import Mathlib.Data.List.TakeWhile

/-!
# `Io.WorkQueue` — the work queue of an I/O worker (`io.c`, `nvmev.h`)

A worker has an array of work entries. Those not in use form the free list, those in use the I/O list, sorted by
target time; both are chained through the array. The dispatcher takes entries from the head of the free list, and
moves entries that the worker has completed from the head of the I/O list to the end of the free list.

The members `next` and `prev` of `struct nvmev_io_work` are kept in arrays of their own, so that what an operation on
the lists leaves alone is visible in its definition. `-1` is the value it has in `unsigned int`.

* `Listed w fresh used io` — the free list is `fresh ++ used`, where the entries of `fresh` have never been used and
  those of `used` have been completed, and the I/O list is `io`.
* `enqueue_spec`, `reclaimCompleted_spec` — the two operations on these lists.
-/

namespace NvmeVirt

open Chain Outcome

variable {ω : Type}

/-! ## The worker -/

/-- `NR_MAX_PARALLEL_IO` -/
def nrMaxParallelIo : Nat := 16384

/-- `(unsigned int)-1` -/
def noEntry : Nat := 2 ^ 32 - 1

/-- What can go wrong on the lists: a failed `BUG_ON`, or a walk that does not end. -/
inductive IoFault where
  | bug | hang
deriving DecidableEq, Repr

/-- `struct nvmev_io_work` without its links and time stamps; `op` stands for `write_buffer` and
    `buffs_to_release`. -/
structure IoWork (ω : Type) where
  sqid : Nat
  cqid : Nat
  sqEntry : Nat
  commandId : UInt16
  nsecsTarget : Nat
  isCopied : Bool
  isCompleted : Bool
  status : Nat
  result0 : Nat
  result1 : Nat
  isInternal : Bool
  op : Option ω

/-- An entry as `kzalloc` leaves it. -/
def IoWork.zero : IoWork ω := ⟨0, 0, 0, 0, 0, false, false, 0, 0, 0, false, none⟩

/-- What `__enqueue_io_req` writes into an entry. -/
def IoWork.fillRequest (sqid cqid sqEntry : Nat) (commandId : UInt16) (ret : NvmevResult) (w : IoWork ω) : IoWork ω :=
  { w with
    sqid := sqid
    cqid := cqid
    sqEntry := sqEntry
    commandId := commandId
    nsecsTarget := ret.nsecsTarget
    status := ret.status
    result0 := u32 ret.result
    result1 := u32 (ret.result / 2 ^ 32)
    isCompleted := false
    isCopied := false
    isInternal := false }

/-- What `schedule_internal_operation` writes into an entry. -/
def IoWork.fillInternal (sqid nsecsTarget : Nat) (op : ω) (w : IoWork ω) : IoWork ω :=
  { w with
    sqid := sqid
    nsecsTarget := nsecsTarget
    isCompleted := false
    isCopied := true
    isInternal := true
    op := some op }

/-- `struct nvmev_io_worker` -/
structure IoWorker (ω : Type) where
  workQueue : Nat → IoWork ω
  next : Nat → Nat
  prev : Nat → Nat
  freeSeq : Nat
  freeSeqEnd : Nat
  ioSeq : Nat
  ioSeqEnd : Nat
  latestNsecs : Nat

/-- `NVMEV_IO_WORKER_INIT`, one worker. -/
def ioWorkerInit : IoWorker ω where
  workQueue := fun _ => .zero
  next := fun i => if i = nrMaxParallelIo - 1 then noEntry else i + 1
  prev := fun i => if i = 0 then noEntry else i - 1
  freeSeq := 0
  freeSeqEnd := nrMaxParallelIo - 1
  ioSeq := noEntry
  ioSeqEnd := noEntry
  latestNsecs := 0

namespace IoWorker

variable (w : IoWorker ω)

/-- The walk of `__insert_req_sorted` back from the end. -/
def backLoop (nsecsTarget : Nat) : Nat → Nat → Except IoFault Nat
  | 0, _ => .error .hang
  | fuel + 1, curr =>
      if curr = noEntry then .ok curr
      else if (w.workQueue curr).nsecsTarget ≤ w.latestNsecs then .ok curr
      else if (w.workQueue curr).nsecsTarget ≤ nsecsTarget then .ok curr
      else backLoop nsecsTarget fuel (w.prev curr)

/-- "Head inserted" -/
def linkHead (entry : Nat) : IoWorker ω :=
  { w with
    prev := Function.update w.prev w.ioSeq entry
    next := Function.update w.next entry w.ioSeq
    ioSeq := entry }

/-- "Tail" -/
def linkTail (curr entry : Nat) : IoWorker ω :=
  { w with
    prev := Function.update w.prev entry curr
    ioSeqEnd := entry
    next := Function.update w.next curr entry }

/-- "In between" -/
def linkBetween (curr entry : Nat) : IoWorker ω :=
  { w with
    prev := Function.update (Function.update w.prev entry curr) (w.next curr) entry
    next := Function.update (Function.update w.next entry (w.next curr)) curr entry }

/-- `__insert_req_sorted` -/
def insertReqSorted (entry nsecsTarget : Nat) : Except IoFault (IoWorker ω) :=
  if w.ioSeq = noEntry then .ok { w with ioSeq := entry, ioSeqEnd := entry }
  else do
    let curr ← w.backLoop nsecsTarget (nrMaxParallelIo + 1) w.ioSeqEnd
    if curr = noEntry then return w.linkHead entry
    else if w.next curr = noEntry then return w.linkTail curr entry
    else return w.linkBetween curr entry

/-- `__allocate_work_queue_entry`: the last free entry is never handed out. `none` is the `NULL` it returns then. -/
def allocate : Except IoFault (Option (Nat × IoWorker ω)) :=
  let e := w.freeSeq
  if w.next e ≥ nrMaxParallelIo then .ok none
  else
    let w := { w with freeSeq := w.next e }
    -- `BUG_ON`
    if w.freeSeq ≥ nrMaxParallelIo then .error .bug else .ok (some (e, w))

/-- What `__enqueue_io_req` and `schedule_internal_operation` share: an entry is allocated, filled and inserted.
    Without an entry they return, and what was to be enqueued is lost. -/
def enqueue (fill : IoWork ω → IoWork ω) : Except IoFault (IoWorker ω) := do
  match ← w.allocate with
  | none => return w
  | some (entry, w) =>
      insertReqSorted
        { w with
          workQueue := Function.update w.workQueue entry (fill (w.workQueue entry))
          prev := Function.update w.prev entry noEntry
          next := Function.update w.next entry noEntry }
        entry (fill (w.workQueue entry)).nsecsTarget

/-- `__enqueue_io_req` -/
def enqueueIoReq (sqid cqid sqEntry : Nat) (commandId : UInt16) (ret : NvmevResult) : Except IoFault (IoWorker ω) :=
  w.enqueue (.fillRequest sqid cqid sqEntry commandId ret)

/-- `schedule_internal_operation` -/
def scheduleInternalOperation (sqid nsecsTarget : Nat) (op : ω) : Except IoFault (IoWorker ω) :=
  w.enqueue (.fillInternal sqid nsecsTarget op)

/-- What `__reclaim_completed_reqs` asks of an entry. -/
def reclaimable (e : Nat) : Bool :=
  (w.workQueue e).isCompleted && (w.workQueue e).isCopied && decide ((w.workQueue e).nsecsTarget ≤ w.latestNsecs)

/-- The loop of `__reclaim_completed_reqs`: the last entry to reclaim. -/
def reclaimLoop : Nat → Nat → Nat → Except IoFault Nat
  | 0, _, _ => .error .hang
  | fuel + 1, lastEntry, curr =>
      if curr = noEntry then .ok lastEntry
      else if w.reclaimable curr then reclaimLoop fuel curr (w.next curr)
      else .ok lastEntry

/-- The entries up to `lastEntry` go to the end of the free list. -/
def moveToFree (lastEntry : Nat) : IoWorker ω :=
  let rest := w.next lastEntry
  { w with
    ioSeq := rest
    prev := Function.update (if rest ≠ noEntry then Function.update w.prev rest noEntry else w.prev) w.ioSeq w.freeSeqEnd
    next := Function.update (Function.update w.next lastEntry noEntry) w.freeSeqEnd w.ioSeq
    freeSeqEnd := lastEntry }

/-- `__reclaim_completed_reqs`, one worker. -/
def reclaim : Except IoFault (IoWorker ω) := do
  let lastEntry ← w.reclaimLoop (nrMaxParallelIo + 1) noEntry w.ioSeq
  if lastEntry = noEntry then return w else return w.moveToFree lastEntry

end IoWorker

/-! ## The lists -/

/-- **The lists of a worker.** -/
structure Listed (w : IoWorker ω) (fresh used io : List Nat) : Prop where
  entries : (fresh ++ used ++ io).Perm (List.range nrMaxParallelIo)
  free : Path w.next w.freeSeq (fresh ++ used) noEntry
  free_last : (fresh ++ used).getLast? = some w.freeSeqEnd
  io_next : Path w.next w.ioSeq io noEntry
  io_prev : io ≠ [] → Path w.prev w.ioSeqEnd io.reverse noEntry
  used_completed : ∀ e ∈ used, (w.workQueue e).isCompleted = true

variable {w w' : IoWorker ω} {fresh used io : List Nat} {e : Nat}

theorem Listed.lt (h : Listed w fresh used io) (he : e ∈ fresh ++ used ++ io) : e < nrMaxParallelIo :=
  List.mem_range.mp (h.entries.mem_iff.mp he)

theorem Listed.ne_noEntry (h : Listed w fresh used io) (he : e ∈ fresh ++ used ++ io) : e ≠ noEntry := by
  have hlt := h.lt he
  have hno : nrMaxParallelIo < noEntry := by decide
  omega

theorem Listed.nodup (h : Listed w fresh used io) : (fresh ++ used ++ io).Nodup :=
  h.entries.nodup_iff.mpr List.nodup_range

theorem Listed.length_add (h : Listed w fresh used io) :
    fresh.length + used.length + io.length = nrMaxParallelIo := by
  have hlen := h.entries.length_eq
  simpa [Nat.add_assoc] using hlen

/-- Rewriting the contents of entries that stay in the I/O list, or stay completed, changes no list. -/
theorem Listed.setWork (h : Listed w fresh used io) {work : Nat → IoWork ω} (latest : Nat)
    (hused : ∀ e ∈ used, (work e).isCompleted = true) :
    Listed { w with workQueue := work, latestNsecs := latest } fresh used io :=
  { h with used_completed := hused }

theorem listed_init : Listed (ioWorkerInit : IoWorker ω) (List.range nrMaxParallelIo) [] [] := by
  have hpath : ∀ n k, k + n = nrMaxParallelIo → 0 < n →
      Path (ioWorkerInit : IoWorker ω).next k (List.range' k n) noEntry := by
    intro n
    induction n with
    | zero =>
        intro k _ hpos
        exact absurd hpos (Nat.lt_irrefl 0)
    | succ n ih =>
        intro k hk _
        refine ⟨rfl, ?_⟩
        simp only [ioWorkerInit]
        cases n with
        | zero =>
            rw [if_pos (by omega)]
            rfl
        | succ n =>
            rw [if_neg (by omega)]
            exact ih (k + 1) (by omega) (Nat.succ_pos n)
  refine { entries := by simp, free := ?_, free_last := ?_, io_next := rfl, io_prev := fun h => absurd rfl h,
           used_completed := fun _ h => by cases h }
  · rw [List.append_nil, List.range_eq_range']
    exact hpath nrMaxParallelIo 0 (Nat.zero_add _) (by decide)
  · rw [List.append_nil, List.getLast?_range]
    simp [ioWorkerInit, nrMaxParallelIo]

/-! ## Insertion -/

/-- The entry `y` is due already, or before `t`. -/
def DueBy (w : IoWorker ω) (t y : Nat) : Prop :=
  (w.workQueue y).nsecsTarget ≤ w.latestNsecs ∨ (w.workQueue y).nsecsTarget ≤ t

/-- The walk back passes the entries that are due later, and stops at one that is not. -/
theorem backLoop_spec (w : IoWorker ω) (nsecsTarget : Nat) {a fuel : Nat} {back : List Nat}
    (h : Path w.prev a back noEntry) (hno : noEntry ∉ back) (hfuel : back.length < fuel) :
    ∃ passed rest, back = passed ++ rest ∧ w.backLoop nsecsTarget fuel a = .ok (rest.headD noEntry) ∧
      (∀ x ∈ passed, ¬ DueBy w nsecsTarget x) ∧ ∀ y, rest.head? = some y → DueBy w nsecsTarget y := by
  induction back generalizing a fuel with
  | nil =>
      obtain ⟨fuel, rfl⟩ := Nat.exists_eq_succ_of_ne_zero (by omega : fuel ≠ 0)
      refine ⟨[], [], rfl, ?_, List.forall_mem_nil _, fun y hy => nomatch hy⟩
      rw [show a = noEntry from h, IoWorker.backLoop, if_pos rfl]
      rfl
  | cons x back ih =>
      obtain ⟨rfl, hback⟩ := h
      obtain ⟨fuel, rfl⟩ := Nat.exists_eq_succ_of_ne_zero (by omega : fuel ≠ 0)
      simp only [List.mem_cons, not_or] at hno
      rw [IoWorker.backLoop, if_neg (Ne.symm hno.1)]
      by_cases hstop : DueBy w nsecsTarget a
      · refine ⟨[], a :: back, rfl, ?_, List.forall_mem_nil _, ?_⟩
        · rcases hstop with hs | hs
          · rw [if_pos hs]
            rfl
          · rw [if_pos hs, ite_self]
            rfl
        · intro y hy
          cases hy
          exact hstop
      · obtain ⟨hlatest, htarget⟩ := not_or.mp hstop
        rw [if_neg hlatest, if_neg htarget]
        obtain ⟨passed, rest, rfl, hloop, hpassed, hrest⟩ := ih hback hno.2 (by simpa using hfuel)
        refine ⟨a :: passed, rest, rfl, hloop, ?_, hrest⟩
        intro x hx
        rcases List.mem_cons.mp hx with rfl | hx
        · exact hstop
        · exact hpassed x hx

/-- Where an entry with target `t` belongs: in front of the entries that are due later, right after one that is
    not. -/
structure InsertPoint (w : IoWorker ω) (t : Nat) (l r : List Nat) : Prop where
  later : ∀ x ∈ r, ¬ DueBy w t x
  last : ∀ y, l.getLast? = some y → DueBy w t y

/-- An insertion changes the links of the entries of the list and of the new one, and nothing else. -/
structure LinkedIn (w : IoWorker ω) (t : Nat) (io : List Nat) (e : Nat) (w' : IoWorker ω) : Prop where
  split : ∃ l r, io = l ++ r ∧ InsertPoint w t l r ∧ Path w'.next w'.ioSeq (l ++ e :: r) noEntry ∧
    Path w'.prev w'.ioSeqEnd (l ++ e :: r).reverse noEntry
  others : ∀ x, x ≠ e → x ∉ io → w'.next x = w.next x
  work : w'.workQueue = w.workQueue
  freeSeq : w'.freeSeq = w.freeSeq
  freeSeqEnd : w'.freeSeqEnd = w.freeSeqEnd
  latest : w'.latestNsecs = w.latestNsecs

section Link

variable {l r : List Nat} {c z t : Nat}

theorem linkedIn_head (hnext : Path w.next w.ioSeq (z :: r) noEntry)
    (hprev : Path w.prev w.ioSeqEnd (z :: r).reverse noEntry) (hz : z ∉ r) (he : e ∉ z :: r)
    (hep : w.prev e = noEntry) (hpoint : InsertPoint w t [] (z :: r)) : LinkedIn w t (z :: r) e (w.linkHead e) := by
  have hseq : w.ioSeq = z := hnext.1
  refine { split := ⟨[], z :: r, rfl, hpoint, ⟨rfl, ?_⟩, ?_⟩, others := fun x hx _ => Function.update_of_ne hx _ _,
           work := rfl, freeSeq := rfl, freeSeqEnd := rfl, latest := rfl }
  · simp only [IoWorker.linkHead, Function.update_self]
    exact hnext.update he _
  · simp only [IoWorker.linkHead, List.nil_append, List.reverse_cons, hseq] at hprev ⊢
    have hez : e ≠ z := fun h => he (by simp [h])
    rw [path_concat, Function.update_of_ne hez]
    exact ⟨hprev.redirect (by simpa using hz) e, hep⟩

theorem linkedIn_tail (hnext : Path w.next w.ioSeq (l ++ [c]) noEntry)
    (hprev : Path w.prev w.ioSeqEnd (l ++ [c]).reverse noEntry) (hc : c ∉ l) (he : e ∉ l ++ [c])
    (hen : w.next e = noEntry) (hpoint : InsertPoint w t (l ++ [c]) []) : LinkedIn w t (l ++ [c]) e (w.linkTail c e) := by
  have hec : e ≠ c := fun h => he (by simp [h])
  refine { split := ⟨l ++ [c], [], by simp, hpoint, ?_, ?_⟩, others := ?_, work := rfl, freeSeq := rfl, freeSeqEnd := rfl,
           latest := rfl }
  · simp only [IoWorker.linkTail]
    rw [path_concat, Function.update_of_ne hec]
    exact ⟨hnext.redirect hc e, hen⟩
  · simp only [IoWorker.linkTail, List.reverse_append, List.reverse_cons, List.reverse_nil, List.nil_append,
      List.singleton_append] at hprev ⊢
    refine ⟨rfl, ?_⟩
    rw [Function.update_self]
    have hend : w.ioSeqEnd = c := hprev.1
    rw [hend] at hprev
    exact hprev.update (by simpa [and_comm] using he) c
  · intro x _ hx
    exact Function.update_of_ne (fun h => hx (by simp [h])) _ _

theorem linkedIn_between (hnext : Path w.next w.ioSeq (l ++ c :: z :: r) noEntry)
    (hprev : Path w.prev w.ioSeqEnd (l ++ c :: z :: r).reverse noEntry) (hnd : (l ++ c :: z :: r).Nodup)
    (he : e ∉ l ++ c :: z :: r) (hpoint : InsertPoint w t (l ++ [c]) (z :: r)) :
    LinkedIn w t (l ++ c :: z :: r) e (w.linkBetween c e) := by
  obtain ⟨_, hnd2, hdis⟩ := List.nodup_append.mp hnd
  have hcl : c ∉ l := fun h => hdis c h c (List.mem_cons_self ..) rfl
  have hzl : z ∉ l := fun h => hdis z h z (by simp) rfl
  obtain ⟨hcr, hnd3⟩ := List.nodup_cons.mp hnd2
  have hz : w.next c = z := by
    obtain ⟨_, _, rfl, hr⟩ := path_append.mp hnext
    exact hr.1
  -- backwards, the new entry comes after `z`, which leads to `c`
  have hback : Path w.prev w.ioSeqEnd (r.reverse ++ z :: (c :: l.reverse)) noEntry := by simpa using hprev
  have hc : w.prev z = c := by
    obtain ⟨_, _, rfl, hr⟩ := path_append.mp hback
    exact hr.1
  have hins := hback.insert_after (e := e) (by simpa using (List.nodup_cons.mp hnd3).1)
    (by simpa [hzl] using fun h : z = c => hcr (h ▸ List.mem_cons_self ..))
    (by
      simp only [List.mem_append, List.mem_cons, List.mem_reverse, not_or] at he ⊢
      exact ⟨he.2.2.2, he.2.2.1, he.2.1, he.1⟩)
  refine
    { split := ⟨l ++ [c], z :: r, by simp, hpoint, ?_, ?_⟩, others := ?_, work := rfl, freeSeq := rfl, freeSeqEnd := rfl,
           latest := rfl }
  · rw [List.append_assoc]
    exact hnext.insert_after hcl hcr he
  · rw [hc] at hins
    simpa [IoWorker.linkBetween, hz] using hins
  · intro x hx hxio
    simp only [List.mem_append, List.mem_cons, not_or] at hxio
    simp only [IoWorker.linkBetween]
    rw [Function.update_of_ne hxio.2.1, Function.update_of_ne hx]

end Link

/-- **`__insert_req_sorted`** ends, and links the entry into the list. -/
theorem insertReqSorted_spec (nsecsTarget : Nat) (hnext : Path w.next w.ioSeq io noEntry)
    (hprev : io ≠ [] → Path w.prev w.ioSeqEnd io.reverse noEntry) (hnd : io.Nodup) (hno : noEntry ∉ io)
    (hlen : io.length ≤ nrMaxParallelIo) (he : e ∉ io) (hen : w.next e = noEntry) (hep : w.prev e = noEntry) :
    ∃ w', w.insertReqSorted e nsecsTarget = .ok w' ∧ LinkedIn w nsecsTarget io e w' := by
  have hstart := hnext.start_eq
  unfold IoWorker.insertReqSorted
  by_cases hio : io = []
  · subst hio
    rw [if_pos (by rw [hstart]; rfl)]
    refine ⟨_, rfl, ?_⟩
    exact { split := ⟨[], [], rfl, ⟨List.forall_mem_nil _, fun y hy => nomatch hy⟩, ⟨rfl, hen⟩, ⟨rfl, hep⟩⟩,
            others := fun _ _ _ => rfl, work := rfl, freeSeq := rfl, freeSeqEnd := rfl, latest := rfl }
  · have hback := hprev hio
    obtain ⟨passed, rest, hrev, hloop, hpassed, hrest⟩ := backLoop_spec w nsecsTarget hback (by simpa using hno)
      (by simpa using Nat.lt_succ_of_le hlen : io.reverse.length < nrMaxParallelIo + 1)
    rw [if_neg (by
      rw [hstart]
      cases io with
      | nil => exact absurd rfl hio
      | cons y io => exact fun h => hno (h ▸ List.mem_cons_self ..)), hloop, ok_bind]
    have hpoint : InsertPoint w nsecsTarget rest.reverse passed.reverse :=
      ⟨fun x hx => hpassed x (List.mem_reverse.mp hx), fun y hy => hrest y (by rwa [List.getLast?_reverse] at hy)⟩
    cases rest with
    | nil =>
        -- every entry is due later
        rw [List.headD_nil, if_pos rfl]
        refine ⟨_, rfl, ?_⟩
        have hall : passed.reverse = io := by rw [← List.reverse_reverse io, hrev, List.append_nil]
        rw [hall] at hpoint
        cases io with
        | nil => exact absurd rfl hio
        | cons z r => exact linkedIn_head hnext hback (List.nodup_cons.mp hnd).1 he hep hpoint
    | cons c rest =>
        have hsplit : io = rest.reverse ++ c :: passed.reverse := by
          rw [← List.reverse_reverse io, hrev]
          simp
        rw [hsplit] at hnext hnd hno he hback ⊢
        have hc : c ≠ noEntry := fun h => hno (by simp [h])
        have hnextc : w.next c = passed.reverse.headD noEntry := by
          obtain ⟨_, _, rfl, hr⟩ := path_append.mp hnext
          exact hr.start_eq
        rw [List.headD_cons, if_neg hc]
        cases hpassed : passed.reverse with
        | nil =>
            rw [hpassed] at hnext hnd he hback hnextc
            rw [if_pos (show w.next c = noEntry from hnextc)]
            rw [hpassed, List.reverse_cons] at hpoint
            refine ⟨_, rfl, ?_⟩
            exact linkedIn_tail hnext hback (fun h => (List.nodup_append.mp hnd).2.2 c h c (by simp) rfl) he hen hpoint
        | cons z later =>
            rw [hpassed] at hnext hnd hno he hback hnextc
            rw [if_neg (by rw [hnextc]; exact fun h : z = noEntry => hno (by simp [h]))]
            rw [hpassed, List.reverse_cons] at hpoint
            refine ⟨_, rfl, ?_⟩
            exact linkedIn_between hnext hback hnd he hpoint

/-! ## Allocation and enqueueing -/

/-- The head of the free list was taken. -/
def Popped (fresh used : List Nat) (e : Nat) (fresh' used' : List Nat) : Prop :=
  (fresh = e :: fresh' ∧ used' = used) ∨ (fresh = [] ∧ fresh' = [] ∧ used = e :: used')

theorem Popped.append {fresh' used' : List Nat} (h : Popped fresh used e fresh' used') :
    fresh ++ used = e :: (fresh' ++ used') := by
  rcases h with ⟨rfl, rfl⟩ | ⟨rfl, rfl, rfl⟩ <;> rfl

theorem exists_popped {tail : List Nat} (h : fresh ++ used = e :: tail) :
    ∃ fresh' used', Popped fresh used e fresh' used' ∧ fresh' ++ used' = tail := by
  cases fresh with
  | nil => exact ⟨[], tail, Or.inr ⟨rfl, rfl, h⟩, rfl⟩
  | cons x fresh =>
      obtain ⟨rfl, rfl⟩ := List.cons.inj h
      exact ⟨fresh, used, Or.inl ⟨rfl, rfl⟩, rfl⟩

/-- What enqueueing with an entry `e` does. -/
structure Enqueued (fill : IoWork ω → IoWork ω) (w : IoWorker ω) (fresh used io : List Nat) (e : Nat)
    (fresh' used' io' : List Nat) (w' : IoWorker ω) : Prop where
  popped : Popped fresh used e fresh' used'
  split : ∃ l r, io = l ++ r ∧ io' = l ++ e :: r ∧ InsertPoint w (fill (w.workQueue e)).nsecsTarget l r
  listed : Listed w' fresh' used' io'
  work : w'.workQueue = Function.update w.workQueue e (fill (w.workQueue e))
  latest : w'.latestNsecs = w.latestNsecs

/-- **Enqueueing** takes an entry and inserts it, or, with one free entry left, does nothing. -/
theorem enqueue_spec (h : Listed w fresh used io) (fill : IoWork ω → IoWork ω) :
    (fresh.length + used.length = 1 ∧ w.enqueue fill = .ok w) ∨
    (1 < fresh.length + used.length ∧ ∃ e fresh' used' io' w', w.enqueue fill = .ok w' ∧
      Enqueued fill w fresh used io e fresh' used' io' w') := by
  have hnd := h.nodup
  have hlen := h.length_add
  unfold IoWorker.enqueue IoWorker.allocate
  cases hfree : fresh ++ used with
  | nil =>
      have hlast := h.free_last
      rw [hfree] at hlast
      cases hlast
  | cons e tail =>
      have hpath := h.free
      rw [hfree] at hpath
      obtain ⟨hseq, htail⟩ := hpath
      have hlenfree : fresh.length + used.length = tail.length + 1 := by
        simpa using congrArg List.length hfree
      have hstart := htail.start_eq
      rw [hfree] at hnd
      cases tail with
      | nil =>
          refine Or.inl ⟨hlenfree, ?_⟩
          rw [if_pos (by rw [hseq, hstart]; decide), ok_bind]
          rfl
      | cons y tail =>
          refine Or.inr ⟨by simp only [List.length_cons] at hlenfree; omega, ?_⟩
          have hy : y < nrMaxParallelIo := h.lt (by rw [hfree]; simp)
          have hnb : ¬ w.next w.freeSeq ≥ nrMaxParallelIo := by
            rw [hseq, hstart]
            exact Nat.not_le.mpr hy
          rw [if_neg hnb, if_neg hnb, ok_bind]
          obtain ⟨hndfree, hndio, hdis⟩ := List.nodup_append.mp hnd
          have hetail : e ∉ y :: tail := (List.nodup_cons.mp hndfree).1
          have heio : e ∉ io := fun hm => hdis e (List.mem_cons_self ..) e hm rfl
          -- the entry filled, in neither list
          simp only [hseq, hstart, List.headD_cons]
          set w1 : IoWorker ω :=
            { w with
              freeSeq := y
              workQueue := Function.update w.workQueue e (fill (w.workQueue e))
              prev := Function.update w.prev e noEntry
              next := Function.update w.next e noEntry } with hw1
          obtain ⟨w', hins, hlink⟩ := insertReqSorted_spec (w := w1) (e := e) (fill (w.workQueue e)).nsecsTarget
            (h.io_next.update heio _) (fun hne => (h.io_prev hne).update (by simpa using heio) _) hndio
            (fun hm => h.ne_noEntry (List.mem_append_right _ hm) rfl) (by omega) heio
            (Function.update_self ..) (Function.update_self ..)
          obtain ⟨l, r, hsplit, hpoint, hnext, hprev⟩ := hlink.split
          have hpoint' : InsertPoint w (fill (w.workQueue e)).nsecsTarget l r := by
            have hsame : ∀ x ∈ io, w1.workQueue x = w.workQueue x := by
              intro x hx
              exact Function.update_of_ne (fun hxe : x = e => heio (hxe ▸ hx)) _ _
            rw [hsplit] at hsame
            refine ⟨fun x hx => ?_, fun y hy => ?_⟩
            · have hlater := hpoint.later x hx
              rwa [DueBy, hsame x (List.mem_append_right l hx)] at hlater
            · have hlast := hpoint.last y hy
              rwa [DueBy, hsame y (List.mem_append_left r (List.mem_of_getLast? hy))] at hlast
          obtain ⟨fresh', used', hpop, htl⟩ := exists_popped hfree
          refine ⟨e, fresh', used', l ++ e :: r, w', hins, hpop, ⟨l, r, hsplit, rfl, hpoint'⟩, ?_, hlink.work,
            hlink.latest⟩
          refine { entries := ?_, free := ?_, free_last := ?_, io_next := hnext, io_prev := fun _ => hprev,
                   used_completed := ?_ }
          · refine List.Perm.trans ?_ h.entries
            rw [htl, hfree, hsplit]
            exact (List.perm_middle.append_left (y :: tail)).trans List.perm_middle
          · rw [htl, hlink.freeSeq]
            rw [show w.next e = y from hstart] at htail
            refine (htail.update hetail noEntry).congr fun x hx => ?_
            refine hlink.others x (fun hxe => hetail (hxe ▸ hx)) fun hxio => ?_
            exact hdis x (List.mem_cons_of_mem e hx) x hxio rfl
          · have hlast := h.free_last
            rw [hfree, List.getLast?_cons_cons] at hlast
            rw [htl, hlink.freeSeqEnd]
            exact hlast
          · intro x hx
            have hxe : x ≠ e := by
              rintro rfl
              exact hetail (htl ▸ List.mem_append_right _ hx)
            rw [hlink.work, hw1]
            simp only [Function.update_of_ne hxe]
            refine h.used_completed x ?_
            rcases hpop with ⟨_, rfl⟩ | ⟨_, _, rfl⟩
            · exact hx
            · exact List.mem_cons_of_mem e hx

/-! ## Reclaiming -/

theorem reclaimLoop_spec (w : IoWorker ω) {a fuel last : Nat} {io : List Nat} (h : Path w.next a io noEntry)
    (hno : noEntry ∉ io) (hfuel : io.length < fuel) :
    w.reclaimLoop fuel last a = .ok ((io.takeWhile w.reclaimable).getLastD last) := by
  induction io generalizing a fuel last with
  | nil =>
      obtain ⟨fuel, rfl⟩ := Nat.exists_eq_succ_of_ne_zero (by omega : fuel ≠ 0)
      rw [show a = noEntry from h, IoWorker.reclaimLoop, if_pos rfl]
      rfl
  | cons x io ih =>
      obtain ⟨rfl, hpath⟩ := h
      obtain ⟨fuel, rfl⟩ := Nat.exists_eq_succ_of_ne_zero (by omega : fuel ≠ 0)
      simp only [List.mem_cons, not_or] at hno
      rw [IoWorker.reclaimLoop, if_neg (Ne.symm hno.1)]
      by_cases hr : w.reclaimable a
      · rw [if_pos hr, ih hpath hno.2 (by simpa using hfuel), List.takeWhile_cons_of_pos hr, List.getLastD_cons]
      · rw [if_neg hr, List.takeWhile_cons_of_neg hr]
        rfl

theorem Listed.moveToFree {m r : List Nat} {z : Nat} (h : Listed w fresh used (m ++ [z] ++ r))
    (hdone : ∀ e ∈ m ++ [z], (w.workQueue e).isCompleted = true) :
    Listed (w.moveToFree z) fresh (used ++ (m ++ [z])) r := by
  obtain ⟨hndfree, hndio, hdis⟩ := List.nodup_append.mp h.nodup
  obtain ⟨hndl, hndr, hdis2⟩ := List.nodup_append.mp hndio
  have hzm : z ∉ m := fun hm => (List.nodup_append.mp hndl).2.2 z hm z (by simp) rfl
  have hzr : z ∉ r := fun hm => hdis2 z (by simp) z hm rfl
  -- the free list, up to its last entry
  obtain ⟨f, hf⟩ : ∃ f, fresh ++ used = f ++ [w.freeSeqEnd] := by
    obtain ⟨f, hf⟩ := List.getLast?_eq_some_iff.mp h.free_last
    exact ⟨f, hf⟩
  have hfree := h.free
  rw [hf] at hfree hndfree
  have hzf : z ∉ f ++ [w.freeSeqEnd] := fun hm => hdis z (hf ▸ hm) z (by simp) rfl
  have hef : w.freeSeqEnd ∉ f := fun hm => (List.nodup_append.mp hndfree).2.2 _ hm _ (by simp) rfl
  have heio : w.freeSeqEnd ∉ m ++ [z] ++ r := fun hm => hdis _ (hf ▸ by simp) _ hm rfl
  simp only [List.mem_append, not_or] at heio
  obtain ⟨a, hl, hr⟩ := path_append.mp h.io_next
  have ha : w.next z = a := (path_concat.mp hl).2
  refine { entries := ?_, free := ?_, free_last := ?_, io_next := ?_, io_prev := ?_, used_completed := ?_ }
  · have hperm := h.entries
    simp only [List.append_assoc] at hperm ⊢
    exact hperm
  · -- the old free list, whose last entry now leads to the entries moved
    rw [← List.append_assoc, hf, path_append]
    refine ⟨w.ioSeq, (hfree.update hzf noEntry).redirect hef w.ioSeq, ?_⟩
    refine (hl.redirect hzm noEntry).update ?_ w.ioSeq
    simpa using heio.1
  · rw [← List.append_assoc, ← List.append_assoc, List.getLast?_concat]
    rfl
  · simp only [IoWorker.moveToFree, ha]
    exact (hr.update hzr noEntry).update heio.2 w.ioSeq
  · intro hne
    have hprev := h.io_prev (by simp)
    cases r with
    | nil => exact absurd rfl hne
    | cons y r =>
        have hy : w.next z = y := ha.trans hr.1
        have hyno : y ≠ noEntry := h.ne_noEntry (by simp)
        have hseq : w.ioSeq ∉ y :: r := by
          intro hm
          have hin : w.ioSeq ∈ m ++ [z] := by
            rw [hl.start_eq]
            cases m <;> simp
          exact hdis2 _ hin _ hm rfl
        simp only [IoWorker.moveToFree, hy]
        rw [if_pos hyno]
        -- what is left of the way back ends at the new head
        rw [List.reverse_append, List.reverse_cons] at hprev
        obtain ⟨b, hback, _⟩ := path_append.mp hprev
        rw [List.reverse_cons]
        refine (hback.redirect (by simpa using (List.nodup_cons.mp hndr).1) noEntry).update ?_ w.freeSeqEnd
        simpa [and_comm] using hseq
  · intro e he
    rcases List.mem_append.mp he with he | he
    · exact h.used_completed e he
    · exact hdone e he

/-- **Reclaiming** moves completed entries from the head of the I/O list to the end of the free list. -/
theorem reclaimCompleted_spec (h : Listed w fresh used io) :
    ∃ w', w.reclaim = .ok w' ∧ w'.workQueue = w.workQueue ∧ w'.latestNsecs = w.latestNsecs ∧
      Listed w' fresh (used ++ io.takeWhile w.reclaimable) (io.dropWhile w.reclaimable) := by
  have hlen := h.length_add
  have hno : noEntry ∉ io := fun hm => h.ne_noEntry (List.mem_append_right _ hm) rfl
  have hsplit := List.takeWhile_append_dropWhile (p := w.reclaimable) (l := io)
  have hall : ∀ e ∈ io.takeWhile w.reclaimable, w.reclaimable e = true := fun e he => List.mem_takeWhile_imp he
  unfold IoWorker.reclaim
  rw [reclaimLoop_spec w h.io_next hno (by omega), ok_bind]
  rcases List.eq_nil_or_concat' (io.takeWhile w.reclaimable) with hnil | ⟨m, z, hmz⟩
  · refine ⟨w, by simp [hnil], rfl, rfl, ?_⟩
    rw [hnil] at hsplit
    rw [hnil, List.append_nil, ← List.nil_append (List.dropWhile _ io), hsplit]
    exact h
  · have hz : z ≠ noEntry := by
      rintro rfl
      exact hno (hsplit ▸ by simp [hmz])
    rw [hmz] at hsplit hall ⊢
    refine ⟨w.moveToFree z, by simp [hz], rfl, rfl, ?_⟩
    refine Listed.moveToFree (by rw [hsplit]; exact h) fun e he => ?_
    have hr := hall e he
    simp only [IoWorker.reclaimable, Bool.and_eq_true] at hr
    exact hr.1.1

end NvmeVirt
