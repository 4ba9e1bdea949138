import NvmeVirt.Io.WorkQueue

/-!
# `Io.Lists` — the lists of a worker over whole runs

The dispatcher enqueues requests and internal operations and reclaims completed entries; the worker advances its clock
and marks entries copied and completed. Nothing is assumed of the order of these steps, of the target times or of the
entries the worker marks.

* `work_queue_partition` — the two lists never lose or share an entry, and no step fails.
* `work_queue_time_ordered` — with a clock that only goes forward the I/O list is sorted, except that entries that are
  due already may stand anywhere in front (`InOrder`).
-/

namespace NvmeVirt

open Chain Outcome

variable {ω : Type}

/-! ## The steps -/

/-- What the dispatcher and the worker do to the work queue. -/
inductive WorkAct (ω : Type) where
  | enqueueIoReq (sqid cqid sqEntry : Nat) (commandId : UInt16) (ret : NvmevResult)
  | scheduleInternalOperation (sqid nsecsTarget : Nat) (op : ω)
  | reclaim
  | clock (currNsecs : Nat)
  | markCopied (e : Nat)
  | markCompleted (e : Nat)

namespace IoWorker

variable (w : IoWorker ω)

/-- `w->is_copied = true` -/
def markCopied (e : Nat) : IoWorker ω :=
  { w with workQueue := Function.update w.workQueue e { w.workQueue e with isCopied := true } }

/-- `w->is_completed = true` -/
def markCompleted (e : Nat) : IoWorker ω :=
  { w with workQueue := Function.update w.workQueue e { w.workQueue e with isCompleted := true } }

def act : WorkAct ω → Except IoFault (IoWorker ω)
  | .enqueueIoReq sqid cqid sqEntry commandId ret => w.enqueueIoReq sqid cqid sqEntry commandId ret
  | .scheduleInternalOperation sqid nsecsTarget op => w.scheduleInternalOperation sqid nsecsTarget op
  | .reclaim => w.reclaim
  | .clock currNsecs => .ok { w with latestNsecs := currNsecs }
  | .markCopied e => .ok (w.markCopied e)
  | .markCompleted e => .ok (w.markCompleted e)

end IoWorker

/-- The runs of a worker whose steps all satisfy `G`. -/
inductive WorkRun (G : IoWorker ω → WorkAct ω → Prop) : IoWorker ω → Prop
  | boot : WorkRun G ioWorkerInit
  | step {w w' : IoWorker ω} {a : WorkAct ω} : WorkRun G w → G w a → w.act a = .ok w' → WorkRun G w'

variable {G : IoWorker ω → WorkAct ω → Prop} {w w' : IoWorker ω} {fresh used io : List Nat} {a : WorkAct ω} {e : Nat}

/-- **What a step does to the lists.** -/
inductive Relisted (w : IoWorker ω) (fresh used io : List Nat) (a : WorkAct ω) (w' : IoWorker ω) : Prop
  /-- One free entry is left, and what was to be enqueued is dropped. -/
  | dropped (hfull : fresh.length + used.length = 1) (hsame : w' = w)
  | enqueued (fill : IoWork ω → IoWork ω) {e : Nat} {fresh' used' io' : List Nat}
      (h : Enqueued fill w fresh used io e fresh' used' io' w')
  | reclaimed (hwork : w'.workQueue = w.workQueue) (hlatest : w'.latestNsecs = w.latestNsecs)
      (h : Listed w' fresh (used ++ io.takeWhile w.reclaimable) (io.dropWhile w.reclaimable))
  | marked (htarget : ∀ e, (w'.workQueue e).nsecsTarget = (w.workQueue e).nsecsTarget)
      (hlatest : w'.latestNsecs = w.latestNsecs ∨ a = .clock w'.latestNsecs) (h : Listed w' fresh used io)

theorem Relisted.listed (h : Relisted w fresh used io a w') (hw : Listed w fresh used io) :
    ∃ fresh' used' io', Listed w' fresh' used' io' := by
  cases h with
  | dropped _ hsame => exact ⟨fresh, used, io, hsame ▸ hw⟩
  | enqueued _ h => exact ⟨_, _, _, h.listed⟩
  | reclaimed _ _ h => exact ⟨_, _, _, h⟩
  | marked _ _ h => exact ⟨_, _, _, h⟩

theorem relisted_enqueue (h : Listed w fresh used io) (a : WorkAct ω) (fill : IoWork ω → IoWork ω) :
    ∃ w', w.enqueue fill = .ok w' ∧ Relisted w fresh used io a w' := by
  rcases enqueue_spec h fill with ⟨hfull, hok⟩ | ⟨_, e, fresh', used', io', w', hok, henq⟩
  · exact ⟨w, hok, .dropped hfull rfl⟩
  · exact ⟨w', hok, .enqueued fill henq⟩

/-- **Every step succeeds.** -/
theorem act_spec (h : Listed w fresh used io) (a : WorkAct ω) :
    ∃ w', w.act a = .ok w' ∧ Relisted w fresh used io a w' := by
  cases a with
  | enqueueIoReq sqid cqid sqEntry commandId ret => exact relisted_enqueue h _ _
  | scheduleInternalOperation sqid nsecsTarget op => exact relisted_enqueue h _ _
  | reclaim =>
      obtain ⟨w', hok, hwork, hlatest, hlisted⟩ := reclaimCompleted_spec h
      exact ⟨w', hok, .reclaimed hwork hlatest hlisted⟩
  | clock currNsecs =>
      exact ⟨_, rfl, .marked (fun _ => rfl) (Or.inr rfl) (h.setWork currNsecs h.used_completed)⟩
  | markCopied e =>
      refine ⟨_, rfl, .marked (fun x => ?_) (Or.inl rfl) (h.setWork w.latestNsecs fun x hx => ?_)⟩
      · by_cases hx : x = e
        · simp [IoWorker.markCopied, hx]
        · simp [IoWorker.markCopied, hx]
      · by_cases hxe : x = e
        · subst hxe
          simpa using h.used_completed x hx
        · simpa [hxe] using h.used_completed x hx
  | markCompleted e =>
      refine ⟨_, rfl, .marked (fun x => ?_) (Or.inl rfl) (h.setWork w.latestNsecs fun x hx => ?_)⟩
      · by_cases hx : x = e
        · simp [IoWorker.markCompleted, hx]
        · simp [IoWorker.markCompleted, hx]
      · by_cases hxe : x = e
        · simp [hxe]
        · simpa [hxe] using h.used_completed x hx

theorem WorkRun.listed (h : WorkRun G w) : ∃ fresh used io, Listed w fresh used io := by
  induction h with
  | boot => exact ⟨_, _, _, listed_init⟩
  | step _ _ hact ih =>
      obtain ⟨fresh, used, io, hlisted⟩ := ih
      obtain ⟨w', hok, hstep⟩ := act_spec hlisted _
      cases hact.symm.trans hok
      exact hstep.listed hlisted

/-! ## The two lists share the entries -/

/-- **The free list is `free`, the I/O list is `io`, and every entry is in exactly one of them.** -/
structure Partitioned (w : IoWorker ω) (free io : List Nat) : Prop where
  free_next : Path w.next w.freeSeq free noEntry
  io_next : Path w.next w.ioSeq io noEntry
  entries : (free ++ io).Perm (List.range nrMaxParallelIo)
  io_prev_first : io ≠ [] → w.prev w.ioSeq = noEntry
  io_prev_next : ∀ e ∈ io, w.next e ≠ noEntry → w.prev (w.next e) = e
  io_last : io ≠ [] → io.getLast? = some w.ioSeqEnd
  free_last : free.getLast? = some w.freeSeqEnd
  free_ne_nil : free ≠ []

theorem Listed.partitioned (h : Listed w fresh used io) : Partitioned w (fresh ++ used) io := by
  refine { free_next := h.free, io_next := h.io_next, entries := h.entries,
           io_prev_first := fun hne => h.io_next.prev_start (h.io_prev hne) hne, io_prev_next := ?_, io_last := ?_,
           free_last := h.free_last, free_ne_nil := ?_ }
  · intro e he hne
    exact h.io_next.prev_next (h.io_prev (List.ne_nil_of_mem he)) he hne
  · intro hne
    have hback := h.io_prev hne
    rcases List.eq_nil_or_concat' io with hnil | ⟨l, z, rfl⟩
    · exact absurd hnil hne
    · rw [List.reverse_concat] at hback
      rw [List.getLast?_concat, hback.1]
  · intro hnil
    have hlast := h.free_last
    rw [hnil] at hlast
    cases hlast

/-- **The lists never lose or share an entry**, whatever is enqueued, completed and reclaimed, in any order; and no
    step fails, so the `BUG_ON` of the allocation is never reached and every walk along a list ends. -/
theorem work_queue_partition (h : WorkRun (fun _ _ => True) w) :
    (∃ free io, Partitioned w free io) ∧ ∀ a, ∃ w', w.act a = .ok w' := by
  obtain ⟨fresh, used, io, hlisted⟩ := h.listed
  refine ⟨⟨_, _, hlisted.partitioned⟩, fun a => ?_⟩
  obtain ⟨w', hok, _⟩ := act_spec hlisted a
  exact ⟨w', hok⟩

/-- Steps that were evaluated as far as an observation. -/
theorem exists_workRun {α : Type} (G : IoWorker ω → WorkAct ω → Prop) [∀ w a, Decidable (G w a)]
    (acts : List (WorkAct ω)) (see : IoWorker ω → α) {a : α}
    (h : (acts.foldlM (admitted IoWorker.act fun w a => decide (G w a)) ioWorkerInit).map see = some a) :
    ∃ w, WorkRun G w ∧ see w = a :=
  exists_played (P := WorkRun G) (fun _ _ _ hw hG hact => .step hw (of_decide_eq_true hG) hact) .boot h

/-- Operations due at 30, 10 and 20; the second is done when the clock has passed it, and its entry reclaimed; another
    one, due at 5, comes late. -/
def reclaimedActs : List (WorkAct Unit) :=
  [.scheduleInternalOperation 1 30 (), .scheduleInternalOperation 1 10 (), .scheduleInternalOperation 1 20 (), .clock 12,
    .markCopied 1, .markCompleted 1, .reclaim, .scheduleInternalOperation 1 5 ()]

/-- Entry 1 is free again, and the others are linked. -/
theorem work_queue_partition_reclaimed :
    ∃ w : IoWorker Unit, WorkRun (fun _ _ => True) w ∧ (w.ioSeq, w.next 3, w.next 2, w.freeSeqEnd) = (3, 2, 0, 1) ∧
      (∃ free io, Partitioned w free io) ∧ ∀ a, ∃ w', w.act a = .ok w' := by
  obtain ⟨w, hrun, hsee⟩ := exists_workRun (fun _ _ => True) reclaimedActs
    (fun w => (w.ioSeq, w.next 3, w.next 2, w.freeSeqEnd)) (a := (3, 2, 0, 1)) (by decide +kernel)
  exact ⟨w, hrun, hsee, work_queue_partition hrun⟩

/-! ## The order of the I/O list -/

/-- `i` may stand before `j`. -/
def InOrder (w : IoWorker ω) (i j : Nat) : Prop :=
  (w.workQueue i).nsecsTarget ≤ (w.workQueue j).nsecsTarget ∨ (w.workQueue i).nsecsTarget ≤ w.latestNsecs

/-- The clock of the worker goes forward. -/
def ClockForward (w : IoWorker ω) : WorkAct ω → Prop
  | .clock currNsecs => w.latestNsecs ≤ currNsecs
  | _ => True

theorem InOrder.mono {i j : Nat} (h : InOrder w i j) (hi : (w'.workQueue i).nsecsTarget = (w.workQueue i).nsecsTarget)
    (hj : (w'.workQueue j).nsecsTarget = (w.workQueue j).nsecsTarget) (hle : w.latestNsecs ≤ w'.latestNsecs) :
    InOrder w' i j := by
  rw [InOrder, hi, hj]
  rcases h with h | h
  · exact Or.inl h
  · exact Or.inr (h.trans hle)

variable {l r : List Nat} {t : Nat}

/-- In front of the place of a new entry stand only entries that are due by its target. -/
theorem InsertPoint.due (h : InsertPoint w t l r) (hord : l.Pairwise (InOrder w)) : ∀ x ∈ l, DueBy w t x := by
  intro x hx
  rcases List.eq_nil_or_concat' l with rfl | ⟨m, z, rfl⟩
  · cases hx
  · have hz := h.last z List.getLast?_concat
    rcases List.mem_append.mp hx with hm | hxz
    · rcases (List.pairwise_append.mp hord).2.2 x hm z (List.mem_singleton.mpr rfl) with hle | hdue
      · -- `x` is not later than `z`
        rcases hz with hz | hz
        · exact Or.inl (hle.trans hz)
        · exact Or.inr (hle.trans hz)
      · exact Or.inl hdue
    · rw [List.mem_singleton.mp hxz]
      exact hz

/-- Enqueueing keeps the order. -/
theorem Enqueued.ordered {fill : IoWork ω → IoWork ω} {fresh' used' io' : List Nat} (hw : Listed w fresh used io)
    (h : Enqueued fill w fresh used io e fresh' used' io' w') (hord : io.Pairwise (InOrder w)) :
    io'.Pairwise (InOrder w') := by
  obtain ⟨l, r, rfl, rfl, hpoint⟩ := h.split
  have heio : e ∉ l ++ r := by
    have hnd := hw.nodup
    rw [h.popped.append] at hnd
    exact fun hm => (List.nodup_append.mp hnd).2.2 e (List.mem_cons_self ..) e hm rfl
  have hold : ∀ x ∈ l ++ r, w'.workQueue x = w.workQueue x := by
    intro x hx
    rw [h.work, Function.update_of_ne]
    rintro rfl
    exact heio hx
  have hnew : (w'.workQueue e).nsecsTarget = (fill (w.workQueue e)).nsecsTarget := by
    rw [h.work, Function.update_self]
  have hlatest := h.latest
  obtain ⟨hl, hr, hlr⟩ := List.pairwise_append.mp hord
  have hkeep : ∀ x ∈ l ++ r, ∀ y ∈ l ++ r, InOrder w x y → InOrder w' x y := by
    intro x hx y hy hxy
    exact hxy.mono (by rw [hold x hx]) (by rw [hold y hy]) (by rw [hlatest])
  have hinl : ∀ {x}, x ∈ l → x ∈ l ++ r := fun hx => List.mem_append_left r hx
  have hinr : ∀ {x}, x ∈ r → x ∈ l ++ r := fun hx => List.mem_append_right l hx
  rw [List.pairwise_append, List.pairwise_cons]
  refine ⟨?_, ⟨?_, ?_⟩, ?_⟩
  · exact List.Pairwise.imp_of_mem (fun hx hy hxy => hkeep _ (hinl hx) _ (hinl hy) hxy) hl
  · intro x hx
    have hlater := hpoint.later x hx
    rw [DueBy, not_or] at hlater
    left
    rw [hnew, hold x (hinr hx)]
    omega
  · exact List.Pairwise.imp_of_mem (fun hx hy hxy => hkeep _ (hinr hx) _ (hinr hy) hxy) hr
  · intro x hx y hy
    rcases List.mem_cons.mp hy with rfl | hy
    · rw [InOrder, hnew, hold x (hinl hx), hlatest]
      exact (hpoint.due hl x hx).symm
    · exact hkeep x (hinl hx) y (hinr hy) (hlr x hx y hy)

/-- A step keeps the order. -/
theorem Relisted.ordered (h : Relisted w fresh used io a w') (hw : Listed w fresh used io) (hclock : ClockForward w a)
    (hord : io.Pairwise (InOrder w)) :
    ∃ fresh' used' io', Listed w' fresh' used' io' ∧ io'.Pairwise (InOrder w') := by
  cases h with
  | dropped _ hsame =>
      subst hsame
      exact ⟨fresh, used, io, hw, hord⟩
  | enqueued fill h => exact ⟨_, _, _, h.listed, h.ordered hw hord⟩
  | reclaimed hwork hlatest h =>
      refine ⟨_, _, _, h, ?_⟩
      refine (hord.sublist (List.dropWhile_sublist _)).imp fun hxy => ?_
      exact hxy.mono (by rw [hwork]) (by rw [hwork]) (by rw [hlatest])
  | marked htarget hlatest h =>
      refine ⟨_, _, _, h, hord.imp fun hxy => hxy.mono (htarget _) (htarget _) ?_⟩
      rcases hlatest with heq | ha
      · rw [heq]
      · rw [ha] at hclock
        exact hclock

theorem WorkRun.ordered (h : WorkRun ClockForward w) :
    ∃ fresh used io, Listed w fresh used io ∧ io.Pairwise (InOrder w) := by
  induction h with
  | boot => exact ⟨_, _, _, listed_init, List.Pairwise.nil⟩
  | step _ hclock hact ih =>
      obtain ⟨fresh, used, io, hlisted, hord⟩ := ih
      obtain ⟨w', hok, hstep⟩ := act_spec hlisted _
      cases hact.symm.trans hok
      exact hstep.ordered hlisted hclock hord

/-- **Where a new entry `e` with target `t` goes**: after every entry of the list whose target is not later, and
    before every entry whose target is later than both its own and `latest_nsecs`. -/
def InsertedInOrder (w : IoWorker ω) (io : List Nat) (e t : Nat) (w' : IoWorker ω) : Prop :=
  ∃ l r, io = l ++ r ∧ Path w'.next w'.ioSeq (l ++ e :: r) noEntry ∧ (w'.workQueue e).nsecsTarget = t ∧
    (∀ x ∈ io, (w.workQueue x).nsecsTarget ≤ t → x ∈ l ∧ x ∉ r) ∧
    (∀ x ∈ io, t < (w.workQueue x).nsecsTarget → w.latestNsecs < (w.workQueue x).nsecsTarget → x ∈ r ∧ x ∉ l)

theorem Enqueued.insertedInOrder {fill : IoWork ω → IoWork ω} {fresh' used' io' : List Nat}
    (hw : Listed w fresh used io) (h : Enqueued fill w fresh used io e fresh' used' io' w')
    (hord : io.Pairwise (InOrder w)) :
    InsertedInOrder w io w.freeSeq (fill (w.workQueue w.freeSeq)).nsecsTarget w' := by
  obtain ⟨l, r, rfl, rfl, hpoint⟩ := h.split
  have hfree := hw.free
  rw [h.popped.append] at hfree
  rw [hfree.1]
  have hdue := hpoint.due (List.pairwise_append.mp hord).1
  refine ⟨l, r, rfl, h.listed.io_next, by rw [h.work, Function.update_self], ?_, ?_⟩
  · intro x hx hle
    have hr : x ∉ r := fun hm => hpoint.later x hm (Or.inr hle)
    exact ⟨(List.mem_append.mp hx).resolve_right hr, hr⟩
  · intro x hx hlt hlatest
    have hl : x ∉ l := by
      intro hm
      rcases hdue x hm with hd | hd
      · exact absurd hd (Nat.not_le.mpr hlatest)
      · exact absurd hd (Nat.not_le.mpr hlt)
    exact ⟨(List.mem_append.mp hx).resolve_left hl, hl⟩

/-- **The work queue stays time-ordered**, and the entry a request or an internal operation gets is linked in after
    every entry whose target is not later than its own and before every entry whose target is later than both its own
    and the clock of the worker. (With one free entry left nothing is inserted.) -/
theorem work_queue_time_ordered (h : WorkRun ClockForward w) :
    ∃ io, Path w.next w.ioSeq io noEntry ∧ io.Pairwise (InOrder w) ∧
      ∀ fill : IoWork ω → IoWork ω, ∃ w', w.enqueue fill = .ok w' ∧
        ((w.next w.freeSeq = noEntry ∧ w' = w) ∨
          InsertedInOrder w io w.freeSeq (fill (w.workQueue w.freeSeq)).nsecsTarget w') := by
  obtain ⟨fresh, used, io, hlisted, hord⟩ := h.ordered
  refine ⟨io, hlisted.io_next, hord, fun fill => ?_⟩
  rcases enqueue_spec hlisted fill with ⟨hfull, hok⟩ | ⟨_, e, fresh', used', io', w', hok, henq⟩
  · refine ⟨w, hok, Or.inl ⟨?_, rfl⟩⟩
    obtain ⟨x, hx⟩ := List.length_eq_one_iff.mp (by rwa [List.length_append] : (fresh ++ used).length = 1)
    have hfree := hlisted.free
    rw [hx] at hfree
    rw [hfree.1]
    exact hfree.2
  · exact ⟨w', hok, Or.inr (henq.insertedInOrder hlisted hord)⟩

instance (w : IoWorker ω) : (a : WorkAct ω) → Decidable (ClockForward w a)
  | .clock currNsecs => inferInstanceAs (Decidable (w.latestNsecs ≤ currNsecs))
  | .enqueueIoReq .. | .scheduleInternalOperation .. | .reclaim | .markCopied _ | .markCompleted _ =>
      inferInstanceAs (Decidable True)

/-- The late operation is linked in before those due at 20 and 30. -/
theorem work_queue_time_ordered_reclaimed :
    ∃ w : IoWorker Unit, WorkRun ClockForward w ∧ (w.ioSeq, w.next 3, w.next 2, w.freeSeqEnd) = (3, 2, 0, 1) ∧
      ∃ io, Path w.next w.ioSeq io noEntry ∧ io.Pairwise (InOrder w) ∧
        ∀ fill : IoWork Unit → IoWork Unit, ∃ w', w.enqueue fill = .ok w' ∧
          ((w.next w.freeSeq = noEntry ∧ w' = w) ∨
            InsertedInOrder w io w.freeSeq (fill (w.workQueue w.freeSeq)).nsecsTarget w') := by
  obtain ⟨w, hrun, hsee⟩ := exists_workRun ClockForward reclaimedActs
    (fun w => (w.ioSeq, w.next 3, w.next 2, w.freeSeqEnd)) (a := (3, 2, 0, 1)) (by decide +kernel)
  exact ⟨w, hrun, hsee, work_queue_time_ordered hrun⟩

end NvmeVirt
