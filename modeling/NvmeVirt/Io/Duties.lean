import NvmeVirt.Io.Lists
import Mathlib.Algebra.Order.Group.Multiset

/-!
# `Io.Duties` — what the entries of a worker still owe

An entry that is not completed owes a completion to the host, or the release of a part of the write buffer. The
dispatcher adds duties, the worker discharges them one by one, and no other operation on the lists adds or loses one.

The worker walks the list while the dispatcher moves completed entries from its head to the free list, so it may stand
on an entry that is free again. `WorkerOk` says that this does no harm: the entry it stands on has been used, and from
there it meets completed entries only.

* `enqueue_fed`, `scheduleOps_fed`, `reclaim_fed` — the dispatcher's operations, as changes of the duties.
* `WorkerOk.markCopied`, `WorkerOk.markCompleted`, `outstanding_markCompleted` — the worker's.
-/

namespace NvmeVirt

open Chain Outcome

/-! ## Duties -/

/-- A completion without its phase tag. -/
structure Report where
  sqid : Nat
  cqid : Nat
  sqEntry : Nat
  commandId : UInt16
  status : Nat
  result0 : Nat
  result1 : Nat
deriving DecidableEq, Repr

/-- A completion, or an internal operation. -/
inductive Duty (ω : Type) where
  | complete (r : Report)
  | release (op : ω)

variable {ω : Type}

/-- The completion an entry stands for. The status field of a completion has 15 bits. -/
def IoWork.report (w : IoWork ω) : Report :=
  ⟨w.sqid, w.cqid, w.sqEntry, w.commandId, w.status % 2 ^ 15, w.result0, w.result1⟩

def IoWork.duties (w : IoWork ω) : List (Duty ω) :=
  if w.isCompleted then []
  else if w.isInternal then w.op.toList.map .release
  else [.complete w.report]

namespace IoWorker

variable (w : IoWorker ω)

/-- The I/O list. -/
def ioEntries : List Nat := follow w.next noEntry nrMaxParallelIo w.ioSeq

/-- The free list. -/
def freeEntries : List Nat := follow w.next noEntry nrMaxParallelIo w.freeSeq

/-- The entries whose data has not been copied. -/
def uncopied : List Nat := w.ioEntries.filter fun e => !(w.workQueue e).isCopied

/-- The internal operations a handler scheduled, in order. -/
def scheduleOps (target : ω → Nat) (sqid : Nat) (ops : List ω) : Except IoFault (IoWorker ω) :=
  ops.foldlM (fun w op => w.scheduleInternalOperation sqid (target op) op) w

/-- The duties of all entries. -/
def outstanding : Multiset (Duty ω) := (w.ioEntries.flatMap fun e => (w.workQueue e).duties : List (Duty ω))

end IoWorker

variable {w w' w₁ w₂ : IoWorker ω} {fresh used io : List Nat} {e : Nat}

theorem Listed.ioEntries_eq (h : Listed w fresh used io) : w.ioEntries = io := by
  have hlen := h.length_add
  exact h.io_next.follow_eq (fun hm => h.ne_noEntry (List.mem_append_right _ hm) rfl) (by omega)

theorem Listed.freeEntries_eq (h : Listed w fresh used io) : w.freeEntries = fresh ++ used := by
  have hlen := h.length_add
  exact h.free.follow_eq (fun hm => h.ne_noEntry (List.mem_append_left _ hm) rfl) (by simp; omega)

theorem Listed.length_freeEntries (h : Listed w fresh used io) :
    w.freeEntries.length = fresh.length + used.length := by
  rw [h.freeEntries_eq, List.length_append]

theorem IoWorker.mem_uncopied : e ∈ w.uncopied ↔ e ∈ w.ioEntries ∧ (w.workQueue e).isCopied = false := by
  simp [IoWorker.uncopied]

/-! ## Where a worker can be -/

/-- Where a worker is in its loop. -/
inductive WorkerPc where
  /-- before `curr = worker->io_seq` -/
  | top
  /-- at `while (curr != -1)` -/
  | visit (curr : Nat)
  /-- behind the copy, with the clock reading of this round -/
  | finish (curr currNsecs : Nat)
  /-- before `curr = w->next` -/
  | advance (curr : Nat)
deriving DecidableEq, Repr

/-- The entries a worker may stand on. -/
def PcOk (w : IoWorker ω) (used io : List Nat) : WorkerPc → Prop
  | .top => True
  | .visit curr => curr = noEntry ∨ curr ∈ used ++ io
  | .finish curr _ => curr ∈ io ∧ (w.workQueue curr).isCompleted = false ∧ (w.workQueue curr).isCopied = true
  | .advance curr => curr ∈ used ++ io

/-- **The lists are intact, and the worker stands on one of them.** -/
def WorkerOk (w : IoWorker ω) (pc : WorkerPc) : Prop :=
  ∃ fresh used io, Listed w fresh used io ∧ PcOk w used io pc

variable {pc : WorkerPc}

theorem workerOk_init : WorkerOk (ioWorkerInit : IoWorker ω) .top := ⟨_, _, _, listed_init, trivial⟩

theorem WorkerOk.top (h : WorkerOk w pc) : WorkerOk w .top := by
  obtain ⟨fresh, used, io, hl, _⟩ := h
  exact ⟨fresh, used, io, hl, trivial⟩

/-- One entry is always free. -/
theorem WorkerOk.freeEntries_pos (h : WorkerOk w pc) : 0 < w.freeEntries.length := by
  obtain ⟨fresh, used, io, hl, _⟩ := h
  have hlast := hl.free_last
  rw [← hl.freeEntries_eq] at hlast
  exact List.length_pos_of_mem (List.mem_of_getLast? hlast)

/-- The head of the free list is not in the I/O list. -/
theorem WorkerOk.freeSeq_notMem (h : WorkerOk w pc) : w.freeSeq ∉ w.ioEntries := by
  obtain ⟨fresh, used, io, hl, _⟩ := h
  rw [hl.ioEntries_eq]
  have hnd := hl.nodup
  have hfree := hl.free
  cases hcons : fresh ++ used with
  | nil =>
      have hlast := hl.free_last
      rw [hcons] at hlast
      cases hlast
  | cons x tail =>
      rw [hcons] at hfree hnd
      rw [hfree.1]
      exact fun hm => (List.nodup_append.mp hnd).2.2 x (List.mem_cons_self ..) x hm rfl

/-- Entries that may be stood on stay so as long as they are used or enqueued, and the one that is being finished is
    left alone. -/
theorem PcOk.mono {used' io' : List Nat} (h : PcOk w used io pc) (hsub : ∀ x ∈ used ++ io, x ∈ used' ++ io')
    (hfin : ∀ x ∈ io, (w.workQueue x).isCompleted = false → x ∈ io' ∧ w'.workQueue x = w.workQueue x) :
    PcOk w' used' io' pc := by
  cases pc with
  | top => trivial
  | visit curr =>
      rcases h with rfl | h
      · exact Or.inl rfl
      · exact Or.inr (hsub curr h)
  | finish curr currNsecs =>
      obtain ⟨hmem, hdone, hcopied⟩ := h
      obtain ⟨hmem', hwork⟩ := hfin curr hmem hdone
      refine ⟨hmem', ?_, ?_⟩
      · rw [hwork]
        exact hdone
      · rw [hwork]
        exact hcopied
  | advance curr => exact hsub curr h

/-- An entry the worker visits is in the I/O list, unless it is completed. -/
theorem WorkerOk.mem_ioEntries {curr : Nat} (h : WorkerOk w (.visit curr)) (hne : curr ≠ noEntry)
    (hdone : (w.workQueue curr).isCompleted = false) : curr ∈ w.ioEntries := by
  obtain ⟨fresh, used, io, hl, hpc⟩ := h
  rw [hl.ioEntries_eq]
  rcases List.mem_append.mp (hpc.resolve_left hne) with hu | hio
  · rw [hl.used_completed curr hu] at hdone
    cases hdone
  · exact hio

/-! ## The dispatcher's operations -/

section Dispatcher

variable {new new₁ new₂ : List (Nat × IoWork ω)}

/-- **What the dispatcher does to a worker** that stands at `pc`: the entries `new` are filled and enqueued. -/
structure Fed (pc : WorkerPc) (w : IoWorker ω) (new : List (Nat × IoWork ω))
    (w' : IoWorker ω) : Prop where
  ok : WorkerOk w' pc
  outstanding : w'.outstanding = (new.flatMap fun x => x.2.duties : List (Duty ω)) + w.outstanding
  work : ∀ e, (e, w'.workQueue e) ∈ new ∨ w'.workQueue e = w.workQueue e
  uncopied : ∀ e ∈ w'.uncopied, (e, w'.workQueue e) ∈ new ∨
    (e ∈ w.uncopied ∧ w'.workQueue e = w.workQueue e ∧ ∀ x ∈ new, e ≠ x.1)

theorem Fed.refl (h : WorkerOk w pc) : Fed pc w [] w :=
  ⟨h, by simp, fun _ => Or.inr rfl, fun _ he => Or.inr ⟨he, rfl, by simp⟩⟩

theorem Fed.trans (h₁ : Fed pc w new₁ w₁) (h₂ : Fed pc w₁ new₂ w₂) : Fed pc w (new₂ ++ new₁) w₂ where
  ok := h₂.ok
  outstanding := by
    rw [h₂.outstanding, h₁.outstanding, List.flatMap_append, ← Multiset.coe_add, add_assoc]
  work := by
    intro e
    rcases h₂.work e with hnew | hw
    · exact Or.inl (List.mem_append_left _ hnew)
    · rcases h₁.work e with hnew | hw₀
      · exact Or.inl (List.mem_append_right _ (hw ▸ hnew))
      · exact Or.inr (hw.trans hw₀)
  uncopied := by
    intro e he
    rcases h₂.uncopied e he with hnew | ⟨he₁, hw, hne⟩
    · exact Or.inl (List.mem_append_left _ hnew)
    · rcases h₁.uncopied e he₁ with hnew | ⟨he₀, hw₀, hne₀⟩
      · exact Or.inl (List.mem_append_right _ (hw ▸ hnew))
      · refine Or.inr ⟨he₀, hw.trans hw₀, fun x hx => ?_⟩
        rcases List.mem_append.mp hx with hx | hx
        · exact hne x hx
        · exact hne₀ x hx

/-- The entry enqueued is the head of the free list, so it was in no use. -/
theorem Enqueued.fed {fill : IoWork ω → IoWork ω} {fresh' used' io' : List Nat}
    (hl : Listed w fresh used io) (hpc : PcOk w used io pc) (h : Enqueued fill w fresh used io e fresh' used' io' w') :
    Fed pc w [(w.freeSeq, fill (w.workQueue w.freeSeq))] w' := by
  have hnd := hl.nodup
  have hfree := hl.free
  rw [h.popped.append] at hnd hfree
  obtain rfl : w.freeSeq = e := hfree.1
  obtain ⟨l, r, rfl, rfl, _⟩ := h.split
  have heio : w.freeSeq ∉ l ++ r := fun hm => (List.nodup_append.mp hnd).2.2 _ (List.mem_cons_self ..) _ hm rfl
  have hold : ∀ x ∈ l ++ r, w'.workQueue x = w.workQueue x := by
    intro x hx
    rw [h.work, Function.update_of_ne]
    rintro rfl
    exact heio hx
  have hnew : w'.workQueue w.freeSeq = fill (w.workQueue w.freeSeq) := by
    rw [h.work, Function.update_self]
  refine { ok := ⟨fresh', used', _, h.listed, ?_⟩, outstanding := ?_, work := fun x => ?_, uncopied := ?_ }
  · refine hpc.mono (fun x hx => ?_) (fun x hx _ => ⟨?_, hold x hx⟩)
    · -- a used entry stays used, or it is the one enqueued
      rcases List.mem_append.mp hx with hu | hio
      · rcases h.popped with ⟨_, rfl⟩ | ⟨_, _, rfl⟩
        · exact List.mem_append_left _ hu
        · rcases List.mem_cons.mp hu with rfl | hu
          · simp
          · exact List.mem_append_left _ hu
      · simp only [List.mem_append, List.mem_cons] at hio ⊢
        tauto
    · simp only [List.mem_append, List.mem_cons] at hx ⊢
      tauto
  · rw [IoWorker.outstanding, IoWorker.outstanding, h.listed.ioEntries_eq, hl.ioEntries_eq, Multiset.coe_add,
      Multiset.coe_eq_coe]
    have hsame : ∀ m ⊆ l ++ r, (m.flatMap fun x => (w'.workQueue x).duties) = m.flatMap fun x => (w.workQueue x).duties :=
      fun m hm => List.flatMap_congr fun x hx => by rw [hold x (hm hx)]
    simp only [List.flatMap_append, List.flatMap_cons, List.flatMap_nil, List.append_nil, hnew,
      hsame l (List.subset_append_left l r), hsame r (List.subset_append_right l r)]
    exact List.perm_append_comm_assoc ..
  · by_cases hxe : x = w.freeSeq
    · subst hxe
      exact Or.inl (by rw [hnew]; exact List.mem_singleton.mpr rfl)
    · exact Or.inr (by rw [h.work, Function.update_of_ne hxe])
  · intro x hx
    rw [IoWorker.mem_uncopied, h.listed.ioEntries_eq] at hx
    by_cases hxe : x = w.freeSeq
    · subst hxe
      exact Or.inl (by rw [hnew]; exact List.mem_singleton.mpr rfl)
    · have hxio : x ∈ l ++ r := by
        have hm := hx.1
        simp only [List.mem_append, List.mem_cons] at hm ⊢
        tauto
      refine Or.inr ⟨IoWorker.mem_uncopied.mpr ⟨?_, ?_⟩, hold x hxio, by simpa using hxe⟩
      · rwa [hl.ioEntries_eq]
      · rw [← hold x hxio]
        exact hx.2

/-- **Enqueueing**, with the number of free entries. -/
theorem enqueue_fed (h : WorkerOk w pc) (fill : IoWork ω → IoWork ω) :
    (w.freeEntries.length = 1 ∧ w.enqueue fill = .ok w) ∨
    (1 < w.freeEntries.length ∧ ∃ w', w.enqueue fill = .ok w' ∧ w'.freeEntries.length + 1 = w.freeEntries.length ∧
      Fed pc w [(w.freeSeq, fill (w.workQueue w.freeSeq))] w') := by
  obtain ⟨fresh, used, io, hl, hpc⟩ := h
  rw [hl.length_freeEntries]
  rcases enqueue_spec hl fill with hfull | ⟨hroom, e, fresh', used', io', w', hok, henq⟩
  · exact Or.inl hfull
  · refine Or.inr ⟨hroom, w', hok, ?_, henq.fed hl hpc⟩
    have hlen := congrArg List.length henq.popped.append
    rw [henq.listed.length_freeEntries]
    simp only [List.length_append, List.length_cons] at hlen
    omega

/-- **Scheduling** the internal operations of a command. Those that find no entry are lost. -/
theorem scheduleOps_fed (h : WorkerOk w pc) (target : ω → Nat) (sqid : Nat) (ops : List ω) :
    ∃ w' new, w.scheduleOps target sqid ops = .ok w' ∧ Fed pc w new w' ∧
      (∀ x ∈ new, x.2.isInternal = true ∧ x.2.isCopied = true) ∧
      w'.freeEntries.length = max 1 (w.freeEntries.length - ops.length) ∧
      ((new.flatMap fun x => x.2.duties : List (Duty ω)) : Multiset (Duty ω)) ≤ (ops.map .release : List (Duty ω)) ∧
      (ops.length < w.freeEntries.length →
        ((new.flatMap fun x => x.2.duties : List (Duty ω)) : Multiset (Duty ω)) = (ops.map .release : List (Duty ω))) := by
  induction ops generalizing w with
  | nil =>
      have hpos := h.freeEntries_pos
      exact ⟨w, [], rfl, .refl h, by simp, by simp; omega, le_refl _, fun _ => rfl⟩
  | cons op ops ih =>
      have hcons : w.scheduleOps target sqid (op :: ops) =
          (w.enqueue (.fillInternal sqid (target op) op) >>= fun w => w.scheduleOps target sqid ops) := rfl
      rcases enqueue_fed h (.fillInternal sqid (target op) op) with ⟨hfull, hok⟩ | ⟨hroom, w₁, hok, hlen, hfed⟩
      · obtain ⟨w', new, hrest, hfed', hint, hfree, hle, _⟩ := ih h
        refine ⟨w', new, ?_, hfed', hint, ?_, hle.trans (Multiset.le_cons_self _ _), fun hlt => ?_⟩
        · rw [hcons, hok, ok_bind, hrest]
        · rw [hfree, hfull, List.length_cons]
          omega
        · rw [hfull, List.length_cons] at hlt
          omega
      · obtain ⟨w', new, hrest, hfed', hint, hfree, hle, hduties⟩ := ih hfed.ok
        refine ⟨w', _, ?_, hfed.trans hfed', ?_, ?_, ?_, fun hlt => ?_⟩
        · rw [hcons, hok, ok_bind, hrest]
        · intro x hx
          rcases List.mem_append.mp hx with hx | hx
          · exact hint x hx
          · rw [List.mem_singleton.mp hx]
            exact ⟨rfl, rfl⟩
        · rw [hfree, List.length_cons]
          omega
        · rw [List.flatMap_append, ← Multiset.coe_add, add_comm]
          exact Multiset.cons_le_cons _ hle
        · rw [List.length_cons] at hlt
          rw [List.flatMap_append, ← Multiset.coe_add, hduties (by omega), add_comm]
          rfl

/-- **Reclaiming** discharges no duty. -/
theorem reclaim_fed (h : WorkerOk w pc) : ∃ w', w.reclaim = .ok w' ∧ Fed pc w [] w' := by
  obtain ⟨fresh, used, io, hl, hpc⟩ := h
  obtain ⟨w', hok, hwork, _, hl'⟩ := reclaimCompleted_spec hl
  have hsplit := List.takeWhile_append_dropWhile (p := w.reclaimable) (l := io)
  have hdone : ∀ x ∈ io.takeWhile w.reclaimable, (w.workQueue x).isCompleted = true := by
    intro x hx
    have hr := List.mem_takeWhile_imp hx
    simp only [IoWorker.reclaimable, Bool.and_eq_true] at hr
    exact hr.1.1
  refine ⟨w', hok, { ok := ⟨_, _, _, hl', ?_⟩, outstanding := ?_, work := fun _ => Or.inr (by rw [hwork]),
                     uncopied := ?_ }⟩
  · refine hpc.mono (fun x hx => ?_) (fun x hx hnot => ⟨?_, by rw [hwork]⟩)
    · rwa [List.append_assoc, hsplit]
    · rw [← hsplit] at hx
      refine (List.mem_append.mp hx).resolve_left fun htake => ?_
      rw [hdone x htake] at hnot
      cases hnot
  · rw [List.flatMap_nil, Multiset.coe_nil, zero_add, IoWorker.outstanding, IoWorker.outstanding, hl'.ioEntries_eq,
      hl.ioEntries_eq, hwork]
    nth_rewrite 2 [← hsplit]
    have hnil : ((io.takeWhile w.reclaimable).flatMap fun x => (w.workQueue x).duties) = [] := by
      rw [List.flatMap_eq_nil_iff]
      intro x hx
      rw [IoWork.duties, if_pos (hdone x hx)]
    rw [List.flatMap_append, hnil, List.nil_append]
  · intro x hx
    rw [IoWorker.mem_uncopied, hl'.ioEntries_eq, hwork] at hx
    refine Or.inr ⟨IoWorker.mem_uncopied.mpr ⟨?_, hx.2⟩, by rw [hwork], by simp⟩
    rw [hl.ioEntries_eq, ← hsplit]
    exact List.mem_append_right _ hx.1

end Dispatcher

/-! ## The worker's operations -/

section Worker

variable {curr : Nat}

theorem WorkerOk.setLatest (h : WorkerOk w pc) (now : Nat) : WorkerOk { w with latestNsecs := now } pc := by
  obtain ⟨fresh, used, io, hl, hpc⟩ := h
  exact ⟨fresh, used, io, hl.setWork now hl.used_completed, hpc.mono (fun _ hx => hx) fun x hx _ => ⟨hx, rfl⟩⟩

theorem WorkerOk.start (h : WorkerOk w pc) : WorkerOk w (.visit w.ioSeq) := by
  obtain ⟨fresh, used, io, hl, _⟩ := h
  refine ⟨fresh, used, io, hl, ?_⟩
  rw [PcOk, hl.io_next.start_eq]
  cases io with
  | nil => exact Or.inl rfl
  | cons x io => exact Or.inr (by simp)

/-- From a used entry the list leads to used entries, from an enqueued one to enqueued ones. -/
theorem WorkerOk.next (h : WorkerOk w (.advance curr)) : WorkerOk w (.visit (w.next curr)) := by
  obtain ⟨fresh, used, io, hl, hmem⟩ := h
  refine ⟨fresh, used, io, hl, ?_⟩
  rcases List.mem_append.mp hmem with hu | hio
  · obtain ⟨m, _, hused⟩ := path_append.mp hl.free
    exact (hused.next_mem hu).imp id (List.mem_append_left io)
  · exact (hl.io_next.next_mem hio).imp id (List.mem_append_right used)

theorem WorkerOk.skip (h : WorkerOk w (.visit curr)) (hne : curr ≠ noEntry) : WorkerOk w (.advance curr) := by
  obtain ⟨fresh, used, io, hl, hpc⟩ := h
  exact ⟨fresh, used, io, hl, hpc.resolve_left hne⟩

theorem WorkerOk.leave {currNsecs : Nat} (h : WorkerOk w (.finish curr currNsecs)) : WorkerOk w (.advance curr) := by
  obtain ⟨fresh, used, io, hl, hpc⟩ := h
  exact ⟨fresh, used, io, hl, List.mem_append_right used hpc.1⟩

/-- After the copy. -/
theorem WorkerOk.finish (h : WorkerOk w (.visit curr)) (hne : curr ≠ noEntry)
    (hdone : (w.workQueue curr).isCompleted = false) (hcopied : (w.workQueue curr).isCopied = true)
    (currNsecs : Nat) : WorkerOk w (.finish curr currNsecs) := by
  have hmem := h.mem_ioEntries hne hdone
  obtain ⟨fresh, used, io, hl, _⟩ := h
  rw [hl.ioEntries_eq] at hmem
  exact ⟨fresh, used, io, hl, hmem, hdone, hcopied⟩

theorem markCopied_of_ne {x : Nat} (h : x ≠ curr) : (w.markCopied curr).workQueue x = w.workQueue x :=
  Function.update_of_ne h _ _

theorem markCompleted_of_ne {x : Nat} (h : x ≠ curr) : (w.markCompleted curr).workQueue x = w.workQueue x :=
  Function.update_of_ne h _ _

theorem markCopied_isCompleted (x : Nat) : ((w.markCopied curr).workQueue x).isCompleted = (w.workQueue x).isCompleted := by
  by_cases hx : x = curr
  · subst hx
    simp [IoWorker.markCopied]
  · rw [markCopied_of_ne hx]

theorem markCopied_isCopied : ((w.markCopied curr).workQueue curr).isCopied = true := by
  simp [IoWorker.markCopied]

theorem WorkerOk.markCopied (h : WorkerOk w (.visit curr)) : WorkerOk (w.markCopied curr) (.visit curr) := by
  obtain ⟨fresh, used, io, hl, hpc⟩ := h
  refine ⟨fresh, used, io, hl.setWork _ fun x hx => ?_, hpc⟩
  exact (markCopied_isCompleted x).trans (hl.used_completed x hx)

theorem WorkerOk.markCompleted {currNsecs : Nat} (h : WorkerOk w (.finish curr currNsecs)) :
    WorkerOk (w.markCompleted curr) (.advance curr) := by
  obtain ⟨fresh, used, io, hl, hpc⟩ := h
  refine ⟨fresh, used, io, hl.setWork _ fun x hx => ?_, List.mem_append_right used hpc.1⟩
  by_cases hxc : x = curr
  · simp [hxc]
  · simpa [hxc] using hl.used_completed x hx

theorem outstanding_markCopied : (w.markCopied curr).outstanding = w.outstanding := by
  unfold IoWorker.outstanding
  congr 1
  refine List.flatMap_congr fun x _ => ?_
  by_cases hx : x = curr
  · subst hx
    simp [IoWorker.markCopied, IoWork.duties, IoWork.report]
  · rw [markCopied_of_ne hx]

/-- **Completing an entry** takes its duties away, and no others. -/
theorem outstanding_markCompleted {currNsecs : Nat} (h : WorkerOk w (.finish curr currNsecs)) :
    w.outstanding = ((w.workQueue curr).duties : Multiset (Duty ω)) + (w.markCompleted curr).outstanding := by
  obtain ⟨fresh, used, io, hl, hmem, _, _⟩ := h
  have hnd := (List.nodup_append.mp hl.nodup).2.1
  unfold IoWorker.outstanding
  rw [show (w.markCompleted curr).ioEntries = w.ioEntries from rfl, hl.ioEntries_eq]
  obtain ⟨l, r, rfl⟩ := List.append_of_mem hmem
  have hl' : curr ∉ l := fun hm => (List.nodup_append.mp hnd).2.2 _ hm _ (List.mem_cons_self ..) rfl
  have hr' : curr ∉ r := (List.nodup_cons.mp (List.nodup_append.mp hnd).2.1).1
  have hsame : ∀ m : List Nat, curr ∉ m → (m.flatMap fun x => ((w.markCompleted curr).workQueue x).duties) =
      m.flatMap fun x => (w.workQueue x).duties := by
    intro m hm
    refine List.flatMap_congr fun x hx => ?_
    rw [markCompleted_of_ne fun h : x = curr => hm (h ▸ hx)]
  have hself : ((w.markCompleted curr).workQueue curr).duties = [] := by simp [IoWorker.markCompleted, IoWork.duties]
  simp only [List.flatMap_append, List.flatMap_cons, hsame l hl', hsame r hr', hself, List.nil_append]
  rw [Multiset.coe_add, Multiset.coe_eq_coe]
  exact List.perm_append_comm_assoc ..

theorem mem_uncopied_markCopied {x : Nat} :
    x ∈ (w.markCopied curr).uncopied ↔ x ∈ w.uncopied ∧ x ≠ curr := by
  rw [IoWorker.mem_uncopied, IoWorker.mem_uncopied, show (w.markCopied curr).ioEntries = w.ioEntries from rfl]
  by_cases hx : x = curr
  · subst hx
    simp [IoWorker.markCopied]
  · rw [markCopied_of_ne hx]
    simp [hx]

theorem uncopied_markCompleted : (w.markCompleted curr).uncopied = w.uncopied := by
  unfold IoWorker.uncopied
  rw [show (w.markCompleted curr).ioEntries = w.ioEntries from rfl]
  refine List.filter_congr fun x _ => ?_
  by_cases hx : x = curr
  · subst hx
    simp [IoWorker.markCompleted]
  · rw [markCompleted_of_ne hx]

end Worker

end NvmeVirt
