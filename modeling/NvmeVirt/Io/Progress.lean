import NvmeVirt.Io.Accounts

/-!
# `Io.Progress` — the workers finish what is outstanding

Left to themselves, with clocks that reach the target times, the workers discharge every duty: wherever a worker
stands, the list it is on comes to an end (`exists_pass`); it then starts over, and the next pass completes every entry.
The only thing that can stop it is a command whose PRPs lead through a `NULL` list pointer.
-/

namespace NvmeVirt

open Chain Outcome

variable {ω σ : Type} {c : DevConfig} {H : IoHandler ω σ}

/-- Only workers move. -/
def WorkersOnly (_ : Dev ω σ) : DevAct → Prop
  | .work _ _ => True
  | _ => False

instance (d : Dev ω σ) (a : DevAct) : Decidable (WorkersOnly d a) := by
  unfold WorkersOnly
  split <;> infer_instance

/-- The data of an entry can be copied, whatever is in memory. -/
def EntryCopyable (c : DevConfig) (d : Dev ω σ) (k e : Nat) : Prop :=
  ∀ m, doPerformIo c.pfnValid
    (d.slots ((d.workers k).workQueue e).sqid ((d.workers k).workQueue e).sqEntry) m ≠ none

/-- The entries of a worker that are still to be copied can be. -/
def WorkerCopyable (c : DevConfig) (d : Dev ω σ) (k : Nat) : Prop :=
  ∀ e ∈ (d.workers k).uncopied, EntryCopyable c d k e

/-- The commands whose data is still to be copied have no `NULL` in the way. -/
def Copyable (c : DevConfig) (d : Dev ω σ) : Prop := ∀ k, k < c.nrIoWorkers → WorkerCopyable c d k

/-- **What steps of worker `k` leave alone.** -/
structure OnlyWorker (k : Nat) (d d' : Dev ω σ) : Prop where
  slots : d'.slots = d.slots
  taken : d'.taken = d.taken
  others : ∀ i, i ≠ k → d'.workers i = d.workers i ∧ d'.pcs i = d.pcs i
  next : (d'.workers k).next = (d.workers k).next
  ioSeq : (d'.workers k).ioSeq = (d.workers k).ioSeq
  sqid : ∀ e, ((d'.workers k).workQueue e).sqid = ((d.workers k).workQueue e).sqid
  sqEntry : ∀ e, ((d'.workers k).workQueue e).sqEntry = ((d.workers k).workQueue e).sqEntry
  completed : ∀ e, ((d.workers k).workQueue e).isCompleted = true → ((d'.workers k).workQueue e).isCompleted = true
  copied : ∀ e, ((d.workers k).workQueue e).isCopied = true → ((d'.workers k).workQueue e).isCopied = true

variable {d d' d₁ d₂ : Dev ω σ} {k now : Nat}

theorem OnlyWorker.refl (d : Dev ω σ) : OnlyWorker k d d :=
  ⟨rfl, rfl, fun _ _ => ⟨rfl, rfl⟩, rfl, rfl, fun _ => rfl, fun _ => rfl, fun _ h => h, fun _ h => h⟩

theorem OnlyWorker.trans (h₁ : OnlyWorker k d d₁) (h₂ : OnlyWorker k d₁ d₂) : OnlyWorker k d d₂ where
  slots := h₂.slots.trans h₁.slots
  taken := h₂.taken.trans h₁.taken
  others i hi := ⟨(h₂.others i hi).1.trans (h₁.others i hi).1, (h₂.others i hi).2.trans (h₁.others i hi).2⟩
  next := h₂.next.trans h₁.next
  ioSeq := h₂.ioSeq.trans h₁.ioSeq
  sqid e := (h₂.sqid e).trans (h₁.sqid e)
  sqEntry e := (h₂.sqEntry e).trans (h₁.sqEntry e)
  completed e h := h₂.completed e (h₁.completed e h)
  copied e h := h₂.copied e (h₁.copied e h)

/-- A step that changes the place of the worker, and of its entries at most the marks. -/
theorem onlyWorker_of {w : IoWorker ω} {pc : WorkerPc} (hslots : d'.slots = d.slots)
    (htaken : d'.taken = d.taken) (hworkers : d'.workers = Function.update d.workers k w)
    (hpcs : d'.pcs = Function.update d.pcs k pc) (hnext : w.next = (d.workers k).next)
    (hseq : w.ioSeq = (d.workers k).ioSeq)
    (hwork : ∀ e, (w.workQueue e).sqid = ((d.workers k).workQueue e).sqid ∧
      (w.workQueue e).sqEntry = ((d.workers k).workQueue e).sqEntry ∧
      (((d.workers k).workQueue e).isCompleted = true → (w.workQueue e).isCompleted = true) ∧
      (((d.workers k).workQueue e).isCopied = true → (w.workQueue e).isCopied = true)) :
    OnlyWorker k d d' := by
  have hk : d'.workers k = w := by rw [hworkers, Function.update_self]
  refine { slots := hslots, taken := htaken, others := fun i hi => ⟨?_, ?_⟩, next := by rw [hk, hnext],
           ioSeq := by rw [hk, hseq], sqid := fun e => by rw [hk, (hwork e).1],
           sqEntry := fun e => by rw [hk, (hwork e).2.1], completed := fun e h => by rw [hk]; exact (hwork e).2.2.1 h,
           copied := fun e h => by rw [hk]; exact (hwork e).2.2.2 h }
  · rw [hworkers, Function.update_of_ne hi]
  · rw [hpcs, Function.update_of_ne hi]

theorem markCopied_work (w : IoWorker ω) (curr e : Nat) :
    ((w.markCopied curr).workQueue e).sqid = (w.workQueue e).sqid ∧
      ((w.markCopied curr).workQueue e).sqEntry = (w.workQueue e).sqEntry ∧
      ((w.workQueue e).isCompleted = true → ((w.markCopied curr).workQueue e).isCompleted = true) ∧
      ((w.workQueue e).isCopied = true → ((w.markCopied curr).workQueue e).isCopied = true) := by
  by_cases he : e = curr
  · subst he
    simp [IoWorker.markCopied]
  · rw [markCopied_of_ne he]
    simp

theorem markCompleted_work (w : IoWorker ω) (curr e : Nat) :
    ((w.markCompleted curr).workQueue e).sqid = (w.workQueue e).sqid ∧
      ((w.markCompleted curr).workQueue e).sqEntry = (w.workQueue e).sqEntry ∧
      ((w.workQueue e).isCompleted = true → ((w.markCompleted curr).workQueue e).isCompleted = true) ∧
      ((w.workQueue e).isCopied = true → ((w.markCompleted curr).workQueue e).isCopied = true) := by
  by_cases he : e = curr
  · subst he
    simp [IoWorker.markCompleted]
  · rw [markCompleted_of_ne he]
    simp

theorem Worked.onlyWorker (h : Worked c H d k now d') : OnlyWorker k d d' := by
  have hsame : ∀ e, ((d.workers k).workQueue e).sqid = ((d.workers k).workQueue e).sqid ∧
      ((d.workers k).workQueue e).sqEntry = ((d.workers k).workQueue e).sqEntry ∧
      (((d.workers k).workQueue e).isCompleted = true → ((d.workers k).workQueue e).isCompleted = true) ∧
      (((d.workers k).workQueue e).isCopied = true → ((d.workers k).workQueue e).isCopied = true) :=
    fun e => ⟨rfl, rfl, id, id⟩
  have hself : d.workers = Function.update d.workers k (d.workers k) := (Function.update_eq_self ..).symm
  cases h with
  | start _ | wrap _ | early _ _ | next _ => exact onlyWorker_of rfl rfl hself rfl rfl rfl hsame
  | skip _ _ _ | look _ _ _ _ =>
      exact onlyWorker_of (w := { d.workers k with latestNsecs := now }) rfl rfl rfl rfl rfl rfl hsame
  | @mark curr _ _ _ _ _ | @copy curr _ _ _ _ _ _ _ =>
      exact onlyWorker_of (w := IoWorker.markCopied { d.workers k with latestNsecs := now } curr) rfl rfl rfl rfl rfl rfl
        (markCopied_work { d.workers k with latestNsecs := now } curr)
  | @settle curr currNsecs _ _ =>
      unfold Dev.settle
      split <;> exact onlyWorker_of (w := (d.workers k).markCompleted curr) rfl rfl rfl rfl rfl rfl
        (markCompleted_work (d.workers k) curr)

/-! ## One worker -/

/-- Runs of worker `k` alone. -/
def WorkerRun (c : DevConfig) (H : IoHandler ω σ) (k : Nat) (d d' : Dev ω σ) : Prop :=
  DevRun c H WorkersOnly d d' ∧ OnlyWorker k d d'

theorem WorkerRun.refl (d : Dev ω σ) : WorkerRun c H k d d := ⟨.refl, .refl d⟩

theorem WorkerRun.trans (h₁ : WorkerRun c H k d d₁) (h₂ : WorkerRun c H k d₁ d₂) : WorkerRun c H k d d₂ :=
  ⟨h₁.1.trans h₂.1, h₁.2.trans h₂.2⟩

theorem workerRun_step (hk : k < c.nrIoWorkers) (h : d.work c H k now = .ok d') : WorkerRun c H k d d' := by
  refine ⟨.step (a := .work k now) .refl trivial ?_, (work_cases h).onlyWorker⟩
  rw [Dev.act, if_pos hk, h]

theorem WorkerRun.workersOk (h : WorkerRun c H k d d') (hok : WorkersOk c d) : WorkersOk c d' := h.1.workersOk hok

theorem EntryCopyable.mono {e : Nat} (h : EntryCopyable c d k e) (hd : OnlyWorker k d d') :
    EntryCopyable c d' k e := by
  intro m
  rw [hd.slots, hd.sqid, hd.sqEntry]
  exact h m

/-- From the end of an entry's visit to the next entry. -/
theorem exists_next {curr : Nat} (hk : k < c.nrIoWorkers) (hpc : d.pcs k = .advance curr) :
    ∃ d', WorkerRun c H k d d' ∧ d'.pcs k = .visit ((d.workers k).next curr) := by
  have hwork : d.work c H k 0 = .ok (d.setPc k (.visit ((d.workers k).next curr))) := by
    rw [Dev.work, hpc]
  exact ⟨_, workerRun_step hk hwork, Function.update_self ..⟩

/-- Behind the copy the visit ends, whether the entry is due or not; if it is, the entry is completed. -/
theorem exists_settled {curr currNsecs : Nat} (hk : k < c.nrIoWorkers) (hpc : d.pcs k = .finish curr currNsecs) :
    ∃ d', WorkerRun c H k d d' ∧ d'.pcs k = .advance curr ∧
      (((d.workers k).workQueue curr).nsecsTarget ≤ currNsecs →
        ((d'.workers k).workQueue curr).isCompleted = true) := by
  by_cases hdue : ((d.workers k).workQueue curr).nsecsTarget ≤ currNsecs
  · have hwork : d.work c H k 0 = .ok (((d.settle c H ((d.workers k).workQueue curr)).setWorker k
        ((d.workers k).markCompleted curr)).setPc k (.advance curr)) := by
      rw [Dev.work, hpc]
      exact if_pos hdue
    refine ⟨_, workerRun_step hk hwork, Function.update_self .., fun _ => ?_⟩
    show (((Dev.setWorker _ k _).workers k).workQueue curr).isCompleted = true
    rw [Dev.setWorker_workers]
    simp [IoWorker.markCompleted]
  · have hwork : d.work c H k 0 = .ok (d.setPc k (.advance curr)) := by
      rw [Dev.work, hpc]
      exact if_neg hdue
    exact ⟨_, workerRun_step hk hwork, Function.update_self .., fun h => absurd h hdue⟩

/-- The visit of an entry: with the clock at its target it ends completed. -/
theorem exists_visited {curr : Nat} (hk : k < c.nrIoWorkers) (hpc : d.pcs k = .visit curr) (hne : curr ≠ noEntry)
    (hcopy : ((d.workers k).workQueue curr).isCompleted = false → ((d.workers k).workQueue curr).isCopied = false →
      EntryCopyable c d k curr) :
    ∃ d', WorkerRun c H k d d' ∧ d'.pcs k = .advance curr ∧ ((d'.workers k).workQueue curr).isCompleted = true := by
  cases hdone : ((d.workers k).workQueue curr).isCompleted with
  | true =>
      have hwork : d.work c H k 0 =
          .ok ((d.setWorker k { d.workers k with latestNsecs := 0 }).setPc k (.advance curr)) := by
        simp only [Dev.work, hpc, if_neg hne, hdone, if_true]
      refine ⟨_, workerRun_step hk hwork, Function.update_self .., ?_⟩
      exact (work_cases hwork).onlyWorker.completed curr hdone
  | false =>
      -- the copy succeeds, and the clock reading is the target
      obtain ⟨d₁, hwork⟩ : ∃ d₁, d.work c H k ((d.workers k).workQueue curr).nsecsTarget = .ok d₁ := by
        simp only [Dev.work, hpc, if_neg hne, hdone, Bool.false_eq_true, if_false, Dev.copyData, Dev.setWorker_workers]
        cases hcopied : ((d.workers k).workQueue curr).isCopied with
        | true => exact ⟨_, rfl⟩
        | false =>
            cases hint : ((d.workers k).workQueue curr).isInternal with
            | true => exact ⟨_, rfl⟩
            | false =>
                obtain ⟨mem, hmem⟩ := Option.ne_none_iff_exists'.mp (hcopy hdone hcopied d.mem)
                simp only [Dev.setWorker, Bool.false_eq_true, if_false, hmem]
                exact ⟨_, rfl⟩
      have hcase := work_cases hwork
      have hfin : d₁.pcs k = .finish curr ((d.workers k).workQueue curr).nsecsTarget ∧
          ((d₁.workers k).workQueue curr).nsecsTarget = ((d.workers k).workQueue curr).nsecsTarget := by
        cases hcase with
        | look hpc' _ _ _ =>
            cases hpc.symm.trans hpc'
            refine ⟨Function.update_self .., ?_⟩
            show (((Dev.setWorker _ k _).workers k).workQueue curr).nsecsTarget = _
            rw [Dev.setWorker_workers]
        | mark hpc' _ _ _ _ =>
            cases hpc.symm.trans hpc'
            refine ⟨Function.update_self .., ?_⟩
            show (((Dev.setWorker _ k _).workers k).workQueue curr).nsecsTarget = _
            rw [Dev.setWorker_workers]
            simp [IoWorker.markCopied]
        | copy hpc' _ _ _ _ _ =>
            cases hpc.symm.trans hpc'
            refine ⟨Function.update_self .., ?_⟩
            show (((Dev.setWorker _ k _).workers k).workQueue curr).nsecsTarget = _
            rw [Dev.setWorker_workers]
            simp [IoWorker.markCopied]
        | wrap hpc' =>
            cases hpc.symm.trans hpc'
            exact absurd rfl hne
        | skip hpc' _ hdone' =>
            cases hpc.symm.trans hpc'
            cases hdone.symm.trans hdone'
        | start hpc' | settle hpc' _ | early hpc' _ | next hpc' => cases hpc.symm.trans hpc'
      obtain ⟨d₂, hrun, hpc₂, hdone₂⟩ := exists_settled (c := c) (H := H) hk hfin.1
      exact ⟨d₂, (workerRun_step hk hwork).trans hrun, hpc₂, hdone₂ (Nat.le_of_eq hfin.2)⟩

/-- **A pass along a list** ends at the top, with every entry of the list completed. -/
theorem exists_pass {curr : Nat} {l : List Nat} (hk : k < c.nrIoWorkers) (hpc : d.pcs k = .visit curr)
    (hpath : Path (d.workers k).next curr l noEntry) (hno : noEntry ∉ l)
    (hcopy : ∀ e ∈ l, ((d.workers k).workQueue e).isCompleted = false →
      ((d.workers k).workQueue e).isCopied = false → EntryCopyable c d k e) :
    ∃ d', WorkerRun c H k d d' ∧ d'.pcs k = .top ∧ ∀ e ∈ l, ((d'.workers k).workQueue e).isCompleted = true := by
  induction l generalizing d curr with
  | nil =>
      obtain rfl : curr = noEntry := hpath
      have hwork : d.work c H k 0 = .ok (d.setPc k .top) := by
        simp only [Dev.work, hpc, if_true]
      exact ⟨_, workerRun_step hk hwork, Function.update_self .., List.forall_mem_nil _⟩
  | cons x l ih =>
      obtain ⟨rfl, hrest⟩ := hpath
      simp only [List.mem_cons, not_or] at hno
      obtain ⟨d₁, hrun₁, hpc₁, hdone₁⟩ := exists_visited (H := H) hk hpc (Ne.symm hno.1) (hcopy curr (List.mem_cons_self ..))
      obtain ⟨d₂, hrun₂, hpc₂⟩ := exists_next (c := c) (H := H) hk hpc₁
      have hrun := hrun₁.trans hrun₂
      obtain ⟨d₃, hrun₃, hpc₃, hdone₃⟩ := ih (d := d₂) hpc₂ (by rwa [hrun₁.2.next, hrun.2.next]) hno.2 (by
        intro e he hnot hnot'
        refine (hcopy e (List.mem_cons_of_mem _ he) ?_ ?_).mono hrun.2
        · cases h : ((d.workers k).workQueue e).isCompleted with
          | false => rfl
          | true => exact absurd (hrun.2.completed e h) (by rw [hnot]; exact Bool.false_ne_true)
        · cases h : ((d.workers k).workQueue e).isCopied with
          | false => rfl
          | true => exact absurd (hrun.2.copied e h) (by rw [hnot']; exact Bool.false_ne_true))
      refine ⟨d₃, hrun.trans hrun₃, hpc₃, fun e he => ?_⟩
      rcases List.mem_cons.mp he with rfl | he
      · exact hrun₃.2.completed _ (hrun₂.2.completed _ hdone₁)
      · exact hdone₃ e he

/-- Wherever the worker stands, what lies ahead of it is a list. -/
theorem WorkerOk.ahead {w : IoWorker ω} {curr : Nat} (h : WorkerOk w (.visit curr)) :
    ∃ l, Path w.next curr l noEntry ∧ noEntry ∉ l ∧
      ∀ e ∈ l, (w.workQueue e).isCompleted = false → e ∈ w.ioEntries := by
  obtain ⟨fresh, used, io, hl, hpc⟩ := h
  rcases hpc with rfl | hmem
  · exact ⟨[], rfl, List.not_mem_nil, List.forall_mem_nil _⟩
  · rcases List.mem_append.mp hmem with hu | hio
    · obtain ⟨u, v, rfl⟩ := List.append_of_mem hu
      obtain ⟨m, _, hused⟩ := path_append.mp hl.free
      obtain ⟨m', _, hv⟩ := path_append.mp hused
      obtain rfl : m' = curr := hv.1
      refine ⟨_, hv, fun hm => hl.ne_noEntry (by simp only [List.mem_append] at hm ⊢; tauto) rfl, fun e he hnot => ?_⟩
      rw [hl.used_completed e (List.mem_append_right u he)] at hnot
      cases hnot
    · obtain ⟨u, v, rfl⟩ := List.append_of_mem hio
      obtain ⟨m, _, hv⟩ := path_append.mp hl.io_next
      obtain rfl : m = curr := hv.1
      refine ⟨_, hv, fun hm => hl.ne_noEntry (by simp only [List.mem_append] at hm ⊢; tauto) rfl, fun e he _ => ?_⟩
      rw [hl.ioEntries_eq]
      exact List.mem_append_right u he

theorem OnlyWorker.ioEntries (h : OnlyWorker k d d') : (d'.workers k).ioEntries = (d.workers k).ioEntries := by
  rw [IoWorker.ioEntries, h.next, h.ioSeq, IoWorker.ioEntries]

theorem OnlyWorker.uncopied {e : Nat} (h : OnlyWorker k d d') (he : e ∈ (d'.workers k).uncopied) :
    e ∈ (d.workers k).uncopied := by
  rw [IoWorker.mem_uncopied, h.ioEntries] at he
  refine IoWorker.mem_uncopied.mpr ⟨he.1, ?_⟩
  cases hcopied : ((d.workers k).workQueue e).isCopied with
  | false => rfl
  | true => exact absurd (h.copied e hcopied) (by rw [he.2]; exact Bool.false_ne_true)

theorem WorkerCopyable.mono (h : WorkerCopyable c d k) (hd : OnlyWorker k d d') : WorkerCopyable c d' k :=
  fun e he => (h e (hd.uncopied he)).mono hd

/-- From an entry, the pass along what lies ahead. -/
theorem exists_top_of_visit {curr : Nat} (hk : k < c.nrIoWorkers) (hok : WorkersOk c d) (hcopy : WorkerCopyable c d k)
    (hpc : d.pcs k = .visit curr) : ∃ d', WorkerRun c H k d d' ∧ d'.pcs k = .top := by
  have hw := hok k hk
  rw [hpc] at hw
  obtain ⟨l, hpath, hno, hio⟩ := hw.ahead
  obtain ⟨d', hrun, htop, _⟩ := exists_pass (H := H) hk hpc hpath hno
    (fun e he hnot hnot' => hcopy e (IoWorker.mem_uncopied.mpr ⟨hio e he hnot, hnot'⟩))
  exact ⟨d', hrun, htop⟩

theorem exists_top_of_advance {curr : Nat} (hk : k < c.nrIoWorkers) (hok : WorkersOk c d)
    (hcopy : WorkerCopyable c d k) (hpc : d.pcs k = .advance curr) :
    ∃ d', WorkerRun c H k d d' ∧ d'.pcs k = .top := by
  obtain ⟨d₁, hrun₁, hpc₁⟩ := exists_next (c := c) (H := H) hk hpc
  obtain ⟨d₂, hrun₂, htop⟩ := exists_top_of_visit (H := H) hk (hrun₁.workersOk hok) (hcopy.mono hrun₁.2) hpc₁
  exact ⟨d₂, hrun₁.trans hrun₂, htop⟩

/-- **The worker comes back to the top**, wherever it is. -/
theorem exists_top (hk : k < c.nrIoWorkers) (hok : WorkersOk c d) (hcopy : WorkerCopyable c d k) :
    ∃ d', WorkerRun c H k d d' ∧ d'.pcs k = .top := by
  cases hpc : d.pcs k with
  | top => exact ⟨d, .refl d, hpc⟩
  | visit curr => exact exists_top_of_visit hk hok hcopy hpc
  | advance curr => exact exists_top_of_advance hk hok hcopy hpc
  | finish curr currNsecs =>
      obtain ⟨d₁, hrun₁, hpc₁, _⟩ := exists_settled (c := c) (H := H) hk hpc
      obtain ⟨d₂, hrun₂, htop⟩ := exists_top_of_advance (H := H) hk (hrun₁.workersOk hok) (hcopy.mono hrun₁.2) hpc₁
      exact ⟨d₂, hrun₁.trans hrun₂, htop⟩

/-- **One worker discharges its duties.** -/
theorem exists_idle (hk : k < c.nrIoWorkers) (hok : WorkersOk c d) (hcopy : WorkerCopyable c d k) :
    ∃ d', WorkerRun c H k d d' ∧ (d'.workers k).outstanding = 0 := by
  obtain ⟨d₁, hrun₁, htop⟩ := exists_top (H := H) hk hok hcopy
  have hok₁ := hrun₁.workersOk hok
  have hwork : d₁.work c H k 0 = .ok (d₁.setPc k (.visit (d₁.workers k).ioSeq)) := by
    rw [Dev.work, htop]
  have hrun₂ := workerRun_step hk hwork
  have hcopy₁ := hcopy.mono hrun₁.2
  obtain ⟨fresh, used, io, hl, _⟩ := hok₁ k hk
  obtain ⟨d₃, hrun₃, _, hdone⟩ := exists_pass (H := H) (d := d₁.setPc k (.visit (d₁.workers k).ioSeq)) hk
    (Function.update_self ..) hl.io_next (fun hm => hl.ne_noEntry (List.mem_append_right _ hm) rfl) (by
      intro e he _ hnot
      exact hcopy₁ e (IoWorker.mem_uncopied.mpr ⟨by rwa [hl.ioEntries_eq], hnot⟩))
  have hrun := hrun₂.trans hrun₃
  refine ⟨d₃, hrun₁.trans hrun, ?_⟩
  rw [IoWorker.outstanding, hrun.2.ioEntries, hl.ioEntries_eq, Multiset.coe_eq_zero, List.flatMap_eq_nil_iff]
  intro e he
  rw [IoWork.duties, if_pos (hdone e he)]

/-! ## All workers -/

/-- Other workers see nothing of a worker's steps. -/
theorem WorkerCopyable.of_others {i : Nat} (h : WorkerCopyable c d i) (hslots : d'.slots = d.slots)
    (hworkers : d'.workers i = d.workers i) : WorkerCopyable c d' i := by
  intro e he m
  rw [hworkers] at he
  rw [hslots, hworkers]
  exact h e he m

/-- **The workers discharge all duties**, one after the other. -/
theorem exists_all_idle (hok : WorkersOk c d) (hcopy : Copyable c d) :
    ∃ d', DevRun c H WorkersOnly d d' ∧ d'.taken = d.taken ∧ d'.outstanding c = 0 := by
  have hfirst : ∀ j, j ≤ c.nrIoWorkers → ∃ d', DevRun c H WorkersOnly d d' ∧ d'.taken = d.taken ∧
      d'.slots = d.slots ∧ (∀ i, i < j → (d'.workers i).outstanding = 0) ∧
      ∀ i, j ≤ i → d'.workers i = d.workers i := by
    intro j
    induction j with
    | zero => exact fun _ => ⟨d, .refl, rfl, rfl, fun i hi => absurd hi (Nat.not_lt_zero i), fun _ _ => rfl⟩
    | succ j ih =>
        intro hj
        obtain ⟨d₁, hrun₁, htaken, hslots, hzero, hrest⟩ := ih (by omega)
        obtain ⟨d₂, hrun₂, hidle⟩ := exists_idle (H := H) (d := d₁) (k := j) hj (hrun₁.workersOk hok)
          (WorkerCopyable.of_others (hcopy j hj) hslots (hrest j (Nat.le_refl j)))
        refine ⟨d₂, hrun₁.trans hrun₂.1, hrun₂.2.taken.trans htaken, hrun₂.2.slots.trans hslots, fun i hi => ?_,
          fun i hi => ?_⟩
        · rcases Nat.lt_succ_iff_lt_or_eq.mp hi with hlt | rfl
          · rw [(hrun₂.2.others i (Nat.ne_of_lt hlt)).1]
            exact hzero i hlt
          · exact hidle
        · rw [(hrun₂.2.others i (by omega)).1]
          exact hrest i (by omega)
  obtain ⟨d', hrun, htaken, _, hzero, _⟩ := hfirst c.nrIoWorkers (Nat.le_refl _)
  exact ⟨d', hrun, htaken, Finset.sum_eq_zero fun k hk => hzero k (Finset.mem_range.mp hk)⟩

end NvmeVirt
