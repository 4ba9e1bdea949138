import NvmeVirt.Io.Device
import NvmeVirt.Io.Slots
import NvmeVirt.Lib.Handoff

/-!
# `Io.Interrupts` — how the host learns of completions (`io.c`)

`__fill_cq_result` sets `interrupt_ready` of the queue it posts to. A worker that has come to the end of its list walks
over the completion queues that are its own, takes the `irq_lock` of each, clears the flag if it is set and raises the
interrupt. Completions of one queue may be posted by any worker, at any point of this walk.

Each queue is a `Handoff.Cell` (`Polled.cell`, `after_cell`): what is produced are completions, and to look is to raise
the interrupt.

* `interrupts_delivered` — in every run, no completion goes without an interrupt for longer than one walk.
-/

namespace NvmeVirt

open Outcome

/-! ## The model -/

/-- The completion queues: how many there are, which of them exist with `irq_enabled`, and their vectors. -/
structure IrqConfig where
  nrCq : Nat
  irqEnabled : Nat → Bool
  irqVector : Nat → Nat

/-- Where a worker is: on its list, or in the loop over the completion queues, at `qidx`. There, `before` is before
    `mutex_trylock`, `found` means that `interrupt_ready` was set, `taken` that it has been cleared, and `leaving` is
    before `mutex_unlock`. -/
inductive IrqPc where
  | away
  | on (qidx : Nat) (place : Handoff.Place)
deriving DecidableEq, Repr

/-- The worker, as queue `q` sees it. -/
def IrqPc.place : IrqPc → Nat → Handoff.Place
  | .away, _ => .after
  | .on q' place, q => if q = q' then place else if q < q' then .after else .before

/-- `nvmev_signal_irq`, and how many completions of the queue were posted by then. -/
structure Signal where
  cqid : Nat
  vector : Nat
  posted : Nat

/-- The device with its interrupts. The last two members are history: `mark k q` is how many completions of `q` were
    posted when worker `k` last came to the end of its list. -/
structure IrqDev (ω σ : Type) where
  dev : Dev ω σ
  interruptReady : Nat → Bool
  /-- the worker that holds the lock -/
  irqLock : Nat → Option Nat
  irqPc : Nat → IrqPc
  signals : List Signal
  mark : Nat → Nat → Nat

def IrqDev.boot {ω σ : Type} (d : Dev ω σ) : IrqDev ω σ where
  dev := d
  interruptReady := fun _ => false
  irqLock := fun _ => none
  irqPc := fun _ => .away
  signals := []
  mark := fun _ _ => 0

inductive IrqAct where
  | dev (a : DevAct)
  /-- worker `k` goes on in the loop over the completion queues -/
  | irq (k : Nat)

variable {ω σ : Type} (c : DevConfig) (H : IoHandler ω σ) (I : IrqConfig)

/-- How many completions were posted to a queue. -/
def Dev.postedTo (d : Dev ω σ) (q : Nat) : Nat := d.posted.countP (·.cqid == q)

/-- The queue a step posts a completion to. -/
def Dev.fills (d : Dev ω σ) : DevAct → Option Nat
  | .work k _ =>
      match d.pcs k with
      | .finish curr currNsecs =>
          let w := (d.workers k).workQueue curr
          if w.nsecsTarget ≤ currNsecs ∧ w.isInternal = false then some w.cqid else none
      | .top | .visit _ | .advance _ => none
  | _ => none

/-- The worker that comes to the end of its list. -/
def Dev.leaves (d : Dev ω σ) : DevAct → Option Nat
  | .work k _ => if d.pcs k = .visit noEntry then some k else none
  | _ => none

namespace IrqDev

def setPc (x : IrqDev ω σ) (k : Nat) (pc : IrqPc) : IrqDev ω σ := { x with irqPc := Function.update x.irqPc k pc }

@[simp] theorem setPc_irqPc (x : IrqDev ω σ) (k : Nat) (pc : IrqPc) : (x.setPc k pc).irqPc k = pc :=
  Function.update_self ..

theorem setPc_irqPc_of_ne (x : IrqDev ω σ) {k i : Nat} (pc : IrqPc) (h : i ≠ k) :
    (x.setPc k pc).irqPc i = x.irqPc i := Function.update_of_ne h _ _

/-- `mutex_trylock`, on a lock that is free -/
def lock (x : IrqDev ω σ) (k q : Nat) : IrqDev ω σ :=
  { x.setPc k (.on q .locked) with irqLock := Function.update x.irqLock q (some k) }

/-- `cq->interrupt_ready = false` -/
def clear (x : IrqDev ω σ) (k q : Nat) : IrqDev ω σ :=
  { x.setPc k (.on q .taken) with interruptReady := Function.update x.interruptReady q false }

/-- `nvmev_signal_irq` -/
def signal (x : IrqDev ω σ) (k q : Nat) : IrqDev ω σ :=
  { x.setPc k (.on q .leaving) with signals := ⟨q, I.irqVector q, x.dev.postedTo q⟩ :: x.signals }

/-- `mutex_unlock` -/
def unlock (x : IrqDev ω σ) (k q : Nat) : IrqDev ω σ :=
  { x.setPc k (.on (q + 1) .before) with irqLock := Function.update x.irqLock q none }

/-- The loop over the completion queues, with `CONFIG_NVMEV_IO_WORKER_BY_SQ`. -/
def irq (x : IrqDev ω σ) (k : Nat) : Except DevFault (IrqDev ω σ) :=
  match x.irqPc k with
  | .away | .on _ .after => .error .disabled
  | .on q .before =>
      if q ≤ I.nrCq then
        if k = c.getIoWorker q ∧ I.irqEnabled q = true ∧ x.irqLock q = none then .ok (x.lock k q)
        else .ok (x.setPc k (.on (q + 1) .before))
      else .ok (x.setPc k .away)
  | .on q .locked => .ok (x.setPc k (.on q (if x.interruptReady q then .found else .leaving)))
  | .on q .found => .ok (x.clear k q)
  | .on q .taken => .ok (x.signal I k q)
  | .on q .leaving => .ok (x.unlock k q)

/-- A worker in the loop over the queues does not walk its list. -/
def inLoop (x : IrqDev ω σ) : DevAct → Bool
  | .work k _ => x.irqPc k != .away
  | _ => false

/-- A step of the device sets the flag of the queue it posts to, and may bring a worker to the loop. -/
def after (x : IrqDev ω σ) (a : DevAct) (d : Dev ω σ) : IrqDev ω σ :=
  { x with
    dev := d
    interruptReady := fun q => if x.dev.fills a = some q then true else x.interruptReady q
    irqPc := fun k => if x.dev.leaves a = some k then .on 1 .before else x.irqPc k
    mark := fun k => if x.dev.leaves a = some k then d.postedTo else x.mark k }

def act (x : IrqDev ω σ) : IrqAct → Except DevFault (IrqDev ω σ)
  | .dev a => if x.inLoop a then .error .disabled else do return x.after a (← x.dev.act c H a)
  | .irq k => if k < c.nrIoWorkers then x.irq c I k else .error .disabled

/-- How many completions of a queue were posted when its interrupt was last raised. -/
def signalled (x : IrqDev ω σ) (q : Nat) : Nat := ((x.signals.find? (·.cqid == q)).map (·.posted)).getD 0

/-- How often the interrupt of a queue was raised. -/
def signalsOf (x : IrqDev ω σ) (q : Nat) : Nat := x.signals.countP (·.cqid == q)

/-- **A completion queue as a cell**, with its worker as the consumer. -/
def cell (x : IrqDev ω σ) (q : Nat) : Handoff.Cell where
  produced := x.dev.postedTo q
  flag := x.interruptReady q
  lock := (x.irqLock q).isSome
  place := (x.irqPc (c.getIoWorker q)).place q
  seen := x.signalled q
  looks := x.signalsOf q
  mark := x.mark (c.getIoWorker q) q

end IrqDev

/-- Runs of the device with its interrupts, in any order of the steps. -/
inductive IrqRun (x₀ : IrqDev ω σ) : IrqDev ω σ → Prop
  | refl : IrqRun x₀ x₀
  | step {x x' : IrqDev ω σ} {a : IrqAct} : IrqRun x₀ x → x.act c H I a = .ok x' → IrqRun x₀ x'

/-! ## What a step does -/

variable {c H I} {d d' : Dev ω σ} {x x' x₀ : IrqDev ω σ} {k : Nat}

/-- **The loop over the queues.** -/
inductive Polled (c : DevConfig) (I : IrqConfig) (x : IrqDev ω σ) (k : Nat) : IrqDev ω σ → Prop
  | pass {q : Nat} (hpc : x.irqPc k = .on q .before)
      (hskip : ¬ (k = c.getIoWorker q ∧ I.irqEnabled q = true ∧ x.irqLock q = none)) :
      Polled c I x k (x.setPc k (.on (q + 1) .before))
  | lock {q : Nat} (hpc : x.irqPc k = .on q .before) (hk : k = c.getIoWorker q) : Polled c I x k (x.lock k q)
  | done {q : Nat} (hpc : x.irqPc k = .on q .before) (hq : I.nrCq < q) : Polled c I x k (x.setPc k .away)
  | ready {q : Nat} (hpc : x.irqPc k = .on q .locked) (hready : x.interruptReady q = true) :
      Polled c I x k (x.setPc k (.on q .found))
  | quiet {q : Nat} (hpc : x.irqPc k = .on q .locked) (hready : x.interruptReady q = false) :
      Polled c I x k (x.setPc k (.on q .leaving))
  | clear {q : Nat} (hpc : x.irqPc k = .on q .found) : Polled c I x k (x.clear k q)
  | signal {q : Nat} (hpc : x.irqPc k = .on q .taken) : Polled c I x k (x.signal I k q)
  | unlock {q : Nat} (hpc : x.irqPc k = .on q .leaving) : Polled c I x k (x.unlock k q)

theorem irq_cases (h : x.irq c I k = .ok x') : Polled c I x k x' := by
  unfold IrqDev.irq at h
  split at h
  · cases h
  · cases h
  · next q hpc =>
      split at h
      · split at h
        · next hlock =>
            cases h
            exact .lock hpc hlock.1
        · next hskip =>
            cases h
            exact .pass hpc hskip
      · next hq =>
          cases h
          exact .done hpc (Nat.lt_of_not_le hq)
  · next q hpc =>
      cases h
      cases hready : x.interruptReady q with
      | true => exact .ready hpc hready
      | false => exact .quiet hpc hready
  · next q hpc =>
      cases h
      exact .clear hpc
  · next q hpc =>
      cases h
      exact .signal hpc
  · next q hpc =>
      cases h
      exact .unlock hpc

/-- A step posts a completion to the queue it fills, and to no other. -/
theorem postedTo_act {a : DevAct} (hok : WorkersOk c d) (h : d.act c H a = .ok d') (q : Nat) :
    d'.postedTo q = d.postedTo q + if d.fills a = some q then 1 else 0 := by
  have hsame : d'.posted = d.posted → d.fills a = none →
      d'.postedTo q = d.postedTo q + if d.fills a = some q then 1 else 0 := by
    intro hposted hfills
    simp [Dev.postedTo, hposted, hfills]
  cases act_cases hok h with
  | writeSlot | ringDoorbell _ | writeMem | procDbs _ _ | scanDone _ _ => exact hsame rfl rfl
  | procIo hcase => exact hsame (by cases hcase <;> rfl) rfl
  | @work k now _ hk hcase =>
      cases hcase with
      | start hpc | wrap hpc | skip hpc _ _ | look hpc _ _ _ | mark hpc _ _ _ _ | copy hpc _ _ _ _ _ | next hpc =>
          exact hsame rfl (by simp [Dev.fills, hpc])
      | early hpc hdue => exact hsame rfl (by simp [Dev.fills, hpc, hdue])
      | @settle curr currNsecs hpc hdue =>
          cases hint : ((d.workers k).workQueue curr).isInternal with
          | true =>
              refine hsame ?_ (by simp [Dev.fills, hpc, hint])
              show (d.settle c H _).posted = _
              rw [Dev.settle, if_pos hint]
          | false =>
              have hfills : d.fills (.work k now) = some ((d.workers k).workQueue curr).cqid := by
                simp [Dev.fills, hpc, hdue, hint]
              show (d.settle c H _).postedTo q = _
              rw [Dev.settle, if_neg (by simp [hint]), hfills, Dev.postedTo, Dev.postedTo]
              simp only [Dev.fillCqResult, List.countP_cons, beq_iff_eq, Option.some.injEq]

/-! ## The queues as cells -/

/-- The loop stops at this queue. -/
def IrqConfig.Polls (I : IrqConfig) (q : Nat) : Prop := 1 ≤ q ∧ q ≤ I.nrCq ∧ I.irqEnabled q = true

/-- Only the worker of a queue ever takes its lock. -/
def LocksOwned (c : DevConfig) (x : IrqDev ω σ) : Prop :=
  ∀ k q place, x.irqPc k = .on q place → place.inside = true → k = c.getIoWorker q

/-- A worker goes to another place. -/
theorem LocksOwned.move {pc : IrqPc} (h : LocksOwned c x) (hx : x'.irqPc = Function.update x.irqPc k pc)
    (hpc : ∀ q place, pc = .on q place → place.inside = true → k = c.getIoWorker q) : LocksOwned c x' := by
  intro i q place hi hin
  rw [hx] at hi
  by_cases hik : i = k
  · rw [hik, Function.update_self] at hi
    exact hik ▸ hpc q place hi hin
  · rw [Function.update_of_ne hik] at hi
    exact h i q place hi hin

theorem LocksOwned.polled (h : LocksOwned c x) (hstep : Polled c I x k x') : LocksOwned c x' := by
  cases hstep with
  | pass _ _ | done _ _ | unlock _ =>
      refine h.move rfl fun q place heq hin => ?_
      cases heq <;> cases hin
  | ready hpc _ | quiet hpc _ | clear hpc | signal hpc =>
      refine h.move rfl fun q place heq _ => ?_
      cases heq
      exact h k _ _ hpc rfl
  | lock _ hk =>
      refine h.move rfl fun q place heq _ => ?_
      cases heq
      exact hk

/-- A step that is not one of the worker of a queue at the queue is none of its business. -/
theorem Polled.elsewhere (h : Polled c I x k x') (howned : LocksOwned c x) {q : Nat} (hq : I.Polls q)
    (haway : k = c.getIoWorker q → ∀ place, x.irqPc k ≠ .on q place) : x'.cell c q = x.cell c q := by
  have hne : ∀ {q' place}, x.irqPc k = .on q' place → k = c.getIoWorker q' ∨ k = c.getIoWorker q → q ≠ q' := by
    rintro q' place hpc hk rfl
    exact haway (or_self_iff.mp hk) place hpc
  have hplace : (x'.irqPc (c.getIoWorker q)).place q = (x.irqPc (c.getIoWorker q)).place q := by
    by_cases hk : c.getIoWorker q = k
    · subst hk
      cases h with
      | @pass q' hpc _ | @unlock q' hpc =>
          have hqq := hne hpc (Or.inr rfl)
          have hlt : q < q' + 1 ↔ q < q' := by omega
          simp [IrqDev.unlock, hpc, IrqPc.place, hqq, hlt]
          omega
      | lock hpc _ | ready hpc _ | quiet hpc _ | clear hpc | signal hpc =>
          simp [IrqDev.lock, IrqDev.clear, IrqDev.signal, hpc, IrqPc.place, hne hpc (Or.inr rfl)]
      | done hpc hlt => simp [hpc, IrqPc.place, hne hpc (Or.inr rfl), Nat.lt_of_le_of_lt hq.2.1 hlt]
    · cases h <;> exact congrArg (IrqPc.place · q) (x.setPc_irqPc_of_ne _ hk)
  cases h with
  | pass _ _ | done _ _ | ready _ _ | quiet _ _ =>
      simp only [IrqDev.cell, hplace]
      rfl
  | lock hpc hk =>
      simp only [IrqDev.cell, hplace]
      simp [IrqDev.lock, IrqDev.setPc, IrqDev.signalled, IrqDev.signalsOf, Function.update_of_ne (hne hpc (Or.inl hk))]
  | clear hpc | signal hpc | unlock hpc =>
      have hqq := hne hpc (Or.inl (howned k _ _ hpc rfl))
      simp only [IrqDev.cell, hplace]
      simp [IrqDev.clear, IrqDev.signal, IrqDev.unlock, IrqDev.setPc, IrqDev.signalled, IrqDev.signalsOf,
        Function.update_of_ne hqq, Ne.symm hqq]

/-- **The worker of a queue is its consumer.** -/
theorem Polled.visit {q : Nat} {place : Handoff.Place} (h : Polled c I x (c.getIoWorker q) x') (hq : I.Polls q)
    (hpc : x.irqPc (c.getIoWorker q) = .on q place) : Handoff.Step (x.cell c q) (x'.cell c q) := by
  have hplace : (x.cell c q).place = place := by simp [IrqDev.cell, hpc, IrqPc.place]
  -- no interrupt is raised
  have hcell : ∀ {pc : IrqPc}, x'.dev = x.dev → x'.irqPc = Function.update x.irqPc (c.getIoWorker q) pc →
      x'.mark = x.mark → x'.signals = x.signals → x'.cell c q = { x.cell c q with
        flag := x'.interruptReady q, lock := (x'.irqLock q).isSome, place := pc.place q } := by
    intro pc hdev hpc hmark hsignals
    simp only [IrqDev.cell, IrqDev.signalled, IrqDev.signalsOf, hdev, hpc, Function.update_self, hmark, hsignals]
  cases h with
  | pass hpc' hskip =>
      -- it passes the queue by only if the lock is taken
      cases hpc.symm.trans hpc'
      have hlock : x.irqLock q ≠ none := fun hfree => hskip ⟨rfl, hq.2.2, hfree⟩
      rw [hcell rfl rfl rfl rfl, show IrqPc.place (.on (q + 1) .before) q = .after by simp [IrqPc.place]]
      exact .pass hplace (Option.isSome_iff_ne_none.mpr hlock)
  | done hpc' hlt =>
      cases hpc.symm.trans hpc'
      exact absurd hq.2.1 (Nat.not_le_of_lt hlt)
  | lock hpc' _ =>
      cases hpc.symm.trans hpc'
      rw [hcell rfl rfl rfl rfl, show (x.lock _ q).irqLock q = some _ from Function.update_self .., IrqPc.place, if_pos rfl]
      exact .acquire hplace
  | ready hpc' hready =>
      cases hpc.symm.trans hpc'
      rw [hcell rfl rfl rfl rfl, IrqPc.place, if_pos rfl]
      exact .find hplace hready
  | quiet hpc' hready =>
      cases hpc.symm.trans hpc'
      rw [hcell rfl rfl rfl rfl, IrqPc.place, if_pos rfl]
      exact .miss hplace hready
  | clear hpc' =>
      cases hpc.symm.trans hpc'
      rw [hcell rfl rfl rfl rfl, show (x.clear _ q).interruptReady q = _ from Function.update_self .., IrqPc.place,
        if_pos rfl]
      exact .take hplace
  | signal hpc' =>
      cases hpc.symm.trans hpc'
      have hlook : (x.signal I (c.getIoWorker q) q).cell c q =
          { x.cell c q with place := .leaving, seen := x.dev.postedTo q, looks := x.signalsOf q + 1 } := by
        simp [IrqDev.cell, IrqPc.place, IrqDev.signal, IrqDev.setPc, IrqDev.signalled, IrqDev.signalsOf]
      rw [hlook]
      exact .look hplace
  | unlock hpc' =>
      cases hpc.symm.trans hpc'
      rw [hcell rfl rfl rfl rfl, show (x.unlock _ q).irqLock q = _ from Function.update_self ..,
        show IrqPc.place (.on (q + 1) .before) q = .after by simp [IrqPc.place]]
      exact .release hplace

/-- **The loop over the queues does to each queue what a consumer does.** -/
theorem Polled.cell (h : Polled c I x k x') (howned : LocksOwned c x) {q : Nat} (hq : I.Polls q) :
    Handoff.Step (x.cell c q) (x'.cell c q) := by
  by_cases hvisit : k = c.getIoWorker q ∧ ∃ place, x.irqPc k = .on q place
  · obtain ⟨rfl, place, hpc⟩ := hvisit
    exact h.visit hq hpc
  · rw [h.elsewhere howned hq fun hk place hpc => hvisit ⟨hk, place, hpc⟩]
    exact .stay _

/-- A worker comes to the loop from its list. -/
theorem Dev.leaves_away {a : DevAct} (hloop : ¬ x.inLoop a = true) (h : x.dev.leaves a = some k) :
    x.irqPc k = .away ∧ x.dev.fills a = none := by
  cases a with
  | work i now =>
      simp only [Dev.leaves, ite_eq_iff] at h
      obtain ⟨hpc, hi⟩ | ⟨-, hnone⟩ := h
      · cases hi
        exact ⟨by simpa [IrqDev.inLoop] using hloop, by simp [Dev.fills, hpc]⟩
      · cases hnone
  | _ => cases h

/-- **A step of the device produces at most one completion**, and a worker that comes to the loop begins a visit to each
    of its queues. -/
theorem after_cell {a : DevAct} (hok : WorkersOk c x.dev) (hloop : ¬ x.inLoop a = true)
    (h : x.dev.act c H a = .ok d') {q : Nat}
    (hq : I.Polls q) : Handoff.Step (x.cell c q) ((x.after a d').cell c q) := by
  have hposted := postedTo_act hok h q
  by_cases hleaves : x.dev.leaves a = some (c.getIoWorker q)
  · obtain ⟨haway, hfills⟩ := Dev.leaves_away hloop hleaves
    have hq₁ := hq.1
    have hcell : (x.after a d').cell c q = { x.cell c q with place := .before, mark := x.dev.postedTo q } := by
      simp [IrqDev.cell, IrqDev.after, hleaves, hfills, hposted, IrqPc.place, Nat.not_lt.mpr hq₁, IrqDev.signalled,
        IrqDev.signalsOf]
    rw [hcell]
    exact .enter (by simp [IrqDev.cell, haway, IrqPc.place])
  · by_cases hfills : x.dev.fills a = some q
    · have hcell : (x.after a d').cell c q = { x.cell c q with produced := x.dev.postedTo q + 1, flag := true } := by
        simp [IrqDev.cell, IrqDev.after, hleaves, hfills, hposted, IrqDev.signalled, IrqDev.signalsOf]
      rw [hcell]
      exact .produce _
    · have hcell : (x.after a d').cell c q = x.cell c q := by
        simp [IrqDev.cell, IrqDev.after, hleaves, hfills, hposted, IrqDev.signalled, IrqDev.signalsOf]
      rw [hcell]
      exact .stay _

/-! ## Every run -/

/-- **The invariant.** -/
structure IrqOk (c : DevConfig) (I : IrqConfig) (x : IrqDev ω σ) : Prop where
  workers : WorkersOk c x.dev
  owned : LocksOwned c x
  sound : ∀ q, I.Polls q → Handoff.Sound (x.cell c q)

theorem irqOk_boot (slots : Nat → Nat → NvmeCommand) (mem : IoMem) (ns : σ) :
    IrqOk c I (IrqDev.boot (Dev.boot slots mem ns : Dev ω σ)) where
  workers := workersOk_boot slots mem ns
  owned _ _ _ h := by cases h
  sound _ _ :=
    ⟨rfl, ⟨fun h => absurd h (Nat.lt_irrefl 0), Nat.le_refl 0⟩, Nat.le_refl 0, Nat.le_refl 0, Nat.le_refl 0⟩

theorem IrqOk.polled (h : IrqOk c I x) (hstep : Polled c I x k x') : IrqOk c I x' := by
  have hdev : x'.dev = x.dev := by cases hstep <;> rfl
  exact ⟨hdev ▸ h.workers, h.owned.polled hstep, fun q hq => (h.sound q hq).step (hstep.cell h.owned hq)⟩

theorem IrqOk.after (h : IrqOk c I x) {a : DevAct} (hloop : ¬ x.inLoop a = true) (hact : x.dev.act c H a = .ok d') :
    IrqOk c I (x.after a d') := by
  refine ⟨workersOk_step h.workers hact, fun k q place hk hin => ?_,
    fun q hq => (h.sound q hq).step (after_cell h.workers hloop hact hq)⟩
  dsimp only [IrqDev.after] at hk
  split at hk
  · cases hk
    cases hin
  · exact h.owned k q place hk hin

theorem irqOk_step {a : IrqAct} (h : IrqOk c I x) (hact : x.act c H I a = .ok x') : IrqOk c I x' := by
  cases a with
  | dev a =>
      simp only [IrqDev.act] at hact
      split at hact
      · cases hact
      · next hloop =>
          obtain ⟨d', hdev, hret⟩ := bind_eq_ok hact
          cases hret
          exact h.after hloop hdev
  | irq k =>
      simp only [IrqDev.act] at hact
      split at hact
      · exact h.polled (irq_cases hact)
      · cases hact

theorem IrqRun.irqOk (h : IrqRun c H I x₀ x) (hok : IrqOk c I x₀) : IrqOk c I x := by
  induction h with
  | refl => exact hok
  | step _ hact ih => exact irqOk_step ih hact

/-- **What the host can rely on**, for a queue the loop stops at. -/
structure InterruptsDelivered (c : DevConfig) (x : IrqDev ω σ) (q : Nat) : Prop where
  /-- a completion that no interrupt has followed is announced by the flag, or its interrupt is being raised -/
  announced : x.signalled q < x.dev.postedTo q → x.interruptReady q = true ∨ x.irqPc (c.getIoWorker q) = .on q .taken
  /-- a worker that is back on its list has raised an interrupt after every completion that was posted to the queue
      before it last came to the end of the list -/
  walked : x.irqPc (c.getIoWorker q) = .away → x.mark (c.getIoWorker q) q ≤ x.signalled q
  /-- there are no more interrupts than completions -/
  sparing : x.signalsOf q ≤ x.dev.postedTo q
  /-- `mutex_trylock` never fails -/
  uncontended : x.irqPc (c.getIoWorker q) = .on q .before → x.irqLock q = none

theorem IrqPc.place_taken {pc : IrqPc} {q : Nat} (h : pc.place q = .taken) : pc = .on q .taken := by
  cases pc with
  | away => cases h
  | on q' place =>
      simp only [IrqPc.place] at h
      split at h
      · next heq => rw [heq, h]
      · split at h <;> cases h

/-- **Interrupts are delivered**, whatever the order of the steps of host, dispatcher and workers. -/
theorem interrupts_delivered {slots : Nat → Nat → NvmeCommand} {mem : IoMem} {ns : σ}
    (h : IrqRun c H I (IrqDev.boot (Dev.boot slots mem ns)) x) {q : Nat} (hq : I.Polls q) :
    InterruptsDelivered c x q := by
  have hsound := (h.irqOk (irqOk_boot slots mem ns)).sound q hq
  refine ⟨fun hlt => ?_, fun haway => ?_, ?_, fun hpc => ?_⟩
  · exact (hsound.announced hlt).imp_right IrqPc.place_taken
  · have hknown := hsound.known
    rw [show (x.cell c q).place = .after by simp [IrqDev.cell, haway, IrqPc.place]] at hknown
    exact hknown.2
  · exact Nat.le_trans (Nat.le_trans (Nat.le_add_right _ _) (Nat.le_add_right _ _)) hsound.looks_le
  · have hlock := hsound.lock
    simpa [IrqDev.cell, hpc, IrqPc.place, Handoff.Place.inside] using hlock

/-! ## A run -/

/-- What each step keeps, steps one after the other keep. -/
theorem of_foldlM_eq_ok {ε α β : Type} {f : β → α → Except ε β} {P : β → Prop}
    (hstep : ∀ s a s', P s → f s a = .ok s' → P s') {as : List α} {s s' : β} (hs : P s) (h : as.foldlM f s = .ok s') :
    P s' := by
  refine (sat_foldlM_const (E := fun _ => True) as (fun a _ s hs => ?_) hs).of_eq_ok h
  cases hf : f s a with
  | ok s' => exact hstep s a s' hs hf
  | error e => trivial

/-- One completion queue, with vector 3. -/
def oneCq : IrqConfig := ⟨1, fun _ => true, fun _ => 3⟩

/-- A write, and its interrupt. -/
def writeIrqActs : List IrqAct :=
  [.dev (.ringDoorbell 1 1), .dev (.procDbs 1), .dev (.procIo 0)] ++ List.replicate 5 (.dev (.work 0 5000)) ++
    List.replicate 6 (.irq 0)

/-- A write is completed, and its interrupt raised. -/
theorem interrupts_delivered_write :
    ∃ x, IrqRun oneWorker firmwareDevice oneCq (IrqDev.boot (writeThenFlush fdpFresh)) x ∧
      x.dev.postedTo 1 = 1 ∧ x.signalled 1 = 1 ∧ x.signals.map (·.vector) = [3] ∧ InterruptsDelivered oneWorker x 1 := by
  have hobs : (writeIrqActs.foldlM (fun x a => IrqDev.act oneWorker firmwareDevice oneCq x a)
      (IrqDev.boot (writeThenFlush fdpFresh))).toOption.map
        (fun x => (x.dev.postedTo 1, x.signalled 1, x.signals.map (·.vector))) = some (1, 1, [3]) := by decide +kernel
  obtain ⟨x, hok, hsee⟩ := exists_ok_of_observed hobs
  simp only [Prod.mk.injEq] at hsee
  have hrun : IrqRun oneWorker firmwareDevice oneCq _ x := of_foldlM_eq_ok (fun _ _ _ hx h => hx.step h) .refl hok
  exact ⟨x, hrun, hsee.1, hsee.2.1, hsee.2.2, interrupts_delivered hrun ⟨le_rfl, le_rfl, rfl⟩⟩

end NvmeVirt
