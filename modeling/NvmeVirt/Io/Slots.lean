import NvmeVirt.Io.Accounts
import NvmeVirt.Io.Handlers

/-!
# `Io.Slots` — the slot a worker reads is the slot the dispatcher read

A work entry keeps the index of its submission slot, and the worker reads the command from the slot when it copies the
data. In between the slot belongs to the host again as soon as it lies outside the window from the last reported head to
the tail. Completions are posted in the order of the target times and report their own slot as the head, so a completion
can report slots as free whose commands have not been copied, and it can move the head back behind a tail that has gone
around.

* `slot_stable` — if every completion reports a head whose window still covers the commands that were taken and not
  copied, and the place of the dispatcher, every transfer is performed with the command that was accepted.
* `slot_overwritten` — a completion that overtakes another one.
-/

namespace NvmeVirt

open Chain Outcome

variable {ω σ : Type} (c : DevConfig)

/-! ## Windows -/

/-- The way from slot `a` to slot `b` of a queue. -/
def DevConfig.dist (q a b : Nat) : Nat := Ring.dist (c.queueSize q) a b

/-- The head of a queue as the host knows it: the `sq_head` of the last completion. -/
def Dev.sqHead (d : Dev ω σ) (q : Nat) : Nat := ((d.posted.find? (·.cqe.sqId == q)).map (·.cqe.sqHead)).getD 0

/-- The slot lies in `[last reported sq_head, tail)`. -/
def Owned (d : Dev ω σ) (q slot : Nat) : Prop := c.dist q (d.sqHead q) slot < c.dist q (d.sqHead q) (d.dbs q)

/-- **The host** writes only slots outside that window, and moves the tail over such slots. -/
def HostRule (d : Dev ω σ) : DevAct → Prop
  | .writeSlot q slot _ => ¬ Owned c d q slot
  | .ringDoorbell q newDb => c.dist q (d.sqHead q) (d.dbs q) + c.dist q (d.dbs q) newDb < c.queueSize q
  | _ => True

/-- The window from slot `s` to the tail covers the commands taken and not copied, and the place of the dispatcher. -/
structure WindowCovers (d : Dev ω σ) (q s : Nat) : Prop where
  entries : ∀ k, k < c.nrIoWorkers → ∀ e ∈ (d.workers k).uncopied, ((d.workers k).workQueue e).sqid = q →
    c.dist q s ((d.workers k).workQueue e).sqEntry < c.dist q s (d.dbs q)
  position : c.dist q s (d.position q) ≤ c.dist q s (d.dbs q)

/-- **Completions**: the worker posts one only if its slot covers what is left. -/
def CompletionRule (d : Dev ω σ) : DevAct → Prop
  | .work k _ =>
      match d.pcs k with
      | .finish curr currNsecs =>
          ((d.workers k).workQueue curr).nsecsTarget ≤ currNsecs ∧ ((d.workers k).workQueue curr).isInternal = false →
            WindowCovers c d ((d.workers k).workQueue curr).sqid ((d.workers k).workQueue curr).sqEntry
      | _ => True
  | _ => True

/-- **What the rules keep up.** -/
structure Stable (d : Dev ω σ) : Prop where
  head : ∀ q, d.sqHead q < c.queueSize q
  tail : ∀ q, d.dbs q < c.queueSize q
  slot : ∀ k, k < c.nrIoWorkers → ∀ e, ((d.workers k).workQueue e).isInternal = false →
    ((d.workers k).workQueue e).sqEntry < c.queueSize ((d.workers k).workQueue e).sqid
  window : ∀ q, c.dist q (d.sqHead q) (d.position q) ≤ c.dist q (d.sqHead q) (d.dbs q)
  scanning : ∀ s, d.scan = some s → c.dist s.sqid (d.sqHead s.sqid) s.sqEntry + (c.numProc s - s.seq) ≤
    c.dist s.sqid (d.sqHead s.sqid) (d.dbs s.sqid)
  request : ∀ k, k < c.nrIoWorkers → ∀ e ∈ (d.workers k).uncopied, ((d.workers k).workQueue e).isInternal = false
  /-- commands to be copied lie in front of the dispatcher -/
  behind : ∀ k, k < c.nrIoWorkers → ∀ e ∈ (d.workers k).uncopied,
    c.dist ((d.workers k).workQueue e).sqid (d.sqHead ((d.workers k).workQueue e).sqid)
        ((d.workers k).workQueue e).sqEntry <
      c.dist ((d.workers k).workQueue e).sqid (d.sqHead ((d.workers k).workQueue e).sqid)
        (d.position ((d.workers k).workQueue e).sqid)
  command : ∀ k, k < c.nrIoWorkers → ∀ e ∈ (d.workers k).uncopied,
    d.slots ((d.workers k).workQueue e).sqid ((d.workers k).workQueue e).sqEntry = d.origin k e
  copies : ∀ x ∈ d.copies, x.found = x.accepted

variable {c} {H : IoHandler ω σ} {d d' : Dev ω σ} {k now : Nat}

theorem stable_boot (slots : Nat → Nat → NvmeCommand) (mem : IoMem) (ns : σ) :
    Stable c (Dev.boot slots mem ns : Dev ω σ) := by
  have hnone : (ioWorkerInit : IoWorker ω).uncopied = [] := by
    rw [IoWorker.uncopied, listed_init.ioEntries_eq]
    rfl
  have huncopied : ∀ {P : Nat → Prop}, ∀ e ∈ (ioWorkerInit : IoWorker ω).uncopied, P e := by
    intro P e he
    rw [hnone] at he
    cases he
  exact {
    head := c.size_pos
    tail := c.size_pos
    slot := fun _ _ _ _ => c.size_pos 0
    window := fun _ => Nat.le_refl _
    scanning := fun _ hs => absurd hs (Option.some_ne_none _).symm
    request := fun _ _ => huncopied
    behind := fun _ _ => huncopied
    command := fun _ _ => huncopied
    copies := fun _ hx => absurd hx List.not_mem_nil }

/-- The number of commands of a scan is the way from the old doorbell to the new one. -/
theorem numProc_eq_dist {s : Scan} (hold : s.oldDb < c.queueSize s.sqid) (hnew : s.newDb < c.queueSize s.sqid) :
    c.numProc s = c.dist s.sqid s.oldDb s.newDb := by
  have hadd := Ring.add_dist hold hnew
  have hlt := Ring.dist_lt (b := s.newDb) hold
  unfold DevConfig.numProc DevConfig.dist
  split <;> omega

/-! ## The host -/

/-- A slot that is written is not one that is still to be read. -/
theorem Stable.writeSlot (h : Stable c d) (q slot : Nat) (cmd : NvmeCommand)
    (hfree : ∀ k, k < c.nrIoWorkers → ∀ e ∈ (d.workers k).uncopied,
      ¬ (((d.workers k).workQueue e).sqid = q ∧ ((d.workers k).workQueue e).sqEntry = slot)) :
    Stable c { d with slots := Function.update d.slots q (Function.update (d.slots q) slot cmd) } :=
  { h with
    command := fun k hk e he => by
      refine Eq.trans ?_ (h.command k hk e he)
      have hne := hfree k hk e he
      by_cases hq : ((d.workers k).workQueue e).sqid = q
      · have hs : ((d.workers k).workQueue e).sqEntry ≠ slot := fun hs => hne ⟨hq, hs⟩
        simp only [hq, Function.update_self, Function.update_of_ne hs]
      · simp only [Function.update_of_ne hq] }

theorem Stable.owned (h : Stable c d) (hk : k < c.nrIoWorkers) {e : Nat} (he : e ∈ (d.workers k).uncopied) :
    Owned c d ((d.workers k).workQueue e).sqid ((d.workers k).workQueue e).sqEntry :=
  Nat.lt_of_lt_of_le (h.behind k hk e he) (h.window _)

theorem Stable.ringDoorbell {q newDb : Nat} (h : Stable c d) (hdb : newDb < c.queueSize q)
    (hroom : c.dist q (d.sqHead q) (d.dbs q) + c.dist q (d.dbs q) newDb < c.queueSize q) :
    Stable c { d with dbs := Function.update d.dbs q newDb } := by
  have hadd := Ring.dist_add (h.head q) (h.tail q) hdb hroom
  -- the tail only moves away from the head
  have hle : ∀ i, c.dist i (d.sqHead i) (d.dbs i) ≤ c.dist i (d.sqHead i) (Function.update d.dbs q newDb i) := by
    intro i
    by_cases hi : i = q
    · subst hi
      rw [Function.update_self, DevConfig.dist, DevConfig.dist, hadd]
      omega
    · rw [Function.update_of_ne hi]
  refine { h with tail := fun i => ?_, window := fun i => ?_, scanning := fun s hs => ?_ }
  · by_cases hi : i = q
    · subst hi
      simpa using hdb
    · simpa [hi] using h.tail i
  · exact Nat.le_trans (h.window i) (hle i)
  · exact Nat.le_trans (h.scanning s hs) (hle s.sqid)

/-! ## The dispatcher -/

theorem Stable.procDbs {q : Nat} (h : Stable c d) (hcons : Consecutive c d) (hscan : d.scan = none) :
    Stable c { d with scan := some ⟨q, d.dbs q, d.oldDbs q, 0, d.oldDbs q⟩ } := by
  have hpos : d.position q = d.oldDbs q := by simp [Dev.position, hscan]
  have hlt := hcons.position_lt q
  have hwin := h.window q
  rw [hpos] at hlt hwin
  refine { h with window := fun i => ?_, scanning := fun s hs => ?_, behind := fun k hk e he => ?_ }
  · rw [Dev.position_procDbs hscan]
    exact h.window i
  · cases hs
    rw [numProc_eq_dist hlt (h.tail q), Nat.sub_zero]
    exact Nat.le_of_eq (Ring.dist_sub (h.head q) hlt (h.tail q) hwin)
  · rw [Dev.position_procDbs hscan]
    exact h.behind k hk e he

theorem Stable.endScan {s : Scan} (h : Stable c d) (hcons : Consecutive c d) (hscan : d.scan = some s) :
    Stable c (d.endScan c s) := by
  have hpos := hcons.position_endScan hscan
  refine { h with window := fun i => ?_, scanning := nofun, behind := fun k hk e he => ?_ }
  · rw [hpos]
    exact h.window i
  · rw [hpos]
    exact h.behind k hk e he

/-- The handler rewrites the slot the dispatcher is at. -/
theorem Stable.afterHandler {s : Scan} (cmd : NvmeCommand) (ns : σ) (h : Stable c d) (hscan : d.scan = some s) :
    Stable c (d.afterHandler s cmd ns) := by
  have hwrite := h.writeSlot s.sqid s.sqEntry cmd fun k hk e he hsame => by
    have hbehind := h.behind k hk e he
    rw [hsame.1, hsame.2, Dev.position_of_scan hscan] at hbehind
    exact Nat.lt_irrefl _ hbehind
  exact { hwrite with }

/-- An entry that is to be copied after a command was accepted was there before, or is the one of the command. -/
theorem uncopied_of_accepted {t : Taken ω} {entry free : Nat} {new : List (Nat × IoWork ω)}
    {workers : Nat → IoWorker ω}
    (hothers : ∀ k, k < c.nrIoWorkers → k ≠ c.getIoWorker t.sqid → Fed (d.pcs k) (d.workers k) [] (workers k))
    (hfed : Fed (d.pcs (c.getIoWorker t.sqid)) (d.workers (c.getIoWorker t.sqid)) new
      (workers (c.getIoWorker t.sqid)))
    (hnew : Enlisted c t free entry new)
    (hentry : entry ∈ (workers (c.getIoWorker t.sqid)).uncopied → ∃ x ∈ new, x.1 = entry)
    {e : Nat} (hk : k < c.nrIoWorkers) (he : e ∈ (workers k).uncopied) :
    (e ∈ (d.workers k).uncopied ∧ (workers k).workQueue e = (d.workers k).workQueue e ∧
        ¬ (k = c.getIoWorker t.sqid ∧ e = entry)) ∨
      (k = c.getIoWorker t.sqid ∧ e = entry ∧ ((workers k).workQueue e).isInternal = false ∧
        ((workers k).workQueue e).sqid = t.sqid ∧ ((workers k).workQueue e).sqEntry = t.sqEntry) := by
  by_cases hkt : k = c.getIoWorker t.sqid
  · subst hkt
    rcases hfed.uncopied e he with hmem | ⟨hold, hsame, hnotNew⟩
    · obtain ⟨heq, hint⟩ := hnew.uncopied _ hmem (IoWorker.mem_uncopied.mp he).2
      obtain ⟨hsqid, hslot⟩ := hnew.slot _ hmem hint
      exact Or.inr ⟨rfl, heq, hint, hsqid, hslot⟩
    · refine Or.inl ⟨hold, hsame, fun hsame' => ?_⟩
      obtain ⟨x, hx, hxe⟩ := hentry (hsame'.2 ▸ he)
      exact hnotNew x hx (hsame'.2.trans hxe.symm)
  · obtain ⟨hold, hsame, _⟩ := ((hothers k hk hkt).uncopied e he).resolve_left List.not_mem_nil
    exact Or.inl ⟨hold, hsame, fun hsame' => hkt hsame'.1⟩

theorem slot_of_accepted {t : Taken ω} {entry free : Nat} {new : List (Nat × IoWork ω)}
    {workers : Nat → IoWorker ω}
    (hothers : ∀ k, k < c.nrIoWorkers → k ≠ c.getIoWorker t.sqid → Fed (d.pcs k) (d.workers k) [] (workers k))
    (hfed : Fed (d.pcs (c.getIoWorker t.sqid)) (d.workers (c.getIoWorker t.sqid)) new
      (workers (c.getIoWorker t.sqid)))
    (hnew : Enlisted c t free entry new) {e : Nat} (hk : k < c.nrIoWorkers)
    (hint : ((workers k).workQueue e).isInternal = false) :
    (workers k).workQueue e = (d.workers k).workQueue e ∨
      (((workers k).workQueue e).sqid = t.sqid ∧ ((workers k).workQueue e).sqEntry = t.sqEntry) := by
  by_cases hkt : k = c.getIoWorker t.sqid
  · subst hkt
    rcases hfed.work e with hmem | hsame
    · exact Or.inr (hnew.slot _ hmem hint)
    · exact Or.inl hsame
  · exact Or.inl (((hothers k hk hkt).work e).resolve_left List.not_mem_nil)

/-- The next command lies in front of the tail, so the dispatcher moves one slot on. -/
theorem Stable.dist_advance {s : Scan} (h : Stable c d) (hcons : Consecutive c d) (hscan : d.scan = some s)
    (hseq : s.seq < c.numProc s) :
    c.dist s.sqid (d.sqHead s.sqid) (c.advance s).sqEntry = c.dist s.sqid (d.sqHead s.sqid) s.sqEntry + 1 := by
  have hroom := h.scanning s hscan
  have hlt : c.dist s.sqid (d.sqHead s.sqid) (d.dbs s.sqid) < c.queueSize s.sqid := Ring.dist_lt (h.head _)
  have hentry : s.sqEntry < c.queueSize s.sqid := by
    rw [← Dev.position_of_scan hscan]
    exact hcons.position_lt s.sqid
  refine Ring.dist_succ (h.head _) hentry ?_
  unfold DevConfig.dist at hroom hlt
  omega

theorem ProcIo.stable (hstep : ProcIo c H d now d') (h : Stable c d) (hcons : Consecutive c d) : Stable c d' := by
  cases hstep with
  | refused hscan hseq hproc => exact (h.afterHandler _ _ hscan).endScan { hcons with } hscan
  | @accepted s reply cmd ns hscan hseq hproc workers entry new hothers hfed hnew hentry =>
      have hst := h.afterHandler cmd ns hscan
      have hadvance := h.dist_advance hcons hscan hseq
      have hroom := h.scanning s hscan
      have hpos : d.position s.sqid = s.sqEntry := Dev.position_of_scan hscan
      -- the dispatcher moves on in this queue only
      have hmoved : ∀ q, Dev.position { d with scan := some (c.advance s) } q =
          if q = s.sqid then (c.advance s).sqEntry else d.position q := by
        intro q
        by_cases hq : q = s.sqid
        · subst hq
          simp [Dev.position, DevConfig.advance]
        · have hq' : ¬ s.sqid = q := fun h => hq h.symm
          simp [Dev.position, DevConfig.advance, hscan, hq, hq']
      have hbefore : ∀ q, c.dist q (d.sqHead q) (d.position q) ≤
          c.dist q (d.sqHead q) (Dev.position { d with scan := some (c.advance s) } q) := by
        intro q
        rw [hmoved]
        split
        · next hq =>
            subst hq
            rw [hpos, hadvance]
            omega
        · exact Nat.le_refl _
      have hcases := fun k e hk he => uncopied_of_accepted (t := ⟨s.sqid, s.sqEntry, d.slots s.sqid s.sqEntry, reply⟩)
        (k := k) (e := e) hothers hfed hnew hentry hk he
      refine { hst with
        slot := fun k hk e hint => ?_
        window := fun q => ?_
        scanning := fun s' hs' => ?_
        request := fun k hk e he => ?_
        behind := fun k hk e he => ?_
        command := fun k hk e he => ?_ }
      · rcases slot_of_accepted hothers hfed hnew hk hint with hsame | ⟨hsqid, hslot⟩
        · show ((workers k).workQueue e).sqEntry < c.queueSize ((workers k).workQueue e).sqid
          rw [hsame]
          exact h.slot k hk e ((congrArg IoWork.isInternal hsame).symm.trans hint)
        · show ((workers k).workQueue e).sqEntry < c.queueSize ((workers k).workQueue e).sqid
          rw [hsqid, hslot]
          exact hpos ▸ hcons.position_lt s.sqid
      · refine Nat.le_trans (Nat.le_of_eq (congrArg _ (hmoved q))) ?_
        split
        · next hq =>
            subst hq
            refine Nat.le_trans (Nat.le_of_eq hadvance) (Nat.le_trans ?_ hroom)
            omega
        · exact h.window q
      · cases hs'
        refine Nat.le_trans (Nat.le_of_eq ?_) hroom
        show c.dist s.sqid (d.sqHead s.sqid) (c.advance s).sqEntry + (c.numProc s - (s.seq + 1)) = _
        rw [hadvance]
        omega
      · rcases hcases k e hk he with ⟨hold, hsame, _⟩ | ⟨_, _, hint, _⟩
        · exact (congrArg IoWork.isInternal hsame).trans (h.request k hk e hold)
        · exact hint
      · rcases hcases k e hk he with ⟨hold, hsame, _⟩ | ⟨_, _, _, hsqid, hslot⟩
        · simp only [hsame]
          exact Nat.lt_of_lt_of_le (h.behind k hk e hold) (hbefore _)
        · simp only [hsqid, hslot]
          show c.dist s.sqid (d.sqHead s.sqid) s.sqEntry < c.dist s.sqid (d.sqHead s.sqid)
            (Dev.position { d with scan := some (c.advance s) } s.sqid)
          rw [hmoved, if_pos rfl, hadvance]
          omega
      · rcases hcases k e hk he with ⟨hold, hsame, hne⟩ | ⟨rfl, rfl, _, hsqid, hslot⟩
        · simp only [hsame]
          refine (hst.command k hk e hold).trans ?_
          by_cases hkt : k = c.getIoWorker s.sqid
          · subst hkt
            rw [Function.update_self, Function.update_of_ne fun h => hne ⟨rfl, h⟩]
            rfl
          · rw [Function.update_of_ne hkt]
            rfl
        · simp only [hsqid, hslot, Dev.afterHandler, Function.update_self]

/-! ## The workers -/

/-- A worker whose entries name the same slots, with no more of them to be copied. -/
structure SameSlots (w w' : IoWorker ω) : Prop where
  uncopied : ∀ e ∈ w'.uncopied, e ∈ w.uncopied
  sqid : ∀ e, (w'.workQueue e).sqid = (w.workQueue e).sqid
  sqEntry : ∀ e, (w'.workQueue e).sqEntry = (w.workQueue e).sqEntry
  isInternal : ∀ e, (w'.workQueue e).isInternal = (w.workQueue e).isInternal

theorem SameSlots.refl (w : IoWorker ω) : SameSlots w w := ⟨fun _ h => h, fun _ => rfl, fun _ => rfl, fun _ => rfl⟩

theorem SameSlots.trans {w₁ w₂ w₃ : IoWorker ω} (h₁ : SameSlots w₁ w₂) (h₂ : SameSlots w₂ w₃) : SameSlots w₁ w₃ where
  uncopied e he := h₁.uncopied e (h₂.uncopied e he)
  sqid e := (h₂.sqid e).trans (h₁.sqid e)
  sqEntry e := (h₂.sqEntry e).trans (h₁.sqEntry e)
  isInternal e := (h₂.isInternal e).trans (h₁.isInternal e)

theorem SameSlots.markCopied (w : IoWorker ω) (curr : Nat) : SameSlots w (w.markCopied curr) := by
  refine ⟨fun e he => (mem_uncopied_markCopied.mp he).1, fun e => ?_, fun e => ?_, fun e => ?_⟩ <;>
    · by_cases he : e = curr
      · subst he
        simp [IoWorker.markCopied]
      · rw [markCopied_of_ne he]

theorem SameSlots.markCompleted (w : IoWorker ω) (curr : Nat) : SameSlots w (w.markCompleted curr) := by
  refine ⟨fun e he => by rwa [uncopied_markCompleted] at he, fun e => ?_, fun e => ?_, fun e => ?_⟩ <;>
    · by_cases he : e = curr
      · subst he
        simp [IoWorker.markCompleted]
      · rw [markCompleted_of_ne he]

theorem Stable.setWorker {w : IoWorker ω} (h : Stable c d) (hw : SameSlots (d.workers k) w) :
    Stable c (d.setWorker k w) := by
  have hsame : ∀ i, SameSlots (d.workers i) ((d.setWorker k w).workers i) := by
    intro i
    by_cases hi : i = k
    · subst hi
      rw [Dev.setWorker_workers]
      exact hw
    · rw [Dev.setWorker_workers_of_ne _ _ hi]
      exact .refl _
  refine { h with
    slot := fun i hi e hint => ?_
    request := fun i hi e he => ?_
    behind := fun i hi e he => ?_
    command := fun i hi e he => ?_ }
  · rw [(hsame i).sqid, (hsame i).sqEntry]
    exact h.slot i hi e ((hsame i).isInternal e ▸ hint)
  · rw [(hsame i).isInternal]
    exact h.request i hi e ((hsame i).uncopied e he)
  · rw [(hsame i).sqid, (hsame i).sqEntry]
    exact h.behind i hi e ((hsame i).uncopied e he)
  · rw [(hsame i).sqid, (hsame i).sqEntry]
    exact h.command i hi e ((hsame i).uncopied e he)

theorem Stable.setPc (h : Stable c d) (pc : WorkerPc) : Stable c (d.setPc k pc) := { h with }

theorem Dev.sqHead_fillCqResult (d : Dev ω σ) (w : IoWork ω) (q : Nat) :
    (d.fillCqResult c w).sqHead q = if q = w.sqid then w.sqEntry else d.sqHead q := by
  unfold Dev.sqHead Dev.fillCqResult
  by_cases hq : q = w.sqid
  · subst hq
    simp
  · have hq' : (w.sqid == q) = false := by simpa using fun h : w.sqid = q => hq h.symm
    simp [hq, hq']

/-- **A completion** moves the head; what the window held, it still holds. -/
theorem Stable.fillCqResult {w : IoWork ω} (h : Stable c d) (hcons : Consecutive c d)
    (hslot : w.sqEntry < c.queueSize w.sqid) (hcov : WindowCovers c d w.sqid w.sqEntry) :
    Stable c (d.fillCqResult c w) := by
  have hhead := d.sqHead_fillCqResult (c := c) w
  have hpos := hcons.position_lt w.sqid
  refine { h with
    head := fun q => ?_
    window := fun q => ?_
    scanning := fun s hs => ?_
    behind := fun k hk e he => ?_ }
  · rw [hhead]
    split
    · next hq => exact hq ▸ hslot
    · exact h.head q
  · rw [hhead]
    split
    · next hq => exact hq ▸ hcov.position
    · exact h.window q
  · rw [hhead]
    split
    · next hq =>
        have hscan := h.scanning s hs
        have hposS : s.sqEntry = d.position w.sqid := hq ▸ (Dev.position_of_scan hs).symm
        rw [hq, hposS] at hscan
        rw [hq, hposS]
        exact Ring.dist_rebase_le (h.head w.sqid) hslot hpos (h.tail w.sqid) hscan hcov.position
    · exact h.scanning s hs
  · have hbehind := h.behind k hk e he
    show c.dist ((d.workers k).workQueue e).sqid ((d.fillCqResult c w).sqHead ((d.workers k).workQueue e).sqid)
        ((d.workers k).workQueue e).sqEntry <
      c.dist ((d.workers k).workQueue e).sqid ((d.fillCqResult c w).sqHead ((d.workers k).workQueue e).sqid)
        (d.position ((d.workers k).workQueue e).sqid)
    rw [hhead]
    split
    · next hq =>
        have hentry := h.slot k hk e (h.request k hk e he)
        rw [hq] at hbehind hentry
        rw [hq]
        exact Ring.dist_rebase_lt (h.head w.sqid) hslot hentry hpos (h.tail w.sqid) hbehind (h.window w.sqid)
          (hcov.entries k hk e he hq)
    · exact hbehind

theorem Worked.stable (hstep : Worked c H d k now d') (hk : k < c.nrIoWorkers) (h : Stable c d)
    (hok : WorkersOk c d) (hcons : Consecutive c d) (hrule : CompletionRule c d (.work k now)) : Stable c d' := by
  have hlatest : SameSlots (d.workers k) { d.workers k with latestNsecs := now } := { SameSlots.refl _ with }
  cases hstep with
  | start hpc => exact h.setPc _
  | wrap hpc => exact h.setPc _
  | skip hpc hne hdone => exact (h.setWorker hlatest).setPc _
  | look hpc hne hdone hcopied => exact (h.setWorker hlatest).setPc _
  | mark hpc hne hdone hcopied hint => exact (h.setWorker (hlatest.trans (.markCopied _ _))).setPc _
  | @copy curr mem hpc hne hdone hcopied hint hio =>
      have hst := (h.setWorker (hlatest.trans (.markCopied _ curr))).setPc (k := k) (.finish curr now)
      have hmem : curr ∈ (d.workers k).uncopied :=
        IoWorker.mem_uncopied.mpr ⟨(hpc ▸ hok k hk).mem_ioEntries hne hdone, hcopied⟩
      refine { hst with copies := fun x hx => ?_ }
      rcases List.mem_cons.mp hx with rfl | hx
      · exact h.command k hk curr hmem
      · exact h.copies x hx
  | @settle curr currNsecs hpc hdue =>
      have hdone := SameSlots.markCompleted (d.workers k) curr
      cases hint : ((d.workers k).workQueue curr).isInternal with
      | true =>
          unfold Dev.settle
          rw [if_pos hint]
          have hsame : Stable c { d with
              ns := ((d.workers k).workQueue curr).op.elim d.ns fun op => H.release op d.ns
              released := ((d.workers k).workQueue curr).op.toList ++ d.released } := { h with }
          exact (hsame.setWorker hdone).setPc _
      | false =>
          unfold Dev.settle
          rw [if_neg (hint ▸ Bool.false_ne_true)]
          simp only [CompletionRule, hpc] at hrule
          have hpost := h.fillCqResult hcons (h.slot k hk curr hint) (hrule ⟨hdue, hint⟩)
          exact (hpost.setWorker hdone).setPc _
  | early hpc hdue => exact h.setPc _
  | next hpc => exact h.setPc _

/-! ## Every step, and every run -/

theorem stable_step {a : DevAct} (h : d.act c H a = .ok d') (hhost : HostRule c d a) (hcompl : CompletionRule c d a)
    (hok : WorkersOk c d) (hcons : Consecutive c d) (hst : Stable c d) : Stable c d' := by
  cases act_cases hok h with
  | @writeSlot q slot cmd =>
      refine hst.writeSlot q slot cmd fun k hk e he hsame => hhost ?_
      rw [← hsame.1, ← hsame.2]
      exact hst.owned hk he
  | ringDoorbell hdb => exact hst.ringDoorbell hdb hhost
  | writeMem => exact { hst with }
  | procDbs hscan hne => exact hst.procDbs hcons hscan
  | procIo hstep => exact hstep.stable hst hcons
  | scanDone hscan hseq => exact hst.endScan hcons hscan
  | work hk hstep => exact hstep.stable hk hst hok hcons hcompl

theorem DevRun.stable {slots : Nat → Nat → NvmeCommand} {mem : IoMem} {ns : σ}
    (hrun : DevRun c H (fun d a => HostRule c d a ∧ CompletionRule c d a) (Dev.boot slots mem ns) d) :
    Stable c d ∧ WorkersOk c d ∧ Consecutive c d := by
  induction hrun with
  | refl => exact ⟨stable_boot slots mem ns, workersOk_boot slots mem ns, consecutive_boot slots mem ns⟩
  | step _ hrule hact ih =>
      obtain ⟨hst, hok, hcons⟩ := ih
      exact ⟨stable_step hact hrule.1 hrule.2 hok hcons hst, workersOk_step hok hact, consecutive_step hok hcons hact⟩

/-- **The slot of a command is stable until it is copied**: if the host keeps to the slots outside the window, and every
    completion reports a slot that covers what is left to be copied and read, each transfer is performed with the
    command that was accepted. -/
theorem slot_stable {slots : Nat → Nat → NvmeCommand} {mem : IoMem} {ns : σ}
    (hrun : DevRun c H (fun d a => HostRule c d a ∧ CompletionRule c d a) (Dev.boot slots mem ns) d) :
    ∀ x ∈ d.copies, x.found = x.accepted :=
  hrun.stable.1.copies

/-! ## A flush that overtakes a write -/

instance (d : Dev ω σ) (q s : Nat) : Decidable (WindowCovers c d q s) :=
  decidable_of_iff
    ((∀ k, k < c.nrIoWorkers → ∀ e ∈ (d.workers k).uncopied, ((d.workers k).workQueue e).sqid = q →
        c.dist q s ((d.workers k).workQueue e).sqEntry < c.dist q s (d.dbs q)) ∧
      c.dist q s (d.position q) ≤ c.dist q s (d.dbs q))
    ⟨fun h => ⟨h.1, h.2⟩, fun h => ⟨h.entries, h.position⟩⟩

instance (d : Dev ω σ) (q slot : Nat) : Decidable (Owned c d q slot) := inferInstanceAs (Decidable (_ < _))

instance (d : Dev ω σ) (a : DevAct) : Decidable (HostRule c d a) := by
  unfold HostRule
  split <;> infer_instance

instance decidableOnFinish (P : Nat → Nat → Prop) [∀ curr t, Decidable (P curr t)] :
    (pc : WorkerPc) → Decidable (match pc with | .finish curr t => P curr t | _ => True)
  | .finish curr t => inferInstanceAs (Decidable (P curr t))
  | .top | .visit _ | .advance _ => inferInstanceAs (Decidable True)

instance (d : Dev ω σ) : (a : DevAct) → Decidable (CompletionRule c d a)
  | .work k _ => inferInstanceAs (Decidable (match d.pcs k with
      | .finish curr _ =>
          _ → WindowCovers c d ((d.workers k).workQueue curr).sqid ((d.workers k).workQueue curr).sqEntry
      | _ => True))
  | .writeSlot .. | .ringDoorbell .. | .writeMem _ | .procDbs _ | .procIo _ | .scanDone =>
      inferInstanceAs (Decidable True)

/-- A write takes as long as the firmware takes to buffer it (`fw_wbuf_lat0`, `fw_wbuf_lat1`); the bus and the flash
    are idle. -/
def firmwareLatency : Latency Unit :=
  { Latency.instant with advanceWriteBuffer := fun t start length => (t, start + 4000 + 460 * ((length + 4095) / 4096)) }

/-- The FDP device of 64 MiB, with these times. -/
def firmwareDevice : IoHandler InternalOp (FdpNs Unit) := fdpHandler (fdpNsConfig 67108864) fun _ => firmwareLatency

/-- A write of one block. -/
def writeBlock (slba : UInt64) : NvmeCommand := { (writeReq slba 0 none).cmd with prp1 := 4096 }

/-- A write of block 0, and a flush behind it. -/
def writeThenFlush (ns : FdpNs Unit) : Dev InternalOp (FdpNs Unit) :=
  Dev.boot (fun _ slot => if slot = 0 then writeBlock 0 else { writeBlock 0 with opcode := .flush })
    ⟨fun _ => 0, fun _ => 0⟩ ns

/-- Three commands, each completed before the next is submitted; when the second one is, the host puts another write
    into the slot of the first. -/
theorem slot_stable_refilled :
    ∃ ns, fdpInitNamespace 67108864 () = .ok ns ∧ ∃ d,
      DevRun oneWorker firmwareDevice (fun d a => HostRule oneWorker d a ∧ CompletionRule oneWorker d a)
        (writeThenFlush ns) d ∧
      d.copies.length = 3 ∧ d.posted.length = 3 ∧ (d.slots 1 0).slba = 1 ∧ ∀ x ∈ d.copies, x.found = x.accepted := by
  refine ⟨fdpFresh, fdpInitNamespace_fresh, ?_⟩
  have hobs : ((writeThenFlush fdpFresh).acts oneWorker firmwareDevice
      (fun d a => HostRule oneWorker d a ∧ CompletionRule oneWorker d a)
      ([.ringDoorbell 1 1, .procDbs 1, .procIo 0, .scanDone] ++ List.replicate 5 (.work 0 5000) ++
        [.ringDoorbell 1 2, .procDbs 1, .procIo 5000, .scanDone] ++ List.replicate 5 (.work 0 6000) ++
        [.writeSlot 1 0 (writeBlock 1), .writeSlot 1 2 (writeBlock 2), .ringDoorbell 1 3, .procDbs 1, .procIo 6000,
          .scanDone] ++ List.replicate 3 (.work 0 20000))).toOption.map
        (fun d => (d.copies.length, d.posted.length, (d.slots 1 0).slba)) = some (3, 3, 1) := by decide +kernel
  obtain ⟨d, hok, hsee⟩ := exists_ok_of_observed hobs
  simp only [Prod.mk.injEq] at hsee
  have hrun := devRun_of_acts hok
  exact ⟨d, hrun, hsee.1, hsee.2.1, hsee.2.2, slot_stable hrun⟩

/-- **A slot is reused before it is read.** The flush is due at once and the write in four microseconds, so the worker
    completes the flush first, with slot 1 as the head. The host may use slot 0 now, and puts a write of block 1 there;
    the worker goes on to the entry of the first write, and performs the second one. -/
theorem slot_overwritten :
    ∃ ns, fdpInitNamespace 67108864 () = .ok ns ∧ ∃ d,
      DevRun oneWorker firmwareDevice (HostRule oneWorker) (writeThenFlush ns) d ∧
      ∃ x ∈ d.copies, x.accepted.slba = 0 ∧ x.found.slba = 1 ∧ x.found ≠ x.accepted := by
  refine ⟨fdpFresh, fdpInitNamespace_fresh, ?_⟩
  have hobs : ((writeThenFlush fdpFresh).acts oneWorker firmwareDevice (HostRule oneWorker)
      [.ringDoorbell 1 2, .procDbs 1, .procIo 0, .procIo 0, .work 0 0, .work 0 0, .work 0 0,
        .writeSlot 1 0 (writeBlock 1), .work 0 0, .work 0 0]).toOption.map
        (fun d => d.copies.head?.map fun x => (x.accepted.slba, x.found.slba)) = some (some (0, 1)) := by
    decide +kernel
  obtain ⟨d, hok, hsee⟩ := exists_ok_of_observed hobs
  obtain ⟨x, hx, hslba⟩ := Option.map_eq_some_iff.mp hsee
  simp only [Prod.mk.injEq] at hslba
  refine ⟨d, devRun_of_acts hok, x, List.mem_of_mem_head? hx, hslba.1, hslba.2, fun hsame => ?_⟩
  have := hslba.2.symm.trans ((congrArg NvmeCommand.slba hsame).trans hslba.1)
  exact absurd this (by decide)

end NvmeVirt
