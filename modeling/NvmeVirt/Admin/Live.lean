import NvmeVirt.Lib.Outcome
import NvmeVirt.Lib.Ring
import NvmeVirt.Admin.Host

/-!
# `Admin.Live` — both sides while the controller is up

`Live` relates host and device: the device has processed `p` of the commands the host submitted, the host has
taken its first completions, and those in between stand in the completion ring. Processing, submitting and
polling keep it, and polling until nothing is left gives the host all `p` completions.
-/

namespace NvmeVirt

open Outcome Ring

/-! ## The relation while the controller is up -/

/-- **A live queue**: the device has processed `p` commands. -/
structure Live (s : AdminSys) (q : AdminQueue) (p : Nat) : Prop where
  queue_eq : s.adminQ = some q
  sqDepth_eq : q.sqDepth = s.bar.sqSize
  cqDepth_eq : q.cqDepth = s.bar.cqSize
  sq_addr : ∀ i, i < s.bar.sqSize → entryAddr nrSqePerPage q.nvmeSq i = .ok (s.bar.sqBase + i)
  cq_addr : ∀ i, i < s.bar.cqSize → entryAddr nrCqePerPage q.nvmeCq i = .ok (s.bar.cqBase + i)
  cqHead_eq : q.cqHead = p % s.bar.cqSize
  phase_eq : q.phase = lap s.bar.cqSize p
  tail_eq : s.tail = s.submitted.length % s.bar.sqSize
  head_eq : s.head = s.received.length % s.bar.cqSize
  hostPhase_eq : s.hostPhase = lap s.bar.cqSize s.received.length
  sqDb_eq : s.sqDb = s.tail
  p_le : p ≤ s.submitted.length
  sq_room : s.submitted.length < s.received.length + s.bar.sqSize
  cq_room : s.submitted.length ≤ s.received.length + s.bar.cqSize
  sq_mem : ∀ i, p ≤ i → i < s.submitted.length →
    s.submitted[i]? = some (s.sqMem (s.bar.sqBase + i % s.bar.sqSize))
  cq_ring : Published NvmeCompletion.phaseTag s.bar.cqSize (fun i => s.cqMem (s.bar.cqBase + i))
    (fun i e => (s.submitted.map (·.commandId))[i]? = some e.commandId) s.received.length p
  received_eq : s.received <+: s.submitted.map (·.commandId)
  completed : ∀ cmd ∈ s.submitted, cmd.Completed

variable {fdp : Bool} {s s' : AdminSys} {q : AdminQueue} {p : Nat}

/-! ## One command -/

/-- What a completed command does before its completion: nothing the queues depend on. -/
theorem adminReply_spec (fdp : Bool) {cmd : AdminCommand} (hc : cmd.Completed) (d : AdminDev) :
    ∃ r d', adminReply fdp cmd d = .ok (some r, d') ∧
      d' = { d with nrSq := d'.nrSq, nrCq := d'.nrCq, events := d'.events } := by
  obtain ⟨hop, hqid, hnsid⟩ := hc
  unfold adminReply
  cases h : cmd.opcode with
  | abortCmd => exact absurd h hop
  | deleteSq | deleteCq =>
      have hle := (hqid (by rw [h]; decide)).2
      simp only [if_neg (Nat.not_lt.mpr hle)]
      exact ⟨_, d, rfl, rfl⟩
  | createSq | createCq =>
      obtain ⟨hpos, hle⟩ := hqid (by rw [h]; decide)
      simp only [resetSqDb, resetCqDb, if_neg (Nat.not_lt.mpr hle), if_neg (Nat.pos_iff_ne_zero.mp hpos),
        ok_bind]
      exact ⟨_, d, rfl, rfl⟩
  | identify =>
      simp only [adminIdentify]
      split
      · rename_i hcns
        rw [if_pos (hnsid h hcns)]
        exact ⟨_, d, rfl, rfl⟩
      · split
        all_goals exact ⟨_, d, rfl, rfl⟩
  | setFeatures =>
      simp only [adminSetFeatures]
      split
      · exact ⟨_, _, rfl, rfl⟩
      · split
        · split
          all_goals exact ⟨_, d, rfl, rfl⟩
        · split
          all_goals exact ⟨_, _, rfl, rfl⟩
  | getLogPage | getFeatures | asyncEvent | other => exact ⟨_, d, rfl, rfl⟩

/-- The device after it completed a command with entry `e`. -/
def AdminDev.completed (d : AdminDev) (q : AdminQueue) (addr : Nat) (e : NvmeCompletion) (nrSq nrCq : Nat)
    (events : List (Nat × Bool)) : AdminDev :=
  { d with
    nrSq := nrSq
    nrCq := nrCq
    events := events
    cqMem := Function.update d.cqMem addr e
    adminQ := some q }

/-- The device queue after it completed command `p`. -/
def AdminQueue.passed (q : AdminQueue) (size p : Nat) : AdminQueue :=
  { q with cqHead := (p + 1) % size, phase := lap size (p + 1) }

/-- The device moves to the slot and phase of the next entry. -/
theorem advance_eq_passed (h : Live s q p) : q.advance = q.passed s.bar.cqSize p := by
  unfold AdminQueue.advance AdminQueue.passed
  rw [h.cqDepth_eq, h.cqHead_eq, h.phase_eq]
  split
  · rename_i hwrap
    obtain ⟨h1, h2⟩ := succ_wrap s.bar.cqSize_pos hwrap
    rw [h1, h2]
  · rename_i hnext
    obtain ⟨h1, h2⟩ := succ_next s.bar.cqSize_pos hnext
    rw [h1, h2]

/-- **One command** is read from its slot and completed in the next slot of the completion queue. -/
theorem Live.procAdminReq (fdp : Bool) (h : Live s q p) (hp : p < s.submitted.length) :
    ∃ e nrSq nrCq events, NvmeVirt.procAdminReq fdp (p % s.bar.sqSize) s.toAdminDev =
        .ok (s.toAdminDev.completed (q.passed s.bar.cqSize p) (s.bar.cqBase + p % s.bar.cqSize) e nrSq nrCq events) ∧
      e.phaseTag = lap s.bar.cqSize p ∧ (s.submitted.map (·.commandId))[p]? = some e.commandId := by
  have hslot : p % s.bar.sqSize < s.bar.sqSize := Nat.mod_lt _ s.bar.sqSize_pos
  have hcq : p % s.bar.cqSize < s.bar.cqSize := Nat.mod_lt _ s.bar.cqSize_pos
  have hcmd := h.sq_mem p (Nat.le_refl _) hp
  have hentry : ∀ d : AdminDev, d.adminQ = some q → d.sqMem = s.sqMem →
      d.sqEntry (p % s.bar.sqSize) = .ok (s.sqMem (s.bar.sqBase + p % s.bar.sqSize)) := by
    intro d hq hm
    simp only [AdminDev.sqEntry, AdminDev.queue, hq, hm, ok_bind, h.sq_addr _ hslot, pure_eq_ok]
  generalize s.sqMem (s.bar.sqBase + p % s.bar.sqSize) = cmd at hcmd hentry
  have hmem : cmd ∈ s.submitted := List.mem_of_getElem? hcmd
  obtain ⟨⟨ret, result0⟩, d, hreply, hd⟩ := adminReply_spec fdp (h.completed cmd hmem) s.toAdminDev
  have hdq : d.adminQ = some q := by
    rw [hd]
    exact h.queue_eq
  have hdm : d.sqMem = s.sqMem := by rw [hd]
  refine ⟨⟨result0, 0, p % s.bar.sqSize, 0, cmd.commandId, cqeStatus q.phase ret⟩, d.nrSq, d.nrCq, d.events,
    ?_, ?_, ?_⟩
  · simp only [NvmeVirt.procAdminReq, hentry s.toAdminDev h.queue_eq rfl, ok_bind, hreply,
      makeCqEntryResults, AdminDev.queue, hdq, hentry d hdq hdm, h.cqHead_eq, h.cq_addr _ hcq, pure_eq_ok,
      advance_eq_passed h]
    rw [hd]
    rfl
  · rw [← h.phase_eq]
    exact cqeStatus_tag _ _
  · rw [List.getElem?_map, hcmd]
    rfl

/-- The relation after the command was completed. -/
theorem Live.complete (h : Live s q p) (hp : p < s.submitted.length) {e : NvmeCompletion}
    (htag : e.phaseTag = lap s.bar.cqSize p)
    (hid : (s.submitted.map (·.commandId))[p]? = some e.commandId) (nrSq nrCq : Nat)
    (events : List (Nat × Bool)) :
    Live { s with toAdminDev := (s.toAdminDev.completed (q.passed s.bar.cqSize p) (s.bar.cqBase + p % s.bar.cqSize) e
      nrSq nrCq events) } (q.passed s.bar.cqSize p) (p + 1) where
  queue_eq := rfl
  sqDepth_eq := h.sqDepth_eq
  cqDepth_eq := h.cqDepth_eq
  sq_addr := h.sq_addr
  cq_addr := h.cq_addr
  cqHead_eq := rfl
  phase_eq := rfl
  tail_eq := h.tail_eq
  head_eq := h.head_eq
  hostPhase_eq := h.hostPhase_eq
  sqDb_eq := h.sqDb_eq
  p_le := hp
  sq_room := h.sq_room
  cq_room := h.cq_room
  sq_mem i hi := h.sq_mem i (Nat.le_of_succ_le hi)
  cq_ring := by
    have hshift : (fun i => Function.update s.cqMem (s.bar.cqBase + p % s.bar.cqSize) e (s.bar.cqBase + i)) =
        Function.update (fun i => s.cqMem (s.bar.cqBase + i)) (p % s.bar.cqSize) e :=
      Function.update_comp_eq_of_injective s.cqMem (add_right_injective s.bar.cqBase) (p % s.bar.cqSize) e
    have hpost := h.cq_ring.post (Nat.lt_of_lt_of_le hp h.cq_room) hid htag
    rw [← hshift] at hpost
    dsimp only [AdminDev.completed]
    exact hpost
  received_eq := h.received_eq
  completed := h.completed

/-- **The loop** over the commands from `p` on. -/
theorem Live.procAdminSqLoop (fdp : Bool) (n : Nat) {s : AdminSys} {q : AdminQueue} {p : Nat} (h : Live s q p)
    (hn : p + n ≤ s.submitted.length) :
    ∃ d q', NvmeVirt.procAdminSqLoop fdp n (p % s.bar.sqSize) s.toAdminDev = .ok d ∧
      Live { s with toAdminDev := d } q' (p + n) ∧ d.bar = s.bar ∧ d.oldBar = s.oldBar ∧ d.rdy = s.rdy ∧
      d.cqDb = s.cqDb ∧ d.sqDb = s.sqDb := by
  induction n generalizing s q p with
  | zero => exact ⟨s.toAdminDev, q, rfl, h, rfl, rfl, rfl, rfl, rfl⟩
  | succ n ih =>
      have hp : p < s.submitted.length := by omega
      obtain ⟨e, nrSq, nrCq, events, hreq, htag, hid⟩ := h.procAdminReq fdp hp
      have h₁ := h.complete hp htag hid nrSq nrCq events
      have hcurr : (if p % s.bar.sqSize + 1 = s.bar.sqSize then 0 else p % s.bar.sqSize + 1) = (p + 1) % s.bar.sqSize := by
        split
        · rename_i hwrap
          exact (succ_wrap s.bar.sqSize_pos hwrap).1.symm
        · rename_i hnext
          exact (succ_next s.bar.sqSize_pos hnext).1.symm
      obtain ⟨d, q', hloop, hlive, hregs⟩ := ih h₁ (by rw [Nat.add_assoc, Nat.add_comm 1]; exact hn)
      refine ⟨d, q', ?_, ?_, hregs⟩
      · rw [NvmeVirt.procAdminSqLoop, hreq, ok_bind]
        have hq : (s.toAdminDev.completed (q.passed s.bar.cqSize p) (s.bar.cqBase + p % s.bar.cqSize) e nrSq nrCq
            events).queue = .ok (q.passed s.bar.cqSize p) := rfl
        rw [hq, ok_bind]
        have hdepth : (q.passed s.bar.cqSize p).sqDepth = s.bar.sqSize := h.sqDepth_eq
        rw [hdepth, hcurr]
        exact hloop
      · rw [Nat.add_assoc, Nat.add_comm 1] at hlive
        exact hlive

/-- The number of commands between two doorbell values. -/
theorem numProc_eq {lo hi d : Nat} (hle : lo ≤ hi) (hlt : hi < lo + d) :
    (if hi % d < lo % d then hi % d + d - lo % d else hi % d - lo % d) = hi - lo := by
  have hd : 0 < d := by omega
  have h1 := Nat.div_add_mod lo d
  have h2 := Nat.div_add_mod hi d
  have h3 := Nat.mod_lt lo hd
  have h4 := Nat.mod_lt hi hd
  -- the two are on the same lap or on successive ones
  have hlap : hi / d = lo / d ∨ hi / d = lo / d + 1 := by
    have hge : lo / d ≤ hi / d := Nat.div_le_div_right hle
    have hle' : hi / d ≤ lo / d + 1 := by
      rw [← Nat.add_div_right lo hd]
      exact Nat.div_le_div_right (Nat.le_of_lt hlt)
    omega
  rcases hlap with he | he
  · rw [he] at h2
    split <;> omega
  · rw [he, Nat.mul_add, Nat.mul_one] at h2
    split <;> omega

/-- **A pass over the doorbells** processes all submitted commands. -/
theorem Live.procDbsAdmin (fdp : Bool) (h : Live s q p) (hold : s.oldSqDb = p % s.bar.sqSize) :
    ∃ d q', NvmeVirt.procDbsAdmin fdp s.toAdminDev = .ok d ∧
      Live { s with toAdminDev := d } q' s.submitted.length ∧
      d.oldSqDb = s.submitted.length % s.bar.sqSize ∧ d.bar = s.bar ∧ d.oldBar = s.oldBar ∧ d.rdy = s.rdy := by
  have hple := h.p_le
  have hroom := h.sq_room
  have hlo := h.cq_ring.lo_le
  have hdb : s.sqDb = s.submitted.length % s.bar.sqSize := h.sqDb_eq.trans h.tail_eq
  unfold NvmeVirt.procDbsAdmin
  by_cases hnew : s.sqDb = s.oldSqDb
  · -- within a window of the ring equal doorbells mean equal counts
    have hall : p = s.submitted.length := by
      rw [hdb, hold] at hnew
      exact (slot_inj hlo (by omega) (Nat.le_trans hlo hple) hroom hnew.symm)
    subst hall
    refine ⟨{ s.toAdminDev with oldCqDb := s.cqDb }, q, ?_, ?_, hold, rfl, rfl, rfl⟩
    · simp only [ne_eq, hnew, not_true_eq_false, if_false, pure_eq_ok, ok_bind]
    · exact { h with }
  · obtain ⟨d, q', hloop, hlive, hbar, hobar, hrdy, hcq, hsq⟩ := h.procAdminSqLoop fdp
      (s.submitted.length - p) (by omega)
    have hn : p + (s.submitted.length - p) = s.submitted.length := by omega
    rw [hn] at hlive
    have hproc : procAdminSq fdp s.sqDb s.oldSqDb s.toAdminDev = .ok d := by
      simp only [procAdminSq, AdminDev.queue, h.queue_eq, ok_bind, h.sqDepth_eq, hdb, hold,
        numProc_eq hple (show s.submitted.length < p + s.bar.sqSize by omega)]
      exact hloop
    refine ⟨{ d with oldSqDb := s.sqDb, oldCqDb := d.cqDb }, q', ?_, ?_, hdb, hbar, hobar, hrdy⟩
    · simp only [ne_eq, hnew, not_false_eq_true, if_true, hproc, pure_eq_ok, ok_bind]
    · exact { hlive with }

/-! ## The host -/

/-- The host submits a command. -/
theorem Live.submit (h : Live s q p) {cmd : AdminCommand} (hc : cmd.Completed)
    (hsq : s.submitted.length + 1 < s.received.length + s.bar.sqSize)
    (hcq : s.submitted.length < s.received.length + s.bar.cqSize) : Live (s.submit cmd) q p := by
  have htail : (if s.tail + 1 = s.bar.sqSize then 0 else s.tail + 1) =
      (s.submitted.length + 1) % s.bar.sqSize := by
    rw [h.tail_eq]
    split
    · rename_i hwrap
      exact (succ_wrap s.bar.sqSize_pos hwrap).1.symm
    · rename_i hnext
      exact (succ_next s.bar.sqSize_pos hnext).1.symm
  have hlen : (s.submit cmd).submitted.length = s.submitted.length + 1 := by
    simp [AdminSys.submit]
  have hlo := h.cq_ring.lo_le
  refine
    { queue_eq := h.queue_eq
      sqDepth_eq := h.sqDepth_eq
      cqDepth_eq := h.cqDepth_eq
      sq_addr := h.sq_addr
      cq_addr := h.cq_addr
      cqHead_eq := h.cqHead_eq
      phase_eq := h.phase_eq
      tail_eq := ?_
      head_eq := h.head_eq
      hostPhase_eq := h.hostPhase_eq
      sqDb_eq := rfl
      p_le := ?_
      sq_room := ?_
      cq_room := ?_
      sq_mem := ?_
      cq_ring := ?_
      received_eq := ?_
      completed := ?_ }
  · rw [hlen]
    exact htail
  · rw [hlen]
    exact Nat.le_succ_of_le h.p_le
  · rw [hlen]
    exact hsq
  · rw [hlen]
    exact hcq
  · intro i hi hlt
    rw [hlen] at hlt
    show (s.submitted ++ [cmd])[i]? =
      some (Function.update s.sqMem (s.bar.sqBase + s.tail) cmd (s.bar.sqBase + i % s.bar.sqSize))
    rcases Nat.lt_succ_iff_lt_or_eq.mp hlt with hold | rfl
    · -- the new slot is not one of a command in flight
      have hne : i % s.bar.sqSize ≠ s.tail := by
        rw [h.tail_eq]
        intro he
        have hp := h.p_le
        exact Nat.ne_of_lt hold (slot_inj (Nat.le_trans hlo hi) (by omega) (Nat.le_trans hlo hp) (by omega) he)
      rw [Function.update_of_ne (fun he => hne (Nat.add_left_cancel he)), List.getElem?_append_left hold]
      exact h.sq_mem i hi hold
    · rw [← h.tail_eq, Function.update_self]
      simp
  · refine h.cq_ring.mono (fun _ _ => rfl) fun i a _ hip ha => ?_
    show ((s.submitted ++ [cmd]).map (·.commandId))[i]? = _
    have hi : i < (s.submitted.map (·.commandId)).length := by
      rw [List.length_map]
      exact Nat.lt_of_lt_of_le hip h.p_le
    rw [List.map_append, List.getElem?_append_left hi]
    exact ha
  · show s.received <+: (s.submitted ++ [cmd]).map (·.commandId)
    rw [List.map_append]
    exact h.received_eq.trans (List.prefix_append _ _)
  · intro c hcmem
    rcases List.mem_append.mp hcmem with hold | hnew
    · exact h.completed c hold
    · rw [List.mem_singleton.mp hnew]
      exact hc

/-- The host takes an entry the device has written. -/
theorem Live.take (h : Live s q p) (hlt : s.received.length < p) {id : UInt16}
    (hid : (s.submitted.map (·.commandId))[s.received.length]? = some id) (db : Nat) :
    Live { s with
      received := s.received ++ [id]
      head := (s.received.length + 1) % s.bar.cqSize
      hostPhase := lap s.bar.cqSize (s.received.length + 1)
      cqDb := db } q p := by
  have hlen : (s.received ++ [id]).length = s.received.length + 1 := List.length_append
  have hsq := h.sq_room
  have hcq := h.cq_room
  refine { h with head_eq := ?_, hostPhase_eq := ?_, sq_room := ?_, cq_room := ?_, cq_ring := ?_, received_eq := ?_ }
  · rw [hlen]
  · rw [hlen]
  · rw [hlen]
    show s.submitted.length < s.received.length + 1 + s.bar.sqSize
    omega
  · rw [hlen]
    show s.submitted.length ≤ s.received.length + 1 + s.bar.cqSize
    omega
  · rw [hlen]
    exact h.cq_ring.take hlt
  · -- the id taken is the next one of the submitted ids
    obtain ⟨rest, hrest⟩ := h.received_eq
    rw [← hrest, List.getElem?_append_right (Nat.le_refl _), Nat.sub_self] at hid
    cases rest with
    | nil => exact absurd hid nofun
    | cons x rest =>
        obtain rfl := Option.some.inj hid
        exact ⟨rest, by rw [← hrest, List.append_assoc]; rfl⟩

/-- **A look at the completion queue**: the host takes the next entry if the device has written it, and
    nothing otherwise. -/
theorem Live.poll (h : Live s q p) :
    (s.received.length = p ∧ s.poll = s) ∨
      (s.received.length < p ∧ Live s.poll q p ∧ s.poll.received.length = s.received.length + 1 ∧
        s.poll.submitted = s.submitted) := by
  have hmatch : (s.cqMem (s.bar.cqBase + s.head)).phaseTag = s.hostPhase ↔ s.received.length < p := by
    rw [h.head_eq, h.hostPhase_eq]
    exact h.cq_ring.visible s.bar.cqSize_pos
  rcases Nat.lt_or_ge s.received.length p with hlt | hge
  · right
    have hid := (h.cq_ring.live _ (Nat.le_refl _) hlt).1
    rw [← h.head_eq] at hid
    have hpoll : s.poll = { s with
        received := s.received ++ [(s.cqMem (s.bar.cqBase + s.head)).commandId]
        head := (s.received.length + 1) % s.bar.cqSize
        hostPhase := lap s.bar.cqSize (s.received.length + 1)
        cqDb := (s.received.length + 1) % s.bar.cqSize } := by
      unfold AdminSys.poll
      rw [if_pos (hmatch.mpr hlt)]
      split
      · rename_i hwrap
        rw [h.head_eq] at hwrap
        obtain ⟨h1, h2⟩ := succ_wrap s.bar.cqSize_pos hwrap
        rw [h1, h2, h.hostPhase_eq]
      · rename_i hnext
        rw [h.head_eq] at hnext
        obtain ⟨h1, h2⟩ := succ_next s.bar.cqSize_pos hnext
        rw [h1, h2, h.hostPhase_eq, h.head_eq]
    rw [hpoll]
    exact ⟨hlt, h.take hlt hid _, List.length_append, rfl⟩
  · left
    refine ⟨Nat.le_antisymm h.cq_ring.lo_le hge, ?_⟩
    unfold AdminSys.poll
    rw [if_neg]
    intro htag
    exact Nat.not_lt.mpr hge (hmatch.mp htag)

/-- **Polling until nothing is left**: the host then has the completions of the first `p` commands. -/
theorem Live.drain (k : Nat) {s : AdminSys} (h : Live s q p) (hk : p = s.received.length + k) :
    Live (AdminSys.poll^[k] s) q p ∧ (AdminSys.poll^[k] s).received.length = p ∧
      (AdminSys.poll^[k] s).submitted = s.submitted := by
  induction k generalizing s with
  | zero => exact ⟨h, hk.symm, rfl⟩
  | succ k ih =>
      rcases h.poll with ⟨hall, _⟩ | ⟨_, hlive, hlen, hsub⟩
      · omega
      · rw [Function.iterate_succ_apply, ← hsub]
        exact ih hlive (by omega)

end NvmeVirt
