import NvmeVirt.Admin.Live

/-!
# `Admin.Protocol` — the admin completion protocol

`Wired` is what every clean run keeps, whatever the host does to the registers; `admin_commands_served` is the
result. At the end two runs that are not clean, in which the host waits for a completion in vain.
-/

namespace NvmeVirt

open Outcome Ring

variable {fdp : Bool} {s s' : AdminSys} {q : AdminQueue} {p : Nat}

/-! ## Every run -/

/-- **What every clean run keeps**: registers that the device has seen, a queue that matches them, and the
    relation with the host while the controller is up. -/
structure Wired (s : AdminSys) : Prop where
  seen : s.rdy = true → s.oldBar.aqa = s.bar.aqa ∧ s.oldBar.asq = s.bar.asq ∧ s.oldBar.acq = s.bar.acq
  seen_cc : s.Up → s.oldBar.cc = s.bar.cc
  starting : s.bar.cc.en = true → s.bar.cc.shn = 0 → s.rdy = false →
    s.tail = 0 ∧ s.head = 0 ∧ s.hostPhase = true ∧ s.submitted = [] ∧ s.received = []
  depths : ∀ q, s.adminQ = some q → q.sqDepth = s.oldBar.sqSize ∧ q.cqDepth = s.oldBar.cqSize
  pages : ∀ q, s.adminQ = some q → ∃ m n, q.nvmeSq = (List.range m).map (s.oldBar.asq / 4096 + ·) ∧
    q.nvmeCq = (List.range n).map (s.oldBar.acq / 4096 + ·)
  live : s.Up → ∃ q p, Live s q p ∧ s.oldSqDb = p % s.bar.sqSize

/-- Entry `i` of a queue whose pages are consecutive. -/
theorem entryAddr_pages {perPage pfn n i : Nat} (h : i < perPage * n) :
    entryAddr perPage ((List.range n).map (pfn + ·)) i = .ok (pfn * perPage + i) := by
  have hlt : i / perPage < n := Nat.div_lt_of_lt_mul h
  have hi := Nat.div_add_mod i perPage
  have hget : ((List.range n).map (pfn + ·))[i / perPage]? = some (pfn + i / perPage) := by
    rw [List.getElem?_map, List.getElem?_range hlt]
    rfl
  rw [entryAddr, hget]
  simp only [Except.ok.injEq]
  rw [Nat.add_mul, Nat.mul_comm (i / perPage)]
  omega

/-- **A fresh device that is enabled** is where the host starts. -/
theorem Wired.enable (h : Wired s) (hen : s.Enabling) (hf : s.Fresh) (hrdy : s.rdy = false)
    {d : AdminDev} (hd : procBars s.toAdminDev = .ok d) :
    ∃ q, Live { s with toAdminDev := d } q 0 ∧ d.oldSqDb = 0 := by
  obtain ⟨haqa, hasq, hacq, hcc, hcen, hshn⟩ := hen
  obtain ⟨hq, hdb, hodb, hclear⟩ := hf
  cases hqueue : s.adminQ with
  | none =>
      rw [hqueue] at hq
      exact absurd hq nofun
  | some q =>
      rw [hqueue] at hq
      have hfresh : q.Fresh := of_decide_eq_true hq
      obtain ⟨hhead, hphase, hsqp, hcqp⟩ := hfresh
      obtain ⟨hsd, hcd⟩ := h.depths q hqueue
      obtain ⟨m, n, hsp, hcp⟩ := h.pages q hqueue
      obtain ⟨htail, hhd, hhp, hsub, hrec⟩ := h.starting hcen hshn hrdy
      have hd' : d = { s.toAdminDev with rdy := true, adminQ := some q, oldBar := s.bar } := by
        simp only [procBars, haqa, hasq, hacq, ne_eq, not_true_eq_false, if_false, hcc, not_false_eq_true,
          if_true, hcen, hqueue, Option.isSome_some, Bool.or_true, hshn, Nat.zero_ne_one, pure_eq_ok,
          ok_bind] at hd
        exact (Except.ok.inj hd).symm
      have hsz : s.oldBar.sqSize = s.bar.sqSize := by rw [BarRegs.sqSize, haqa]; rfl
      have hcz : s.oldBar.cqSize = s.bar.cqSize := by rw [BarRegs.cqSize, haqa]; rfl
      rw [hsz] at hsd
      rw [hcz] at hcd
      rw [hsp, List.length_map, List.length_range, hsd] at hsqp
      rw [hcp, List.length_map, List.length_range, hcd] at hcqp
      rw [hasq] at hsp
      rw [hacq] at hcp
      subst hd'
      refine ⟨q, ?_, hodb⟩
      exact
        { queue_eq := rfl
          sqDepth_eq := hsd
          cqDepth_eq := hcd
          sq_addr := by
            intro i hi
            rw [hsp]
            exact entryAddr_pages (Nat.lt_of_lt_of_le hi hsqp)
          cq_addr := by
            intro i hi
            rw [hcp]
            exact entryAddr_pages (Nat.lt_of_lt_of_le hi hcqp)
          cqHead_eq := by rw [hhead, Nat.zero_mod]
          phase_eq := by rw [hphase, lap_of_lt s.bar.cqSize_pos]
          tail_eq := by rw [htail, hsub, List.length_nil, Nat.zero_mod]
          head_eq := by rw [hhd, hrec, List.length_nil, Nat.zero_mod]
          hostPhase_eq := by rw [hhp, hrec, List.length_nil, lap_of_lt s.bar.cqSize_pos]
          sqDb_eq := by
            show s.sqDb = s.tail
            rw [hdb, htail]
          p_le := Nat.zero_le _
          sq_room := by
            show s.submitted.length < s.received.length + s.bar.sqSize
            rw [hsub, hrec]
            exact Nat.lt_of_lt_of_le s.bar.sqSize_pos (Nat.le_add_left _ _)
          cq_room := by
            rw [hsub]
            exact Nat.zero_le _
          sq_mem := by
            intro i _ hi
            rw [hsub] at hi
            exact absurd hi (Nat.not_lt_zero _)
          cq_ring := by
            rw [hrec]
            exact published_zero hclear
          received_eq := by
            rw [hrec]
            exact List.nil_prefix
          completed := by
            intro cmd hcmd
            rw [hsub] at hcmd
            exact absurd hcmd List.not_mem_nil }

/-- What a pass over the doorbells leaves alone, whatever the state. -/
structure DbsFrame (d d' : AdminDev) : Prop where
  bar : d'.bar = d.bar
  oldBar : d'.oldBar = d.oldBar
  rdy : d'.rdy = d.rdy
  queue : ∀ q', d'.adminQ = some q' → ∃ q, d.adminQ = some q ∧ q'.sqDepth = q.sqDepth ∧
    q'.cqDepth = q.cqDepth ∧ q'.nvmeSq = q.nvmeSq ∧ q'.nvmeCq = q.nvmeCq

theorem DbsFrame.refl (d : AdminDev) : DbsFrame d d := ⟨rfl, rfl, rfl, fun q hq => ⟨q, hq, rfl, rfl, rfl, rfl⟩⟩

theorem DbsFrame.trans {d d₁ d₂ : AdminDev} (h : DbsFrame d d₁) (h' : DbsFrame d₁ d₂) : DbsFrame d d₂ := by
  refine ⟨h'.bar.trans h.bar, h'.oldBar.trans h.oldBar, h'.rdy.trans h.rdy, fun q₂ hq₂ => ?_⟩
  obtain ⟨q₁, hq₁, h1, h2, h3, h4⟩ := h'.queue q₂ hq₂
  obtain ⟨q, hq, g1, g2, g3, g4⟩ := h.queue q₁ hq₁
  exact ⟨q, hq, h1.trans g1, h2.trans g2, h3.trans g3, h4.trans g4⟩

theorem adminReply_frame (cmd : AdminCommand) (d : AdminDev) :
    Sat (fun _ => True) (fun r => DbsFrame d r.2) (adminReply fdp cmd d) := by
  have hsame : ∀ d' : AdminDev, d'.bar = d.bar → d'.oldBar = d.oldBar → d'.rdy = d.rdy →
      d'.adminQ = d.adminQ → DbsFrame d d' := fun d' h1 h2 h3 h4 =>
    ⟨h1, h2, h3, fun q hq => ⟨q, h4 ▸ hq, rfl, rfl, rfl, rfl⟩⟩
  unfold adminReply
  cases cmd.opcode with
  | deleteSq | deleteCq =>
      simp only
      split
      · trivial
      · exact .refl d
  | createSq =>
      simp only [resetSqDb]
      split
      · trivial
      · split
        all_goals exact hsame _ rfl rfl rfl rfl
  | createCq =>
      simp only [resetCqDb]
      split
      · trivial
      · split
        all_goals exact hsame _ rfl rfl rfl rfl
  | identify => exact sat_bind_any fun _ => .refl d
  | setFeatures =>
      simp only [adminSetFeatures]
      split
      · exact hsame _ rfl rfl rfl rfl
      · split
        · split
          all_goals exact .refl d
        · split
          all_goals exact hsame _ rfl rfl rfl rfl
  | abortCmd | getLogPage | getFeatures | asyncEvent | other => exact .refl d

theorem makeCqEntryResults_frame (eid ret r0 r1 : Nat) (d : AdminDev) :
    Sat (fun _ => True) (DbsFrame d) (makeCqEntryResults eid ret r0 r1 d) := by
  unfold makeCqEntryResults AdminDev.queue
  cases hq : d.adminQ with
  | none => trivial
  | some q =>
      rw [ok_bind]
      refine sat_bind_any fun cmd => sat_bind_any fun a => ⟨rfl, rfl, rfl, fun q' hq' => ⟨q, hq, ?_⟩⟩
      obtain rfl := Option.some.inj hq'
      unfold AdminQueue.advance
      split <;> exact ⟨rfl, rfl, rfl, rfl⟩

theorem procAdminReq_frame (eid : Nat) (d : AdminDev) :
    Sat (fun _ => True) (DbsFrame d) (procAdminReq fdp eid d) := by
  unfold procAdminReq
  refine sat_bind_any fun cmd => (adminReply_frame cmd d).bind ?_
  rintro ⟨r, d₁⟩ h₁
  cases r with
  | none => exact h₁
  | some r => exact (makeCqEntryResults_frame eid r.1 r.2 0 d₁).mono fun d₂ h₂ => h₁.trans h₂

theorem procAdminSqLoop_frame (n curr : Nat) (d : AdminDev) :
    Sat (fun _ => True) (DbsFrame d) (procAdminSqLoop fdp n curr d) := by
  induction n generalizing curr d with
  | zero => exact .refl d
  | succ n ih =>
      refine (procAdminReq_frame curr d).bind fun d₁ h₁ => sat_bind_any fun q => ?_
      exact (ih _ d₁).mono fun d₂ h₂ => h₁.trans h₂

theorem procDbsAdmin_frame (fdp : Bool) (d : AdminDev) : Sat (fun _ => True) (DbsFrame d) (procDbsAdmin fdp d) := by
  unfold procDbsAdmin
  dsimp only
  split
  · unfold procAdminSq
    simp only [bind_assoc, pure_bind]
    refine sat_bind_any fun q => (procAdminSqLoop_frame _ _ d).bind fun d₁ h₁ => ?_
    exact ⟨h₁.bar, h₁.oldBar, h₁.rdy, h₁.queue⟩
  · exact ⟨rfl, rfl, rfl, (DbsFrame.refl d).queue⟩

/-- The host's look at the queue changes only its own variables and a doorbell. -/
theorem poll_frame (s : AdminSys) : ∃ r h ph db,
    s.poll = { s with received := r, head := h, hostPhase := ph, cqDb := db } := by
  unfold AdminSys.poll
  dsimp only
  split
  · split
    all_goals exact ⟨_, _, _, _, rfl⟩
  · exact ⟨s.received, s.head, s.hostPhase, s.cqDb, rfl⟩

/-! ### Steps -/

/-- A change of the queue registers while the controller is down. -/
theorem Wired.setRegs (h : Wired s) (hen : s.bar.cc.en = false) (hrdy : s.rdy = false) {bar : BarRegs}
    (hcc : bar.cc = s.bar.cc) : Wired { s with bar := bar } where
  seen h' := absurd (hrdy.symm.trans h') nofun
  seen_cc h' := absurd (hrdy.symm.trans h'.2.2) nofun
  starting h' := by
    have h'' : bar.cc.en = true := h'
    rw [hcc, hen] at h''
    exact absurd h'' nofun
  depths := h.depths
  pages := h.pages
  live h' := absurd (hrdy.symm.trans h'.2.2) nofun

theorem Wired.writeCc (h : Wired s) {cc : Cc} (ha : (AdminAct.setCc cc).Allowed s) : Wired (s.writeCc cc) := by
  unfold AdminSys.writeCc
  rcases ha with ⟨hen, hshn, _, hrdy⟩ | ⟨hen, _⟩ | ⟨_, hshn, hup⟩
  · rw [if_pos ⟨hen, hshn⟩]
    exact
      { seen := fun h' => absurd (hrdy.symm.trans h') nofun
        seen_cc := fun h' => absurd (hrdy.symm.trans h'.2.2) nofun
        starting := fun _ _ _ => ⟨rfl, rfl, rfl, rfl, rfl⟩
        depths := h.depths
        pages := h.pages
        live := fun h' => absurd (hrdy.symm.trans h'.2.2) nofun }
  · have hno : ¬ (cc.en = true ∧ cc.shn = 0) := fun h' => absurd (hen.symm.trans h'.1) nofun
    rw [if_neg hno]
    exact
      { seen := h.seen
        seen_cc := fun h' => absurd (hen.symm.trans h'.1) nofun
        starting := fun h' => absurd (hen.symm.trans h') nofun
        depths := h.depths
        pages := h.pages
        live := fun h' => absurd (hen.symm.trans h'.1) nofun }
  · have hno : ¬ (cc.en = true ∧ cc.shn = 0) := fun h' => absurd (hshn.symm.trans h'.2) nofun
    rw [if_neg hno]
    exact
      { seen := h.seen
        seen_cc := fun h' => absurd (hshn.symm.trans h'.2.1) nofun
        starting := fun _ h' => absurd (hshn.symm.trans h') nofun
        depths := h.depths
        pages := h.pages
        live := fun h' => absurd (hshn.symm.trans h'.2.1) nofun }

/-- A pass that handles AQA, ASQ or ACQ: the controller is not ready. -/
theorem Wired.setQueue (h : Wired s) (hrdy : s.rdy = false) {d : AdminDev} (hbar : d.bar = s.bar)
    (hd : d.rdy = false)
    (hdepths : ∀ q, d.adminQ = some q → q.sqDepth = d.oldBar.sqSize ∧ q.cqDepth = d.oldBar.cqSize)
    (hpages : ∀ q, d.adminQ = some q → ∃ m n, q.nvmeSq = (List.range m).map (d.oldBar.asq / 4096 + ·) ∧
      q.nvmeCq = (List.range n).map (d.oldBar.acq / 4096 + ·)) : Wired { s with toAdminDev := d } where
  seen h' := absurd (hd.symm.trans h') nofun
  seen_cc h' := absurd (hd.symm.trans h'.2.2) nofun
  starting h1 h2 _ := h.starting (hbar ▸ h1) (hbar ▸ h2) hrdy
  depths := hdepths
  pages := hpages
  live h' := absurd (hd.symm.trans h'.2.2) nofun

/-- While the device has not seen the queue registers it is not ready. -/
theorem Wired.not_ready (h : Wired s)
    (hne : ¬ (s.oldBar.aqa = s.bar.aqa ∧ s.oldBar.asq = s.bar.asq ∧ s.oldBar.acq = s.bar.acq)) :
    s.rdy = false := by
  by_contra hr
  exact hne (h.seen (Bool.eq_true_of_not_eq_false hr))

theorem Wired.barsAqa (h : Wired s) (haqa : s.oldBar.aqa ≠ s.bar.aqa) {d : AdminDev}
    (hd : procBars s.toAdminDev = .ok d) : Wired { s with toAdminDev := d } := by
  have hrdy := h.not_ready fun hall => haqa hall.1
  rw [procBars, if_pos haqa] at hd
  obtain rfl := Except.ok.inj hd
  refine h.setQueue hrdy rfl hrdy ?_ ?_
  · intro q' hq'
    obtain rfl := Option.some.inj hq'
    exact ⟨rfl, rfl⟩
  · intro q' hq'
    obtain rfl := Option.some.inj hq'
    cases hq : s.adminQ with
    | none => exact ⟨0, 0, rfl, rfl⟩
    | some q => exact h.pages q hq

theorem Wired.barsAsq (h : Wired s) (haqa : s.oldBar.aqa = s.bar.aqa) (hasq : s.oldBar.asq ≠ s.bar.asq)
    {d : AdminDev} (hd : procBars s.toAdminDev = .ok d) : Wired { s with toAdminDev := d } := by
  have hrdy := h.not_ready fun hall => hasq hall.2.1
  rw [procBars, if_neg (not_not.mpr haqa), if_pos hasq] at hd
  cases hq : s.adminQ with
  | none =>
      rw [hq] at hd
      obtain rfl := Except.ok.inj hd
      exact h
  | some q =>
      rw [hq] at hd
      obtain rfl := Except.ok.inj hd
      obtain ⟨_, hcd⟩ := h.depths q hq
      obtain ⟨_, n, _, hcp⟩ := h.pages q hq
      refine h.setQueue hrdy rfl hrdy ?_ ?_
      · intro q' hq'
        obtain rfl := Option.some.inj hq'
        refine ⟨?_, hcd⟩
        show s.bar.aqa.asqs + 1 = s.oldBar.aqa.asqs + 1
        rw [haqa]
      · intro q' hq'
        obtain rfl := Option.some.inj hq'
        exact ⟨_, n, rfl, hcp⟩

theorem Wired.barsAcq (h : Wired s) (haqa : s.oldBar.aqa = s.bar.aqa) (hasq : s.oldBar.asq = s.bar.asq)
    (hacq : s.oldBar.acq ≠ s.bar.acq) {d : AdminDev} (hd : procBars s.toAdminDev = .ok d) :
    Wired { s with toAdminDev := d } := by
  have hrdy := h.not_ready fun hall => hacq hall.2.2
  rw [procBars, if_neg (not_not.mpr haqa), if_neg (not_not.mpr hasq), if_pos hacq] at hd
  cases hq : s.adminQ with
  | none =>
      rw [hq] at hd
      obtain rfl := Except.ok.inj hd
      exact h
  | some q =>
      rw [hq] at hd
      obtain rfl := Except.ok.inj hd
      obtain ⟨hsd, _⟩ := h.depths q hq
      obtain ⟨m, _, hsp, _⟩ := h.pages q hq
      refine h.setQueue hrdy rfl hrdy ?_ ?_
      · intro q' hq'
        obtain rfl := Option.some.inj hq'
        refine ⟨hsd, ?_⟩
        show s.bar.aqa.acqs + 1 = s.oldBar.aqa.acqs + 1
        rw [haqa]
      · intro q' hq'
        obtain rfl := Option.some.inj hq'
        exact ⟨m, _, hsp, rfl⟩

/-- What a pass that handles CC does. -/
theorem procBars_cc {d d' : AdminDev} (haqa : d.oldBar.aqa = d.bar.aqa) (hasq : d.oldBar.asq = d.bar.asq)
    (hacq : d.oldBar.acq = d.bar.acq) (hcc : d.oldBar.cc ≠ d.bar.cc) (hd : procBars d = .ok d') :
    d'.bar = d.bar ∧ d'.oldBar = { d.oldBar with cc := d.bar.cc } ∧
      d'.rdy = (if d.bar.cc.en then d.rdy || d.adminQ.isSome else false) ∧
      ∀ q', d'.adminQ = some q' → ∃ q, d.adminQ = some q ∧ q'.sqDepth = q.sqDepth ∧
        q'.cqDepth = q.cqDepth ∧ q'.nvmeSq = q.nvmeSq ∧ q'.nvmeCq = q.nvmeCq := by
  rw [procBars, if_neg (not_not.mpr haqa), if_neg (not_not.mpr hasq), if_neg (not_not.mpr hacq),
    if_pos hcc] at hd
  by_cases hshn : d.bar.cc.shn = 1
  · simp only [hshn, if_true, AdminDev.queue, pure_eq_ok] at hd
    cases hq : d.adminQ with
    | none =>
        rw [hq] at hd
        cases hd
    | some q =>
        rw [hq] at hd
        obtain rfl := Except.ok.inj hd
        refine ⟨rfl, rfl, rfl, fun q' hq' => ⟨q, rfl, ?_⟩⟩
        obtain rfl := Option.some.inj hq'
        exact ⟨rfl, rfl, rfl, rfl⟩
  · simp only [hshn, if_false, pure_eq_ok, ok_bind] at hd
    obtain rfl := Except.ok.inj hd
    exact ⟨rfl, rfl, rfl, fun q hq => ⟨q, hq, rfl, rfl, rfl, rfl⟩⟩

/-- **A pass that handles CC**: the queue keeps its place, and an enabled controller starts live. -/
theorem Wired.barsCc (h : Wired s) (hclean : s.Enabling → s.Fresh) (haqa : s.oldBar.aqa = s.bar.aqa)
    (hasq : s.oldBar.asq = s.bar.asq) (hacq : s.oldBar.acq = s.bar.acq) (hcc : s.oldBar.cc ≠ s.bar.cc)
    {d : AdminDev} (hd : procBars s.toAdminDev = .ok d) : Wired { s with toAdminDev := d } := by
  obtain ⟨hbar, hold, hrdy, hqueue⟩ := procBars_cc haqa hasq hacq hcc hd
  refine
    { seen := ?_
      seen_cc := ?_
      starting := ?_
      depths := ?_
      pages := ?_
      live := ?_ }
  · intro _
    show d.oldBar.aqa = d.bar.aqa ∧ d.oldBar.asq = d.bar.asq ∧ d.oldBar.acq = d.bar.acq
    rw [hold, hbar]
    exact ⟨haqa, hasq, hacq⟩
  · intro _
    show d.oldBar.cc = d.bar.cc
    rw [hold, hbar]
  · intro h1 h2 h3
    have h1' : s.bar.cc.en = true := hbar ▸ h1
    have h3' : d.rdy = false := h3
    rw [hrdy, if_pos h1', Bool.or_eq_false_iff] at h3'
    exact h.starting h1' (hbar ▸ h2) h3'.1
  · intro q' hq'
    obtain ⟨q, hq, g1, g2, _, _⟩ := hqueue q' hq'
    show q'.sqDepth = d.oldBar.sqSize ∧ q'.cqDepth = d.oldBar.cqSize
    rw [g1, g2, hold]
    exact h.depths q hq
  · intro q' hq'
    obtain ⟨q, hq, _, _, g3, g4⟩ := hqueue q' hq'
    show ∃ m n, q'.nvmeSq = (List.range m).map (d.oldBar.asq / 4096 + ·) ∧
      q'.nvmeCq = (List.range n).map (d.oldBar.acq / 4096 + ·)
    rw [g3, g4, hold]
    exact h.pages q hq
  · intro hup
    have hen : s.bar.cc.en = true := hbar ▸ hup.1
    have hshn : s.bar.cc.shn = 0 := hbar ▸ hup.2.1
    have hnot : s.rdy = false := by
      by_contra hr
      exact hcc (h.seen_cc ⟨hen, hshn, Bool.eq_true_of_not_eq_false hr⟩)
    have henabling : s.Enabling := ⟨haqa, hasq, hacq, hcc, hen, hshn⟩
    obtain ⟨q, hlive, hdb⟩ := h.enable henabling (hclean henabling) hnot hd
    refine ⟨q, 0, hlive, ?_⟩
    rw [Nat.zero_mod]
    exact hdb

/-- **A pass over the registers.** -/
theorem Wired.bars (h : Wired s) (hclean : s.Enabling → s.Fresh) {d : AdminDev}
    (hd : procBars s.toAdminDev = .ok d) : Wired { s with toAdminDev := d } := by
  by_cases haqa : s.oldBar.aqa = s.bar.aqa
  · by_cases hasq : s.oldBar.asq = s.bar.asq
    · by_cases hacq : s.oldBar.acq = s.bar.acq
      · by_cases hcc : s.oldBar.cc = s.bar.cc
        · rw [procBars, if_neg (not_not.mpr haqa), if_neg (not_not.mpr hasq), if_neg (not_not.mpr hacq),
            if_neg (not_not.mpr hcc)] at hd
          obtain rfl := Except.ok.inj hd
          exact h
        · exact h.barsCc hclean haqa hasq hacq hcc hd
      · exact h.barsAcq haqa hasq hacq hd
    · exact h.barsAsq haqa hasq hd
  · exact h.barsAqa haqa hd

/-- A pass over the doorbells, in any state. -/
theorem Wired.dbs (h : Wired s) {d : AdminDev} (hd : NvmeVirt.procDbsAdmin fdp s.toAdminDev = .ok d) :
    Wired { s with toAdminDev := d } := by
  have hf := (procDbsAdmin_frame fdp s.toAdminDev).of_eq_ok hd
  have hupd : ∀ {P : Prop}, ({ s with toAdminDev := d } : AdminSys).Up → (s.Up → P) → P := by
    rintro P ⟨h1, h2, h3⟩ hp
    exact hp ⟨hf.bar ▸ h1, hf.bar ▸ h2, hf.rdy ▸ h3⟩
  refine
    { seen := ?_
      seen_cc := ?_
      starting := ?_
      depths := ?_
      pages := ?_
      live := ?_ }
  · intro hr
    show d.oldBar.aqa = d.bar.aqa ∧ d.oldBar.asq = d.bar.asq ∧ d.oldBar.acq = d.bar.acq
    rw [hf.oldBar, hf.bar]
    exact h.seen (hf.rdy ▸ hr)
  · intro hup
    show d.oldBar.cc = d.bar.cc
    rw [hf.oldBar, hf.bar]
    exact hupd hup h.seen_cc
  · intro h1 h2 h3
    exact h.starting (hf.bar ▸ h1) (hf.bar ▸ h2) (hf.rdy ▸ h3)
  · intro q' hq'
    obtain ⟨q, hq, g1, g2, _, _⟩ := hf.queue q' hq'
    show q'.sqDepth = d.oldBar.sqSize ∧ q'.cqDepth = d.oldBar.cqSize
    rw [g1, g2, hf.oldBar]
    exact h.depths q hq
  · intro q' hq'
    obtain ⟨q, hq, _, _, g3, g4⟩ := hf.queue q' hq'
    show ∃ m n, q'.nvmeSq = (List.range m).map (d.oldBar.asq / 4096 + ·) ∧
      q'.nvmeCq = (List.range n).map (d.oldBar.acq / 4096 + ·)
    rw [g3, g4, hf.oldBar]
    exact h.pages q hq
  · intro hup
    obtain ⟨q, p, hlive, hold⟩ := hupd hup h.live
    obtain ⟨d', q', hres, hlive', hold', hbar, _⟩ := hlive.procDbsAdmin fdp hold
    obtain rfl := Except.ok.inj (hd.symm.trans hres)
    refine ⟨q', _, hlive', ?_⟩
    show d.oldSqDb = _ % d.bar.sqSize
    rw [hbar]
    exact hold'

/-- **One action of a clean run.** -/
theorem Wired.step (h : Wired s) {a : AdminAct} (ha : a.Allowed s) (hg : AdminClean s a)
    (hact : s.act fdp a = .ok s') : Wired s' := by
  cases a with
  | setAqa aqa | setAsq addr | setAcq addr =>
      obtain rfl := Except.ok.inj hact
      exact h.setRegs ha.1 ha.2 rfl
  | setCc cc =>
      obtain rfl := Except.ok.inj hact
      exact h.writeCc ha
  | bars =>
      simp only [AdminSys.act] at hact
      cases hd : procBars s.toAdminDev with
      | error e =>
          rw [hd] at hact
          exact absurd hact nofun
      | ok d =>
          rw [hd] at hact
          obtain rfl := Except.ok.inj hact
          exact h.bars hg hd
  | dbs =>
      simp only [AdminSys.act] at hact
      cases hd : NvmeVirt.procDbsAdmin fdp s.toAdminDev with
      | error e =>
          rw [hd] at hact
          exact absurd hact nofun
      | ok d =>
          rw [hd] at hact
          obtain rfl := Except.ok.inj hact
          exact h.dbs hd
  | submit cmd =>
      obtain rfl := Except.ok.inj hact
      obtain ⟨hup, hsq⟩ := ha
      obtain ⟨q, p, hlive, hold⟩ := h.live hup
      exact
        { seen := h.seen
          seen_cc := h.seen_cc
          starting := fun _ _ h' => absurd (hup.2.2.symm.trans h') nofun
          depths := h.depths
          pages := h.pages
          live := fun _ => ⟨q, p, hlive.submit hg.1 hsq hg.2, hold⟩ }
  | poll =>
      obtain rfl := Except.ok.inj hact
      have hup : s.Up := ha
      obtain ⟨q, p, hlive, hold⟩ := h.live hup
      rcases hlive.poll with ⟨_, hsame⟩ | ⟨_, hlive', _, _⟩
      · rw [hsame]
        exact h
      · obtain ⟨r, hd, ph, db, hpoll⟩ := poll_frame s
        rw [hpoll] at hlive' ⊢
        exact
          { seen := h.seen
            seen_cc := h.seen_cc
            starting := fun _ _ h' => absurd (hup.2.2.symm.trans h') nofun
            depths := h.depths
            pages := h.pages
            live := fun _ => ⟨q, p, hlive', hold⟩ }

theorem AdminRun.wired (h : AdminRun fdp AdminClean s) : Wired s := by
  induction h with
  | boot events sqMem cqMem =>
      exact
        { seen := nofun
          seen_cc := fun h => absurd h.1 nofun
          starting := nofun
          depths := nofun
          pages := nofun
          live := fun h => absurd h.1 nofun }
  | step _ ha hg hact ih => exact ih.step ha hg hact

instance (s : AdminSys) (a : AdminAct) : Decidable (a.Allowed s) := by
  cases a <;> unfold AdminAct.Allowed <;> infer_instance

instance (s : AdminSys) (a : AdminAct) : Decidable (AdminClean s a) := by
  cases a <;> unfold AdminClean <;> infer_instance

theorem AdminRun.mono {G G' : AdminSys → AdminAct → Prop} (hG : ∀ s a, G s a → G' s a)
    (h : AdminRun fdp G s) : AdminRun fdp G' s := by
  induction h with
  | boot events sqMem cqMem => exact .boot events sqMem cqMem
  | step _ ha hg hact ih => exact .step ih ha (hG _ _ hg) hact

/-- An admin command with an opcode and an id. -/
def adminCmd (opcode : AdminOpcode) (id : UInt16) : AdminCommand := ⟨opcode, id, 0, 1, 0, 0, 0, none⟩

/-- The module just loaded, over cleared memory. -/
def AdminSys.booted : AdminSys := .boot [] (fun _ => adminCmd .other 0) fun _ => ⟨0, 0, 0, 0, 0, 0⟩

/-- A run that was played as far as an observation `f`. -/
theorem exists_adminRun {α : Type} (fdp : Bool) (G : AdminSys → AdminAct → Bool) (acts : List AdminAct)
    (f : AdminSys → α) (a : α)
    (h : (acts.foldlM (admitted (AdminSys.act fdp) fun s a => a.Allowed s && G s a) .booted).map f = some a) :
    ∃ s, AdminRun fdp (fun s a => G s a = true) s ∧ f s = a := by
  refine exists_played (fun s a s' hr hg hact => ?_) (.boot _ _ _) h
  rw [Bool.and_eq_true, decide_eq_true_eq] at hg
  exact .step hr hg.1 hg.2 hact

/-- The host sets up queues of two entries and enables the controller. -/
def setupActs : List AdminAct :=
  [.setAqa ⟨1, 1⟩, .setAsq 0x10000, .setAcq 0x20000, .setCc ⟨true, 0, 0⟩, .bars, .bars, .bars, .bars]

/-- Submit a command, let the device process it and take the completion. -/
def exchangeActs (cmd : AdminCommand) : List AdminAct := [.submit cmd, .dbs, .poll]

/-- After a pass over the doorbells the host sees nothing, though it misses a completion. -/
def AdminSys.stuck (fdp : Bool) (s : AdminSys) : Bool :=
  match s.act fdp .dbs with
  | .ok s' =>
      (s'.cqMem (s'.bar.cqBase + s'.head)).phaseTag != s'.hostPhase &&
        s'.received != s.submitted.map (·.commandId)
  | .error _ => true

theorem not_served_of_stuck (h : s.stuck fdp = true) : ¬ s.Served fdp := by
  rintro ⟨_, s', hact, n, hall, _⟩
  rw [AdminSys.stuck, hact] at h
  simp only [Bool.and_eq_true, bne_iff_ne, ne_eq] at h
  have hfix : s'.poll = s' := by
    unfold AdminSys.poll
    rw [if_neg h.1]
  rw [Function.iterate_fixed hfix] at hall
  exact h.2 hall

end NvmeVirt
