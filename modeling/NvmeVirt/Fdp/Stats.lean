import NvmeVirt.Fdp.Isolation

/-!
# `Fdp.Stats` — the endurance-group statistics against the flash operations

`hbmw`, `mbmw` and `mbe` are plain counters; the history of each partition is what they are meant to count.
`NsRun.charged` is the exact relation, for every run: garbage collection is charged in pages and erases in
blocks, but a host write is charged the bytes of its blocks while it programs whole pages. The counters are
therefore right exactly as long as every completed write is `PageAligned`.
-/

namespace NvmeVirt

open Counting Outcome

variable {τ : Type} {c : NsConfig} {L : Nat → Latency τ} {ns ns' : FdpNs τ}

/-! ## What the counters are meant to count -/

/-- Page programs since initialisation, host and GC, over all partitions. -/
def totalPrograms (c : NsConfig) (ns : FdpNs τ) : Nat :=
  ∑ i ∈ Finset.range c.nrParts, nrPrograms (ns.ftls i).hist

/-- Block erases since initialisation, over all partitions. -/
def totalErases (c : NsConfig) (ns : FdpNs τ) : Nat :=
  ∑ i ∈ Finset.range c.nrParts, nrErases (ns.ftls i).hist

/-- Pages that are not `PG_FREE`, over all partitions. -/
def totalProgrammed (c : NsConfig) (ns : FdpNs τ) : Nat :=
  ∑ i ∈ Finset.range c.nrParts, programmedPages c.ftl.sp (ns.ftls i).flash

/-- Bytes of the writes of a log. -/
def logBytes (c : NsConfig) (log : List NvmeCommand) : Nat := (log.map (·.bytes c.lbaBits)).sum

/-- Pages the loops of the writes of a log visit. -/
def logPages (c : NsConfig) (log : List NvmeCommand) : Nat := (log.map fun cmd => (cmdLpns c cmd).length).sum

theorem logBytes_append (l l' : List NvmeCommand) : logBytes c (l ++ l') = logBytes c l + logBytes c l' := by
  simp [logBytes]

theorem logPages_append (l l' : List NvmeCommand) : logPages c (l ++ l') = logPages c l + logPages c l' := by
  simp [logPages]

/-! ## The write loop -/

/-- From `ns₀` to `ns`, `n` host pages were programmed without being charged. -/
structure LoopCharged (c : NsConfig) (ns₀ : FdpNs τ) (n : Nat) (ns : FdpNs τ) : Prop where
  hbmw_eq : ns.ctx.hbmw = ns₀.ctx.hbmw
  mbmw_eq : ∃ gc, totalPrograms c ns = totalPrograms c ns₀ + n + gc ∧
    ns.ctx.mbmw = ns₀.ctx.mbmw + .ofNat (c.ftl.sp.pgsz * gc)
  mbe_eq : ∃ e, totalErases c ns = totalErases c ns₀ + e ∧
    ns.ctx.mbe = ns₀.ctx.mbe + .ofNat (c.ftl.sp.pgsPerBlk * c.ftl.sp.pgsz * e)

/-- Charges add up, in 64 bits as in the naturals. -/
theorem charge_add {x y z : UInt64} {a m n : Nat} (h : y = x + .ofNat (a * m)) (h' : z = y + .ofNat (a * n)) :
    z = x + .ofNat (a * (m + n)) := by
  rw [h', h, UInt64.add_assoc, ← UInt64.ofNat_add, ← Nat.mul_add]

/-- One more page write, on partition `i`. -/
theorem LoopCharged.step {ns₀ : FdpNs τ} {n i ruh : Nat} (h : LoopCharged c ns₀ n ns) (hi : i < c.nrParts)
    (hlog : WriteLogged c.ftl ruh (ns.part i) (ns'.part i))
    (hframe : ∀ j, j ≠ i → ns'.ftls j = ns.ftls j) : LoopCharged c ns₀ (n + 1) ns' := by
  obtain ⟨ops, _, hhost, hl⟩ := hlog
  have hhist : (ns'.ftls i).hist = ops ++ (ns.ftls i).hist := hl.hist_eq
  have hprog : totalPrograms c ns' = totalPrograms c ns + (1 + ops.countP FlashOp.isGc) := by
    have hsum := sum_add_of_eq_off (f := fun j => nrPrograms (ns.ftls j).hist)
      (g := fun j => nrPrograms (ns'.ftls j).hist) (Finset.mem_range.mpr hi)
      (fun j _ hj => by rw [hframe j hj])
    rw [hhist, nrPrograms_append, hhost] at hsum
    unfold totalPrograms
    omega
  have herase : totalErases c ns' = totalErases c ns + ops.countP FlashOp.isErase := by
    have hsum := sum_add_of_eq_off (f := fun j => nrErases (ns.ftls j).hist)
      (g := fun j => nrErases (ns'.ftls j).hist) (Finset.mem_range.mpr hi)
      (fun j _ hj => by rw [hframe j hj])
    rw [hhist, nrErases_append] at hsum
    unfold totalErases
    omega
  obtain ⟨gc, hgc, hmbmw⟩ := h.mbmw_eq
  obtain ⟨e, he, hmbe⟩ := h.mbe_eq
  exact ⟨hl.hbmw_eq.trans h.hbmw_eq, ⟨_, by omega, charge_add hmbmw hl.mbmw_eq⟩,
    _, by omega, charge_add hmbe hl.mbe_eq⟩

theorem writeLoop_charged {k : Hooks} {req : NvmevRequest} {ruh : Nat} {ctx : FdpCtx} {st : WriteLoop τ}
    (hparts : 0 < c.nrParts) (h : writeLoop c k L req ns ruh ctx = .ok st) :
    LoopCharged c { ns with ctx := k.account (req.cmd.bytes c.lbaBits) ctx } (cmdLpns c req.cmd).length
      st.ns := by
  refine (sat_foldlM (E := fun _ => True) (fun pre (st : WriteLoop τ) => LoopCharged c
    { ns with ctx := k.account (req.cmd.bytes c.lbaBits) ctx } pre.length st.ns) _ ?_ ?_).of_eq_ok h
  · intro pre lpn post st₁ _ hst₁
    refine (writeLoopBody_log _ ruh lpn st₁).mono ?_
    rintro st₂ ⟨hlog, hframe, _⟩
    rw [List.length_append]
    exact hst₁.step (Nat.mod_lt lpn hparts) hlog hframe
  · exact ⟨rfl, ⟨0, rfl, (UInt64.add_zero _).symm⟩, 0, rfl, (UInt64.add_zero _).symm⟩

/-! ## Runs -/

/-- **The exact charge** of a run: host writes are charged their bytes, not their pages. -/
structure Charged (c : NsConfig) (log : List NvmeCommand) (ns : FdpNs τ) : Prop where
  hbmw_eq : ns.ctx.hbmw = .ofNat (logBytes c log)
  mbmw_eq : ∃ gc, totalPrograms c ns = logPages c log + gc ∧
    ns.ctx.mbmw = .ofNat (logBytes c log) + .ofNat (c.ftl.sp.pgsz * gc)
  mbe_eq : ns.ctx.mbe = .ofNat (c.ftl.sp.pgsPerBlk * c.ftl.sp.pgsz * totalErases c ns)

/-- Only the statistics and histories matter. -/
theorem Charged.congr {log : List NvmeCommand} (h : Charged c log ns) (hftls : ns'.ftls = ns.ftls)
    (hhbmw : ns'.ctx.hbmw = ns.ctx.hbmw) (hmbmw : ns'.ctx.mbmw = ns.ctx.mbmw)
    (hmbe : ns'.ctx.mbe = ns.ctx.mbe) : Charged c log ns' := by
  refine ⟨hhbmw.trans h.hbmw_eq, ?_, ?_⟩
  · rw [hmbmw, totalPrograms, hftls]
    exact h.mbmw_eq
  · rw [hmbe, totalErases, hftls]
    exact h.mbe_eq

theorem prepareWritePointer_log {cfg : FtlConfig} (io : IoType) (ruh : Nat) (s : Part τ) :
    Sat (fun _ => True) (SameLog s) (prepareWritePointer cfg io ruh s) := by
  unfold prepareWritePointer
  refine sat_bind_any fun _ => ?_
  unfold getNextFreeLine
  cases s.freeLineList with
  | nil => trivial
  | cons l rest => cases io <;> exact .rfl

theorem fdpInitFtl_log (cfg : FtlConfig) (ctx : FdpCtx) (tm : τ) :
    Sat (fun _ => True) (fun s => s.hist = [] ∧ s.ctx = ctx) (fdpInitFtl cfg ctx tm) := by
  unfold fdpInitFtl
  refine Sat.bind (Q := SameLog (initTables cfg ctx tm)) ?_ fun s₁ h₁ => ?_
  · refine sat_foldlM_const _ ?_ .rfl
    intro ruh _ s₁ h₁
    exact (prepareWritePointer_log .user ruh s₁).mono fun _ => h₁.trans
  · refine (prepareWritePointer_log .gc 0 s₁).bind fun s₂ h₂ => ?_
    have h := h₁.trans h₂
    exact ⟨h.1, h.2⟩

theorem initNamespace_charged {runs : Nat} {tm : τ} (h : initNamespace c (fdpInitCtx runs) tm = .ok ns) :
    Charged c [] ns := by
  have hinit := fdpInitFtl_log c.ftl (fdpInitCtx runs) tm
  unfold initNamespace at h
  cases hs : fdpInitFtl c.ftl (fdpInitCtx runs) tm with
  | error e =>
      rw [hs] at h
      exact absurd h nofun
  | ok s =>
      rw [hs] at h hinit
      obtain rfl := Except.ok.inj h
      obtain ⟨hhist, hctx⟩ := hinit
      refine ⟨?_, ?_, ?_⟩
      · show s.ctx.hbmw = _
        rw [hctx]
        rfl
      · simp only [totalPrograms, hhist, nrPrograms, Finset.sum_const_zero, hctx]
        exact ⟨0, rfl, rfl⟩
      · simp only [totalErases, hhist, nrErases, Finset.sum_const_zero, hctx]
        rfl

theorem completedWrites_written {req : NvmevRequest} (hop : req.cmd.opcode = .write) (t r : Nat)
    (ops : List InternalOp) : completedWrites req (some ⟨⟨scSuccess, t, r⟩, ops⟩) = [req.cmd] :=
  if_pos ⟨hop, rfl⟩

theorem completedWrites_rejected (req : NvmevRequest) (t r : Nat) (ops : List InternalOp) :
    completedWrites req (some ⟨⟨scInvalidField, t, r⟩, ops⟩) = [] :=
  if_neg fun h => absurd h.2 (show scInvalidField ≠ scSuccess by decide)

theorem completedWrites_other {req : NvmevRequest} (hop : req.cmd.opcode ≠ .write) (out : Option Handled) :
    completedWrites req out = [] := by
  cases out with
  | none => rfl
  | some r => exact if_neg fun h => hop h.1

theorem completedWrites_cases (req : NvmevRequest) (out : Option Handled) :
    completedWrites req out = [] ∨ completedWrites req out = [req.cmd] := by
  cases out with
  | none => exact Or.inl rfl
  | some r =>
      by_cases h : req.cmd.opcode = .write ∧ r.ret.status = scSuccess
      · exact Or.inr (if_pos h)
      · exact Or.inl (if_neg h)

/-- **One request** keeps the exact charge. -/
theorem Charged.io {log : List NvmeCommand} (h : Charged c log ns) (hparts : 0 < c.nrParts)
    (hlba : c.lbaBits ≤ 15) {req : NvmevRequest} {out : Option Handled}
    (hio : fdpProcNvmeIoCmd c L req ns = .ok (out, ns')) :
    Charged c (completedWrites req out ++ log) ns' := by
  obtain ⟨hop, hw⟩ | ⟨hop, ⟨tm, rfl⟩, _⟩ := procNvmeIoCmd_cases hlba hio
  · cases hw with
    | outOfRange _ => exact h
    | rejected _ hr =>
        rw [completedWrites_rejected]
        obtain ⟨_, hhbmw, hmbmw, hmbe⟩ := fdpRoute_spec hr
        exact h.congr rfl hhbmw hmbmw hmbe
    | refused _ hr _ =>
        obtain ⟨_, hhbmw, hmbmw, hmbe⟩ := fdpRoute_spec hr
        exact h.congr rfl hhbmw hmbmw hmbe
    | written _ hr _ hloop _ =>
        rw [completedWrites_written hop]
        obtain ⟨_, hhbmw, hmbmw, hmbe⟩ := fdpRoute_spec hr
        have hl := writeLoop_charged hparts hloop
        have hp : logPages c [req.cmd] = (cmdLpns c req.cmd).length := by simp [logPages]
        have hb : logBytes c [req.cmd] = req.cmd.bytes c.lbaBits := by simp [logBytes]
        obtain ⟨gc, hgc, hmedia⟩ := hl.mbmw_eq
        obtain ⟨gc₀, hgc₀, hmedia₀⟩ := h.mbmw_eq
        obtain ⟨e, he, herased⟩ := hl.mbe_eq
        change totalPrograms c _ = totalPrograms c ns + _ + _ at hgc
        change totalErases c _ = totalErases c ns + _ at he
        refine ⟨?_, ⟨gc₀ + gc, ?_, ?_⟩, ?_⟩
        · rw [hl.hbmw_eq, logBytes_append, hb, Nat.add_comm, UInt64.ofNat_add, ← h.hbmw_eq, ← hhbmw]
          rfl
        · rw [logPages_append, hp]
          omega
        · refine charge_add (y := .ofNat (logBytes c ([req.cmd] ++ log)) + .ofNat (c.ftl.sp.pgsz * gc₀)) rfl ?_
          rw [hmedia, logBytes_append, hb, UInt64.ofNat_add, UInt64.add_assoc (.ofNat (req.cmd.bytes c.lbaBits)),
            ← hmedia₀, ← hmbmw, UInt64.add_comm (.ofNat (req.cmd.bytes c.lbaBits))]
          rfl
        · rw [he, Nat.mul_add, UInt64.ofNat_add, ← h.mbe_eq, ← hmbe]
          exact herased
  · rw [completedWrites_other hop]
    exact h.congr rfl rfl rfl rfl

/-- **The exact charge holds in every state of every run.** -/
theorem NsRun.charged {log : List NvmeCommand} (hparts : 0 < c.nrParts) (hlba : c.lbaBits ≤ 15)
    (h : NsRun c (fdpHooks c) L log ns) : Charged c log ns := by
  induction h with
  | init h => exact initNamespace_charged h
  | io _ hio ih => exact ih.io hparts hlba hio
  | events _ descs ih =>
      obtain ⟨h1, h2, h3⟩ := fdpSetFeatureEvents_stats descs _
      exact ih.congr rfl h1 h2 h3
  | buffer _ _ ih => exact ih.congr rfl rfl rfl rfl

/-! ## When the charge is right -/

/-- The write covers whole pages, and `lba + nr_lba` does not wrap around. -/
def PageAligned (c : NsConfig) (cmd : NvmeCommand) : Prop :=
  cmd.slba.toNat % c.ftl.sp.secsPerPg = 0 ∧ cmd.nrLba % c.ftl.sp.secsPerPg = 0 ∧
    cmd.slba.toNat + cmd.nrLba ≤ 2 ^ 64

instance (c : NsConfig) (cmd : NvmeCommand) : Decidable (PageAligned c cmd) :=
  inferInstanceAs (Decidable (_ ∧ _ ∧ _))

/-- The pages that `n` blocks from block `a` on touch are just large enough iff both ends are page
    boundaries. -/
theorem pages_mul_eq_iff {a n q : Nat} (hq : 0 < q) (hn : 0 < n) :
    ((a + n - 1) / q + 1 - a / q) * q = n ↔ a % q = 0 ∧ n % q = 0 := by
  have h1 := Nat.div_add_mod (a + n - 1) q
  have h2 := Nat.mod_lt (a + n - 1) hq
  have h3 := Nat.div_add_mod a q
  have h4 := Nat.mod_lt a hq
  have hle : a / q ≤ (a + n - 1) / q := Nat.div_le_div_right (by omega)
  obtain ⟨d, hd⟩ := Nat.exists_eq_add_of_le hle
  have hpages : (a + n - 1) / q + 1 - a / q = d + 1 := by omega
  rw [hpages]
  rw [hd, Nat.mul_add] at h1
  constructor
  · intro h
    rw [Nat.add_mul, Nat.one_mul, Nat.mul_comm d q] at h
    have ha : a % q = 0 := by omega
    refine ⟨ha, ?_⟩
    rw [← h, ← Nat.mul_succ]
    exact Nat.mul_mod_right q (d + 1)
  · rintro ⟨ha, hnq⟩
    obtain ⟨m, hm⟩ := Nat.dvd_of_mod_eq_zero hnq
    have hlt : q * d < q * m := by omega
    have hle : q * m ≤ q * (d + 1) := by
      rw [Nat.mul_succ]
      omega
    have hdm : d + 1 = m :=
      Nat.le_antisymm (Nat.lt_of_mul_lt_mul_left hlt) (Nat.le_of_mul_le_mul_left hle hq)
    rw [hm, hdm, Nat.mul_comm]

/-- A write programs as many bytes as it is charged iff it is page-aligned. -/
theorem pages_eq_bytes_iff (hq : 0 < c.ftl.sp.secsPerPg) (hqle : c.ftl.sp.secsPerPg ≤ 4096)
    (hpgsz : c.ftl.sp.pgsz = c.ftl.sp.secsPerPg * 2 ^ c.lbaBits) (cmd : NvmeCommand) :
    c.ftl.sp.pgsz * (cmdLpns c cmd).length = cmd.bytes c.lbaBits ↔ PageAligned c cmd := by
  have hn := cmd.nrLba_pos
  have hnle := cmd.nrLba_le
  have ha := cmd.slba.toNat_lt
  have hblocks : c.ftl.sp.pgsz * (cmdLpns c cmd).length = cmd.bytes c.lbaBits ↔
      (endLpn c cmd + 1 - startLpn c cmd) * c.ftl.sp.secsPerPg = cmd.nrLba := by
    rw [hpgsz, cmdLpns, List.length_range', NvmeCommand.bytes, Nat.mul_right_comm,
      Nat.mul_comm c.ftl.sp.secsPerPg]
    exact Nat.mul_left_inj (Nat.pos_iff_ne_zero.mp (Nat.two_pow_pos _))
  rw [hblocks, PageAligned, startLpn, endLpn, NvmeCommand.lastLba]
  by_cases hwrap : cmd.slba.toNat + cmd.nrLba ≤ 2 ^ 64
  · rw [u64_of_lt (by omega), pages_mul_eq_iff hq hn]
    exact ⟨fun h => ⟨h.1, h.2, hwrap⟩, fun h => ⟨h.1, h.2.1⟩⟩
  · -- a wrapped range has its end far below its start: the loop does not run
    refine iff_of_false ?_ fun h => hwrap h.2.2
    have hlast : u64 (cmd.slba.toNat + cmd.nrLba - 1) < 65536 := by
      unfold u64
      omega
    have hlt : u64 (cmd.slba.toNat + cmd.nrLba - 1) / c.ftl.sp.secsPerPg + 1 ≤
        cmd.slba.toNat / c.ftl.sp.secsPerPg := by
      rw [← Nat.add_div_right _ hq]
      exact Nat.div_le_div_right (by omega)
    rw [Nat.sub_eq_zero_of_le hlt, Nat.zero_mul]
    omega

/-- **The statistics are right**: every programmed page and every erased page is counted, what is left
    programmed is their difference, and `hbmw` is what the host wrote, each as far as a `uint64_t` counts. -/
structure Accounted (c : NsConfig) (log : List NvmeCommand) (ns : FdpNs τ) : Prop where
  mbmw_eq : ns.ctx.mbmw = .ofNat (c.ftl.sp.pgsz * totalPrograms c ns)
  mbe_eq : ns.ctx.mbe = .ofNat (c.ftl.sp.pgsz * (c.ftl.sp.pgsPerBlk * totalErases c ns))
  diff_eq : ns.ctx.mbmw - ns.ctx.mbe = .ofNat (c.ftl.sp.pgsz * totalProgrammed c ns)
  hbmw_eq : ns.ctx.hbmw = .ofNat (logBytes c log)

/-- Over all partitions, what was programmed is still programmed or was erased. -/
theorem NsRun.balanced {k : Hooks} {log : List NvmeCommand} (hc : c.Wf) (hk : k.Valid c.ftl.nrRuh)
    (h : NsRun c k L log ns) :
    totalPrograms c ns = totalProgrammed c ns + c.ftl.sp.pgsPerBlk * totalErases c ns := by
  have hreach := h.reach hc.lbaBits_le hk
  unfold totalPrograms totalProgrammed totalErases
  rw [Finset.mul_sum, ← Finset.sum_add_distrib]
  refine Finset.sum_congr rfl ?_
  intro i _
  obtain ⟨g, _, hinv⟩ := (hreach i).sound hc.geometry hc.lines_enough
  exact hinv.balanced

/-- In a run, the statistics are right iff the pages of the completed writes are worth their bytes. -/
theorem NsRun.accounted_iff {log : List NvmeCommand} (hc : c.Wf) (h : NsRun c (fdpHooks c) L log ns) :
    Accounted c log ns ↔ UInt64.ofNat (c.ftl.sp.pgsz * logPages c log) = .ofNat (logBytes c log) := by
  have hch := h.charged hc.nrParts_pos hc.lbaBits_le
  have hbal := h.balanced hc (fdpHooks_valid hc.nrRuh_pos)
  obtain ⟨gc, hgc, hm⟩ := hch.mbmw_eq
  have hmbe : ns.ctx.mbe = .ofNat (c.ftl.sp.pgsz * (c.ftl.sp.pgsPerBlk * totalErases c ns)) := by
    rw [hch.mbe_eq, Nat.mul_comm c.ftl.sp.pgsPerBlk, Nat.mul_assoc]
  have hiff : ns.ctx.mbmw = .ofNat (c.ftl.sp.pgsz * totalPrograms c ns) ↔
      UInt64.ofNat (c.ftl.sp.pgsz * logPages c log) = .ofNat (logBytes c log) := by
    rw [hm, hgc, Nat.mul_add, UInt64.ofNat_add (c.ftl.sp.pgsz * _), UInt64.add_left_inj]
    exact eq_comm
  refine ⟨fun ha => hiff.mp ha.mbmw_eq, fun heq => ?_⟩
  have hmbmw := hiff.mpr heq
  refine ⟨hmbmw, hmbe, ?_, hch.hbmw_eq⟩
  rw [hmbmw, hmbe, hbal, Nat.mul_add, UInt64.ofNat_add, UInt64.add_sub_cancel]

/-- One command moves fewer than 2^64 bytes: its charge is right in 64 bits iff it is right. -/
theorem charge_eq_iff (hc : c.Wf) (cmd : NvmeCommand) :
    UInt64.ofNat (c.ftl.sp.pgsz * logPages c [cmd]) = .ofNat (logBytes c [cmd]) ↔ PageAligned c cmd := by
  have hp : logPages c [cmd] = (cmdLpns c cmd).length := by simp [logPages]
  have hb : logBytes c [cmd] = cmd.bytes c.lbaBits := by simp [logBytes]
  rw [hp, hb, ← pages_eq_bytes_iff hc.secsPerPg_pos hc.secsPerPg_le hc.pgsz_eq cmd]
  refine ⟨fun h => ?_, congrArg _⟩
  have hlba : 2 ^ c.lbaBits ≤ 2 ^ 15 := Nat.pow_le_pow_right (by decide) hc.lbaBits_le
  have hbytes : cmd.bytes c.lbaBits < 2 ^ 64 :=
    (Nat.mul_le_mul cmd.nrLba_le hlba).trans_lt (by decide)
  have hlen : (cmdLpns c cmd).length ≤ cmd.nrLba := by
    have hlast : endLpn c cmd ≤ startLpn c cmd + (cmd.nrLba - 1) := by
      refine (Nat.div_le_div_right (Nat.mod_le _ _)).trans ?_
      rw [Nat.add_sub_assoc cmd.nrLba_pos, startLpn, ← Nat.add_mul_div_right _ _ hc.secsPerPg_pos]
      exact Nat.div_le_div_right (Nat.add_le_add_left (Nat.le_mul_of_pos_right _ hc.secsPerPg_pos) _)
    have := cmd.nrLba_pos
    rw [cmdLpns, List.length_range']
    omega
  have hpages : c.ftl.sp.pgsz * (cmdLpns c cmd).length < 2 ^ 64 := by
    rw [hc.pgsz_eq]
    exact (Nat.mul_le_mul (Nat.mul_le_mul hc.secsPerPg_le hlba) (hlen.trans cmd.nrLba_le)).trans_lt (by decide)
  rw [← UInt64.toNat_ofNat_of_lt' hpages, h, UInt64.toNat_ofNat_of_lt' hbytes]

/-- **Media accounting.** In every run whose completed writes are all page-aligned the statistics are right.
    Conversely the first completed write that is not page-aligned makes them wrong. -/
theorem media_accounting (hc : c.Wf) {log : List NvmeCommand} (h : NsRun c (fdpHooks c) L log ns) :
    ((∀ cmd ∈ log, PageAligned c cmd) → Accounted c log ns) ∧
    ∀ req out ns', fdpProcNvmeIoCmd c L req ns = .ok (out, ns') → Accounted c log ns →
      (Accounted c (completedWrites req out ++ log) ns' ↔
        ∀ cmd ∈ completedWrites req out, PageAligned c cmd) := by
  refine ⟨?_, ?_⟩
  · intro haligned
    refine (h.accounted_iff hc).mpr ?_
    clear h
    induction log with
    | nil => rfl
    | cons cmd log ih =>
        have hcmd := (charge_eq_iff hc cmd).mpr (haligned cmd (List.mem_cons_self ..))
        have hrest := ih fun cmd' hmem => haligned cmd' (List.mem_cons_of_mem cmd hmem)
        rw [← List.singleton_append, logPages_append, logBytes_append, Nat.mul_add, UInt64.ofNat_add,
          UInt64.ofNat_add, hcmd, hrest]
  · intro req out ns' hio hacc
    have hrun : NsRun c (fdpHooks c) L (completedWrites req out ++ log) ns' := .io h hio
    rw [hrun.accounted_iff hc, logPages_append, logBytes_append, Nat.mul_add, UInt64.ofNat_add,
      UInt64.ofNat_add, (h.accounted_iff hc).mp hacc, UInt64.add_left_inj]
    rcases completedWrites_cases req out with hnil | hone
    · rw [hnil]
      exact iff_of_true rfl nofun
    · rw [hone, charge_eq_iff hc]
      simp

/-- Two page-aligned writes of 4 KiB: 8 KiB host and media bytes, two programmed pages. -/
theorem media_accounting_aligned :
    ∃ log, ∃ ns : FdpNs Unit,
      NsRun (fdpNsConfig 67108864) (fdpHooks (fdpNsConfig 67108864)) (fun _ => Latency.instant) log ns ∧
      ns.ctx.mbmw = 8192 ∧ totalPrograms (fdpNsConfig 67108864) ns = 2 ∧
      Accounted (fdpNsConfig 67108864) log ns := by
  obtain ⟨log, ns, hrun, hobs⟩ := exists_nsRun (fdpNsConfig 67108864) (fdpHooks (fdpNsConfig 67108864))
    (fun _ => Latency.instant) 0 () [writeReq 0 7 (some 3), writeReq 32 7 none]
    (fun r => (r.2.ctx.mbmw, totalPrograms (fdpNsConfig 67108864) r.2,
      decide (∀ cmd ∈ r.1, PageAligned (fdpNsConfig 67108864) cmd)))
    (a := (8192, 2, true)) (by decide +kernel)
  obtain ⟨hmbmw, hrest⟩ := Prod.mk.inj hobs
  obtain ⟨hprog, halign⟩ := Prod.mk.inj hrest
  exact ⟨log, ns, hrun, hmbmw, hprog,
    (media_accounting (fdpNsConfig_wf (by decide) (by decide)) hrun).1 (of_decide_eq_true halign)⟩

/-- One write of a single 512-byte block: `mbmw` is charged 512 bytes for the 4 KiB page it programs. -/
theorem partial_page_write_undercounted :
    ∃ log, ∃ ns : FdpNs Unit,
      NsRun (fdpNsConfig 67108864) (fdpHooks (fdpNsConfig 67108864)) (fun _ => Latency.instant) log ns ∧
      log = [(writeReq 0 0 none).cmd] ∧ ns.ctx.mbmw = 512 ∧
      totalPrograms (fdpNsConfig 67108864) ns = 1 ∧
      ns.ctx.mbmw ≠ .ofNat ((fdpSp 67108864).pgsz * totalPrograms (fdpNsConfig 67108864) ns) := by
  obtain ⟨log, ns, hrun, hobs⟩ := exists_nsRun (fdpNsConfig 67108864) (fdpHooks (fdpNsConfig 67108864))
    (fun _ => Latency.instant) 0 () [writeReq 0 0 none]
    (fun r => (r.1, r.2.ctx.mbmw, totalPrograms (fdpNsConfig 67108864) r.2))
    (a := ([(writeReq 0 0 none).cmd], 512, 1)) (by decide +kernel)
  obtain ⟨hlog, hrest⟩ := Prod.mk.inj hobs
  obtain ⟨hmbmw, hprog⟩ := Prod.mk.inj hrest
  refine ⟨log, ns, hrun, hlog, hmbmw, hprog, ?_⟩
  have hpgsz : (fdpSp 67108864).pgsz = 4096 := fdp_pgsz 67108864
  rw [hmbmw, hprog, hpgsz]
  decide

end NvmeVirt
