import NvmeVirt.Ftl.Relabel
import NvmeVirt.Fdp.Isolation

/-!
# `Fdp.Symmetry` — runs that differ in the names of their handles

Two devices take the same accepted writes, the second with its placement handles permuted, each with its own
latency model and clock. `ruh_relabelling` says that their statistics agree after every command and that
their partitions are the same up to one renaming of lines. Permuting handle `0` with handle `r` gives the
single-handle control: a workload tagged with one handle is the untagged workload.
-/

namespace NvmeVirt

open Outcome

variable {τ τ' : Type} {c : NsConfig} {L : Nat → Latency τ} {L' : Nat → Latency τ'} {ns : FdpNs τ}
  {ns' : FdpNs τ'}

/-! ## Paired runs -/

/-- The same blocks are written. -/
structure SameRange (cmd cmd' : NvmeCommand) : Prop where
  slba_eq : cmd'.slba = cmd.slba
  length_eq : cmd'.length = cmd.length

/-- The same write through the renamed handle; a write without directive counts as handle 0. -/
def Relabelled {n : Nat} (p : Equiv.Perm (Fin n)) (cmd cmd' : NvmeCommand) : Prop :=
  SameRange cmd cmd' ∧ routedRuh cmd' = onHandles p (routedRuh cmd)

/-- The same write, without a directive and tagged with handle `r`. -/
def Tagged (r : Nat) (cmd cmd' : NvmeCommand) : Prop :=
  SameRange cmd cmd' ∧ cmd.dtype ≠ directivePlacement ∧ cmd'.dtype = directivePlacement ∧ cmd'.dspec = r

/-- A write command that completes with success. -/
structure Accepted (c : NsConfig) (L : Nat → Latency τ) (req : NvmevRequest) (ns ns₁ : FdpNs τ) : Prop where
  opcode_eq : req.cmd.opcode = .write
  success : ∃ r, fdpProcNvmeIoCmd c L req ns = .ok (some r, ns₁) ∧ r.ret.status = scSuccess

/-- **Two runs of accepted writes**, paired by `R` on their commands, from freshly initialised devices. In
    between, each device's latency state may change at will, its workers may do what they like to the write
    buffer, and its host may switch event types. -/
inductive TwoRuns (c : NsConfig) (R : NvmeCommand → NvmeCommand → Prop) (L : Nat → Latency τ)
    (L' : Nat → Latency τ') : FdpNs τ → FdpNs τ' → Prop where
  | init {runs : Nat} {tm : τ} {tm' : τ'} {ns : FdpNs τ} {ns' : FdpNs τ'}
      (h : initNamespace c (fdpInitCtx runs) tm = .ok ns)
      (h' : initNamespace c (fdpInitCtx runs) tm' = .ok ns') : TwoRuns c R L L' ns ns'
  | write {ns ns₁ : FdpNs τ} {ns' ns₁' : FdpNs τ'} {req req' : NvmevRequest}
      (hr : TwoRuns c R L L' ns ns') (hR : R req.cmd req'.cmd) (h : Accepted c L req ns ns₁)
      (h' : Accepted c L' req' ns' ns₁') : TwoRuns c R L L' ns₁ ns₁'
  | idle {ns : FdpNs τ} {ns' : FdpNs τ'} (hr : TwoRuns c R L L' ns ns') (tm : τ) (tm' : τ')
      (buf buf' : Buffer) (descs descs' : List (Nat × Nat)) :
      TwoRuns c R L L' { ns with tm := tm, wbuf := buf, ctx := fdpSetFeatureEvents descs ns.ctx }
        { ns' with tm := tm', wbuf := buf', ctx := fdpSetFeatureEvents descs' ns'.ctx }

theorem TwoRuns.mono {R R' : NvmeCommand → NvmeCommand → Prop} (hR : ∀ cmd cmd', R cmd cmd' → R' cmd cmd')
    (h : TwoRuns c R L L' ns ns') : TwoRuns c R' L L' ns ns' := by
  induction h with
  | init h h' => exact .init h h'
  | write _ hcmd h h' ih => exact .write ih (hR _ _ hcmd) h h'
  | idle _ tm tm' buf buf' descs descs' ih => exact .idle ih tm tm' buf buf' descs descs'

/-! ## Devices in step -/

/-- Every partition of the second device is the renamed partition of the first, and the statistics agree. -/
structure NsSim (c : NsConfig) (p : Equiv.Perm (Fin c.ftl.nrRuh)) (ns : FdpNs τ) (ns' : FdpNs τ') : Prop where
  renamed : ∀ i, Renamed c.ftl (onHandles p) (onHandles p) (ns.ftls i) (ns'.ftls i)
  sound : ∀ i, Sound c.ftl (ns.ftls i)
  stats : SameStats ns.ctx ns'.ctx

variable {p : Equiv.Perm (Fin c.ftl.nrRuh)}

theorem NsSim.part (h : NsSim c p ns ns') (i : Nat) :
    Sim c.ftl (onHandles p) (onHandles p) (ns.part i) (ns'.part i) :=
  ⟨h.renamed i, (h.sound i).addressed, h.stats⟩

theorem NsSim.setPart (h : NsSim c p ns ns') (i : Nat) {s : Part τ} {s' : Part τ'}
    (hs : Sim c.ftl (onHandles p) (onHandles p) s s') (hsound : Sound c.ftl s.toFdpFtl) :
    NsSim c p (ns.setPart i s) (ns'.setPart i s') := by
  refine ⟨?_, ?_, hs.stats⟩
  · intro j
    by_cases hj : j = i
    · subst hj
      simp only [FdpNs.setPart, Function.update_self]
      exact hs.renamed
    · rw [ftls_setPart_of_ne _ _ hj, ftls_setPart_of_ne _ _ hj]
      exact h.renamed j
  · intro j
    by_cases hj : j = i
    · subst hj
      simp only [FdpNs.setPart, Function.update_self]
      exact hsound
    · rw [ftls_setPart_of_ne _ _ hj]
      exact h.sound j

/-- One round of the two write loops. -/
theorem writeLoopBody_sim (hc : c.Wf) {st : WriteLoop τ} {st' : WriteLoop τ'} (h : NsSim c p st.ns st'.ns)
    (stime stime' : Nat) {ruh lpn : Nat} (hruh : ruh < c.ftl.nrRuh)
    (hlpn : lpn / c.nrParts < c.ftl.sp.ttPgs) :
    Rel (fun a b => NsSim c p a.ns b.ns) (writeLoopBody c L stime ruh st lpn)
      (writeLoopBody c L' stime' (onHandles p ruh) st' lpn) := by
  have hsound := h.sound (lpn % c.nrParts)
  unfold writeLoopBody
  refine Rel.bind_sat (writePage_sim hc.geometry (onHandles_renaming p hc.lines_enough) hsound
    (h.part _) stime stime' hruh hlpn) (writePage_spec (L _) hc.geometry hsound stime hruh hlpn) ?_
  rintro ⟨t, s⟩ ⟨t', s'⟩ hs hs'
  have hset := h.setPart (lpn % c.nrParts) hs hs'
  cases t with
  | none =>
      cases t' with
      | none => exact hset
      | some _ => exact hset
  | some _ =>
      cases t' with
      | none => exact hset
      | some _ => exact hset

/-! ## One accepted write -/

theorem SameRange.cmdLpns_eq {cmd cmd' : NvmeCommand} (h : SameRange cmd cmd') (c : NsConfig) :
    cmdLpns c cmd' = cmdLpns c cmd := by
  simp only [cmdLpns, startLpn, endLpn, NvmeCommand.lastLba, NvmeCommand.nrLba, h.slba_eq, h.length_eq]

theorem SameRange.bytes_eq {cmd cmd' : NvmeCommand} (h : SameRange cmd cmd') (lbaBits : Nat) :
    cmd'.bytes lbaBits = cmd.bytes lbaBits := by
  simp only [NvmeCommand.bytes, NvmeCommand.nrLba, h.length_eq]

theorem SameRange.outOfRange_iff {cmd cmd' : NvmeCommand} (h : SameRange cmd cmd') (c : NsConfig) :
    outOfRange c cmd' ↔ outOfRange c cmd := by
  simp only [outOfRange, endLpn, NvmeCommand.lastLba, NvmeCommand.nrLba, h.slba_eq, h.length_eq]

/-- The write loops of paired commands. -/
theorem writeLoop_sim (hc : c.Wf) {req req' : NvmevRequest} (hrange : SameRange req.cmd req'.cmd)
    (hin : ¬ outOfRange c req.cmd) (h : NsSim c p ns ns') {ruh : Nat} (hruh : ruh < c.ftl.nrRuh)
    {ctx ctx' : FdpCtx} (hctx : SameStats ctx ctx') :
    Rel (fun a b => NsSim c p a.ns b.ns) (writeLoop c (fdpHooks c) L req ns ruh ctx)
      (writeLoop c (fdpHooks c) L' req' ns' (onHandles p ruh) ctx') := by
  unfold writeLoop
  rw [hrange.cmdLpns_eq]
  refine rel_foldlM _ ?_ ?_
  · intro lpn hlpn st st' hst
    exact writeLoopBody_sim hc hst _ _ hruh (lpn_in_range hin hlpn)
  · refine ⟨h.renamed, h.sound, ?_⟩
    show SameStats (fdpAccount _ ctx) (fdpAccount _ ctx')
    rw [hrange.bytes_eq]
    exact { hctx with
      hbmw := congrArg (· + .ofNat (req.cmd.bytes c.lbaBits)) hctx.hbmw
      mbmw := congrArg (· + .ofNat (req.cmd.bytes c.lbaBits)) hctx.mbmw }

/-- What an accepted write did: routed to its handle, ran its loop. -/
theorem Accepted.cases (hlba : c.lbaBits ≤ 15) {req : NvmevRequest} {ns₁ : FdpNs τ}
    (h : Accepted c L req ns ns₁) :
    ∃ ctx st, ¬ outOfRange c req.cmd ∧
      fdpRoute c.ftl.nrRuh req.cmd ((L 0).localClock ns.tm) ns.ctx = (some (routedRuh req.cmd), ctx) ∧
      writeLoop c (fdpHooks c) L req ns (routedRuh req.cmd) ctx = .ok st ∧ st.ns = ns₁ := by
  obtain ⟨r, hio, hstatus⟩ := h.success
  obtain ⟨_, hw⟩ | ⟨hop, _⟩ := procNvmeIoCmd_cases hlba hio
  · cases hw with
    | rejected _ _ => exact absurd hstatus (show ¬ (2 : Nat) = 0 by decide)
    | @written ruh ctx st hin hr _ hloop _ _ =>
        obtain rfl := (fdpRoute_spec hr).1 _ rfl
        exact ⟨ctx, st, hin, hr, hloop, rfl⟩
  · exact absurd h.opcode_eq hop

theorem fdpRoute_stats {nrRuh now : Nat} {cmd : NvmeCommand} {ctx ctx' : FdpCtx} {ruh : Option Nat}
    (h : fdpRoute nrRuh cmd now ctx = (ruh, ctx')) : SameStats ctx ctx' :=
  ⟨(fdpRoute_spec h).2.1, (fdpRoute_spec h).2.2.1, (fdpRoute_spec h).2.2.2⟩

theorem SameStats.route {ctx ctx₁ ctx' ctx₁' : FdpCtx} (h : SameStats ctx ctx') (h₁ : SameStats ctx ctx₁)
    (h₁' : SameStats ctx' ctx₁') : SameStats ctx₁ ctx₁' :=
  ⟨by rw [h₁'.hbmw, h.hbmw, h₁.hbmw], by rw [h₁'.mbmw, h.mbmw, h₁.mbmw], by rw [h₁'.mbe, h.mbe, h₁.mbe]⟩

/-- **One pair of accepted writes** keeps the devices in step. -/
theorem NsSim.write (hc : c.Wf) {req req' : NvmevRequest} {ns₁ : FdpNs τ} {ns₁' : FdpNs τ'}
    (h : NsSim c p ns ns') (hcmd : Relabelled p req.cmd req'.cmd) (ha : Accepted c L req ns ns₁)
    (ha' : Accepted c L' req' ns' ns₁') : NsSim c p ns₁ ns₁' := by
  obtain ⟨hrange, hruh⟩ := hcmd
  obtain ⟨ctx, st, hin, hr, hloop, rfl⟩ := ha.cases hc.lbaBits_le
  obtain ⟨ctx', st', _, hr', hloop', rfl⟩ := ha'.cases hc.lbaBits_le
  have hctx := h.stats.route (fdpRoute_stats hr) (fdpRoute_stats hr')
  have hlt := fdpHooks_valid hc.nrRuh_pos _ _ _ _ _ hr
  have hsim : Rel _ (writeLoop c (fdpHooks c) L req ns _ ctx) (writeLoop c (fdpHooks c) L' req' ns' _ ctx') :=
    writeLoop_sim hc hrange hin h hlt hctx
  rw [hruh] at hloop'
  rw [hloop, hloop'] at hsim
  exact hsim

theorem fdpRoute_of_lt {nrRuh : Nat} {cmd : NvmeCommand} (h : routedRuh cmd < nrRuh) (now : Nat)
    (ctx : FdpCtx) : (fdpRoute nrRuh cmd now ctx).1 = some (routedRuh cmd) := by
  unfold routedRuh at h ⊢
  unfold fdpRoute
  by_cases hd : cmd.dtype = directivePlacement
  · rw [if_pos hd] at h
    rw [if_pos hd, if_neg (Nat.not_le.mpr h), if_pos hd]
  · rw [if_neg hd, if_neg hd]
    split <;> rfl

/-- **If the first device accepts a write, so does the second**, as long as it fits its write buffer. -/
theorem NsSim.accept (hc : c.Wf) {req req' : NvmevRequest} {ns₁ : FdpNs τ} (h : NsSim c p ns ns')
    (hcmd : Relabelled p req.cmd req'.cmd) (ha : Accepted c L req ns ns₁)
    (hop : req'.cmd.opcode = .write) (hrem : req'.cmd.bytes c.lbaBits ≤ ns'.wbuf.remaining)
    (hsize : req'.cmd.bytes c.lbaBits ≤ ns'.wbuf.size) : ∃ ns₁', Accepted c L' req' ns' ns₁' := by
  obtain ⟨hrange, hruh⟩ := hcmd
  obtain ⟨ctx, st, hin, hr, hloop, rfl⟩ := ha.cases hc.lbaBits_le
  have hlt := fdpHooks_valid hc.nrRuh_pos _ _ _ _ _ hr
  have hroute' : ((fdpHooks c).route req'.cmd ((L' 0).localClock ns'.tm) ns'.ctx).1 =
      some (onHandles p (routedRuh req.cmd)) := by
    rw [← hruh]
    refine fdpRoute_of_lt ?_ _ _
    rw [hruh]
    exact (onHandles_lt p _).mpr hlt
  have hloop' : ∀ ctx', fdpRoute c.ftl.nrRuh req'.cmd ((L' 0).localClock ns'.tm) ns'.ctx =
      (some (onHandles p (routedRuh req.cmd)), ctx') →
      Rel (fun a b => NsSim c p a.ns b.ns) (.ok st)
        (writeLoop c (fdpHooks c) L' req' ns' (onHandles p (routedRuh req.cmd)) ctx') := by
    intro ctx' hr'
    rw [← hloop]
    exact writeLoop_sim hc hrange hin h hlt (h.stats.route (fdpRoute_stats hr) (fdpRoute_stats hr'))
  have hspec := writeCommand_spec (fdpHooks c) L' req' ns' hc.lbaBits_le
  have hproc : fdpProcNvmeIoCmd c L' req' ns' = writeCommand c (fdpHooks c) L' req' ns' := by
    rw [fdpProcNvmeIoCmd, procNvmeIoCmd, hop]
  cases hres : writeCommand c (fdpHooks c) L' req' ns' with
  | error e =>
      rw [hres] at hspec
      obtain ⟨_, hbig⟩ | ⟨ruh, ctx', _, hr', herr⟩ := hspec
      · omega
      · rw [hr'] at hroute'
        obtain rfl := Option.some.inj hroute'
        have hrel := hloop' ctx' hr'
        rw [herr] at hrel
        exact absurd hrel id
  | ok r =>
      obtain ⟨out, ns₁'⟩ := r
      rw [hres] at hspec
      refine ⟨ns₁', hop, ?_⟩
      rw [hproc, hres]
      cases hspec with
      | outOfRange hout => exact absurd ((hrange.outOfRange_iff c).mp hout) hin
      | rejected _ hr' =>
          rw [hr'] at hroute'
          exact absurd hroute' nofun
      | refused _ _ hb => omega
      | written _ _ _ _ _ => exact ⟨_, rfl, rfl⟩

/-! ## Whole runs -/

theorem initNamespace_sim (hc : c.Wf) {runs : Nat} {tm : τ} {tm' : τ'}
    (h : initNamespace c (fdpInitCtx runs) tm = .ok ns)
    (h' : initNamespace c (fdpInitCtx runs) tm' = .ok ns') : NsSim c p ns ns' := by
  rw [initNamespace_eq _ _ hc.lines_enough] at h h'
  obtain rfl := Except.ok.inj h
  obtain rfl := Except.ok.inj h'
  have hsim := sim_initialised hc.geometry hc.lines_enough p (⟨rfl, rfl, rfl⟩ : SameStats (fdpInitCtx runs) _)
    tm tm'
  exact ⟨fun _ => hsim.renamed, fun _ => sound_initialised _ _ hc.geometry hc.lines_enough, hsim.stats⟩

/-- **Two runs stay in step**, by induction on the run. -/
theorem TwoRuns.sim (hc : c.Wf) (h : TwoRuns c (Relabelled p) L L' ns ns') : NsSim c p ns ns' := by
  induction h with
  | init h h' => exact initNamespace_sim hc h h'
  | write _ hcmd ha ha' ih => exact ih.write hc hcmd ha ha'
  | idle _ tm tm' buf buf' descs descs' ih =>
      obtain ⟨h1, h2, h3⟩ := fdpSetFeatureEvents_stats descs _
      obtain ⟨h1', h2', h3'⟩ := fdpSetFeatureEvents_stats descs' _
      exact ⟨ih.renamed, ih.sound, ih.stats.route ⟨h1, h2, h3⟩ ⟨h1', h2', h3'⟩⟩

/-- A tagged write is the untagged write with the handles 0 and `r` exchanged. -/
theorem Tagged.relabelled {n r : Nat} (h0 : 0 < n) (hr : r < n) {cmd cmd' : NvmeCommand}
    (h : Tagged r cmd cmd') : Relabelled (Equiv.swap (⟨0, h0⟩ : Fin n) ⟨r, hr⟩) cmd cmd' := by
  obtain ⟨hrange, hd, hd', hspec⟩ := h
  refine ⟨hrange, ?_⟩
  rw [routedRuh, if_pos hd', hspec, routedRuh, if_neg hd, onHandles_of_lt _ h0, Equiv.swap_apply_left]

/-- **Relabelling the handles changes nothing but names.** In any two runs of accepted writes whose commands
    differ by a permutation of the handles, under any two latency models and clocks, the statistics agree,
    every partition of the second device is the renamed partition of the first, and the second device accepts
    what the first accepts if its write buffer does. So a workload tagged with one handle has the statistics
    of the workload without directives. (Devices of 4 bytes to 512 GiB.) -/
theorem ruh_relabelling (hc : c.Wf) :
    (∀ (p : Equiv.Perm (Fin c.ftl.nrRuh)) (ns : FdpNs τ) (ns' : FdpNs τ'),
      TwoRuns c (Relabelled p) L L' ns ns' →
        SameStats ns.ctx ns'.ctx ∧
        (∀ i, Renamed c.ftl (onHandles p) (onHandles p) (ns.ftls i) (ns'.ftls i)) ∧
        ∀ req req' ns₁, Relabelled p req.cmd req'.cmd → Accepted c L req ns ns₁ →
          req'.cmd.opcode = .write → req'.cmd.bytes c.lbaBits ≤ ns'.wbuf.remaining →
          req'.cmd.bytes c.lbaBits ≤ ns'.wbuf.size → ∃ ns₁', Accepted c L' req' ns' ns₁') ∧
    ∀ r, r < c.ftl.nrRuh → ∀ (ns : FdpNs τ) (ns' : FdpNs τ'), TwoRuns c (Tagged r) L L' ns ns' →
      SameStats ns.ctx ns'.ctx := by
  refine ⟨?_, ?_⟩
  · intro p ns ns' h
    have hsim := h.sim hc
    exact ⟨hsim.stats, hsim.renamed, fun req req' ns₁ hcmd ha => hsim.accept hc hcmd ha⟩
  · intro r hr ns ns' h
    exact ((h.mono fun _ _ => Tagged.relabelled hc.nrRuh_pos hr).sim hc).stats

/-- A write that was evaluated as far as its status and an observation `f` is an accepted write. -/
theorem exists_accepted {α : Type} (L : Nat → Latency τ) (req : NvmevRequest) (ns : FdpNs τ)
    (f : FdpNs τ → α) {a : α} (hop : req.cmd.opcode = .write)
    (h : ((fdpProcNvmeIoCmd c L req ns).map fun r => (r.1.map (·.ret.status), f r.2)).toOption =
      some (some scSuccess, a)) : ∃ ns₁, Accepted c L req ns ns₁ ∧ f ns₁ = a := by
  cases hres : fdpProcNvmeIoCmd c L req ns with
  | error e =>
      rw [hres] at h
      exact absurd h nofun
  | ok r =>
      obtain ⟨out, ns₁⟩ := r
      rw [hres] at h
      obtain ⟨hout, hf⟩ := Prod.mk.inj (Option.some.inj h)
      cases out with
      | none => exact absurd hout nofun
      | some r => exact ⟨ns₁, ⟨hop, r, hres, Option.some.inj hout⟩, hf⟩

/-- A 4 KiB write without directive, and through handle 3 on a device with another clock. -/
theorem ruh_relabelling_one_handle :
    ∃ ns ns' : FdpNs Unit,
      TwoRuns (fdpNsConfig 67108864) (Tagged 3) (fun _ => Latency.instant)
        (fun _ => { Latency.instant with localClock := fun _ => 1000 }) ns ns' ∧
      ns.ctx.hbmw = 4096 ∧ SameStats ns.ctx ns'.ctx ∧
      ∀ i, Renamed (fdpFtlConfig 67108864) (onHandles (Equiv.swap (0 : Fin 8) 3))
        (onHandles (Equiv.swap (0 : Fin 8) 3)) (ns.ftls i) (ns'.ftls i) := by
  have hc : (fdpNsConfig 67108864).Wf := fdpNsConfig_wf (by decide) (by decide)
  have hinit := initNamespace_eq (c := fdpNsConfig 67108864) (fdpInitCtx 131072) () hc.lines_enough
  obtain ⟨ns, ha, hbmw⟩ := exists_accepted (c := fdpNsConfig 67108864) (fun _ => Latency.instant)
    (writeReq 0 7 none) (freshNs (fdpNsConfig 67108864) (fdpInitCtx 131072) ()) (fun ns => ns.ctx.hbmw)
    (a := 4096) rfl (by decide +kernel)
  obtain ⟨ns', ha', _⟩ := exists_accepted (c := fdpNsConfig 67108864)
    (fun _ => { Latency.instant with localClock := fun _ => 1000 }) (writeReq 0 7 (some 3))
    (freshNs (fdpNsConfig 67108864) (fdpInitCtx 131072) ()) (fun ns => ns.ctx.hbmw)
    (a := 4096) rfl (by decide +kernel)
  have htag : Tagged 3 (writeReq 0 7 none).cmd (writeReq 0 7 (some 3)).cmd :=
    ⟨⟨rfl, rfl⟩, by decide, by decide, by decide⟩
  have hrun := TwoRuns.write (.init hinit hinit) htag ha ha'
  have hswap : TwoRuns (fdpNsConfig 67108864) (Relabelled (Equiv.swap (0 : Fin 8) 3)) _ _ ns ns' :=
    hrun.mono fun _ _ => Tagged.relabelled (n := 8) (by decide) (by decide)
  have hrel := (ruh_relabelling hc).1 _ ns ns' hswap
  exact ⟨ns, ns', hrun, hbmw, hrel.1, hrel.2.1⟩

end NvmeVirt
