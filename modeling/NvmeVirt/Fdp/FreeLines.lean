import NvmeVirt.Ftl.Starve
import NvmeVirt.Fdp.Run

/-!
# `Fdp.FreeLines` — when a namespace can run out of free lines

`Stocked` lifted to the namespace: in a run in which every page write starts on a partition that is ready
for a collection, no write pointer is ever left without a line.
-/

namespace NvmeVirt

open Outcome

variable {τ : Type} {c : NsConfig} {k : Hooks} {L : Nat → Latency τ} {ns ns' : FdpNs τ}

/-! ## Runs that stay ready -/

/-- Every round of a write loop starts on a partition that is ready for a collection. -/
def LoopReady (c : NsConfig) (L : Nat → Latency τ) (stime ruh : Nat) : List Nat → WriteLoop τ → Prop
  | [], _ => True
  | lpn :: lpns, st =>
      GcReady c.ftl (st.ns.ftls (lpn % c.nrParts)) ∧
        ∀ st', writeLoopBody c L stime ruh st lpn = .ok st' → LoopReady c L stime ruh lpns st'

/-- The page writes of a request start on partitions that are ready for a collection. -/
def RequestReady (c : NsConfig) (k : Hooks) (L : Nat → Latency τ) (req : NvmevRequest) (ns : FdpNs τ) :
    Prop :=
  ∀ ruh ctx, k.route req.cmd ((L 0).localClock ns.tm) ns.ctx = (some ruh, ctx) →
    LoopReady c L (xferCompleted c L req ns) ruh (cmdLpns c req.cmd) (writeLoopStart c k L req ns ctx)

/-- Runs of a namespace whose requests are all `RequestReady`. -/
inductive ReadyRun (c : NsConfig) (k : Hooks) (L : Nat → Latency τ) : FdpNs τ → Prop where
  | init {runs : Nat} {tm : τ} {ns : FdpNs τ} (h : initNamespace c (fdpInitCtx runs) tm = .ok ns) :
      ReadyRun c k L ns
  | io {ns ns' : FdpNs τ} {req : NvmevRequest} {out : Option Handled} (hr : ReadyRun c k L ns)
      (hready : RequestReady c k L req ns) (h : procNvmeIoCmd c k L req ns = .ok (out, ns')) :
      ReadyRun c k L ns'
  | events {ns : FdpNs τ} (hr : ReadyRun c k L ns) (descs : List (Nat × Nat)) :
      ReadyRun c k L { ns with ctx := fdpSetFeatureEvents descs ns.ctx }
  | buffer {ns : FdpNs τ} (hr : ReadyRun c k L ns) (buf : Buffer) : ReadyRun c k L { ns with wbuf := buf }

/-! ## Stocked namespaces -/

/-- Every partition is stocked. -/
def PartsStocked (c : NsConfig) (ns : FdpNs τ) : Prop := ∀ i, Stocked c.ftl (ns.ftls i)

theorem writeLoopBody_stocked (hf : c.ftl.Flow) (stime : Nat) {ruh lpn : Nat} {st : WriteLoop τ}
    (hruh : ruh < c.ftl.nrRuh) (hlpn : lpn / c.nrParts < c.ftl.sp.ttPgs) (h : PartsStocked c st.ns)
    (hready : GcReady c.ftl (st.ns.ftls (lpn % c.nrParts))) :
    Sat (fun _ => False) (fun st => PartsStocked c st.ns) (writeLoopBody c L stime ruh st lpn) :=
  writeLoopBody_parts h (Stocked.writePage (s := st.ns.part (lpn % c.nrParts)) (L (lpn % c.nrParts)) hf
    (h _) hready stime hruh hlpn)

/-- **A whole write loop** on stocked partitions that stay ready. -/
theorem foldlM_stocked (hf : c.ftl.Flow) {stime ruh : Nat} (hruh : ruh < c.ftl.nrRuh) (lpns : List Nat)
    (hlpns : ∀ lpn ∈ lpns, lpn / c.nrParts < c.ftl.sp.ttPgs) {st : WriteLoop τ} (h : PartsStocked c st.ns)
    (hready : LoopReady c L stime ruh lpns st) :
    Sat (fun _ => False) (fun st => PartsStocked c st.ns)
      (lpns.foldlM (writeLoopBody c L stime ruh) st) := by
  induction lpns generalizing st with
  | nil => exact h
  | cons lpn lpns ih =>
      obtain ⟨hnow, hlater⟩ := hready
      rw [List.foldlM_cons]
      have hbody := writeLoopBody_stocked (L := L) hf stime hruh (hlpns lpn (List.mem_cons_self ..)) h hnow
      cases hres : writeLoopBody c L stime ruh st lpn with
      | error e =>
          rw [hres] at hbody
          exact hbody
      | ok st' =>
          rw [hres] at hbody
          exact ih (fun x hx => hlpns x (List.mem_cons_of_mem lpn hx)) hbody (hlater st' hres)

/-- The write loop of a ready request neither faults nor leaves a partition unstocked. -/
theorem writeLoop_stocked (hf : c.ftl.Flow) (hk : k.Valid c.ftl.nrRuh) {req : NvmevRequest} {ruh : Nat}
    {ctx : FdpCtx} (hin : ¬ outOfRange c req.cmd)
    (hr : k.route req.cmd ((L 0).localClock ns.tm) ns.ctx = (some ruh, ctx)) (h : PartsStocked c ns)
    (hready : RequestReady c k L req ns) :
    Sat (fun _ => False) (fun st => PartsStocked c st.ns) (writeLoop c k L req ns ruh ctx) :=
  foldlM_stocked hf (hk _ _ _ _ _ hr) _ (fun _ => lpn_in_range hin) h (hready ruh ctx hr)

theorem initNamespace_stocked (hf : c.ftl.Flow) {ctx : FdpCtx} {tm : τ}
    (h : initNamespace c ctx tm = .ok ns) : PartsStocked c ns := by
  rw [initNamespace_eq _ _ (Nat.le_of_succ_le hf.lines_enough)] at h
  obtain rfl := Except.ok.inj h
  intro i
  exact stocked_initialised ctx tm hf

/-- **Every state of a ready run is stocked.** -/
theorem ReadyRun.stocked (hf : c.ftl.Flow) (hk : k.Valid c.ftl.nrRuh) (hlba : c.lbaBits ≤ 15)
    (h : ReadyRun c k L ns) : PartsStocked c ns := by
  induction h with
  | init h => exact initNamespace_stocked hf h
  | io _ hready h ih =>
      obtain ⟨_, hw⟩ | ⟨_, ⟨tm, rfl⟩, _⟩ := procNvmeIoCmd_cases hlba h
      · cases hw with
        | outOfRange _ => exact ih
        | rejected _ _ => exact ih
        | refused _ _ _ => exact ih
        | written hin hr _ hloop _ => exact (writeLoop_stocked hf hk hin hr ih hready).of_eq_ok hloop
      · exact ih
  | events _ _ ih => exact ih
  | buffer _ _ ih => exact ih

/-! ## The shipped target -/

/-- The flow control of the FDP target: a collection starts at 9 free lines, for 8 handles and GC. -/
theorem fdp_flow {size : Nat} (h1 : 4 ≤ size) (h2 : size ≤ 2 ^ 39) : (fdpFtlConfig size).Flow where
  geometry := fdp_geometry h1 h2
  thres_eq := rfl
  lines_enough := by
    rw [fdp_ttLines]
    show 8 + 2 ≤ 128
    decide
  pgsPerLine_lt := by
    have hg := fdp_geometry h1 h2
    have hblk : (fdpFtlConfig size).sp.pgsPerBlk ≤ 65536 := hg.pgsPerBlk_le
    have hline : (fdpFtlConfig size).sp.pgsPerLine = 2 * 2 * (fdpFtlConfig size).sp.pgsPerBlk :=
      hg.pgsPerLine_eq
    omega

/-- **Free lines suffice.** On every device up to 512 GiB, a run whose page writes all start on partitions
    ready for a collection never dereferences a missing line. -/
theorem free_lines_suffice {size : Nat} (hsize : size ≤ 2 ^ 39)
    (h : ReadyRun (fdpNsConfig size) (fdpHooks (fdpNsConfig size)) L ns) {req : NvmevRequest}
    (hready : RequestReady (fdpNsConfig size) (fdpHooks (fdpNsConfig size)) L req ns) :
    fdpProcNvmeIoCmd (fdpNsConfig size) L req ns ≠ .error .nullLine := by
  have hlba : (fdpNsConfig size).lbaBits ≤ 15 := show 9 ≤ 15 by decide
  have hk : (fdpHooks (fdpNsConfig size)).Valid (fdpNsConfig size).ftl.nrRuh :=
    fdpHooks_valid (show 0 < 8 by decide)
  intro herr
  obtain ⟨hbug, _⟩ | ⟨ruh, ctx, hin, hr, hloop⟩ := procNvmeIoCmd_error hlba herr
  · exact absurd hbug nofun
  · rcases Nat.lt_or_ge size 4 with hsmall | hlarge
    · exact hin (outOfRange_of_small hsmall _)
    · have hf : (fdpNsConfig size).ftl.Flow := fdp_flow hlarge hsize
      exact (writeLoop_stocked hf hk hin hr (h.stocked hf hk hlba) hready).of_eq_error hloop

/-- A request of one page, to a partition that is ready for a collection. -/
def onePageReady (c : NsConfig) (ns : FdpNs τ) (req : NvmevRequest) : Bool :=
  match cmdLpns c req.cmd with
  | [lpn] => decide (GcReady c.ftl (ns.ftls (lpn % c.nrParts)))
  | _ => false

theorem requestReady_of_onePage {req : NvmevRequest} (h : onePageReady c ns req = true) : RequestReady c k L req ns := by
  unfold onePageReady at h
  split at h
  · rename_i lpn hlpns
    intro ruh ctx _
    rw [hlpns]
    exact ⟨of_decide_eq_true h, fun _ _ => trivial⟩
  · cases h

/-- Request `i` of a sweep over the first 3808 pages of partition 0, that is 119 of its 128 lines on a
    64 MiB device, one page a request. -/
def sweepReq (i : Nat) : NvmevRequest := writeReq (UInt64.ofNat (32 * (i % 3808))) 7 none

/-- The page of a 64 MiB device that uses up the credits of its partition and closes a line. -/
theorem free_lines_suffice_line_closed :
    ∃ ns : FdpNs Unit,
      ReadyRun (fdpNsConfig 67108864) (fdpHooks (fdpNsConfig 67108864)) (fun _ => Latency.instant) ns ∧
      (ns.ftls 0).writeCredits = 1 ∧ (ns.ftls 0).freeLineCnt = 119 ∧
      fdpProcNvmeIoCmd (fdpNsConfig 67108864) (fun _ => Latency.instant) (sweepReq 31) ns ≠ .error .nullLine := by
  have hinit := initNamespace_eq (c := fdpNsConfig 67108864) (fdpInitCtx 131072) () (fdp_lines_enough _)
  have hobs : (((List.range 31).map sweepReq).foldlM
      (admitted (fun ns req => do return (← fdpProcNvmeIoCmd (fdpNsConfig 67108864) (fun _ => Latency.instant) req ns).2)
        (onePageReady (fdpNsConfig 67108864))) (freshNs (fdpNsConfig 67108864) (fdpInitCtx 131072) ())).map
      (fun ns => ((ns.ftls 0).writeCredits, (ns.ftls 0).freeLineCnt, onePageReady (fdpNsConfig 67108864) ns (sweepReq 31))) =
        some (1, 119, true) := by decide +kernel
  obtain ⟨ns, hrun, hobs⟩ := exists_played (P := ReadyRun (fdpNsConfig 67108864) (fdpHooks (fdpNsConfig 67108864))
    (fun _ => Latency.instant)) (fun ns req ns' hr hg hstep => by
      obtain ⟨r, hio, heq⟩ := bind_eq_ok hstep
      cases heq
      exact .io hr (requestReady_of_onePage hg) hio) (.init hinit) hobs
  simp only [Prod.mk.injEq] at hobs
  exact ⟨ns, hrun, hobs.1, hobs.2.1, free_lines_suffice (by decide) hrun (requestReady_of_onePage hobs.2.2)⟩

/-! ## A run that is not ready -/

theorem sweep_nrParts : (fdpNsConfig 67108864).nrParts = 4 := rfl

theorem sweep_ttLines : (fdpNsConfig 67108864).ftl.sp.ttLines = 128 := fdp_ttLines _

theorem sweep_ttPgs : (fdpNsConfig 67108864).ftl.sp.ttPgs = 4096 := by decide +kernel

theorem sweep_pgsPerLine : (fdpNsConfig 67108864).ftl.sp.pgsPerLine = 32 := by decide +kernel

theorem sweep_flow : (fdpNsConfig 67108864).ftl.Flow := fdp_flow (by decide) (by decide)

theorem sweepReq_slba (i : Nat) : (sweepReq i).cmd.slba.toNat = 32 * (i % 3808) :=
  UInt64.toNat_ofNat_of_lt (show 32 * (i % 3808) < 2 ^ 64 by omega)

theorem sweepReq_endLpn (i : Nat) : endLpn (fdpNsConfig 67108864) (sweepReq i).cmd = 4 * (i % 3808) := by
  have hlast : (sweepReq i).cmd.lastLba = 32 * (i % 3808) + 7 := by
    rw [NvmeCommand.lastLba, sweepReq_slba]
    exact u64_of_lt (show 32 * (i % 3808) + 7 < 2 ^ 64 by omega)
  rw [endLpn, hlast]
  show (32 * (i % 3808) + 7) / 8 = _
  omega

/-- A request of the sweep is one page write on partition 0. -/
theorem sweepReq_lpns (i : Nat) : cmdLpns (fdpNsConfig 67108864) (sweepReq i).cmd = [4 * (i % 3808)] := by
  have hstart : startLpn (fdpNsConfig 67108864) (sweepReq i).cmd = 4 * (i % 3808) := by
    rw [startLpn, sweepReq_slba]
    show 32 * (i % 3808) / 8 = _
    omega
  rw [cmdLpns, hstart, sweepReq_endLpn, Nat.add_sub_cancel_left]
  rfl

/-- **One request of the sweep** does to partition 0 what its page write does. -/
theorem sweepReq_spec {E : Fault → Prop} {P : FdpFtl → Prop} {L : Nat → Latency τ} {ns : FdpNs τ} (i : Nat)
    (hbuf : 4096 ≤ ns.wbuf.remaining ∧ ns.wbuf.remaining ≤ ns.wbuf.size)
    (hpage : ∀ ctx tm stime, Sat E (fun r => P r.2.toFdpFtl)
      (writePage (fdpNsConfig 67108864).ftl (L 0) stime 0 (i % 3808) ⟨ns.ftls 0, ctx, tm⟩)) :
    Sat E
      (fun r => P (r.2.ftls 0) ∧ r.2.wbuf = { ns.wbuf with remaining := ns.wbuf.remaining - 4096 } ∧
        completedWrites (sweepReq i) r.1 = [(sweepReq i).cmd])
      (fdpProcNvmeIoCmd (fdpNsConfig 67108864) L (sweepReq i) ns) := by
  have hbytes : (sweepReq i).cmd.bytes (fdpNsConfig 67108864).lbaBits = 4096 :=
    show ((7 : UInt16).toNat + 1) * 2 ^ 9 = 4096 by decide
  have hdtype : (sweepReq i).cmd.dtype ≠ directivePlacement :=
    show ¬ (0 : UInt16).toNat / 2 ^ 4 % 2 ^ 4 = 2 by decide
  have hin : ¬ outOfRange (fdpNsConfig 67108864) (sweepReq i).cmd := by
    rw [NvmeVirt.outOfRange, sweepReq_endLpn, sweep_ttPgs, sweep_nrParts]
    omega
  have hpart : 4 * (i % 3808) % (fdpNsConfig 67108864).nrParts = 0 := Nat.mul_mod_right 4 _
  have hlocal : 4 * (i % 3808) / (fdpNsConfig 67108864).nrParts = i % 3808 :=
    Nat.mul_div_cancel_left _ (by decide)
  have hone := onePage_spec (c := fdpNsConfig 67108864) (k := fdpHooks (fdpNsConfig 67108864)) (L := L)
    (E := E) (P := P) ns (show 9 ≤ 15 by decide) (sweepReq_lpns i) hin (fdpRoute_default hdtype _ _)
    (by rw [hbytes]; exact hbuf) (by rw [hpart, hlocal]; exact hpage)
  rw [hpart, hbytes] at hone
  refine hone.mono ?_
  rintro ⟨out, ns'⟩ ⟨hP, hwbuf, h, rfl, hst⟩
  refine ⟨hP, hwbuf, ?_⟩
  show (if _ then _ else _) = _
  exact if_pos ⟨rfl, hst⟩

/-- Partition 0 after `n` requests of the sweep. -/
def Swept (n : Nat) (s : FdpFtl) : Prop :=
  if n ≤ 3808 then Fresh (fdpNsConfig 67108864).ftl n s else Late (fdpNsConfig 67108864).ftl (n - 3808) s

theorem Swept.late {n : Nat} {s : FdpFtl} (h : Swept n s) (hn : 3808 ≤ n) :
    Late (fdpNsConfig 67108864).ftl (n - 3808) s := by
  unfold Swept at h
  split at h
  · obtain rfl : n = 3808 := by omega
    have hfresh : Fresh (fdpNsConfig 67108864).ftl (119 * (fdpNsConfig 67108864).ftl.sp.pgsPerLine) s := by
      rw [sweep_pgsPerLine]
      exact h
    exact hfresh.late sweep_ttLines
  · exact h

/-- **One page of the sweep** that is not its last. -/
theorem Swept.step (L : Latency τ) {n : Nat} {s : Part τ} (h : Swept n s.toFdpFtl) (hn : n < 3839)
    (stime : Nat) :
    Sat (fun _ => False) (fun r => Swept (n + 1) r.2.toFdpFtl)
      (writePage (fdpNsConfig 67108864).ftl L stime 0 (n % 3808) s) := by
  have hf := sweep_flow
  have hruh : 0 < (fdpNsConfig 67108864).ftl.nrRuh := show 0 < 8 by decide
  rcases Nat.lt_or_ge n 3808 with hlt | hge
  · rw [Swept, if_pos (Nat.le_of_lt hlt)] at h
    rw [Nat.mod_eq_of_lt hlt]
    refine (h.step L hf hruh ?_ ?_ stime).mono ?_
    · rw [sweep_pgsPerLine, sweep_ttLines]
      show n + 9 * 32 < 128 * 32
      omega
    · rw [sweep_ttPgs]
      omega
    · intro r hr
      rw [Swept, if_pos (Nat.succ_le_of_lt hlt)]
      exact hr
  · refine ((h.late hge).step L hf hruh ?_ ?_ stime).mono ?_
    · rw [sweep_pgsPerLine]
      omega
    · rw [sweep_ttPgs]
      omega
    · intro r hr
      rw [Swept, if_neg (by omega), show n + 1 - 3808 = n - 3808 + 1 by omega]
      exact hr

/-- The namespace after `n` requests of the sweep, with the writes completed. -/
structure SweptNs (n : Nat) (r : List NvmeCommand × FdpNs τ) : Prop where
  swept : Swept n (r.2.ftls 0)
  length_eq : r.1.length = n
  remaining_eq : r.2.wbuf.remaining + 4096 * n = 268435456
  size_eq : r.2.wbuf.size = 268435456

theorem SweptNs.init {ctx : FdpCtx} {tm : τ} {ns : FdpNs τ}
    (h : initNamespace (fdpNsConfig 67108864) ctx tm = .ok ns) : SweptNs 0 ([], ns) := by
  have hbuf : (fdpNsConfig 67108864).ftl.sp.writeBufferSize = 268435456 := by decide +kernel
  rw [initNamespace_eq _ _ (Nat.le_of_succ_le sweep_flow.lines_enough)] at h
  obtain rfl := Except.ok.inj h
  refine ⟨fresh_initialised ctx tm sweep_flow, rfl, ?_, hbuf⟩
  rw [Nat.mul_zero, Nat.add_zero]
  exact hbuf

/-- **The sweep up to its last page**, by induction on the number of requests. -/
theorem sweep_run (L : Nat → Latency τ) (runs : Nat) (tm : τ) {n : Nat} (hn : n ≤ 3839) :
    ∃ r, initThenIo (fdpNsConfig 67108864) (fdpHooks (fdpNsConfig 67108864)) L runs tm
      ((List.range n).map sweepReq) = .ok r ∧ SweptNs n r := by
  refine Sat.exists_ok ?_
  rw [initThenIo]
  cases hinit : initNamespace (fdpNsConfig 67108864) (fdpInitCtx runs) tm with
  | error e =>
      rw [initNamespace_eq _ _ (Nat.le_of_succ_le sweep_flow.lines_enough)] at hinit
      exact absurd hinit nofun
  | ok ns =>
      rw [ok_bind, List.foldlM_map]
      refine sat_foldlM_range (fun i (r : List NvmeCommand × FdpNs τ) => SweptNs i r) n ?_ (.init hinit)
      intro i hi r h
      have hrem := h.remaining_eq
      have hsize := h.size_eq
      refine Sat.bind (sweepReq_spec (P := Swept (i + 1)) i ⟨by omega, by omega⟩
        fun ctx tm stime => Swept.step _ h.swept (by omega) stime) ?_
      rintro ⟨out, ns'⟩ ⟨hswept', hbuf', hout⟩
      refine ⟨hswept', ?_, ?_, ?_⟩
      · rw [hout, List.singleton_append, List.length_cons, h.length_eq]
      · rw [hbuf']
        show r.2.wbuf.remaining - 4096 + 4096 * (i + 1) = _
        omega
      · rw [hbuf']
        exact hsize

/-- The last page of the sweep. -/
theorem SweptNs.starve (L : Nat → Latency τ) {r : List NvmeCommand × FdpNs τ} (h : SweptNs 3839 r) :
    fdpProcNvmeIoCmd (fdpNsConfig 67108864) L (sweepReq 3839) r.2 = .error .nullLine := by
  have hlate : Late (fdpNsConfig 67108864).ftl 31 (r.2.ftls 0) := h.swept.late (by decide)
  have hrem := h.remaining_eq
  have hsize := h.size_eq
  have hbuf : 4096 ≤ r.2.wbuf.remaining ∧ r.2.wbuf.remaining ≤ r.2.wbuf.size := by omega
  have hlast := sweepReq_spec (E := (· = .nullLine)) (P := fun _ => False) (L := L) 3839 hbuf ?_
  · cases hio : fdpProcNvmeIoCmd (fdpNsConfig 67108864) L (sweepReq 3839) r.2 with
    | error e =>
        rw [hio] at hlast
        exact congrArg _ hlast
    | ok r =>
        rw [hio] at hlast
        exact absurd hlast.1 id
  · intro ctx tm stime
    rw [Late.starve (s := ⟨r.2.ftls 0, ctx, tm⟩) (L 0) sweep_flow (show 0 < 8 by decide) hlate
      (by rw [sweep_pgsPerLine]) (by rw [sweep_ttPgs]; decide) stime]
    exact rfl

/-- **The sweep starves.** Sweep the first 119 lines' worth of partition 0 once and start over: no page is
    invalid when the free list falls to the collection threshold, the refill is granted without a collection,
    and request 3839, the last page of the last line, dereferences a missing line. Every range lies inside
    the advertised size. -/
theorem sweep_runs_out_of_lines :
    (∀ i, cmdIoOffset 9 (sweepReq i).cmd + cmdIoSize 9 (sweepReq i).cmd ≤
        (fdpNsConfig 67108864).size) ∧
      ∃ log, ∃ ns : FdpNs Unit,
        initThenIo (fdpNsConfig 67108864) (fdpHooks (fdpNsConfig 67108864)) (fun _ => Latency.instant)
            131072 () ((List.range 3839).map sweepReq) = .ok (log, ns) ∧
          log.length = 3839 ∧
          fdpProcNvmeIoCmd (fdpNsConfig 67108864) (fun _ => Latency.instant) (sweepReq 3839) ns =
            .error .nullLine := by
  have hsize : (fdpNsConfig 67108864).size = 62718564 := by decide +kernel
  refine ⟨?_, ?_⟩
  · intro i
    rw [hsize, cmdIoOffset, sweepReq_slba, u64_of_lt (by omega)]
    show 32 * (i % 3808) * 2 ^ 9 + 8 * 2 ^ 9 ≤ _
    omega
  · obtain ⟨r, hrun, hr⟩ := sweep_run (n := 3839) (fun _ => Latency.instant) 131072 () (by decide)
    exact ⟨r.1, r.2, hrun, hr.length_eq, hr.starve _⟩

end NvmeVirt
