import NvmeVirt.Ftl.LongBlock
import NvmeVirt.Fdp.Run

/-!
# `Fdp.Assertions` — the assertions of the write path

Every `NVMEV_ASSERT` of `fdp_write` and of what it calls is a `Fault.bug` of the model. Up to 512 GiB none can
fire: the assertions of a page write are `Ftl.Run`, and a command of at most 65536 blocks fits the write
buffer, whose size nobody changes. Above 512 GiB a block has more pages than `struct ppa` can number, and
`mark_page_valid` finds a page that is not free.
-/

namespace NvmeVirt

open Outcome

variable {τ : Type} {L : Nat → Latency τ} {size : Nat} {ns ns' : FdpNs τ}

/-! ## Runs of the target -/

/-- **Runs of the FDP target**: `fdp_init_namespace`, any requests, Set Features for the event types, and
    workers that give buffer space back. -/
inductive FdpRun (size : Nat) (L : Nat → Latency τ) : FdpNs τ → Prop where
  | init {tm : τ} {ns : FdpNs τ} (h : fdpInitNamespace size tm = .ok ns) : FdpRun size L ns
  | io {ns ns' : FdpNs τ} {req : NvmevRequest} {out : Option Handled} (hr : FdpRun size L ns)
      (h : fdpProcNvmeIoCmd (fdpNsConfig size) L req ns = .ok (out, ns')) : FdpRun size L ns'
  | events {ns : FdpNs τ} (hr : FdpRun size L ns) (descs : List (Nat × Nat)) :
      FdpRun size L { ns with ctx := fdpSetFeatureEvents descs ns.ctx }
  | release {ns : FdpNs τ} (hr : FdpRun size L ns) (n : Nat) :
      FdpRun size L { ns with wbuf := bufferRelease ns.wbuf n }

theorem FdpRun.nsRun (h : FdpRun size L ns) :
    ∃ log, NsRun (fdpNsConfig size) (fdpHooks (fdpNsConfig size)) L log ns := by
  induction h with
  | init h => exact ⟨[], .init h⟩
  | io _ h ih =>
      obtain ⟨log, hlog⟩ := ih
      exact ⟨_, .io hlog h⟩
  | events _ descs ih =>
      obtain ⟨log, hlog⟩ := ih
      exact ⟨log, .events hlog descs⟩
  | release _ n ih =>
      obtain ⟨log, hlog⟩ := ih
      exact ⟨log, .buffer hlog _⟩

/-! ## The write buffer -/

theorem writeLoopBody_wbuf {c : NsConfig} (stime ruh lpn : Nat) (st : WriteLoop τ) :
    Sat (fun _ => True) (fun st' => st'.ns.wbuf = st.ns.wbuf) (writeLoopBody c L stime ruh st lpn) := by
  unfold writeLoopBody
  refine sat_bind_any ?_
  rintro ⟨t, s⟩
  cases t <;> exact rfl

theorem writeLoop_wbuf {c : NsConfig} {k : Hooks} {req : NvmevRequest} {ruh : Nat} {ctx : FdpCtx}
    {st : WriteLoop τ} (h : writeLoop c k L req ns ruh ctx = .ok st) :
    st.ns.wbuf = { ns.wbuf with remaining := ns.wbuf.remaining - req.cmd.bytes c.lbaBits } := by
  refine (sat_foldlM_const (E := fun _ => True) (I := fun st : WriteLoop τ =>
    st.ns.wbuf = { ns.wbuf with remaining := ns.wbuf.remaining - req.cmd.bytes c.lbaBits }) _ ?_
    rfl).of_eq_ok h
  intro lpn _ st hst
  exact (writeLoopBody_wbuf _ _ lpn st).mono fun st' hst' => hst'.trans hst

/-- No command changes the size of the buffer. -/
theorem WriteOutcome.wbuf_size {c : NsConfig} {k : Hooks} {req : NvmevRequest} {out : Option Handled}
    (h : WriteOutcome c k L req ns out ns') : ns'.wbuf.size = ns.wbuf.size := by
  cases h with
  | outOfRange _ => rfl
  | rejected _ _ => rfl
  | refused _ _ _ => rfl
  | written _ _ _ hloop _ => rw [writeLoop_wbuf hloop]

theorem FdpRun.wbuf_size (h : FdpRun size L ns) : ns.wbuf.size = 256 * 2 ^ 20 := by
  induction h with
  | init h =>
      rw [fdpInitNamespace, initNamespace_eq _ _ (fdp_lines_enough size)] at h
      obtain rfl := Except.ok.inj h
      rfl
  | io _ h ih =>
      obtain ⟨_, hw⟩ | ⟨_, ⟨tm, rfl⟩, _⟩ := procNvmeIoCmd_cases (show 9 ≤ 15 by decide) h
      · exact hw.wbuf_size.trans ih
      · exact ih
  | events _ _ ih => exact ih
  | release _ _ ih => exact ih

/-- A command has at most 65536 blocks: 32 MiB of the 256 MiB. -/
theorem FdpRun.bytes_le (h : FdpRun size L ns) (cmd : NvmeCommand) :
    cmd.bytes (fdpNsConfig size).lbaBits ≤ ns.wbuf.size := by
  rw [h.wbuf_size]
  calc cmd.nrLba * 2 ^ 9 ≤ 65536 * 2 ^ 9 := Nat.mul_le_mul_right _ cmd.nrLba_le
    _ ≤ 256 * 2 ^ 20 := by decide

/-! ## Devices up to 512 GiB -/

/-- The loop of a write stops only for want of a line. -/
theorem writeLoop_fault {c : NsConfig} {k : Hooks} (hc : c.Wf) (hk : k.Valid c.ftl.nrRuh)
    (h : PartsReach c L ns) {req : NvmevRequest} (hin : ¬ outOfRange c req.cmd) {ruh : Nat} {ctx : FdpCtx}
    (hr : k.route req.cmd ((L 0).localClock ns.tm) ns.ctx = (some ruh, ctx)) :
    Sat (· = .nullLine) (fun st => PartsReach c L st.ns) (writeLoop c k L req ns ruh ctx) := by
  have hruh := hk _ _ _ _ _ hr
  refine sat_foldlM_const _ ?_ (h.shared rfl)
  intro lpn hlpn st hst
  have hlocal := lpn_in_range hin hlpn
  have hreach : Sat (fun _ => True) (fun st => PartsReach c L st.ns)
      (writeLoopBody c L (xferCompleted c L req ns) ruh st lpn) := writeLoopBody_reach hruh hlocal hst
  cases hres : writeLoopBody c L (xferCompleted c L req ns) ruh st lpn with
  | ok st' => exact hreach.of_eq_ok hres
  | error e =>
      dsimp only [writeLoopBody] at hres
      cases hw : writePage c.ftl (L (lpn % c.nrParts)) (xferCompleted c L req ns) ruh (lpn / c.nrParts)
          (st.ns.part (lpn % c.nrParts)) with
      | error e' =>
          rw [hw] at hres
          obtain rfl := Except.error.inj hres
          exact (hst _).fault hc.geometry hc.lines_enough hruh hlocal hw
      | ok r =>
          rw [hw] at hres
          obtain ⟨t, s⟩ := r
          cases t <;> exact absurd hres nofun

/-- **No assertion fires.** On every device up to 512 GiB, from every state of a run, no request stops the
    module on an assertion. -/
theorem no_assertion_fires (hsize : size ≤ 2 ^ 39) (h : FdpRun size L ns) (req : NvmevRequest) :
    fdpProcNvmeIoCmd (fdpNsConfig size) L req ns ≠ .error .bug := by
  intro herr
  obtain ⟨_, hbig⟩ | ⟨ruh, ctx, hin, hr, hloop⟩ := procNvmeIoCmd_error (show 9 ≤ 15 by decide) herr
  · exact absurd (h.bytes_le req.cmd) (Nat.not_le.mpr hbig)
  · rcases Nat.lt_or_ge size 4 with hsmall | hlarge
    · exact hin (outOfRange_of_small hsmall _)
    · have hc := fdpNsConfig_wf hlarge hsize
      have hk := fdpHooks_valid hc.nrRuh_pos
      obtain ⟨log, hlog⟩ := h.nsRun
      have hfault := (writeLoop_fault hc hk (hlog.reach hc.lbaBits_le hk) hin hr).of_eq_error hloop
      exact absurd hfault nofun

/-- A page of a 64 MiB device written 33 times: its first line is closed, and all its pages but one are invalid. -/
theorem no_assertion_fires_rewritten :
    ∃ ns : FdpNs Unit, FdpRun 67108864 (fun _ => Latency.instant) ns ∧
      (ns.ftls 0).victimLineCnt = 1 ∧ ((ns.ftls 0).lines 0).ipc = 32 ∧
      fdpProcNvmeIoCmd (fdpNsConfig 67108864) (fun _ => Latency.instant) (writeReq 0 7 none) ns ≠ .error .bug := by
  have hinit := initNamespace_eq (c := fdpNsConfig 67108864) (fdpInitCtx 131072) () (fdp_lines_enough _)
  have hobs : ((List.replicate 33 (writeReq 0 7 none)).foldlM
      (admitted (fun ns req => do return (← fdpProcNvmeIoCmd (fdpNsConfig 67108864) (fun _ => Latency.instant) req ns).2)
        fun _ _ => true) (freshNs (fdpNsConfig 67108864) (fdpInitCtx 131072) ())).map
      (fun ns => ((ns.ftls 0).victimLineCnt, ((ns.ftls 0).lines 0).ipc)) = some (1, 32) := by decide +kernel
  obtain ⟨ns, hrun, hobs⟩ := exists_played (P := FdpRun 67108864 (fun _ => Latency.instant))
    (fun ns req ns' hr _ hstep => by
      obtain ⟨r, hio, heq⟩ := bind_eq_ok hstep
      cases heq
      exact .io hr hio) (.init hinit) hobs
  obtain ⟨hvictims, hipc⟩ := Prod.mk.inj hobs
  exact ⟨ns, hrun, hvictims, hipc, no_assertion_fires (by decide) hrun _⟩

/-! ## Devices above 512 GiB -/

/-- Request `i` of a workload that fills line 0 of partition 0 on a 1 TiB device: one block a page. -/
def fillReq (i : Nat) : NvmevRequest := writeReq (UInt64.ofNat (32 * i)) 0 none

/-- A block of a 1 TiB device has 131072 pages. -/
theorem tib_longBlock : LongBlock (fdpNsConfig (2 ^ 40)).ftl where
  grid :=
    { nchs_pos := by decide +kernel
      lunsPerCh_pos := by decide +kernel
      pgsPerOneshotpg_pos := by decide +kernel
      pgsPerBlk_eq := by decide +kernel
      pgsPerLine_eq := by decide +kernel }
  oneshot_dvd := ⟨8192, by decide +kernel⟩
  long := by decide +kernel
  pgsPerLine_lt := by decide +kernel
  nrRuh_pos := by decide

theorem tib_addressable : addressable (fdpNsConfig (2 ^ 40)).ftl.sp = 262144 := by decide +kernel

theorem tib_ttPgs : (fdpNsConfig (2 ^ 40)).ftl.sp.ttPgs = 67108864 := by decide +kernel

theorem fillReq_slba {i : Nat} (hi : i ≤ 262144) : (fillReq i).cmd.slba.toNat = 32 * i :=
  UInt64.toNat_ofNat_of_lt (show 32 * i < 2 ^ 64 by omega)

theorem fillReq_endLpn {i : Nat} (hi : i ≤ 262144) :
    endLpn (fdpNsConfig (2 ^ 40)) (fillReq i).cmd = 4 * i := by
  have hlast : (fillReq i).cmd.lastLba = 32 * i := by
    rw [NvmeCommand.lastLba, fillReq_slba hi]
    exact u64_of_lt (show 32 * i < 2 ^ 64 by omega)
  rw [endLpn, hlast]
  show 32 * i / 8 = _
  omega

theorem fillReq_lpns {i : Nat} (hi : i ≤ 262144) :
    cmdLpns (fdpNsConfig (2 ^ 40)) (fillReq i).cmd = [4 * i] := by
  have hstart : startLpn (fdpNsConfig (2 ^ 40)) (fillReq i).cmd = 4 * i := by
    rw [startLpn, fillReq_slba hi]
    show 32 * i / 8 = _
    omega
  rw [cmdLpns, hstart, fillReq_endLpn hi, Nat.add_sub_cancel_left]
  rfl

/-- The namespace after `n` requests of the workload. -/
structure Filled (L : Nat → Latency τ) (n : Nat) (ns : FdpNs τ) : Prop where
  run : FdpRun (2 ^ 40) L ns
  young : ∀ ctx tm, Young (fdpNsConfig (2 ^ 40)).ftl n (⟨ns.ftls 0, ctx, tm⟩ : Part τ)
  remaining_eq : ns.wbuf.remaining + 512 * n = 268435456
  size_eq : ns.wbuf.size = 268435456

theorem Filled.init (L : Nat → Latency τ) (tm : τ) : ∃ ns, Filled L 0 ns := by
  have hinit : fdpInitNamespace (2 ^ 40) tm = .ok (freshNs (fdpNsConfig (2 ^ 40)) _ tm) :=
    initNamespace_eq _ _ (fdp_lines_enough _)
  have hbuf : (fdpNsConfig (2 ^ 40)).ftl.sp.writeBufferSize = 268435456 := by decide +kernel
  have hyoung := young_initialised tib_longBlock
    (fdpInitCtx (u64 ((fdpSp (2 ^ 40)).pgsPerLine * (fdpSp (2 ^ 40)).pgsz))) tm
  refine ⟨_, .init hinit, fun ctx tm => ⟨hyoung.wf, hyoung.idx_eq, hyoung.curline_eq, hyoung.programmed,
    hyoung.credits_eq⟩, ?_, hbuf⟩
  rw [Nat.mul_zero, Nat.add_zero]
  exact hbuf

/-- **One request of the workload** goes on to the next page or stops on an assertion; the request after the
    last page that has an address of its own stops. -/
theorem Filled.step {n : Nat} (h : Filled L n ns) (hn : n ≤ 262144) :
    fdpProcNvmeIoCmd (fdpNsConfig (2 ^ 40)) L (fillReq n) ns = .error .bug ∨
      n < 262144 ∧ ∃ ns', Filled L (n + 1) ns' := by
  have hrem := h.remaining_eq
  have hsz := h.size_eq
  have hbytes : (fillReq n).cmd.bytes (fdpNsConfig (2 ^ 40)).lbaBits = 512 :=
    show ((0 : UInt16).toNat + 1) * 2 ^ 9 = 512 by decide
  have hdtype : (fillReq n).cmd.dtype ≠ directivePlacement :=
    show ¬ (0 : UInt16).toNat / 2 ^ 4 % 2 ^ 4 = 2 by decide
  have hin : ¬ outOfRange (fdpNsConfig (2 ^ 40)) (fillReq n).cmd := by
    rw [NvmeVirt.outOfRange, fillReq_endLpn hn, tib_ttPgs]
    show ¬ 67108864 ≤ 4 * n / 4
    omega
  have hpart : 4 * n % (fdpNsConfig (2 ^ 40)).nrParts = 0 := Nat.mul_mod_right 4 _
  have hone := onePage_spec (c := fdpNsConfig (2 ^ 40)) (k := fdpHooks (fdpNsConfig (2 ^ 40))) (L := L)
    (E := (· = .bug))
    (P := fun s => n < 262144 ∧
      ∀ ctx tm, Young (fdpNsConfig (2 ^ 40)).ftl (n + 1) (⟨s, ctx, tm⟩ : Part τ)) ns
    (show 9 ≤ 15 by decide) (fillReq_lpns hn) hin (fdpRoute_default hdtype _ _)
    (by rw [hbytes]; omega) ?_
  · rw [hpart, hbytes] at hone
    cases hio : fdpProcNvmeIoCmd (fdpNsConfig (2 ^ 40)) L (fillReq n) ns with
    | error e =>
        have he : e = .bug := hone.of_eq_error hio
        exact Or.inl (congrArg _ he)
    | ok r =>
        obtain ⟨out, ns'⟩ := r
        obtain ⟨⟨hlt, hyoung⟩, hbuf, _⟩ := hone.of_eq_ok hio
        have hrun : FdpRun (2 ^ 40) L ns' := .io h.run hio
        refine Or.inr ⟨hlt, ns', hrun, hyoung, ?_, ?_⟩
        · rw [hbuf]
          show ns.wbuf.remaining - 512 + 512 * (n + 1) = _
          omega
        · rw [hbuf]
          exact hsz
  · rw [hpart]
    intro ctx tm stime
    refine ((h.young ctx tm).writePage (L 0) tib_longBlock stime _).mono ?_
    rintro r ⟨hlt, hr⟩
    rw [tib_addressable] at hlt
    exact ⟨hlt, fun ctx tm => ⟨hr.wf, hr.idx_eq, hr.curline_eq, hr.programmed, hr.credits_eq⟩⟩

/-- **An assertion fires on a 1 TiB device.** Write one block to each of the first 262145 pages of
    partition 0: at the latest the last of these requests stops the module. -/
theorem long_block_assertion_fires :
    ∃ n, n ≤ 262144 ∧ ∃ ns : FdpNs Unit, FdpRun (2 ^ 40) (fun _ => Latency.instant) ns ∧
      fdpProcNvmeIoCmd (fdpNsConfig (2 ^ 40)) (fun _ => Latency.instant) (fillReq n) ns = .error .bug := by
  by_contra hnone
  have hfilled : ∀ n, n ≤ 262144 → ∃ ns : FdpNs Unit, Filled (fun _ => Latency.instant) n ns := by
    intro n hn
    induction n with
    | zero => exact Filled.init _ ()
    | succ n ih =>
        obtain ⟨ns, hns⟩ := ih (by omega)
        rcases hns.step (by omega) with hbug | ⟨_, hnext⟩
        · exact absurd ⟨n, by omega, ns, hns.run, hbug⟩ hnone
        · exact hnext
  obtain ⟨ns, hns⟩ := hfilled 262144 (Nat.le_refl _)
  rcases hns.step (Nat.le_refl _) with hbug | ⟨hlt, _⟩
  · exact hnone ⟨262144, Nat.le_refl _, ns, hns.run, hbug⟩
  · exact absurd hlt (Nat.lt_irrefl _)

end NvmeVirt
