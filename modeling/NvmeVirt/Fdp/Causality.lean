import NvmeVirt.Ftl.Commands
import NvmeVirt.Fdp.Read

/-!
# `Fdp.Causality` — the times of FDP commands

The namespace over the latency model of `Ssd.Advance`. Every command moves the latency model by calls (`ByCalls`), whatever
it does to the partitions, so what `timingRun_causal` says of any calls holds for the host and the garbage collection in
any order. The write loop carries along that no wordline it has programmed completes after `nsecs_latest`
(`WriteTimes`).

* `readCommand_moved`, `readCommand_target` — a read.
* `writeCommand_times` — a write.
* `nand_timeline_causal` — all of it.
-/

namespace NvmeVirt

open Outcome

variable {β : Type} {B : Bandwidth β} {p : LatencyParams} {spp : SsdParams} {c : NsConfig} {k : Hooks}
  {t t' : SsdTiming β} {ns ns' : FdpNs (SsdTiming β)}

/-- The latency models of the partitions of a namespace. -/
def nsLatency (B : Bandwidth β) (c : NsConfig) (p : LatencyParams) (part : Nat) : Latency (SsdTiming β) :=
  ssdLatency B c.ftl.sp p part

/-! ## Calls -/

/-- `t'` comes from `t` by calls of the latency model. -/
def ByCalls (B : Bandwidth β) (spp : SsdParams) (p : LatencyParams) (t t' : SsdTiming β) : Prop :=
  ∃ calls, (∀ call ∈ calls, TimingCall.Issued call) ∧ t' = timingRun B spp p t calls

theorem ByCalls.refl (t : SsdTiming β) : ByCalls B spp p t t := ⟨[], nofun, rfl⟩

theorem ByCalls.trans {t₂ : SsdTiming β} (h : ByCalls B spp p t t') (h₂ : ByCalls B spp p t' t₂) :
    ByCalls B spp p t t₂ := by
  obtain ⟨calls, hissued, rfl⟩ := h
  obtain ⟨calls₂, hissued₂, rfl⟩ := h₂
  exact ⟨calls ++ calls₂, List.forall_mem_append.mpr ⟨hissued, hissued₂⟩, List.foldl_append.symm⟩

theorem ByCalls.step (call : TimingCall) (h : call.Issued) : ByCalls B spp p t (timingStep B spp p t call).1 :=
  ⟨[call], List.forall_mem_singleton.mpr h, rfl⟩

theorem ByCalls.overflow (h : ByCalls B spp p t t') (hno : t'.overflow = false) : t.overflow = false := by
  obtain ⟨calls, hissued, rfl⟩ := h
  exact timingRun_overflow B hissued hno

theorem ByCommands.moved {part : Nat} {P : NandCmd → Prop} (hP : ∀ ncmd, P ncmd → ncmd.Issued)
    (h : ByCommands (nsLatency B c p part) P t t') : ByCalls B c.ftl.sp p t t' := by
  induction h with
  | refl => exact ByCalls.refl t
  | tail _ hstep ih =>
      obtain ⟨ncmd, hncmd, rfl⟩ := hstep
      exact ih.trans (ByCalls.step (.nand part ncmd) (hP ncmd hncmd))

/-- The garbage collection logs nothing in the host's name. -/
theorem ByCommands.gc_log {part : Nat} (h : ByCommands (nsLatency B c p part) GcCommand t t') :
    ∃ spans, t'.log = spans ++ t.log ∧ ∀ e ∈ spans, e.type = .gc := by
  induction h with
  | refl => exact ⟨[], rfl, nofun⟩
  | @tail t₁ t₂ _ hstep ih =>
      obtain ⟨spans, hlog, hgc⟩ := ih
      obtain ⟨ncmd, hncmd, rfl⟩ := hstep
      obtain ⟨span, hspan⟩ := ssdAdvanceNand_spec B c.ftl.sp p part t₁ ncmd hncmd.2
      refine ⟨span :: spans, ?_, List.forall_mem_cons.mpr ⟨hspan.type_eq.trans hncmd.1, hgc⟩⟩
      rw [List.cons_append, ← hlog]
      exact hspan.log_eq

/-! ## Reads -/

/-- No read that is handed to the latency model is empty. -/
theorem pendingRead_issued {stime xferSize : Nat} {prev : Option Ppa} :
    ∀ ncmd ∈ pendingRead stime prev xferSize, ncmd.Issued := by
  unfold pendingRead
  cases prev with
  | none => exact nofun
  | some ppa =>
      dsimp only
      split
      · rename_i hpos
        exact List.forall_mem_singleton.mpr fun _ => hpos
      · exact nofun

theorem stripeReads_issued {f : FdpFtl} {stime : Nat} (lpns : List Nat) (prev : Option Ppa) (xferSize : Nat) :
    ∀ ncmd ∈ stripeReads spp f stime lpns prev xferSize, ncmd.Issued := by
  induction lpns generalizing prev xferSize with
  | nil => exact pendingRead_issued
  | cons lpn lpns ih =>
      unfold stripeReads
      cases f.maptbl lpn with
      | none => exact ih prev xferSize
      | some cur =>
          dsimp only
          split
          · exact ih prev xferSize
          · split
            · exact ih prev (xferSize + spp.pgsz)
            · exact List.forall_mem_append.mpr ⟨pendingRead_issued, ih (some cur) spp.pgsz⟩

theorem readCommand_moved (req : NvmevRequest) (ns : FdpNs (SsdTiming β)) :
    ByCalls B c.ftl.sp p ns.tm (readCommand c (nsLatency B c p) req ns).2.tm := by
  by_cases hout : outOfRange c req.cmd
  · rw [readCommand, if_pos hout]
    exact ByCalls.refl _
  rw [readCommand_tm hout]
  refine ⟨(nandReads c ns.ftls req).map fun x => .nand x.1 x.2, ?_, ?_⟩
  · intro call hcall
    obtain ⟨x, hx, rfl⟩ := List.mem_map.mp hcall
    obtain ⟨start, -, hx⟩ := List.mem_flatMap.mp hx
    obtain ⟨ncmd, hncmd, rfl⟩ := List.mem_map.mp hx
    exact stripeReads_issued _ _ _ ncmd hncmd
  · rw [timingRun, List.foldl_map]
    rfl

theorem issueRead_latest {τ : Type} (L : Latency τ) (stime : Nat) (st : ReadLoop τ) :
    st.nsecsLatest ≤ (issueRead L stime st).nsecsLatest := by
  unfold issueRead
  cases st.prevPpa with
  | none => exact Nat.le_refl _
  | some ppa =>
      dsimp only
      split
      · exact Nat.le_max_right ..
      · exact Nat.le_refl _

theorem readPage_latest {τ : Type} (f : FdpFtl) (L : Latency τ) (stime lpn : Nat) (st : ReadLoop τ) :
    st.nsecsLatest ≤ (readPage spp f L stime lpn st).nsecsLatest := by
  unfold readPage
  cases f.maptbl lpn with
  | none => exact Nat.le_refl _
  | some cur =>
      dsimp only
      split
      · exact Nat.le_refl _
      · split
        · exact Nat.le_refl _
        · exact issueRead_latest L stime st

theorem readStripe_latest {τ : Type} (L : Nat → Latency τ) (ns : FdpNs τ) (stime last : Nat) (r : Nat × τ) (start : Nat) :
    r.1 ≤ (readStripe c L ns stime last r start).1 := by
  have hpages : ∀ (lpns : List Nat) (st : ReadLoop τ), st.nsecsLatest ≤
      (lpns.foldl (fun st lpn => readPage c.ftl.sp (ns.ftls (start % c.nrParts)) (L (start % c.nrParts)) stime
        (lpn / c.nrParts) st) st).nsecsLatest := by
    intro lpns
    induction lpns with
    | nil => exact fun st => Nat.le_refl _
    | cons lpn lpns ih => exact fun st => (readPage_latest ..).trans (ih _)
  unfold readStripe
  exact (hpages _ ⟨0, (ns.ftls (start % c.nrParts)).maptbl (start / c.nrParts), r.1, r.2⟩).trans (issueRead_latest ..)

/-- **A read** completes after it started: `nsecs_latest` starts there. -/
theorem readCommand_target {τ : Type} {L : Nat → Latency τ} {req : NvmevRequest} {ns : FdpNs τ} {r : Handled}
    (h : (readCommand c L req ns).1 = some r) : req.nsecsStart ≤ r.ret.nsecsTarget := by
  have hfold : ∀ (starts : List Nat) (stime last : Nat) (r : Nat × τ),
      r.1 ≤ (starts.foldl (readStripe c L ns stime last) r).1 := by
    intro starts stime last
    induction starts with
    | nil => exact fun r => Nat.le_refl _
    | cons start starts ih => exact fun r => (readStripe_latest ..).trans (ih _)
  unfold readCommand at h
  split at h
  · cases h
  · cases h
    exact hfold _ _ _ (req.nsecsStart, ns.tm)

/-! ## Writes -/

/-- **The write loop in time**, from the state `t` of the latency model on: it has moved by calls, and no wordline
    programmed for the host completes after `latest`. -/
structure WriteTimes (B : Bandwidth β) (spp : SsdParams) (p : LatencyParams) (t t' : SsdTiming β) (latest : Nat) : Prop where
  moved : ByCalls B spp p t t'
  wordlines : ∃ spans, t'.log = spans ++ t.log ∧ ∀ e ∈ spans, e.type = .user → e.completed ≤ latest

theorem WriteTimes.gc {part latest : Nat} (h : WriteTimes B c.ftl.sp p t t' latest) {t₂ : SsdTiming β}
    (hgc : ByCommands (nsLatency B c p part) GcCommand t' t₂) : WriteTimes B c.ftl.sp p t t₂ latest := by
  obtain ⟨spans, hlog, hle⟩ := h.wordlines
  obtain ⟨spans₂, hlog₂, htype⟩ := hgc.gc_log
  refine ⟨h.moved.trans (hgc.moved fun _ hncmd => hncmd.2), spans₂ ++ spans, ?_, ?_⟩
  · rw [hlog₂, hlog, List.append_assoc]
  · refine List.forall_mem_append.mpr ⟨fun e he huser => ?_, hle⟩
    rw [htype e he] at huser
    cases huser

theorem WriteTimes.program (part : Nat) {latest : Nat} (h : WriteTimes B c.ftl.sp p t t' latest) {ncmd : NandCmd}
    (hncmd : HostProgram ncmd) :
    WriteTimes B c.ftl.sp p t ((nsLatency B c p part).advanceNand t' ncmd).1
      (max ((nsLatency B c p part).advanceNand t' ncmd).2 latest) := by
  obtain ⟨spans, hlog, hle⟩ := h.wordlines
  obtain ⟨span, hspan⟩ := ssdAdvanceNand_spec B c.ftl.sp p part t' ncmd hncmd.issued
  refine ⟨h.moved.trans (ByCalls.step (.nand part ncmd) hncmd.issued), span :: spans, ?_, ?_⟩
  · rw [List.cons_append, ← hlog]
    exact hspan.log_eq
  · refine List.forall_mem_cons.mpr ⟨fun _ => ?_, fun e he huser => (hle e he huser).trans (Nat.le_max_right ..)⟩
    rw [← hspan.returned_eq]
    exact Nat.le_max_left ..

/-- **One round of the loop.** -/
theorem writeLoopBody_times (hpgsz : 0 < c.ftl.sp.pgsz) {stime ruh lpn xfer : Nat} {st : WriteLoop (SsdTiming β)}
    (h : WriteTimes B c.ftl.sp p t st.ns.tm st.nsecsLatest) (hxfer : xfer ≤ st.nsecsLatest) :
    Sat (fun _ => True) (fun st' => WriteTimes B c.ftl.sp p t st'.ns.tm st'.nsecsLatest ∧ xfer ≤ st'.nsecsLatest)
      (writeLoopBody c (nsLatency B c p) stime ruh st lpn) := by
  unfold writeLoopBody
  refine (writePage_times (nsLatency B c p (lpn % c.nrParts)) hpgsz stime ruh (lpn / c.nrParts)
    (st.ns.part (lpn % c.nrParts))).bind ?_
  rintro ⟨time, s⟩ ⟨tm, hprograms, hgc⟩
  cases time with
  | none =>
      obtain rfl : tm = st.ns.tm := hprograms
      exact ⟨h.gc hgc, hxfer⟩
  | some time =>
      obtain ⟨ncmd, hncmd, htime⟩ := hprograms
      have hprogram := h.program (lpn % c.nrParts) hncmd
      rw [show (nsLatency B c p (lpn % c.nrParts)).advanceNand st.ns.tm ncmd = (tm, time) from htime] at hprogram
      exact ⟨hprogram.gc hgc, hxfer.trans (Nat.le_max_right ..)⟩

theorem writeLoop_times (hpgsz : 0 < c.ftl.sp.pgsz) {req : NvmevRequest} {ruh : Nat} {ctx : FdpCtx}
    {st : WriteLoop (SsdTiming β)} (hloop : writeLoop c k (nsLatency B c p) req ns ruh ctx = .ok st) :
    WriteTimes B c.ftl.sp p (writeLoopStart c k (nsLatency B c p) req ns ctx).ns.tm st.ns.tm st.nsecsLatest ∧
      xferCompleted c (nsLatency B c p) req ns ≤ st.nsecsLatest := by
  refine (sat_foldlM_const (cmdLpns c req.cmd)
    (I := fun st => WriteTimes B c.ftl.sp p (writeLoopStart c k (nsLatency B c p) req ns ctx).ns.tm st.ns.tm
      st.nsecsLatest ∧ xferCompleted c (nsLatency B c p) req ns ≤ st.nsecsLatest)
    (fun lpn _ st hst => writeLoopBody_times hpgsz hst.1 hst.2) ?_).of_eq_ok hloop
  exact ⟨⟨ByCalls.refl _, [], rfl, nofun⟩, Nat.le_refl _⟩

/-- **A write**: it moves the latency model by calls, completes after it started, and with FUA after every wordline
    that it programmed. -/
theorem writeCommand_times (hpgsz : 0 < c.ftl.sp.pgsz) (hlba : c.lbaBits ≤ 15) {req : NvmevRequest}
    {out : Option Handled} (h : writeCommand c k (nsLatency B c p) req ns = .ok (out, ns')) :
    ByCalls B c.ftl.sp p ns.tm ns'.tm ∧ ∀ r, out = some r → ns'.tm.overflow = false →
      req.nsecsStart ≤ r.ret.nsecsTarget ∧
        (req.cmd.fua = true → ∃ spans, ns'.tm.log = spans ++ ns.tm.log ∧
          ∀ e ∈ spans, e.type = .user → e.completed ≤ r.ret.nsecsTarget) := by
  cases writeCommand_cases hlba h with
  | outOfRange h => exact ⟨ByCalls.refl _, nofun⟩
  | rejected h hr =>
      refine ⟨ByCalls.refl _, fun r hr _ => ?_⟩
      cases hr
      exact ⟨Nat.le_refl _, fun _ => ⟨[], rfl, nofun⟩⟩
  | refused h hr hb => exact ⟨ByCalls.refl _, nofun⟩
  | @written ruh ctx st hin hr hb hloop target ht =>
      have hbuffer := ssdAdvanceWriteBuffer_later B p ns.tm req.nsecsStart (req.cmd.bytes c.lbaBits)
      have hmoved : ByCalls B c.ftl.sp p ns.tm (writeLoopStart c k (nsLatency B c p) req ns ctx).ns.tm :=
        ByCalls.step (.writeBuffer req.nsecsStart (req.cmd.bytes c.lbaBits)) trivial
      obtain ⟨htimes, hlatest⟩ := writeLoop_times hpgsz hloop
      refine ⟨hmoved.trans htimes.moved, fun r hr hno => ?_⟩
      cases hr
      have hxfer : req.nsecsStart ≤ xferCompleted c (nsLatency B c p) req ns := hbuffer.le (htimes.moved.overflow hno)
      refine ⟨?_, fun hfua => ?_⟩
      · show req.nsecsStart ≤ target
        rw [ht, writeTarget]
        split
        · exact hxfer.trans hlatest
        · exact hxfer
      · obtain ⟨spans, hlog, hle⟩ := htimes.wordlines
        refine ⟨spans, hlog.trans (congrArg (spans ++ ·) hbuffer.log_eq), fun e he huser => ?_⟩
        show e.completed ≤ target
        rw [ht, writeTarget, hfua, Bool.true_or, if_pos rfl]
        exact hle e he huser

/-! ## The target -/

/-- What a request of the FDP target does in time. -/
structure CommandTimes (B : Bandwidth β) (c : NsConfig) (p : LatencyParams) (req : NvmevRequest)
    (ns : FdpNs (SsdTiming β)) (out : Option Handled) (ns' : FdpNs (SsdTiming β)) : Prop where
  moved : ByCalls B c.ftl.sp p ns.tm ns'.tm
  target_ge : ns'.tm.overflow = false → req.cmd.opcode = .read ∨ req.cmd.opcode = .write →
    ∀ r, out = some r → req.nsecsStart ≤ r.ret.nsecsTarget
  fua : ns'.tm.overflow = false → req.cmd.opcode = .write → req.cmd.fua = true → ∀ r, out = some r →
    ∃ spans, ns'.tm.log = spans ++ ns.tm.log ∧ ∀ e ∈ spans, e.type = .user → e.completed ≤ r.ret.nsecsTarget

theorem procNvmeIoCmd_times (hpgsz : 0 < c.ftl.sp.pgsz) (hlba : c.lbaBits ≤ 15) {req : NvmevRequest}
    {out : Option Handled} (h : procNvmeIoCmd c k (nsLatency B c p) req ns = .ok (out, ns')) :
    CommandTimes B c p req ns out ns' := by
  unfold procNvmeIoCmd at h
  cases hop : req.cmd.opcode with
  | write =>
      rw [hop] at h
      obtain ⟨hmoved, htimes⟩ := writeCommand_times hpgsz hlba h
      exact ⟨hmoved, fun hno _ r hr => (htimes r hr hno).1, fun hno _ hfua r hr => (htimes r hr hno).2 hfua⟩
  | read =>
      rw [hop] at h
      obtain ⟨rfl, rfl⟩ := Prod.mk.inj (Except.ok.inj h)
      exact ⟨readCommand_moved req ns, fun _ _ r hr => readCommand_target hr,
        fun _ hwrite => absurd (hop.symm.trans hwrite) nofun⟩
  | _ =>
      rw [hop] at h
      obtain ⟨-, rfl⟩ := Prod.mk.inj (Except.ok.inj h)
      refine ⟨ByCalls.refl _, fun _ hkind => ?_, fun _ hwrite => absurd (hop.symm.trans hwrite) nofun⟩
      rw [hop] at hkind
      exact absurd hkind (by decide)

/-- **The flash timeline is causal**, for the bandwidth model of the source, any latencies, any state of the latency
    model and any readings of the clock: a command waits for its LUN, keeps it until after it started and completes
    after that; in any sequence of calls without overflow no LUN becomes available earlier and its commands follow each
    other; and the requests of the FDP target are such sequences, which complete after they started, writes with FUA
    after every wordline they programmed. -/
theorem nand_timeline_causal (p : LatencyParams) :
    (∀ spp (t : SsdTiming CreditChannel) part (ncmd : NandCmd), ncmd.Issued →
      ∃ span, Occupies t part ncmd span (ssdAdvanceNand creditBandwidth spp p part t ncmd)) ∧
    (∀ spp (t : SsdTiming CreditChannel) (calls : List TimingCall), (∀ call ∈ calls, call.Issued) →
      (timingRun creditBandwidth spp p t calls).overflow = false →
        ∃ spans, Causal t (timingRun creditBandwidth spp p t calls) spans) ∧
    ∀ size req (ns : FdpNs (SsdTiming CreditChannel)) out ns',
      fdpProcNvmeIoCmd (fdpNsConfig size) (nsLatency creditBandwidth (fdpNsConfig size) p) req ns = .ok (out, ns') →
        CommandTimes creditBandwidth (fdpNsConfig size) p req ns out ns' := by
  refine ⟨fun spp t part ncmd => ssdAdvanceNand_spec creditBandwidth spp p part t ncmd,
    fun spp t calls => timingRun_causal creditBandwidth, fun size req ns out ns' h => ?_⟩
  have hpgsz : 0 < (fdpNsConfig size).ftl.sp.pgsz := by
    show 0 < (fdpFtlConfig size).sp.pgsz
    rw [fdp_pgsz]
    decide
  exact procNvmeIoCmd_times hpgsz (show 9 ≤ 15 by decide) h

/-- The latency model as `fdp_init_namespace` leaves it: channels of 800 MB/s and a PCIe link of 3360 MB/s. -/
def fdpTiming (clock : Nat → UInt64) : SsdTiming CreditChannel where
  nextLunAvailTime := fun _ => 0
  channels := fun _ _ => ⟨channelBoot (fun _ => 0) 800 (bandwidthToTxTime 800),
    creditRing_boot (by unfold ChannelModel.Sized; decide +kernel)⟩
  pcie := ⟨channelBoot (fun _ => 0) 3360 (bandwidthToTxTime 3360),
    creditRing_boot (by unfold ChannelModel.Sized; decide +kernel)⟩
  clock := clock
  readings := 0
  overflow := false
  log := []

/-- The erase of a block, a program on another channel, a read on the LUN of the erase and a page into the write buffer,
    while the clock reads 5000. -/
def nandCalls : List TimingCall :=
  [.nand 0 ⟨.gc, .erase, 0, 0, false, ⟨0, 0, 0, 0, 0⟩⟩, .nand 0 ⟨.user, .write, 32768, 6000, false, ⟨7, 1, 0, 0, 1⟩⟩,
    .nand 0 ⟨.user, .read, 4096, 7000, false, ⟨0, 2, 0, 0, 0⟩⟩, .writeBuffer 8000 4096]

/-- No time overflows, and the three commands are in the log. -/
theorem nand_timeline_causal_two_luns :
    (timingRun creditBandwidth (fdpSp (2 ^ 26)) samsungFdpLatency (fdpTiming fun _ => 5000) nandCalls).log.length = 3 ∧
    ∃ spans, Causal (fdpTiming fun _ => 5000)
      (timingRun creditBandwidth (fdpSp (2 ^ 26)) samsungFdpLatency (fdpTiming fun _ => 5000) nandCalls) spans := by
  refine ⟨by decide +kernel, (nand_timeline_causal samsungFdpLatency).2.1 _ _ _ ?_ (by decide +kernel)⟩
  simp [nandCalls, TimingCall.Issued, NandCmd.Issued]

end NvmeVirt
