import NvmeVirt.Ssd.CreditRing
import NvmeVirt.Ssd.Nand

/-!
# `Ssd.Advance` — the times of flash commands and transfers (`ssd_advance_nand`, `ssd_advance_write_buffer`)

The latency model behind the interface `Latency`: every LUN has the time at which it is next available, and every
channel and the PCIe link a bandwidth model. A command starts when its LUN is available and not before its own start
time; what follows are sums of latencies and transfers through the bandwidth models, which return no time before the
one they were asked for.

Two members of `SsdTiming` are history variables: `overflow` says whether a sum of times did not fit 64 bits, and `log`
keeps what each command did to its LUN. Each call reads the clock, and nothing is asked of the readings.

* `Later` — a step from one time to another that touches no LUN; sums and transfers are such steps and they compose.
* `ssdAdvanceNand_spec` — what one command does to its LUN.
* `Causal`, `timingRun_causal` — what any sequence of calls does to all of them.
-/

namespace NvmeVirt

/-! ## The latency of a transfer -/

/-- What a call adds to its request time; nothing in the branches that return it. -/
def chmodelLatency (ch : ChannelModel) (call : ChannelCall) : Nat :=
  let ch := ch.moveHead call.now.toNat
  let requestTimeOffs := u32 (interval call.requestTime.toNat - interval ch.curTime)
  if call.requestTime.toNat < ch.curTime then 0
  else if requestTimeOffs ≥ nrCreditEntries then 0
  else
    match ChannelModel.allocLoop ch.head (nrCreditEntries + 1) ch.availCredits
        ((ch.head + requestTimeOffs) % nrCreditEntries) (ch.creditsFor call.length) 0 with
    | .ok a => ch.totalLatency call.length a.delay
    | .error _ => 0

/-- **The time a call returns** is its request time with its latency added, in 64 bits. -/
theorem chmodelRequest_time {ch ch' : ChannelModel} {call : ChannelCall} {reply : ChannelReply}
    (h : chmodelRequest ch call = .ok (reply, ch')) :
    reply.time = u64 (call.requestTime.toNat + chmodelLatency ch call) := by
  have hrt : u64 (call.requestTime.toNat + 0) = call.requestTime.toNat := u64_of_lt call.requestTime.toNat_lt
  unfold chmodelRequest at h
  unfold chmodelLatency
  generalize ch.moveHead call.now.toNat = ch1 at h ⊢
  dsimp only at h ⊢
  by_cases hvalid : ch1.validLen > nrCreditEntries
  · rw [if_pos hvalid] at h
    cases h
  rw [if_neg hvalid] at h
  unfold ChannelModel.request at h
  by_cases hpast : call.requestTime.toNat < ch1.curTime
  · rw [if_pos hpast] at h ⊢
    cases h
    exact hrt.symm
  rw [if_neg hpast] at h ⊢
  dsimp only at h
  by_cases hfar : u32 (interval call.requestTime.toNat - interval ch1.curTime) ≥ nrCreditEntries
  · rw [if_pos hfar] at h ⊢
    cases h
    exact hrt.symm
  rw [if_neg hfar] at h ⊢
  obtain ⟨a, halloc, h⟩ := Outcome.bind_eq_ok h
  cases h
  rw [halloc]
  rfl

/-- A bandwidth model whose array of credits is in order. -/
structure CreditChannel where
  model : ChannelModel
  ring : CreditRing model

theorem CreditChannel.sat_request (c : CreditChannel) (call : ChannelCall) :
    Outcome.Sat (fun _ => False) (fun r => CreditRing r.2) (chmodelRequest c.model call) := by
  obtain ⟨reply, ch, hok, hring, -⟩ := chmodelRequest_takes c.ring call
  rw [hok]
  exact hring

/-- The time and the model that a call returned. -/
def CreditChannel.ofReply (x : Except ChannelFault (ChannelReply × ChannelModel))
    (h : Outcome.Sat (fun _ => False) (fun r => CreditRing r.2) x) : Nat × CreditChannel :=
  let r := Outcome.get x h
  (r.1.1.time, ⟨r.1.2, r.2⟩)

theorem CreditChannel.ofReply_fst {x : Except ChannelFault (ChannelReply × ChannelModel)}
    (h : Outcome.Sat (fun _ => False) (fun r => CreditRing r.2) x) :
    ∃ reply ch, x = .ok (reply, ch) ∧ (CreditChannel.ofReply x h).1 = reply.time :=
  ⟨_, _, Outcome.get_eq h, rfl⟩

/-- `chmodel_request`; on an array in order it returns. -/
def CreditChannel.request (c : CreditChannel) (call : ChannelCall) : Nat × CreditChannel :=
  CreditChannel.ofReply (chmodelRequest c.model call) (c.sat_request call)

theorem CreditChannel.request_fst (c : CreditChannel) (call : ChannelCall) :
    (c.request call).1 = u64 (call.requestTime.toNat + chmodelLatency c.model call) := by
  obtain ⟨reply, ch, hok, htime⟩ := CreditChannel.ofReply_fst (c.sat_request call)
  rw [CreditChannel.request, htime]
  exact chmodelRequest_time hok

/-! ## The state of the latency model -/

/-- **A bandwidth model**, as far as times depend on it: a call returns its request time with a latency added, in 64
    bits. -/
structure Bandwidth (β : Type) where
  request : β → ChannelCall → Nat × β
  latency : β → ChannelCall → Nat
  request_fst : ∀ c call, (request c call).1 = u64 (call.requestTime.toNat + latency c call)

/-- The bandwidth model of `channel_model.c`. -/
def creditBandwidth : Bandwidth CreditChannel where
  request := CreditChannel.request
  latency := fun c call => chmodelLatency c.model call
  request_fst := CreditChannel.request_fst

variable {β : Type} (B : Bandwidth β)

/-- A LUN of a partition. -/
structure LunAddr where
  part : Nat
  ch : Nat
  lun : Nat
deriving DecidableEq, Repr

/-- What a command did to its LUN. -/
structure NandSpan where
  lun : LunAddr
  type : IoType
  cmd : NandOp
  /-- `cmd_stime` -/
  stime : Nat
  /-- The `nand_stime` of a read, an erase or a NOP, the `chnl_stime` of a write. -/
  start : Nat
  /-- The new `next_lun_avail_time`. -/
  finish : Nat
  /-- The time returned. -/
  completed : Nat
deriving DecidableEq, Repr

/-- The latency model of all partitions; they share the PCIe link. `clock` are the readings of the clock that the
    calls make, in order. -/
structure SsdTiming (β : Type) where
  nextLunAvailTime : LunAddr → Nat
  channels : Nat → Nat → β
  pcie : β
  clock : Nat → UInt64
  readings : Nat
  overflow : Bool
  log : List NandSpan

/-- The members of `struct ssdparams` that only the latency model reads. -/
structure LatencyParams where
  cellMode : Nat
  pg4kbRdLat : Nat → Nat
  pgRdLat : Nat → Nat
  pgWrLat : Nat
  blkErLat : Nat
  maxChXferSize : Nat
  fwWbufLat0 : Nat
  fwWbufLat1 : Nat
  maxChXferSize_pos : 0 < maxChXferSize

/-- `BASE_SSD == SAMSUNG_FDP`; the cells are MLC. -/
def samsungFdpLatency : LatencyParams where
  cellMode := 2
  pg4kbRdLat := fun cell => if cell = 0 then 35760 - 6000 else if cell = 1 then 35760 + 6000 else 0
  pgRdLat := fun cell => if cell = 0 then 36013 - 6000 else if cell = 1 then 36013 + 6000 else 0
  pgWrLat := 185000
  blkErLat := 0
  maxChXferSize := 16 * 2 ^ 10
  fwWbufLat0 := 4000
  fwWbufLat1 := 460
  maxChXferSize_pos := by decide

/-- A time that does not fit 64 bits. -/
def timeOverflows (time : Nat) : Bool := decide (2 ^ 64 ≤ time)

theorem timeOverflows_eq_false {time : Nat} : timeOverflows time = false ↔ time < 2 ^ 64 := by
  unfold timeOverflows
  rw [decide_eq_false_iff_not, Nat.not_le]

namespace SsdTiming

variable (t : SsdTiming β)

/-- A reading of the clock. -/
def readClock : Nat × SsdTiming β := ((t.clock t.readings).toNat, { t with readings := t.readings + 1 })

/-- A sum of times. -/
def add (a b : Nat) : Nat × SsdTiming β :=
  (u64 (a + b), { t with overflow := t.overflow || timeOverflows (a + b) })

/-- `chmodel_request` on a bandwidth model of this state; the caller stores the model. -/
def request (c : β) (requestTime length : Nat) : (Nat × β) × SsdTiming β :=
  let call : ChannelCall := ⟨t.clock t.readings, UInt64.ofNat requestTime, UInt64.ofNat length⟩
  (B.request c call,
    { t with
      readings := t.readings + 1
      overflow := t.overflow || timeOverflows (requestTime + B.latency c call) })

/-- `chmodel_request(ch->perf_model, ...)` -/
def requestChannel (part ch requestTime length : Nat) : Nat × SsdTiming β :=
  let r := t.request B (t.channels part ch) requestTime length
  (r.1.1, { r.2 with channels := Function.update t.channels part (Function.update (t.channels part) ch r.1.2) })

/-- `cmd_stime` -/
def cmdStime (stime : Nat) : Nat × SsdTiming β := if stime = 0 then t.readClock else t.add stime 0

/-- A command takes its LUN. -/
def occupy (span : NandSpan) : SsdTiming β :=
  { t with
    nextLunAvailTime := Function.update t.nextLunAvailTime span.lun span.finish
    log := span :: t.log }

end SsdTiming

/-! ## The source -/

/-- `ssd_advance_pcie` -/
def ssdAdvancePcie (t : SsdTiming β) (requestTime length : Nat) : Nat × SsdTiming β :=
  let r := t.request B t.pcie requestTime length
  (r.1.1, { r.2 with pcie := r.1.2 })

/-- `ssd_advance_write_buffer` -/
def ssdAdvanceWriteBuffer (p : LatencyParams) (t : SsdTiming β) (requestTime length : Nat) : SsdTiming β × Nat :=
  let latest := t.add requestTime p.fwWbufLat0
  let latest := latest.2.add latest.1 (u64 (p.fwWbufLat1 * (u64 (length + (4 * 2 ^ 10 - 1)) / (4 * 2 ^ 10))))
  let latest := ssdAdvancePcie B latest.2 latest.1 length
  (latest.2, latest.1)

/-- `get_cell` -/
def getCell (spp : SsdParams) (p : LatencyParams) (ppa : Ppa) : Nat := ppa.pg / spp.pgsPerFlashpg % p.cellMode

/-- The loop of a read that moves its data through the channel, and with `interleave_pci_dma` every piece on through
    the PCIe link. Returns `chnl_etime` and `completed_time`, which are `times` where nothing is left to move. -/
def transferLoop (p : LatencyParams) (part ch : Nat) (interleavePciDma : Bool) (remaining chnlStime : Nat)
    (times : Nat × Nat) (t : SsdTiming β) : (Nat × Nat) × SsdTiming β :=
  if 0 < remaining then
    let xferSize := min remaining p.maxChXferSize
    let chnl := t.requestChannel B part ch chnlStime xferSize
    let completed := if interleavePciDma then ssdAdvancePcie B chnl.2 chnl.1 xferSize else chnl
    transferLoop p part ch interleavePciDma (remaining - xferSize) chnl.1 (chnl.1, completed.1) completed.2
  else (times, t)
termination_by remaining
decreasing_by
  have := p.maxChXferSize_pos
  omega

/-- `ssd_advance_nand` for an address that is mapped. A read of no bytes leaves `chnl_etime` and `completed_time` unset
    in the source; no caller makes one. -/
def ssdAdvanceNand (spp : SsdParams) (p : LatencyParams) (part : Nat) (t : SsdTiming β) (ncmd : NandCmd) :
    SsdTiming β × Nat :=
  let lun : LunAddr := ⟨part, ncmd.ppa.ch, ncmd.ppa.lun⟩
  let cmd := t.cmdStime ncmd.stime
  let start := max (cmd.2.nextLunAvailTime lun) cmd.1
  match ncmd.cmd with
  | .read =>
      let cell := getCell spp p ncmd.ppa
      let nand := cmd.2.add start (if ncmd.xferSize = 4096 then p.pg4kbRdLat cell else p.pgRdLat cell)
      let chnl := transferLoop B p part ncmd.ppa.ch ncmd.interleavePciDma ncmd.xferSize nand.1 (0, 0) nand.2
      (chnl.2.occupy ⟨lun, ncmd.type, .read, cmd.1, start, chnl.1.1, chnl.1.2⟩, chnl.1.2)
  | .write =>
      let chnl := cmd.2.requestChannel B part ncmd.ppa.ch start ncmd.xferSize
      let nand := chnl.2.add chnl.1 p.pgWrLat
      (nand.2.occupy ⟨lun, ncmd.type, .write, cmd.1, start, nand.1, nand.1⟩, nand.1)
  | .erase =>
      let nand := cmd.2.add start p.blkErLat
      (nand.2.occupy ⟨lun, ncmd.type, .erase, cmd.1, start, nand.1, nand.1⟩, nand.1)
  | .nop => (cmd.2.occupy ⟨lun, ncmd.type, .nop, cmd.1, start, start, start⟩, start)

/-- `ssd_advance_nand` for `UNMAPPED_PPA` -/
def ssdAdvanceNandUnmapped (t : SsdTiming β) (stime : Nat) : SsdTiming β × Nat := (t.cmdStime stime).swap

/-- `ssd_next_idle_time` -/
def ssdNextIdleTime (spp : SsdParams) (part : Nat) (t : SsdTiming β) : Nat :=
  (List.range spp.nchs).foldl (fun latest ch =>
    (List.range spp.lunsPerCh).foldl (fun latest lun => max latest (t.nextLunAvailTime ⟨part, ch, lun⟩)) latest)
    (t.clock t.readings).toNat

/-- **The latency model of a partition.** -/
def ssdLatency (spp : SsdParams) (p : LatencyParams) (part : Nat) : Latency (SsdTiming β) where
  advanceNand := ssdAdvanceNand B spp p part
  advanceWriteBuffer := ssdAdvanceWriteBuffer B p
  nextIdleTime := ssdNextIdleTime spp part
  localClock := fun t => (t.clock t.readings).toNat

/-! ## Steps in time -/

variable {t t' : SsdTiming β} {p : LatencyParams} {spp : SsdParams}

/-- **A step from time `a`** to the time `r.1`, which touches no LUN. -/
structure Later (t : SsdTiming β) (a : Nat) (r : Nat × SsdTiming β) : Prop where
  avail_eq : r.2.nextLunAvailTime = t.nextLunAvailTime
  log_eq : r.2.log = t.log
  overflow_of : r.2.overflow = false → t.overflow = false
  le : r.2.overflow = false → a ≤ r.1

theorem Later.trans {a : Nat} {r r' : Nat × SsdTiming β} (h : Later t a r) (h' : Later r.2 r.1 r') : Later t a r' where
  avail_eq := h'.avail_eq.trans h.avail_eq
  log_eq := h'.log_eq.trans h.log_eq
  overflow_of := fun hno => h.overflow_of (h'.overflow_of hno)
  le := fun hno => (h.le (h'.overflow_of hno)).trans (h'.le hno)

theorem Later.refl (t : SsdTiming β) (a : Nat) : Later t a (a, t) := ⟨rfl, rfl, id, fun _ => Nat.le_refl a⟩

theorem add_later (t : SsdTiming β) (a b : Nat) : Later t a (t.add a b) := by
  unfold SsdTiming.add
  refine ⟨rfl, rfl, fun hno => ?_, fun hno => ?_⟩
  · simp only [Bool.or_eq_false_iff] at hno
    exact hno.1
  · simp only [Bool.or_eq_false_iff, timeOverflows_eq_false] at hno
    rw [u64_of_lt hno.2]
    exact Nat.le_add_right a b

theorem request_later (t : SsdTiming β) (c : β) (requestTime length : Nat) :
    Later t requestTime ((t.request B c requestTime length).1.1, (t.request B c requestTime length).2) := by
  refine ⟨rfl, rfl, fun hno => ?_, fun hno => ?_⟩
  · simp only [SsdTiming.request, Bool.or_eq_false_iff] at hno
    exact hno.1
  · simp only [SsdTiming.request, Bool.or_eq_false_iff, timeOverflows_eq_false] at hno
    have hrt : (UInt64.ofNat requestTime).toNat = requestTime :=
      UInt64.toNat_ofNat_of_lt' (Nat.lt_of_le_of_lt (Nat.le_add_right ..) hno.2)
    simp only [SsdTiming.request, B.request_fst, hrt, u64_of_lt hno.2]
    exact Nat.le_add_right ..

theorem requestChannel_later (t : SsdTiming β) (part ch requestTime length : Nat) :
    Later t requestTime (t.requestChannel B part ch requestTime length) := by
  have h := request_later B t (t.channels part ch) requestTime length
  unfold SsdTiming.requestChannel
  generalize t.request B (t.channels part ch) requestTime length = r at h ⊢
  obtain ⟨⟨time, c⟩, t'⟩ := r
  exact ⟨h.avail_eq, h.log_eq, h.overflow_of, h.le⟩

theorem ssdAdvancePcie_later (t : SsdTiming β) (requestTime length : Nat) :
    Later t requestTime (ssdAdvancePcie B t requestTime length) := by
  have h := request_later B t t.pcie requestTime length
  unfold ssdAdvancePcie
  generalize t.request B t.pcie requestTime length = r at h ⊢
  obtain ⟨⟨time, c⟩, t'⟩ := r
  exact ⟨h.avail_eq, h.log_eq, h.overflow_of, h.le⟩

theorem ssdAdvanceWriteBuffer_later (p : LatencyParams) (t : SsdTiming β) (requestTime length : Nat) :
    Later t requestTime (ssdAdvanceWriteBuffer B p t requestTime length).swap := by
  have hlat := (add_later t requestTime p.fwWbufLat0).trans
    (add_later _ _ (u64 (p.fwWbufLat1 * (u64 (length + (4 * 2 ^ 10 - 1)) / (4 * 2 ^ 10)))))
  exact hlat.trans (ssdAdvancePcie_later B _ _ length)

/-- The start time of a command is the one it was given, or a reading of the clock. -/
theorem cmdStime_later (t : SsdTiming β) (stime : Nat) : Later t stime (t.cmdStime stime) := by
  unfold SsdTiming.cmdStime
  split
  · rename_i hzero
    subst hzero
    exact ⟨rfl, rfl, id, fun _ => Nat.zero_le _⟩
  · exact add_later t stime 0

/-- **The loop of a read** ends after the time it started at, and its last piece is on the host after that. -/
theorem transferLoop_later (p : LatencyParams) (part ch : Nat) (interleave : Bool) (remaining chnlStime : Nat)
    (times : Nat × Nat) (t : SsdTiming β) (hpos : 0 < remaining) :
    Later t chnlStime ((transferLoop B p part ch interleave remaining chnlStime times t).1.1,
        (transferLoop B p part ch interleave remaining chnlStime times t).2) ∧
      ((transferLoop B p part ch interleave remaining chnlStime times t).2.overflow = false →
        (transferLoop B p part ch interleave remaining chnlStime times t).1.1 ≤
          (transferLoop B p part ch interleave remaining chnlStime times t).1.2) := by
  induction remaining using Nat.strong_induction_on generalizing chnlStime times t with
  | _ remaining ih =>
      have hmax := p.maxChXferSize_pos
      rw [transferLoop, if_pos hpos]
      generalize hsize : min remaining p.maxChXferSize = xferSize
      have hchannel := requestChannel_later B t part ch chnlStime xferSize
      dsimp only
      generalize t.requestChannel B part ch chnlStime xferSize = chnl at hchannel ⊢
      have hpiece : Later chnl.2 chnl.1 (if interleave then ssdAdvancePcie B chnl.2 chnl.1 xferSize else chnl) := by
        split
        · exact ssdAdvancePcie_later B ..
        · exact Later.refl chnl.2 chnl.1
      generalize (if interleave then ssdAdvancePcie B chnl.2 chnl.1 xferSize else chnl) = completed at hpiece ⊢
      -- the piece went through the channel in the state before its PCIe transfer
      have hmoved : Later t chnlStime (chnl.1, completed.2) :=
        hchannel.trans ⟨hpiece.avail_eq, hpiece.log_eq, hpiece.overflow_of, fun _ => Nat.le_refl _⟩
      by_cases hmore : 0 < remaining - xferSize
      · obtain ⟨hloop, hlast⟩ := ih (remaining - xferSize) (by omega) chnl.1 (chnl.1, completed.1) completed.2 hmore
        exact ⟨hmoved.trans hloop, hlast⟩
      · rw [transferLoop, if_neg hmore]
        exact ⟨hmoved, hpiece.le⟩

/-! ## One command -/

/-- A command as the host and the garbage collection issue them: no read is empty. -/
def NandCmd.Issued (ncmd : NandCmd) : Prop := ncmd.cmd = .read → 0 < ncmd.xferSize

/-- **What a command does to its LUN**: it waits until the LUN is available, and completes after it has started. -/
structure Occupies (t : SsdTiming β) (part : Nat) (ncmd : NandCmd) (span : NandSpan) (r : SsdTiming β × Nat) : Prop where
  lun_eq : span.lun = ⟨part, ncmd.ppa.ch, ncmd.ppa.lun⟩
  type_eq : span.type = ncmd.type
  cmd_eq : span.cmd = ncmd.cmd
  avail_eq : r.1.nextLunAvailTime = Function.update t.nextLunAvailTime span.lun span.finish
  log_eq : r.1.log = span :: t.log
  returned_eq : r.2 = span.completed
  overflow_of : r.1.overflow = false → t.overflow = false
  stime_eq : r.1.overflow = false → ncmd.stime ≠ 0 → span.stime = ncmd.stime
  stime_le : span.stime ≤ span.start
  avail_le : t.nextLunAvailTime span.lun ≤ span.start
  start_le : r.1.overflow = false → span.start ≤ span.finish
  finish_le : r.1.overflow = false → span.finish ≤ span.completed

/-- A command whose work, once it has its start time, is the step `work`. -/
theorem occupies_of_work {part stime finish completed : Nat} {ncmd : NandCmd} {t2 : SsdTiming β}
    (hstime : t.cmdStime ncmd.stime = (stime, t'))
    (hwork : Later t' (max (t'.nextLunAvailTime ⟨part, ncmd.ppa.ch, ncmd.ppa.lun⟩) stime) (finish, t2))
    (hfinish : t2.overflow = false → finish ≤ completed) :
    Occupies t part ncmd ⟨⟨part, ncmd.ppa.ch, ncmd.ppa.lun⟩, ncmd.type, ncmd.cmd, stime,
        max (t'.nextLunAvailTime ⟨part, ncmd.ppa.ch, ncmd.ppa.lun⟩) stime, finish, completed⟩
      (t2.occupy ⟨⟨part, ncmd.ppa.ch, ncmd.ppa.lun⟩, ncmd.type, ncmd.cmd, stime,
        max (t'.nextLunAvailTime ⟨part, ncmd.ppa.ch, ncmd.ppa.lun⟩) stime, finish, completed⟩, completed) := by
  have hlater := cmdStime_later t ncmd.stime
  rw [hstime] at hlater
  have hno : ∀ h : t2.overflow = false, t'.overflow = false := hwork.overflow_of
  refine
    { lun_eq := rfl
      type_eq := rfl
      cmd_eq := rfl
      avail_eq := ?_
      log_eq := ?_
      returned_eq := rfl
      overflow_of := fun h => hlater.overflow_of (hno h)
      stime_eq := ?_
      stime_le := Nat.le_max_right ..
      avail_le := ?_
      start_le := hwork.le
      finish_le := hfinish }
  · rw [SsdTiming.occupy, hwork.avail_eq, hlater.avail_eq]
  · rw [SsdTiming.occupy, hwork.log_eq, hlater.log_eq]
  · intro h hne
    have hadd : t.add ncmd.stime 0 = (stime, t') := by
      rw [← hstime, SsdTiming.cmdStime, if_neg hne]
    have hover := hno h
    simp only [SsdTiming.add, Prod.mk.injEq] at hadd
    obtain ⟨rfl, rfl⟩ := hadd
    simp only [Bool.or_eq_false_iff, timeOverflows_eq_false] at hover
    exact u64_of_lt hover.2
  · rw [← hlater.avail_eq]
    exact Nat.le_max_left ..

/-- **One command.** -/
theorem ssdAdvanceNand_spec (spp : SsdParams) (p : LatencyParams) (part : Nat) (t : SsdTiming β) (ncmd : NandCmd)
    (hissued : ncmd.Issued) : ∃ span, Occupies t part ncmd span (ssdAdvanceNand B spp p part t ncmd) := by
  unfold ssdAdvanceNand
  dsimp only
  cases hstime : t.cmdStime ncmd.stime with
  | mk stime t1 =>
      dsimp only
      obtain ⟨type, cmd, xferSize, cmdTime, interleave, ppa⟩ := ncmd
      cases cmd with
      | read =>
          obtain ⟨hloop, hlast⟩ := transferLoop_later B p part ppa.ch interleave xferSize
            (t1.add (max (t1.nextLunAvailTime ⟨part, ppa.ch, ppa.lun⟩) stime)
              (if xferSize = 4096 then p.pg4kbRdLat (getCell spp p ppa) else p.pgRdLat (getCell spp p ppa))).1 (0, 0)
            (t1.add (max (t1.nextLunAvailTime ⟨part, ppa.ch, ppa.lun⟩) stime)
              (if xferSize = 4096 then p.pg4kbRdLat (getCell spp p ppa) else p.pgRdLat (getCell spp p ppa))).2
            (hissued rfl)
          exact ⟨_, occupies_of_work hstime ((add_later ..).trans hloop) hlast⟩
      | write =>
          exact ⟨_, occupies_of_work hstime ((requestChannel_later B ..).trans (add_later ..)) fun _ => Nat.le_refl _⟩
      | erase => exact ⟨_, occupies_of_work hstime (add_later ..) fun _ => Nat.le_refl _⟩
      | nop => exact ⟨_, occupies_of_work hstime (Later.refl ..) fun _ => Nat.le_refl _⟩

/-! ## Any calls -/

/-- A call of the latency model. -/
inductive TimingCall where
  | nand (part : Nat) (ncmd : NandCmd)
  | unmapped (stime : Nat)
  | writeBuffer (requestTime length : Nat)

def TimingCall.Issued : TimingCall → Prop
  | .nand _ ncmd => ncmd.Issued
  | _ => True

/-- One call: the state after it, and what it returned. -/
def timingStep (spp : SsdParams) (p : LatencyParams) (t : SsdTiming β) : TimingCall → SsdTiming β × Nat
  | .nand part ncmd => ssdAdvanceNand B spp p part t ncmd
  | .unmapped stime => ssdAdvanceNandUnmapped t stime
  | .writeBuffer requestTime length => ssdAdvanceWriteBuffer B p t requestTime length

/-- Calls one after the other. -/
def timingRun (spp : SsdParams) (p : LatencyParams) (t : SsdTiming β) (calls : List TimingCall) : SsdTiming β :=
  calls.foldl (fun t call => (timingStep B spp p t call).1) t

/-- **From `t` to `t'` time goes forward on every LUN**: no LUN is available earlier than before, and the commands in
    between, newest first, follow each other. -/
structure Causal (t t' : SsdTiming β) (spans : List NandSpan) : Prop where
  log_eq : t'.log = spans ++ t.log
  never_back : ∀ lun, t.nextLunAvailTime lun ≤ t'.nextLunAvailTime lun
  ordered : spans.Pairwise fun newer older => newer.lun = older.lun → older.finish ≤ newer.start
  after : ∀ e ∈ spans, t.nextLunAvailTime e.lun ≤ e.start
  before : ∀ e ∈ spans, e.finish ≤ t'.nextLunAvailTime e.lun
  waits : ∀ e ∈ spans, e.stime ≤ e.start
  forward : ∀ e ∈ spans, e.start ≤ e.finish ∧ e.finish ≤ e.completed

theorem Causal.refl (t : SsdTiming β) : Causal t t [] where
  log_eq := rfl
  never_back := fun _ => Nat.le_refl _
  ordered := List.Pairwise.nil
  after := nofun
  before := nofun
  waits := nofun
  forward := nofun

theorem Causal.trans {t2 : SsdTiming β} {spans spans2 : List NandSpan} (h : Causal t t' spans)
    (h2 : Causal t' t2 spans2) : Causal t t2 (spans2 ++ spans) where
  log_eq := by rw [h2.log_eq, h.log_eq, List.append_assoc]
  never_back := fun lun => (h.never_back lun).trans (h2.never_back lun)
  ordered := by
    refine List.pairwise_append.mpr ⟨h2.ordered, h.ordered, fun newer hnew older hold hlun => ?_⟩
    calc older.finish ≤ t'.nextLunAvailTime older.lun := h.before older hold
      _ = t'.nextLunAvailTime newer.lun := by rw [hlun]
      _ ≤ newer.start := h2.after newer hnew
  after := List.forall_mem_append.mpr ⟨fun e he => (h.never_back e.lun).trans (h2.after e he), h.after⟩
  before := List.forall_mem_append.mpr ⟨h2.before, fun e he => (h.before e he).trans (h2.never_back e.lun)⟩
  waits := List.forall_mem_append.mpr ⟨h2.waits, h.waits⟩
  forward := List.forall_mem_append.mpr ⟨h2.forward, h.forward⟩

/-- A step that touches no LUN. -/
theorem Later.causal {a : Nat} {r : Nat × SsdTiming β} (h : Later t a r) : Causal t r.2 [] where
  log_eq := h.log_eq
  never_back := fun lun => Nat.le_of_eq (congrFun h.avail_eq.symm lun)
  ordered := List.Pairwise.nil
  after := nofun
  before := nofun
  waits := nofun
  forward := nofun

/-- A command. -/
theorem Occupies.causal {part : Nat} {ncmd : NandCmd} {span : NandSpan} {r : SsdTiming β × Nat}
    (h : Occupies t part ncmd span r) (hno : r.1.overflow = false) : Causal t r.1 [span] where
  log_eq := h.log_eq
  never_back := by
    intro lun
    rw [h.avail_eq]
    by_cases hlun : lun = span.lun
    · subst hlun
      rw [Function.update_self]
      exact h.avail_le.trans (h.start_le hno)
    · rw [Function.update_of_ne hlun]
  ordered := List.pairwise_singleton ..
  after := List.forall_mem_singleton.mpr h.avail_le
  before := by
    rw [List.forall_mem_singleton, h.avail_eq, Function.update_self]
  waits := List.forall_mem_singleton.mpr h.stime_le
  forward := List.forall_mem_singleton.mpr ⟨h.start_le hno, h.finish_le hno⟩

theorem timingStep_overflow {call : TimingCall} (hissued : call.Issued)
    (hno : (timingStep B spp p t call).1.overflow = false) : t.overflow = false := by
  cases call with
  | nand part ncmd =>
      obtain ⟨span, h⟩ := ssdAdvanceNand_spec B spp p part t ncmd hissued
      exact h.overflow_of hno
  | unmapped stime => exact (cmdStime_later t stime).overflow_of hno
  | writeBuffer requestTime length => exact (ssdAdvanceWriteBuffer_later B p t requestTime length).overflow_of hno

/-- **One call.** -/
theorem timingStep_causal {call : TimingCall} (hissued : call.Issued)
    (hno : (timingStep B spp p t call).1.overflow = false) : ∃ spans, Causal t (timingStep B spp p t call).1 spans := by
  cases call with
  | nand part ncmd =>
      obtain ⟨span, h⟩ := ssdAdvanceNand_spec B spp p part t ncmd hissued
      exact ⟨[span], h.causal hno⟩
  | unmapped stime => exact ⟨[], (cmdStime_later t stime).causal⟩
  | writeBuffer requestTime length => exact ⟨[], (ssdAdvanceWriteBuffer_later B p t requestTime length).causal⟩

theorem timingRun_overflow {calls : List TimingCall} (hissued : ∀ call ∈ calls, call.Issued)
    (hno : (timingRun B spp p t calls).overflow = false) : t.overflow = false := by
  induction calls generalizing t with
  | nil => exact hno
  | cons call calls ih =>
      obtain ⟨hcall, hcalls⟩ := List.forall_mem_cons.mp hissued
      exact timingStep_overflow B hcall (ih hcalls hno)

/-- **Any calls.** -/
theorem timingRun_causal {calls : List TimingCall} (hissued : ∀ call ∈ calls, call.Issued)
    (hno : (timingRun B spp p t calls).overflow = false) : ∃ spans, Causal t (timingRun B spp p t calls) spans := by
  induction calls generalizing t with
  | nil => exact ⟨[], Causal.refl t⟩
  | cons call calls ih =>
      obtain ⟨hcall, hcalls⟩ := List.forall_mem_cons.mp hissued
      obtain ⟨spans, hspans⟩ := ih hcalls hno
      obtain ⟨spans1, hspans1⟩ := timingStep_causal B hcall (timingRun_overflow B hcalls hno)
      exact ⟨_, hspans1.trans hspans⟩

end NvmeVirt
