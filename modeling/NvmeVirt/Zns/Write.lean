import NvmeVirt.Zns.State

/-!
# `Zns.Write` — writes, appends and reads of zones (`zns_read_write.c`)

The handlers get a pointer to the submission entry, and a zone append writes its address back through it. So
what they return has, besides the result and the internal operations they scheduled, the entry as they leave
it.
-/

namespace NvmeVirt

variable {τ : Type} (c : ZnsConfig)

/-! ## Replies -/

/-- A `schedule_internal_operation` call: when, which buffer, how many bytes. -/
structure ZnsOp where
  nsecsTarget : Nat
  buffer : BufferId
  buffsToRelease : Nat
deriving DecidableEq, Repr

/-- What a handler that returned `true` leaves behind. -/
structure ZnsHandled where
  ret : NvmevResult
  ops : List ZnsOp
deriving DecidableEq, Repr

/-- The submission entry after the handler ran, and what it returned; `none` for `false`. -/
structure ZnsReply where
  cmd : NvmeCommand
  handled : Option ZnsHandled

/-! ## Steps of a write -/

/-- `__check_boundary_error`: the range stays in one zone. -/
def checkBoundaryError (slba nrLba : Nat) : Prop :=
  lbaToZone c slba = lbaToZone c (u64 (slba + nrLba - 1))

instance (slba nrLba : Nat) : Decidable (checkBoundaryError c slba nrLba) :=
  inferInstanceAs (Decidable (_ = _))

/-- `__increase_write_ptr` -/
def increaseWritePtr (zid nrLba : Nat) (s : ZnsFtl τ) : ZnsFtl τ :=
  let wp := u64 ((s.zoneDescs zid).wp + nrLba)
  let s := s.setDesc zid { s.zoneDescs zid with wp := wp }
  if wp = zoneToSlba c zid + (s.zoneDescs zid).zoneCapacity then
    changeZoneState zid .full (releaseZoneResource .activeZone (releaseZoneResource .openZone s))
  else s

/-- `__lpn_to_ppa` -/
def znsLpnToPpa (lpn : Nat) : Ppa :=
  let zone := lpnToZone c lpn
  let off := lpn - zoneToSlpn c zone
  let sdie := u32 (zone * c.zp.diesPerZone % c.sp.ttLuns)
  let die := u32 (sdie + off / c.sp.pgsPerOneshotpg % c.zp.diesPerZone)
  { pg := off % c.sp.pgsPerOneshotpg % 2 ^ pageBits
    blk := 0
    pl := 0
    lun := die / c.sp.nchs % 2 ^ lunBits
    ch := die % c.sp.nchs % 2 ^ chBits }

/-- Bytes of a oneshot page. -/
def ZnsConfig.oneshotBytes : Nat := c.sp.pgsPerOneshotpg * c.sp.pgsz

/-- `zone_size % (pgs_per_oneshotpg * pgsz)` -/
def ZnsConfig.unalignedSpace : Nat := c.zp.zoneSize % c.oneshotBytes

/-- The locals of the program loops. -/
structure ZnsLoop (τ : Type) where
  tm : τ
  nsecsLatest : Nat
  ops : List ZnsOp

/-- Program the oneshot page of `lpn` and schedule the release of its buffer. -/
def programOneshot (L : ZnsLatency τ) (buf : BufferId) (stime lpn release : Nat) (st : ZnsLoop τ) :
    ZnsLoop τ :=
  let r := L.advanceNand st.tm
    { type := .user
      cmd := .write
      xferSize := c.oneshotBytes
      stime := stime
      interleavePciDma := false
      ppa := znsLpnToPpa c lpn }
  { tm := r.1
    nsecsLatest := max r.2 st.nsecsLatest
    ops := st.ops ++ [⟨r.2, buf, release⟩] }

/-- `pg_off` of the program loops -/
def pgOff (lpn : Nat) : Nat := (znsLpnToPpa c lpn).pg % c.sp.pgsPerOneshotpg

/-- The program loop of `__zns_write` from `lpn` on, `fuel` rounds at most. -/
def writeProgramLoop (L : ZnsLatency τ) (buf : BufferId) (stime elpn zoneElpn : Nat) :
    Nat → Nat → ZnsLoop τ → ZnsLoop τ
  | 0, _, st => st
  | fuel + 1, lpn, st =>
      if lpn ≤ elpn then
        let pgs := min (elpn - lpn + 1) (c.sp.pgsPerOneshotpg - pgOff c lpn)
        let st :=
          -- aggregate write io in flash page
          if pgOff c lpn + pgs = c.sp.pgsPerOneshotpg ∨ lpn + pgs - 1 = zoneElpn then
            programOneshot c L buf stime lpn
              (if lpn + pgs - 1 = zoneElpn ∧ 0 < c.unalignedSpace then c.unalignedSpace
                else c.oneshotBytes) st
          else st
        writeProgramLoop L buf stime elpn zoneElpn fuel (lpn + pgs) st
      else st

/-- `ret->nsecs_target` of both write functions -/
def znsTarget (cmd : NvmeCommand) (latest xfer : Nat) : Nat :=
  if cmd.fua || !c.sp.writeEarlyCompletion then latest else xfer

/-! ## `__zns_write` -/

/-- The buffer `__zns_write` charges. -/
def writeBufferOf (zid : Nat) : BufferId := if c.zp.zoneWbSize ≠ 0 then .zone zid else .global

/-- `case ZONE_STATE_CLOSED` -/
def openClosed (zid : Nat) (s : ZnsFtl τ) : Nat × ZnsFtl τ :=
  match acquireZoneResource .openZone s with
  | (false, s) => (scZnsNoOpenZone, s)
  | (true, s) => (scSuccess, changeZoneState zid .openedImpl s)

/-- The switch over the zone state in `__zns_write`. -/
def openForWrite (zid slba : Nat) (s : ZnsFtl τ) : Nat × ZnsFtl τ :=
  match (s.zoneDescs zid).state with
  | .empty =>
      if slba ≠ (s.zoneDescs zid).zslba then (scZnsInvalidWrite, s)
      else if isZoneResourceFull s .activeZone then (scZnsNoActiveZone, s)
      else if isZoneResourceFull s .openZone then (scZnsNoOpenZone, s)
      else openClosed zid (acquireZoneResource .activeZone s).2
  | .closed => openClosed zid s
  | .openedImpl | .openedExpl => (scSuccess, s)
  | .full => (scZnsErrFull, s)
  | .readOnly => (scZnsErrReadOnly, s)
  | .offline => (scZnsErrOffline, s)

/-- The checks before the switch over the zone state, and the switch. -/
def admitWrite (zid slba nrLba : Nat) (s : ZnsFtl τ) : Nat × ZnsFtl τ :=
  if lbaToByte nrLba % c.sp.writeUnitSize ≠ 0 then (scZnsInvalidWrite, s)
  else if ¬ checkBoundaryError c slba nrLba then (scZnsErrBoundary, s)
  else if slba ≠ (s.zoneDescs zid).wp then (scZnsInvalidWrite, s)
  else openForWrite zid slba s

/-- The submission entry as `__zns_write` leaves it: an append gets the write pointer as its address. -/
def appended (s : ZnsFtl τ) (zid : Nat) (cmd : NvmeCommand) : NvmeCommand :=
  if cmd.opcode = .zoneAppend then { cmd with slba := UInt64.ofNat (s.zoneDescs zid).wp } else cmd

/-- `ret->result` -/
def appendResult (s : ZnsFtl τ) (zid : Nat) (cmd : NvmeCommand) : Nat :=
  if cmd.opcode = .zoneAppend then (s.zoneDescs zid).wp else 0

/-- `__zns_write` from the verdict on: `out` with an error, or the write pointer and the program loop. -/
def completeWrite (L : ZnsLatency τ) (nsecsStart zid result : Nat) (cmd : NvmeCommand) :
    Nat × ZnsFtl τ → ZnsReply × ZnsFtl τ
  | (status, s) =>
      if status ≠ scSuccess then (⟨cmd, some ⟨⟨status, nsecsStart, result⟩, []⟩⟩, s)
      else
        let s := increaseWritePtr c zid cmd.nrLba s
        let t := L.advanceWriteBuffer s.tm nsecsStart (lbaToByte cmd.nrLba)
        let slpn := lbaToLpn c cmd.slba.toNat
        let elpn := lbaToLpn c (u64 (cmd.slba.toNat + cmd.nrLba - 1))
        let st := writeProgramLoop c L (writeBufferOf c zid) t.2 elpn (zoneToElpn c zid) (elpn - slpn + 1) slpn
          ⟨t.1, t.2, []⟩
        (⟨cmd, some ⟨⟨scSuccess, znsTarget c cmd st.nsecsLatest t.2, result⟩, st.ops⟩⟩, { s with tm := st.tm })

/-- `__zns_write` -/
def znsWriteSeq (L : ZnsLatency τ) (req : NvmevRequest) (s : ZnsFtl τ) :
    Except Fault (ZnsReply × ZnsFtl τ) := do
  let zid := lbaToZone c req.cmd.slba.toNat
  nvmevAssert (zid < c.zp.nrZones)
  let cmd := appended s zid req.cmd
  let buf := writeBufferOf c zid
  let (granted, b) ← bufferAllocate (s.buf buf) (lbaToByte cmd.nrLba)
  if granted < lbaToByte cmd.nrLba then return (⟨cmd, none⟩, s.setBuf buf b)
  return completeWrite c L req.nsecsStart zid (appendResult s zid req.cmd) cmd
    (admitWrite c zid cmd.slba.toNat cmd.nrLba (s.setBuf buf b))

/-! ## `__zns_write_zrwa` -/

/-- The program loop of `__zns_write_zrwa`: `remaining` pages from `lpn` on. -/
def zrwaProgramLoop (L : ZnsLatency τ) (buf : BufferId) (stime : Nat) : Nat → Nat → Nat → ZnsLoop τ → ZnsLoop τ
  | 0, _, _, st => st
  | fuel + 1, lpn, remaining, st =>
      if 0 < remaining then
        let pgs := min remaining (c.sp.pgsPerOneshotpg - pgOff c lpn)
        let st :=
          if pgOff c lpn + pgs = c.sp.pgsPerOneshotpg then programOneshot c L buf stime lpn c.oneshotBytes st
          else st
        zrwaProgramLoop L buf stime fuel (lpn + pgs) (remaining - pgs) st
      else st

/-- A zone's ZRWA buffer; without `ZRWA_BUFFER_SIZE` there is none. -/
def zrwaAllocate (zid size : Nat) (s : ZnsFtl τ) : Except Fault (Nat × ZnsFtl τ) := do
  nvmevAssert (c.zp.zrwaBufferSize ≠ 0)
  let (granted, b) ← bufferAllocate (s.zrwaBuffer zid) size
  return (granted, s.setBuf (.zrwa zid) b)

/-- The switch over the zone state in `__zns_write_zrwa`. -/
def openForZrwa (zid : Nat) (s : ZnsFtl τ) : Except Fault (Nat × ZnsFtl τ) :=
  match (s.zoneDescs zid).state with
  | .closed | .empty =>
      match acquireZoneResource .openZone s with
      | (false, s) => .ok (scZnsNoOpenZone, s)
      | (true, s) => do
          let (granted, s) ← zrwaAllocate c zid c.zp.zrwaSize s
          nvmevAssert (granted ≠ 0)
          return (scSuccess, changeZoneState zid .openedImpl s)
  | .openedImpl | .openedExpl => .ok (scSuccess, s)
  | .full => .ok (scZnsErrFull, s)
  | .readOnly => .ok (scZnsErrReadOnly, s)
  | .offline => .ok (scZnsErrOffline, s)

/-- The checks before the switch over the zone state, and the switch. -/
def admitZrwa (zid slba nrLba elba implEnd : Nat) (s : ZnsFtl τ) : Except Fault (Nat × ZnsFtl τ) :=
  if lbaToByte nrLba % c.sp.writeUnitSize ≠ 0 then .ok (scZnsInvalidWrite, s)
  else if ¬ checkBoundaryError c slba nrLba then .ok (scZnsErrBoundary, s)
  else if slba < (s.zoneDescs zid).wp ∨ implEnd < elba then .ok (scZnsInvalidWrite, s)
  else openForZrwa c zid s

/-- `nr_lbas_flush` -/
def zrwaFlushLbas (zid prevWp elba implStart : Nat) : Except Fault Nat :=
  if implStart ≤ elba then do
    -- a division by zero without `ZRWAFG_SIZE`
    nvmevAssert (c.zp.lbasPerZrwafg ≠ 0)
    return divRoundUp (elba - implStart + 1) c.zp.lbasPerZrwafg * c.zp.lbasPerZrwafg
  else if elba = zoneToElba c zid then .ok (u64 (elba + 2 ^ 64 - prevWp + 1))
  else .ok 0

/-- Charge the ZRWA buffer for the flush and move the write pointer; `false` when the buffer is short. -/
def zrwaFlush (zid nrLbasFlush : Nat) (s : ZnsFtl τ) : Except Fault (Bool × ZnsFtl τ) :=
  if 0 < nrLbasFlush then do
    let (granted, s) ← zrwaAllocate c zid (lbaToByte nrLbasFlush) s
    if granted = 0 then return (false, s)
    return (true, increaseWritePtr c zid (u32 nrLbasFlush) s)
  else .ok (true, s)

/-- `__zns_write_zrwa` -/
def znsWriteZrwa (L : ZnsLatency τ) (req : NvmevRequest) (s : ZnsFtl τ) :
    Except Fault (ZnsReply × ZnsFtl τ) := do
  let slba := req.cmd.slba.toNat
  let elba := u64 (slba + req.cmd.nrLba - 1)
  let zid := lbaToZone c slba
  nvmevAssert (zid < c.zp.nrZones)
  let prevWp := (s.zoneDescs zid).wp
  let implStart := u64 (prevWp + c.zp.lbasPerZrwa)
  let implEnd := u64 (prevWp + u32 (2 * c.zp.lbasPerZrwa) + (2 ^ 64 - 1))
  let (status, s) ← admitZrwa c zid slba req.cmd.nrLba elba implEnd s
  if status ≠ scSuccess then return (⟨req.cmd, some ⟨⟨status, req.nsecsStart, 0⟩, []⟩⟩, s)
  let nrLbasFlush ← zrwaFlushLbas c zid prevWp elba implStart
  let (flushed, s) ← zrwaFlush c zid nrLbasFlush s
  if !flushed then return (⟨req.cmd, none⟩, s)
  let (tm, xfer) := L.advanceWriteBuffer s.tm req.nsecsStart (lbaToByte req.cmd.nrLba)
  let remaining := nrLbasFlush / c.sp.secsPerPg
  let st := zrwaProgramLoop c L (.zrwa zid) xfer remaining (lbaToLpn c prevWp) remaining ⟨tm, xfer, []⟩
  return (⟨req.cmd, some ⟨⟨scSuccess, znsTarget c req.cmd st.nsecsLatest xfer, 0⟩, st.ops⟩⟩,
    { s with tm := st.tm })

/-- `zns_write` -/
def znsWrite (L : ZnsLatency τ) (req : NvmevRequest) (s : ZnsFtl τ) :
    Except Fault (ZnsReply × ZnsFtl τ) := do
  let zid := lpnToZone c (lbaToLpn c req.cmd.slba.toNat)
  nvmevAssert (zid < c.zp.nrZones)
  if (s.zoneDescs zid).zrwav = false then znsWriteSeq c L req s else znsWriteZrwa c L req s

/-! ## `zns_read` -/

/-- The read loop of `zns_read`. -/
def readFlashLoop (L : ZnsLatency τ) (stime elpn : Nat) : Nat → Nat → τ × Nat → τ × Nat
  | 0, _, r => r
  | fuel + 1, lpn, r =>
      if lpn ≤ elpn then
        let ppa := znsLpnToPpa c lpn
        let pgs := min (elpn - lpn + 1) (c.sp.pgsPerFlashpg - ppa.pg % c.sp.pgsPerFlashpg)
        let t := L.advanceNand r.1
          { type := .user
            cmd := .read
            xferSize := pgs * c.sp.pgsz
            stime := stime
            interleavePciDma := false
            ppa := ppa }
        readFlashLoop L stime elpn fuel (lpn + pgs) (t.1, max t.2 r.2)
      else r

/-- `zns_read` -/
def znsRead (L : ZnsLatency τ) (req : NvmevRequest) (s : ZnsFtl τ) : Except Fault (ZnsReply × ZnsFtl τ) := do
  let slba := req.cmd.slba.toNat
  let nrLba := req.cmd.nrLba
  let slpn := lbaToLpn c slba
  let elpn := lbaToLpn c (u64 (slba + nrLba - 1))
  let zid := lpnToZone c slpn
  nvmevAssert (zid < c.zp.nrZones)
  let status :=
    if (s.zoneDescs zid).state = .offline then scZnsErrOffline
    else if ¬ checkBoundaryError c slba nrLba then scZnsErrBoundary
    else scSuccess
  let stime := req.nsecsStart + (if lbaToByte nrLba ≤ 4 * 2 ^ 10 then c.sp.fw4kbRdLat else c.sp.fwRdLat)
  let r := readFlashLoop c L stime elpn (elpn - slpn + 1) slpn (s.tm, stime)
  let (tm, pcie) := L.advancePcie r.1 r.2 (nrLba * c.sp.secsz)
  return (⟨req.cmd, some ⟨⟨status, max pcie r.2, 0⟩, []⟩⟩, { s with tm := tm })

end NvmeVirt
