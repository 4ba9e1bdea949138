import NvmeVirt.Zns.Write

/-!
# `Zns.Mgmt` — zone management and command dispatch (`zns_mgmt_send.c`, `zns_mgmt_recv.c`, `zns_ftl.c`)

The report data of Zone Management Receive and the data a reset clears are left out: no zone state depends on
either.
-/

namespace NvmeVirt

variable {τ : Type} (c : ZnsConfig)

/-! ## Zone send actions -/

/-- `ZSA_*`; `other` is a value no case of `__zmgmt_send` matches. -/
inductive ZoneSendAction where
  | closeZone | finishZone | openZone | resetZone | offlineZone | flushExplZrwa | other
deriving DecidableEq, Repr

def ZoneSendAction.ofZsa : Nat → ZoneSendAction
  | 0x01 => .closeZone
  | 0x02 => .finishZone
  | 0x03 => .openZone
  | 0x04 => .resetZone
  | 0x05 => .offlineZone
  | 0x11 => .flushExplZrwa
  | _ => .other

/-- `cmd->zsa` -/
def NvmeCommand.zsa (cmd : NvmeCommand) : ZoneSendAction := .ofZsa (cmd.dsmgmt.toNat % 2 ^ 8)

/-- `cmd->select_all` -/
def NvmeCommand.selectAll (cmd : NvmeCommand) : Bool := cmd.dsmgmt.toNat.testBit 8

/-- `cmd->zsaso` -/
def NvmeCommand.zsaso (cmd : NvmeCommand) : Bool := cmd.dsmgmt.toNat.testBit 9

/-- `__zmgmt_send_close_zone` -/
def zmgmtSendCloseZone (zid : Nat) (s : ZnsFtl τ) : Nat × ZnsFtl τ :=
  match (s.zoneDescs zid).state with
  | .openedImpl | .openedExpl => (scSuccess, releaseZoneResource .openZone (changeZoneState zid .closed s))
  | .closed => (scSuccess, s)
  | _ => (scZnsInvalidTransition, s)

/-- `case ZONE_STATE_CLOSED` of a finish and of a reset: the zone stops being active. -/
def releaseActive (zid : Nat) (s : ZnsFtl τ) : ZnsFtl τ :=
  if (s.zoneDescs zid).zrwav then releaseZoneResource .zrwaZone (releaseZoneResource .activeZone s)
  else releaseZoneResource .activeZone s

/-- `__zmgmt_send_finish_zone` -/
def zmgmtSendFinishZone (zid : Nat) (s : ZnsFtl τ) : Nat × ZnsFtl τ :=
  match (s.zoneDescs zid).state with
  | .openedImpl | .openedExpl =>
      (scSuccess, changeZoneState zid .full (releaseActive zid (releaseZoneResource .openZone s)))
  | .closed => (scSuccess, changeZoneState zid .full (releaseActive zid s))
  | .empty => (scSuccess, changeZoneState zid .full s)
  | .full => (scSuccess, s)
  | _ => (scZnsInvalidTransition, s)

/-- `case ZONE_STATE_CLOSED` of `__zmgmt_send_open_zone` -/
def openClosedExpl (zid : Nat) (s : ZnsFtl τ) : Nat × ZnsFtl τ :=
  match acquireZoneResource .openZone s with
  | (false, s) => (scZnsNoOpenZone, s)
  | (true, s) => (scSuccess, changeZoneState zid .openedExpl s)

/-- `__zmgmt_send_open_zone` -/
def zmgmtSendOpenZone (zid : Nat) (zrwa : Bool) (s : ZnsFtl τ) : Nat × ZnsFtl τ :=
  match (s.zoneDescs zid).state with
  | .empty =>
      if isZoneResourceFull s .activeZone then (scZnsNoActiveZone, s)
      else if isZoneResourceFull s .openZone then (scZnsNoOpenZone, s)
      else if zrwa then
        if isZoneResourceFull s .zrwaZone then (scZnsZrwaRsrcUnavail, s)
        else
          let s := (acquireZoneResource .zrwaZone s).2
          let s := s.setDesc zid { s.zoneDescs zid with zrwav := true }
          openClosedExpl zid (acquireZoneResource .activeZone s).2
      else openClosedExpl zid (acquireZoneResource .activeZone s).2
  | .closed => openClosedExpl zid s
  | .openedImpl => (scSuccess, changeZoneState zid .openedExpl s)
  | .openedExpl => (scSuccess, s)
  | _ => (scZnsInvalidTransition, s)

/-- `__reset_zone`, without the data it clears -/
def resetZone (zid : Nat) (s : ZnsFtl τ) : ZnsFtl τ :=
  let d := s.zoneDescs zid
  let s := s.setDesc zid { d with wp := d.zslba, zrwav := false }
  if c.zp.zrwaBufferSize ≠ 0 then
    s.setBuf (.zrwa zid) { s.zrwaBuffer zid with remaining := (s.zrwaBuffer zid).size }
  else s

/-- `__zmgmt_send_reset_zone` -/
def zmgmtSendResetZone (zid : Nat) (s : ZnsFtl τ) : Nat × ZnsFtl τ :=
  match (s.zoneDescs zid).state with
  | .openedImpl | .openedExpl =>
      (scSuccess, resetZone c zid
        (changeZoneState zid .empty (releaseActive zid (releaseZoneResource .openZone s))))
  | .closed => (scSuccess, resetZone c zid (changeZoneState zid .empty (releaseActive zid s)))
  | .full | .empty => (scSuccess, resetZone c zid (changeZoneState zid .empty s))
  | _ => (scZnsInvalidTransition, s)

/-- `__zmgmt_send_offline_zone` -/
def zmgmtSendOfflineZone (zid : Nat) (s : ZnsFtl τ) : Nat × ZnsFtl τ :=
  match (s.zoneDescs zid).state with
  | .readOnly => (scSuccess, changeZoneState zid .offline s)
  | .offline => (scSuccess, s)
  | _ => (scZnsInvalidTransition, s)

/-- `__zmgmt_send_flush_explicit_zrwa` after its checks: move the write pointer behind `slba`. -/
def flushTo (zid slba : Nat) (s : ZnsFtl τ) : Nat × ZnsFtl τ :=
  let d := s.zoneDescs zid
  let moved := s.setDesc zid { d with wp := u64 (slba + 1) }
  let full (s : ZnsFtl τ) : ZnsFtl τ :=
    changeZoneState zid .full (releaseZoneResource .zrwaZone (releaseZoneResource .activeZone s))
  match d.state with
  | .openedExpl | .openedImpl =>
      if u64 (slba + 1) = zoneToSlba c zid + d.zoneCapacity then
        (scSuccess, full (releaseZoneResource .openZone moved))
      else (scSuccess, moved)
  | .closed =>
      if u64 (slba + 1) = zoneToSlba c zid + d.zoneCapacity then (scSuccess, full moved)
      else (scSuccess, moved)
  | _ => (scZnsInvalidZoneOperation, s)

/-- `__zmgmt_send_flush_explicit_zrwa` -/
def zmgmtSendFlushExplicitZrwa (slba : Nat) (s : ZnsFtl τ) : Except Fault (Nat × ZnsFtl τ) := do
  let zid := lbaToZone c slba
  let d := s.zoneDescs zid
  let zrwaEnd := min (u64 (d.wp + c.zp.lbasPerZrwa + (2 ^ 64 - 1))) (zoneToSlba c zid + d.zoneCapacity - 1)
  if d.zrwav = false then return (scZnsInvalidZoneOperation, s)
  if ¬ (d.wp ≤ slba ∧ slba ≤ zrwaEnd) then return (scZnsInvalidZoneOperation, s)
  -- a division by zero without `ZRWAFG_SIZE`
  nvmevAssert (c.zp.lbasPerZrwafg ≠ 0)
  if (slba - d.wp + 1) % c.zp.lbasPerZrwafg ≠ 0 then return (scInvalidField, s)
  return flushTo c zid slba s

/-- `__zmgmt_send` -/
def zmgmtSend (slba : Nat) (action : ZoneSendAction) (option : Bool) (s : ZnsFtl τ) :
    Except Fault (Nat × ZnsFtl τ) :=
  let zid := lbaToZone c slba
  match action with
  | .other => .ok (c.uninit, s)
  | _ => do
      nvmevAssert (zid < c.zp.nrZones)
      match action with
      | .closeZone => return zmgmtSendCloseZone zid s
      | .finishZone => return zmgmtSendFinishZone zid s
      | .openZone => return zmgmtSendOpenZone zid option s
      | .resetZone => return zmgmtSendResetZone c zid s
      | .offlineZone => return zmgmtSendOfflineZone zid s
      | .flushExplZrwa => zmgmtSendFlushExplicitZrwa c slba s
      | .other => return (c.uninit, s)

/-- The loop over all zones. -/
def zmgmtSendAll (action : ZoneSendAction) (option : Bool) (s : ZnsFtl τ) : Except Fault (ZnsFtl τ) :=
  (List.range c.zp.nrZones).foldlM
    (fun s zid => do return (← zmgmtSend c (zoneToSlba c zid) action option s).2) s

/-- `zns_zmgmt_send` -/
def znsZmgmtSend (req : NvmevRequest) (s : ZnsFtl τ) : Except Fault (ZnsReply × ZnsFtl τ) := do
  let reply (status : Nat) : ZnsReply := ⟨req.cmd, some ⟨⟨status, req.nsecsStart, 0⟩, []⟩⟩
  if req.cmd.selectAll then
    let s ← zmgmtSendAll c req.cmd.zsa req.cmd.zsaso s
    return (reply scSuccess, s)
  else
    let (status, s) ← zmgmtSend c req.cmd.slba.toNat req.cmd.zsa req.cmd.zsaso s
    return (reply status, s)

/-! ## Zone management receive -/

/-- `__check_zmgmt_rcv_option_supported`: `zra` and `zra_specific_field` are the first bytes of DW 13. -/
def checkZmgmtRcvOptionSupported (cmd : NvmeCommand) : Prop :=
  lbaToZone c cmd.slba.toNat < c.zp.nrZones ∧ cmd.dsmgmt.toNat % 2 ^ 8 = 0 ∧
    cmd.dsmgmt.toNat / 2 ^ 8 % 2 ^ 8 = 0

instance (cmd : NvmeCommand) : Decidable (checkZmgmtRcvOptionSupported c cmd) :=
  inferInstanceAs (Decidable (_ ∧ _ ∧ _))

/-- `zns_zmgmt_recv` -/
def znsZmgmtRecv (req : NvmevRequest) : NvmevResult :=
  ⟨if checkZmgmtRcvOptionSupported c req.cmd then scSuccess else scInvalidField, req.nsecsStart, 0⟩

/-! ## Dispatch -/

/-- `zns_flush` -/
def znsFlush (L : ZnsLatency τ) (s : ZnsFtl τ) : NvmevResult :=
  ⟨scSuccess, max (L.localClock s.tm) (L.nextIdleTime s.tm), 0⟩

/-- `zns_proc_nvme_io_cmd` -/
def znsProcNvmeIoCmd (L : ZnsLatency τ) (req : NvmevRequest) (s : ZnsFtl τ) :
    Except Fault (ZnsReply × ZnsFtl τ) :=
  let reply (ret : NvmevResult) : ZnsReply := ⟨req.cmd, some ⟨ret, []⟩⟩
  match req.cmd.opcode with
  | .write | .zoneAppend => znsWrite c L req s
  | .read => znsRead c L req s
  | .flush => .ok (reply (znsFlush L s), s)
  | .zoneMgmtSend => znsZmgmtSend c req s
  | .zoneMgmtRecv => .ok (reply (znsZmgmtRecv c req), s)
  | .other => .ok (reply (.init req.nsecsStart), s)

end NvmeVirt
