import NvmeVirt.Zns.Trap

/-!
# `Zns.Report` — zone reports, and the zone numbers commands index with (`zns_mgmt_recv.c`)

`__fill_zone_report` copies descriptors from the zone of the command on; the number of them is cut at the end of
the table, also where the arithmetic of a partial report goes below zero. So a report stays in the table, and
with it `zns_zmgmt_recv` as `Zns.Mgmt` has it, without the data, is what the handler returns
(`znsZmgmtRecvReport_eq`).

The other entry points take the zone number from the address unchecked. `zoneIndices` lists the numbers each of
them indexes the zone tables with.
-/

namespace NvmeVirt

open Outcome

variable {τ : Type} (c : ZnsConfig)

/-! ## Zone reports -/

/-- `cmd->nr_dw`: DW 12, of which a read or write has `length` and `control` -/
def NvmeCommand.nrDw (cmd : NvmeCommand) : Nat := cmd.length.toNat + cmd.control.toNat * 2 ^ 16

/-- `bytes_transfer`; the sum has 32 bits. -/
def NvmeCommand.bytesTransfer (cmd : NvmeCommand) : Nat := u32 (cmd.nrDw + 1) * 4

/-- `cmd->zra_specific_features`: a partial report -/
def NvmeCommand.zraSpecificFeatures (cmd : NvmeCommand) : Bool := cmd.dsmgmt.toNat.testBit 16

/-- `nr_zone_to_report`; a zone descriptor has 64 bytes. -/
def nrZoneToReport (cmd : NvmeCommand) : Nat :=
  let left := u64 (c.zp.nrZones + 2 ^ 64 - lbaToZone c cmd.slba.toNat)
  let asked := if cmd.zraSpecificFeatures then u64 (cmd.bytesTransfer / 64 + 2 ^ 64 - 1) else left
  if asked > left then left else asked

/-- `struct zone_report` -/
structure ZoneReport where
  nrZones : Nat
  zd : List ZoneDescriptor

/-- `__fill_zone_report` -/
def fillZoneReport (cmd : NvmeCommand) (s : ZnsFtl τ) : Except Fault ZoneReport := do
  let startZid := lbaToZone c cmd.slba.toNat
  let nr := nrZoneToReport c cmd
  -- the `memcpy` from the table
  nvmevAssert (startZid + nr ≤ c.zp.nrZones)
  return ⟨nr, (List.range nr).map fun i => s.zoneDescs (startZid + i)⟩

/-- `zns_zmgmt_recv` with the report it transfers -/
def znsZmgmtRecvReport (req : NvmevRequest) (s : ZnsFtl τ) : Except Fault (NvmevResult × Option ZoneReport) := do
  if checkZmgmtRcvOptionSupported c req.cmd then
    let report ← fillZoneReport c req.cmd s
    return (⟨scSuccess, req.nsecsStart, 0⟩, some report)
  else return (⟨scInvalidField, req.nsecsStart, 0⟩, none)

/-! ## Zone numbers -/

/-- The zone number of `__zmgmt_send`; without a case for the action nothing is indexed. -/
def sendIndices (slba : Nat) (action : ZoneSendAction) : List Nat :=
  if action = .other then [] else [lbaToZone c slba]

/-- **The numbers a command indexes `zone_descs`, `zone_write_buffer` and `zrwa_buffer` with**: `zns_write` by LPN
    and the write function it calls by LBA, `zns_read` by LPN, `__zmgmt_send` by LBA, for all zones with
    `select_all`, and `__fill_zone_report` from the zone of the LBA on. -/
def NvmeCommand.zoneIndices (cmd : NvmeCommand) : List Nat :=
  match cmd.opcode with
  | .write | .zoneAppend => [lpnToZone c (lbaToLpn c cmd.slba.toNat), lbaToZone c cmd.slba.toNat]
  | .read => [lpnToZone c (lbaToLpn c cmd.slba.toNat)]
  | .zoneMgmtSend =>
      if cmd.selectAll then (List.range c.zp.nrZones).flatMap fun zid => sendIndices c (zoneToSlba c zid) cmd.zsa
      else sendIndices c cmd.slba.toNat cmd.zsa
  | .zoneMgmtRecv =>
      if checkZmgmtRcvOptionSupported c cmd then
        lbaToZone c cmd.slba.toNat ::
          (List.range (nrZoneToReport c cmd)).map (lbaToZone c cmd.slba.toNat + ·)
      else []
  | .flush | .other => []

/-- The command takes a zone number from its address without a check: a read, a write, an append, or a zone
    management action on one zone. -/
def NvmeCommand.Unchecked (cmd : NvmeCommand) : Prop :=
  cmd.opcode = .write ∨ cmd.opcode = .zoneAppend ∨ cmd.opcode = .read ∨
    (cmd.opcode = .zoneMgmtSend ∧ cmd.selectAll = false ∧ cmd.zsa ≠ .other)

instance (cmd : NvmeCommand) : Decidable cmd.Unchecked := inferInstanceAs (Decidable (_ ∨ _ ∨ _ ∨ _))

/-- The address, modulo `2^32` zones, lies in the namespace. -/
def NvmeCommand.OnDevice (cmd : NvmeCommand) : Prop :=
  cmd.slba.toNat % (c.zoneLbas * 2 ^ 32) < c.zp.nrZones * c.zoneLbas

variable {c}

/-- **The narrowed zone number** is in range exactly if the address is, modulo `2^32` zones. -/
theorem lbaToZone_lt_iff (hc : c.Wf) (cmd : NvmeCommand) :
    lbaToZone c cmd.slba.toNat < c.zp.nrZones ↔ cmd.OnDevice c := by
  unfold lbaToZone u32 NvmeCommand.OnDevice
  rw [← Nat.mod_mul_right_div_self, Nat.div_lt_iff_lt_mul hc.zoneLbas_pos]

/-- A report ends at the end of the table. -/
theorem start_add_nrZoneToReport_le (hc : c.Wf) {cmd : NvmeCommand} (h : lbaToZone c cmd.slba.toNat < c.zp.nrZones) :
    lbaToZone c cmd.slba.toNat + nrZoneToReport c cmd ≤ c.zp.nrZones := by
  have hlt := hc.nrZones_lt
  have hleft : u64 (c.zp.nrZones + 2 ^ 64 - lbaToZone c cmd.slba.toNat) =
      c.zp.nrZones - lbaToZone c cmd.slba.toNat := by
    unfold u64
    omega
  unfold nrZoneToReport
  rw [hleft]
  dsimp only
  generalize (if cmd.zraSpecificFeatures then _ else _) = asked
  split <;> omega

/-- **A zone report always stays in the table**, so leaving its data out loses nothing. -/
theorem znsZmgmtRecvReport_eq (hc : c.Wf) (req : NvmevRequest) (s : ZnsFtl τ) :
    ∃ report, znsZmgmtRecvReport c req s = .ok (znsZmgmtRecv c req, report) := by
  unfold znsZmgmtRecvReport znsZmgmtRecv
  by_cases hsup : checkZmgmtRcvOptionSupported c req.cmd
  · rw [if_pos hsup, if_pos hsup, fillZoneReport, nvmevAssert_of (start_add_nrZoneToReport_le hc hsup.1)]
    exact ⟨_, rfl⟩
  · rw [if_neg hsup, if_neg hsup]
    exact ⟨_, rfl⟩

theorem sendIndices_in_range {slba : Nat} (h : lbaToZone c slba < c.zp.nrZones) (action : ZoneSendAction) :
    ∀ i ∈ sendIndices c slba action, i < c.zp.nrZones := by
  intro i hi
  unfold sendIndices at hi
  split at hi
  · cases hi
  · rw [List.mem_singleton.mp hi]
    exact h

/-- A command without a check indexes with the zone of its address, and with nothing else. -/
theorem zoneIndices_of_unchecked (hc : c.Wf) {cmd : NvmeCommand} (h : cmd.Unchecked) :
    (∀ i ∈ cmd.zoneIndices c, i < c.zp.nrZones) ↔ lbaToZone c cmd.slba.toNat < c.zp.nrZones := by
  unfold NvmeCommand.zoneIndices
  rcases h with hop | hop | hop | ⟨hop, hall, hzsa⟩
  · simp [hop, hc.lpnToZone_lbaToLpn]
  · simp [hop, hc.lpnToZone_lbaToLpn]
  · simp [hop, hc.lpnToZone_lbaToLpn]
  · simp [hop, hall, hzsa, sendIndices]

/-- All other commands stay in range, whatever their address. -/
theorem zoneIndices_of_checked (hc : c.Wf) {cmd : NvmeCommand} (h : ¬ cmd.Unchecked) :
    ∀ i ∈ cmd.zoneIndices c, i < c.zp.nrZones := by
  unfold NvmeCommand.zoneIndices
  cases hop : cmd.opcode with
  | write => exact absurd (Or.inl hop) h
  | zoneAppend => exact absurd (Or.inr (Or.inl hop)) h
  | read => exact absurd (Or.inr (Or.inr (Or.inl hop))) h
  | flush | other => nofun
  | zoneMgmtRecv =>
      dsimp only
      split
      · rename_i hsup
        have hle := start_add_nrZoneToReport_le hc hsup.1
        intro i hi
        rcases List.mem_cons.mp hi with rfl | hi
        · exact hsup.1
        · obtain ⟨k, hk, rfl⟩ := List.mem_map.mp hi
          have := List.mem_range.mp hk
          omega
      · nofun
  | zoneMgmtSend =>
      dsimp only
      split
      · intro i hi
        obtain ⟨zid, hzid, hmem⟩ := List.mem_flatMap.mp hi
        exact sendIndices_in_range (hc.zoneToSlba_in_range (List.mem_range.mp hzid)).2 cmd.zsa i hmem
      · rename_i hall
        have hzsa : cmd.zsa = .other := by
          by_contra hne
          exact h (Or.inr (Or.inr (Or.inr ⟨hop, by simpa using hall, hne⟩)))
        rw [hzsa]
        nofun

/-- An index outside the tables stops the handler. -/
theorem znsProcNvmeIoCmd_out_of_range (hc : c.Wf) (L : ZnsLatency τ) (req : NvmevRequest) (h : req.cmd.Unchecked)
    (hz : ¬ lbaToZone c req.cmd.slba.toNat < c.zp.nrZones) (s : ZnsFtl τ) :
    znsProcNvmeIoCmd c L req s = .error .bug := by
  have hassert : nvmevAssert (lbaToZone c req.cmd.slba.toNat < c.zp.nrZones) = .error .bug := if_neg hz
  have hwrite : znsWrite c L req s = .error .bug := by
    rw [znsWrite_eq hc, hassert]
    rfl
  rcases h with hop | hop | hop | ⟨hop, hall, hzsa⟩
  · rw [znsProcNvmeIoCmd_write (Or.inl hop), hwrite]
  · rw [znsProcNvmeIoCmd_write (Or.inr hop), hwrite]
  · unfold znsProcNvmeIoCmd znsRead
    rw [hop]
    dsimp only
    rw [hc.lpnToZone_lbaToLpn, hassert]
    rfl
  · have hsend : zmgmtSend c req.cmd.slba.toNat req.cmd.zsa req.cmd.zsaso s = .error .bug := by
      unfold zmgmtSend
      dsimp only
      rw [hassert]
      cases hz : req.cmd.zsa with
      | other => exact absurd hz hzsa
      | closeZone | finishZone | openZone | resetZone | offlineZone | flushExplZrwa => rfl
    unfold znsProcNvmeIoCmd znsZmgmtSend
    rw [hop]
    dsimp only
    rw [if_neg (by simp [hall]), hsend]
    rfl

/-- **Zone numbers in range.** Every number a command indexes the zone tables with is below `nr_zones`, exactly if
    the command does not take it unchecked from an address that lies, modulo `2^32` zones, outside the namespace.
    If it does, the handler does not return; and a zone report never leaves the table. -/
theorem zone_indices_in_range_iff (hc : c.Wf) (cmd : NvmeCommand) :
    ((∀ i ∈ cmd.zoneIndices c, i < c.zp.nrZones) ↔ (cmd.Unchecked → cmd.OnDevice c)) ∧
      (∀ (L : ZnsLatency τ) (s : ZnsFtl τ) (sqId now : Nat), ¬ (cmd.Unchecked → cmd.OnDevice c) →
        znsProcNvmeIoCmd c L ⟨cmd, sqId, now⟩ s = .error .bug) ∧
      ∀ (s : ZnsFtl τ) (sqId now : Nat), ∃ report,
        znsZmgmtRecvReport c ⟨cmd, sqId, now⟩ s = .ok (znsZmgmtRecv c ⟨cmd, sqId, now⟩, report) := by
  refine ⟨?_, fun L s sqId now hno => ?_, fun s sqId now => znsZmgmtRecvReport_eq hc _ s⟩
  · by_cases hu : cmd.Unchecked
    · rw [zoneIndices_of_unchecked hc hu, lbaToZone_lt_iff hc]
      exact ⟨fun h _ => h, fun h => h hu⟩
    · exact iff_of_true (zoneIndices_of_checked hc hu) fun h => absurd h hu
  · obtain ⟨hu, hoff⟩ := Classical.not_imp.mp hno
    exact znsProcNvmeIoCmd_out_of_range hc L ⟨cmd, sqId, now⟩ hu (mt (lbaToZone_lt_iff hc cmd).mp hoff) s

/-- A read of the last blocks of a device of four zones. -/
theorem zone_indices_last_read :
    (znsCmd .read 16777208 8).OnDevice wdSmall ∧
      ∀ i ∈ (znsCmd .read 16777208 8).zoneIndices wdSmall, i < wdSmall.zp.nrZones := by
  have hon : (znsCmd .read 16777208 8).OnDevice wdSmall := (by decide : 16777208 % (4194304 * 2 ^ 32) < 4 * 4194304)
  exact ⟨hon, (zone_indices_in_range_iff (τ := Unit) wdSmall_below2Tib.toWf (znsCmd .read 16777208 8)).1.mpr fun _ => hon⟩

/-- **A read behind the last block** indexes the descriptor behind the last one. -/
theorem zone_index_out_of_range :
    4 ∈ (znsCmd .read 16777216 8).zoneIndices wdSmall ∧ wdSmall.zp.nrZones = 4 ∧
      znsProcNvmeIoCmd wdSmall .instant ⟨znsCmd .read 16777216 8, 1, 0⟩ (znsInitFtl wdSmall ()) = .error .bug := by
  refine ⟨by decide, by decide, ?_⟩
  rfl

end NvmeVirt
