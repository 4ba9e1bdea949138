import NvmeVirt.Nvme.Command

/-!
# `Zns.State` — zones, resources and address arithmetic (`zns_ftl.h`, `zns_ftl.c`)

The state of a zoned namespace: zone descriptors, the three resource counters, the write buffers and the
latency model. Address conversions keep the widths of the C functions: zone numbers and zone start addresses
are computed in 32 bits.

Every access outside a table, NULL buffer, failed assertion and division by zero stops the module; all are
modelled by the fault `bug`.
-/

namespace NvmeVirt

/-! ## Parameters -/

/-- `struct znsparams`, as far as the modelled code reads it -/
structure ZnsParams where
  nrZones : Nat
  diesPerZone : Nat
  zoneSize : Nat
  zoneWbSize : Nat
  zrwaSize : Nat
  zrwaBufferSize : Nat
  lbasPerZrwafg : Nat
  lbasPerZrwa : Nat

/-- What a zoned namespace works with. -/
structure ZnsConfig where
  sp : SsdParams
  zp : ZnsParams
  cellMode : Nat
  /-- What the uninitialised `status` of `__zmgmt_send` holds. -/
  uninit : Nat

/-- `ssd_advance_pcie` besides what the other FTLs use of the latency model. -/
structure ZnsLatency (τ : Type) extends Latency τ where
  /-- `ssd_advance_pcie(ssd, request_time, length)` -/
  advancePcie : τ → Nat → Nat → τ × Nat

/-- A latency model without state or delay. -/
def ZnsLatency.instant : ZnsLatency Unit := { Latency.instant with advancePcie := fun t _ _ => (t, 0) }

/-! ## Status codes -/

/-- `NVME_SC_ZNS_INVALID_ZONE_OPERATION` and the codes that follow it -/
def scZnsInvalidZoneOperation : Nat := 0x1b6

@[inherit_doc scZnsInvalidZoneOperation] def scZnsZrwaRsrcUnavail : Nat := 0x1b7

@[inherit_doc scZnsInvalidZoneOperation] def scZnsErrBoundary : Nat := 0x1b8

@[inherit_doc scZnsInvalidZoneOperation] def scZnsErrFull : Nat := 0x1b9

@[inherit_doc scZnsInvalidZoneOperation] def scZnsErrReadOnly : Nat := 0x1ba

@[inherit_doc scZnsInvalidZoneOperation] def scZnsErrOffline : Nat := 0x1bb

@[inherit_doc scZnsInvalidZoneOperation] def scZnsInvalidWrite : Nat := 0x1bc

@[inherit_doc scZnsInvalidZoneOperation] def scZnsNoActiveZone : Nat := 0x1bd

@[inherit_doc scZnsInvalidZoneOperation] def scZnsNoOpenZone : Nat := 0x1be

@[inherit_doc scZnsInvalidZoneOperation] def scZnsInvalidTransition : Nat := 0x1bf

/-! ## State -/

/-- `enum zone_state` -/
inductive ZoneState where
  | empty | openedImpl | openedExpl | closed | readOnly | full | offline
deriving DecidableEq, Repr

/-- `struct zone_descriptor` -/
structure ZoneDescriptor where
  state : ZoneState
  zrwav : Bool
  zoneCapacity : Nat
  zslba : Nat
  wp : Nat
deriving DecidableEq, Repr

/-- `enum zone_resource_type` -/
inductive ZoneResource where
  | activeZone | openZone | zrwaZone
deriving DecidableEq, Repr

/-- `struct zone_resource_info` -/
structure ZoneResourceInfo where
  acquiredCnt : Nat
  totalCnt : Nat
deriving DecidableEq, Repr

/-- `zone_descs` and `res_infos` -/
structure ZoneTable where
  zoneDescs : Nat → ZoneDescriptor
  resInfos : ZoneResource → ZoneResourceInfo

/-- `struct zns_ftl` with the global write buffer of its SSD -/
structure ZnsFtl (τ : Type) extends ZoneTable where
  writeBuffer : Buffer
  zoneWriteBuffer : Nat → Buffer
  zrwaBuffer : Nat → Buffer
  tm : τ

variable {τ : Type}

/-- Which buffer a `struct buffer *` points to. -/
inductive BufferId where
  | global
  | zone (zid : Nat)
  | zrwa (zid : Nat)
deriving DecidableEq, Repr

def ZnsFtl.buf (s : ZnsFtl τ) : BufferId → Buffer
  | .global => s.writeBuffer
  | .zone zid => s.zoneWriteBuffer zid
  | .zrwa zid => s.zrwaBuffer zid

def ZnsFtl.setBuf (s : ZnsFtl τ) (id : BufferId) (b : Buffer) : ZnsFtl τ :=
  match id with
  | .global => { s with writeBuffer := b }
  | .zone zid => { s with zoneWriteBuffer := Function.update s.zoneWriteBuffer zid b }
  | .zrwa zid => { s with zrwaBuffer := Function.update s.zrwaBuffer zid b }

theorem ZnsFtl.buf_setBuf_self (s : ZnsFtl τ) (id : BufferId) (b : Buffer) : (s.setBuf id b).buf id = b := by
  cases id <;> simp [setBuf, buf]

theorem ZnsFtl.buf_setBuf_of_ne (s : ZnsFtl τ) {id id' : BufferId} (b : Buffer) (h : id' ≠ id) :
    (s.setBuf id b).buf id' = s.buf id' := by
  cases id <;> cases id' <;> simp_all [setBuf, buf]

@[simp] theorem ZnsFtl.setBuf_toZoneTable (s : ZnsFtl τ) (id : BufferId) (b : Buffer) :
    (s.setBuf id b).toZoneTable = s.toZoneTable := by
  cases id <;> rfl

/-- The zone descriptor as a lens. -/
def ZnsFtl.setDesc (s : ZnsFtl τ) (zid : Nat) (d : ZoneDescriptor) : ZnsFtl τ :=
  { s with zoneDescs := Function.update s.zoneDescs zid d }

/-- `is_zone_resource_avail` -/
def isZoneResourceAvail (s : ZnsFtl τ) (r : ZoneResource) : Prop :=
  (s.resInfos r).acquiredCnt < (s.resInfos r).totalCnt

/-- `is_zone_resource_full` -/
def isZoneResourceFull (s : ZnsFtl τ) (r : ZoneResource) : Prop :=
  (s.resInfos r).acquiredCnt = (s.resInfos r).totalCnt

instance (s : ZnsFtl τ) (r : ZoneResource) : Decidable (isZoneResourceAvail s r) :=
  inferInstanceAs (Decidable (_ < _))

instance (s : ZnsFtl τ) (r : ZoneResource) : Decidable (isZoneResourceFull s r) :=
  inferInstanceAs (Decidable (_ = _))

def ZnsFtl.setAcquired (s : ZnsFtl τ) (r : ZoneResource) (n : Nat) : ZnsFtl τ :=
  { s with resInfos := Function.update s.resInfos r { s.resInfos r with acquiredCnt := n } }

/-- `acquire_zone_resource` -/
def acquireZoneResource (r : ZoneResource) (s : ZnsFtl τ) : Bool × ZnsFtl τ :=
  if isZoneResourceAvail s r then (true, s.setAcquired r ((s.resInfos r).acquiredCnt + 1)) else (false, s)

/-- `release_zone_resource`; `ASSERT` is empty. -/
def releaseZoneResource (r : ZoneResource) (s : ZnsFtl τ) : ZnsFtl τ :=
  s.setAcquired r (u32Dec (s.resInfos r).acquiredCnt)

/-- `change_zone_state` -/
def changeZoneState (zid : Nat) (state : ZoneState) (s : ZnsFtl τ) : ZnsFtl τ :=
  s.setDesc zid { s.zoneDescs zid with state := state }

/-! ## Addresses -/

variable (c : ZnsConfig)

/-- `zone_size / secsz` -/
def ZnsConfig.zoneLbas : Nat := c.zp.zoneSize / c.sp.secsz

/-- `zone_size / pgsz` -/
def ZnsConfig.zonePgs : Nat := c.zp.zoneSize / c.sp.pgsz

/-- `lba_to_zone` -/
def lbaToZone (lba : Nat) : Nat := u32 (lba / c.zoneLbas)

/-- `lpn_to_zone` -/
def lpnToZone (lpn : Nat) : Nat := u32 (lpn / c.zonePgs)

/-- `zone_to_slba`: the product is computed in 32 bits. -/
def zoneToSlba (zid : Nat) : Nat := u32 (zid * c.zoneLbas)

/-- `zone_to_slpn` -/
def zoneToSlpn (zid : Nat) : Nat := u32 (zid * c.zonePgs)

/-- `zone_to_elba` -/
def zoneToElba (zid : Nat) : Nat := u64 (zoneToSlba c (u32 (zid + 1)) + (2 ^ 64 - 1))

/-- `zone_to_elpn` -/
def zoneToElpn (zid : Nat) : Nat := zoneToElba c zid / c.sp.secsPerPg

/-- `lba_to_lpn` -/
def lbaToLpn (lba : Nat) : Nat := lba / c.sp.secsPerPg

/-- `LBA_TO_BYTE`; every ZNS target has `LBA_BITS` 9. -/
def lbaToByte (lba : Nat) : Nat := lba * 2 ^ 9

/-! ## Initialisation -/

/-- `__init_descriptor`, `__init_resource`; `tm` is the latency model `ssd_init` left. -/
def znsInitFtl (tm : τ) : ZnsFtl τ where
  zoneDescs := fun zid => ⟨.empty, false, c.zp.zoneSize / 2 ^ 9, zid * (c.zp.zoneSize / 2 ^ 9),
    zid * (c.zp.zoneSize / 2 ^ 9)⟩
  resInfos := fun _ => ⟨0, c.zp.nrZones⟩
  writeBuffer := bufferInit c.sp.writeBufferSize
  zoneWriteBuffer := fun _ => bufferInit c.zp.zoneWbSize
  zrwaBuffer := fun _ => bufferInit c.zp.zrwaBufferSize
  tm := tm

/-- The build constants of a zoned target besides those of `SsdConfig`. -/
structure ZnsTarget where
  ssd : SsdConfig
  cellMode : Nat
  diesPerZone : Nat
  zoneSize : Nat
  zoneWbSize : Nat
  zrwafgSize : Nat
  zrwaSize : Nat
  zrwaBufferSize : Nat

/-- `zns_init_params`, and `ssd_init_params` before it -/
def znsInitParams (t : ZnsTarget) (capacity uninit : Nat) : ZnsConfig :=
  let sp := ssdInitParams t.ssd capacity 1
  { sp := sp
    zp :=
      { nrZones := u32 (capacity / t.zoneSize)
        diesPerZone := t.diesPerZone
        zoneSize := t.zoneSize
        zoneWbSize := t.zoneWbSize
        zrwaSize := t.zrwaSize
        zrwaBufferSize := t.zrwaBufferSize
        lbasPerZrwafg := t.zrwafgSize / sp.secsz
        lbasPerZrwa := t.zrwaSize / sp.secsz }
    cellMode := t.cellMode
    uninit := uninit }

/-- `BASE_SSD == WD_ZN540` -/
def wdZn540 : ZnsTarget where
  ssd :=
    { lbaBits := 9
      ssdPartitions := 1
      nandChannels := 8
      lunsPerNandCh := 4
      plnsPerLun := 1
      flashPageSize := 32 * 2 ^ 10
      oneshotPageSize := 32 * 2 ^ 10 * 3
      blksPerPln := 0
      blkSize := 2 * 2 ^ 30 / (8 * 4)
      writeUnitSize := 512
      globalWbSize := 0
      writeEarlyCompletion := true
      fw4kbReadLatency := 20000
      fwReadLatency := 13000
      pbaPcent := 100 }
  cellMode := 3
  diesPerZone := 8 * 4
  zoneSize := 2 * 2 ^ 30
  zoneWbSize := 10 * (32 * 2 ^ 10 * 3)
  zrwafgSize := 0
  zrwaSize := 0
  zrwaBufferSize := 0

/-- `BASE_SSD == ZNS_PROTOTYPE` -/
def znsPrototype : ZnsTarget where
  ssd :=
    { lbaBits := 9
      ssdPartitions := 1
      nandChannels := 8
      lunsPerNandCh := 16
      plnsPerLun := 1
      flashPageSize := 64 * 2 ^ 10
      oneshotPageSize := 64 * 2 ^ 10 * 2
      blksPerPln := 0
      blkSize := 32 * 2 ^ 20
      writeUnitSize := 64 * 2 ^ 10 * 2
      globalWbSize := 8 * 16 * (64 * 2 ^ 10 * 2) * 2
      writeEarlyCompletion := false
      fw4kbReadLatency := 37540 - 7390 + 2000
      fwReadLatency := 37540 - 7390 + 2000
      pbaPcent := 100 }
  cellMode := 3
  diesPerZone := 1
  zoneSize := 32 * 2 ^ 20
  zoneWbSize := 0
  zrwafgSize := 0
  zrwaSize := 0
  zrwaBufferSize := 0

/-- **A consistent zoned namespace**: the assertions of `zns_init_params`, the block sizes, and the widths of
    `struct znsparams`. -/
structure ZnsConfig.Wf : Prop where
  secsz_eq : c.sp.secsz = 512
  secsPerPg_eq : c.sp.secsPerPg = 8
  pgsz_eq : c.sp.pgsz = 4096
  pgsPerOneshotpg_pos : 0 < c.sp.pgsPerOneshotpg
  pgsPerOneshotpg_le : c.sp.pgsPerOneshotpg ≤ 2 ^ pageBits
  zoneSize_pos : 0 < c.zp.zoneSize
  zoneSize_lt : c.zp.zoneSize < 2 ^ 32
  zoneSize_mod : c.zp.zoneSize % 4096 = 0
  nrZones_lt : c.zp.nrZones < 2 ^ 32
  zoneWbSize_lt : c.zp.zoneWbSize < 2 ^ 32
  lbasPerZrwa_lt : c.zp.lbasPerZrwa < 2 ^ 23

/-- The start addresses of all zones fit the 32 bits `zone_to_slba` computes in. -/
structure ZnsConfig.Below2Tib : Prop extends c.Wf where
  below_2tib : c.zp.nrZones * c.zp.zoneSize < 2 ^ 41

namespace ZnsConfig.Wf

variable {c} (hc : c.Wf)
include hc

theorem zoneLbas_eq : c.zoneLbas = c.zp.zoneSize / 512 := by rw [zoneLbas, hc.secsz_eq]

theorem zonePgs_eq : c.zonePgs = c.zp.zoneSize / 4096 := by rw [zonePgs, hc.pgsz_eq]

/-- A zone is a whole number of pages of eight blocks. -/
theorem zoneLbas_eq_mul : c.zoneLbas = 8 * c.zonePgs := by
  rw [hc.zoneLbas_eq, hc.zonePgs_eq]
  have := hc.zoneSize_mod
  omega

theorem zoneSize_eq_mul : c.zp.zoneSize = 4096 * c.zonePgs := by
  rw [hc.zonePgs_eq]
  have := hc.zoneSize_mod
  omega

theorem zonePgs_pos : 0 < c.zonePgs := by
  have := hc.zoneSize_eq_mul
  have := hc.zoneSize_pos
  omega

theorem zoneLbas_pos : 0 < c.zoneLbas := by
  rw [hc.zoneLbas_eq_mul]
  exact Nat.mul_pos (by decide) hc.zonePgs_pos

theorem zoneLbas_lt : c.zoneLbas < 2 ^ 23 := by
  rw [hc.zoneLbas_eq]
  have := hc.zoneSize_lt
  omega

/-- Zone start addresses fit 64 bits, whatever the size of the device. -/
theorem zslba_lt {z : Nat} (hz : z < c.zp.nrZones) : z * c.zoneLbas < 2 ^ 55 := by
  have h32 : z < 2 ^ 32 := Nat.lt_trans hz hc.nrZones_lt
  calc z * c.zoneLbas ≤ z * 2 ^ 23 := Nat.mul_le_mul_left z (Nat.le_of_lt hc.zoneLbas_lt)
    _ < 2 ^ 32 * 2 ^ 23 := Nat.mul_lt_mul_of_pos_right h32 (by decide)

/-- An LBA lies in the zone whose range contains it. -/
theorem lbaToZone_eq {z lba : Nat} (hz : z ≤ c.zp.nrZones) (h1 : z * c.zoneLbas ≤ lba)
    (h2 : lba < (z + 1) * c.zoneLbas) : lbaToZone c lba = z := by
  have hdiv : lba / c.zoneLbas = z := Nat.div_eq_of_lt_le h1 h2
  rw [lbaToZone, hdiv]
  exact u32_of_lt (Nat.lt_of_le_of_lt hz hc.nrZones_lt)

/-- The range of the zone of an LBA that is not so far behind the zone that its zone number wraps. -/
theorem lbaToZone_range_near {z lba : Nat} (hlba : lba < (z + 2 ^ 32) * c.zoneLbas) (h : lbaToZone c lba = z) :
    z * c.zoneLbas ≤ lba ∧ lba < (z + 1) * c.zoneLbas := by
  have hdiv : lba / c.zoneLbas < z + 2 ^ 32 := (Nat.div_lt_iff_lt_mul hc.zoneLbas_pos).mpr hlba
  have hz : lba / c.zoneLbas = z := by
    unfold lbaToZone u32 at h
    generalize lba / c.zoneLbas = q at h hdiv ⊢
    omega
  subst hz
  refine ⟨Nat.div_mul_le_self _ _, ?_⟩
  rw [Nat.mul_comm]
  exact Nat.lt_mul_div_succ _ hc.zoneLbas_pos

/-- Zone numbers do not wrap below `2^35`. -/
theorem lbaToZone_range {z lba : Nat} (hlba : lba < 2 ^ 35) (h : lbaToZone c lba = z) :
    z * c.zoneLbas ≤ lba ∧ lba < (z + 1) * c.zoneLbas := by
  refine hc.lbaToZone_range_near ?_ h
  have hpgs := hc.zonePgs_pos
  have hmul := hc.zoneLbas_eq_mul
  rw [Nat.add_mul]
  omega

omit hc in
/-- `zone_to_slba` is right or at least `2^32` too low. -/
theorem zoneToSlba_cases (z : Nat) :
    zoneToSlba c z = z * c.zoneLbas ∨ zoneToSlba c z + 2 ^ 32 ≤ z * c.zoneLbas := by
  unfold zoneToSlba u32
  omega

/-- If `zone_to_elba` is in the zone, it is its last block, and `zone_to_slba` is right. -/
theorem zoneToElba_of_in_zone {z : Nat} (hz : z < c.zp.nrZones) (h1 : z * c.zoneLbas ≤ zoneToElba c z)
    (h2 : zoneToElba c z < (z + 1) * c.zoneLbas) :
    zoneToElba c z + 1 = (z + 1) * c.zoneLbas ∧ zoneToSlba c z = z * c.zoneLbas := by
  have hlt := hc.zslba_lt hz
  have hzl := hc.zoneLbas_lt
  have hnext := zoneToSlba_cases (c := c) (z + 1)
  have hthis := zoneToSlba_cases (c := c) z
  have hslt : zoneToSlba c (z + 1) < 2 ^ 32 := Nat.mod_lt _ (by decide)
  have hsucc : u32 (z + 1) = z + 1 := u32_of_lt (Nat.lt_of_le_of_lt hz hc.nrZones_lt)
  unfold zoneToElba u64 at h1 h2 ⊢
  rw [hsucc] at h1 h2 ⊢
  rw [Nat.succ_mul] at h2 hnext ⊢
  omega

/-- Blocks and pages lie in the same zone. -/
theorem lpnToZone_lbaToLpn (lba : Nat) : lpnToZone c (lbaToLpn c lba) = lbaToZone c lba := by
  rw [lpnToZone, lbaToLpn, lbaToZone, hc.secsPerPg_eq, Nat.div_div_eq_div_mul, ← hc.zoneLbas_eq_mul]

end ZnsConfig.Wf

namespace ZnsConfig.Below2Tib

variable {c} (hc : c.Below2Tib)
include hc

/-- All LBAs of the device are below `2^32`. -/
theorem lbas_lt : c.zp.nrZones * c.zoneLbas < 2 ^ 32 := by
  have hsize : c.zp.zoneSize = c.zoneLbas * 512 := by
    rw [hc.zoneLbas_eq]
    have := hc.zoneSize_mod
    omega
  have h := hc.below_2tib
  rw [hsize, ← Nat.mul_assoc] at h
  omega

theorem zone_end_lt {z : Nat} (hz : z < c.zp.nrZones) : (z + 1) * c.zoneLbas < 2 ^ 32 :=
  Nat.lt_of_le_of_lt (Nat.mul_le_mul_right _ hz) hc.lbas_lt

theorem zoneToSlba_eq {z : Nat} (hz : z ≤ c.zp.nrZones) : zoneToSlba c z = z * c.zoneLbas :=
  u32_of_lt (Nat.lt_of_le_of_lt (Nat.mul_le_mul_right _ hz) hc.lbas_lt)

theorem zoneToElba_eq {z : Nat} (hz : z < c.zp.nrZones) : zoneToElba c z = (z + 1) * c.zoneLbas - 1 := by
  have hpos : 0 < (z + 1) * c.zoneLbas := Nat.mul_pos (Nat.succ_pos _) hc.zoneLbas_pos
  have hlt := hc.zone_end_lt hz
  rw [zoneToElba, u32_of_lt (Nat.lt_of_le_of_lt hz hc.nrZones_lt), hc.zoneToSlba_eq hz, u64]
  show ((z + 1) * c.zoneLbas + (2 ^ 64 - 1)) % 2 ^ 64 = _
  omega

end ZnsConfig.Below2Tib

end NvmeVirt
