import NvmeVirt.Zns.Trap

/-!
# `Zns.Addressing` — the address helpers and the zone descriptors

`__init_descriptor` adds up the start addresses of the zones in 64 bits. `zone_to_slba` multiplies in 32 bits,
`zone_to_elba` is the start of the following zone minus one, and `lba_to_zone` narrows the quotient to 32 bits. The
code mixes the two: the test for a full zone, for one, compares the write pointer, which starts at the stored address,
with what `zone_to_slba` says.

`AddressesAgree` says that the helpers and the descriptors tell the same about every zone and every block of the
namespace. They do exactly below 2 TiB: at 2 TiB the last address of the last zone is the first one that is wrong, and
above it the start addresses are, too (`zone_slba_wraps`).
-/

namespace NvmeVirt

/-- The descriptor `__init_descriptor` leaves for a zone. -/
def initDescriptor (c : ZnsConfig) (zid : Nat) : ZoneDescriptor := (znsInitFtl c ()).zoneDescs zid

/-- A block of a namespace of so many bytes. -/
def InCapacity (capacity lba : Nat) : Prop := lba * 512 < capacity

/-- **The helpers agree with the descriptors**, on every zone and every block of the namespace. -/
structure AddressesAgree (c : ZnsConfig) (capacity : Nat) : Prop where
  slba : ∀ zid, zid < c.zp.nrZones → zoneToSlba c zid = (initDescriptor c zid).zslba
  elba : ∀ zid, zid < c.zp.nrZones →
    zoneToElba c zid = (initDescriptor c zid).zslba + (initDescriptor c zid).zoneCapacity - 1
  zone : ∀ zid lba, zid < c.zp.nrZones → InCapacity capacity lba →
    (lbaToZone c lba = zid ↔ (initDescriptor c zid).zslba ≤ lba ∧
      lba < (initDescriptor c zid).zslba + (initDescriptor c zid).zoneCapacity)
  page : ∀ lba, InCapacity capacity lba → lpnToZone c (lbaToLpn c lba) = lbaToZone c lba

section

variable {c : ZnsConfig} {capacity : Nat}

theorem initDescriptor_zslba (hc : c.Wf) (zid : Nat) : (initDescriptor c zid).zslba = zid * c.zoneLbas := by
  rw [hc.zoneLbas_eq]
  rfl

theorem initDescriptor_end (hc : c.Wf) (zid : Nat) :
    (initDescriptor c zid).zslba + (initDescriptor c zid).zoneCapacity = (zid + 1) * c.zoneLbas := by
  rw [initDescriptor_zslba hc, Nat.succ_mul, hc.zoneLbas_eq]
  rfl

/-- A namespace without zones has nothing to disagree about. -/
theorem addressesAgree_of_no_zones (hc : c.Wf) (hn : c.zp.nrZones = 0) : AddressesAgree c capacity where
  slba := by
    intro zid hz
    omega
  elba := by
    intro zid hz
    omega
  zone := by
    intro zid lba hz
    omega
  page := fun lba _ => hc.lpnToZone_lbaToLpn lba

/-- **Below 2 TiB.** -/
theorem addressesAgree_of_below (hc : c.Below2Tib) (hcap : capacity < 2 ^ 41) : AddressesAgree c capacity where
  slba := by
    intro zid hz
    rw [initDescriptor_zslba hc.toWf]
    exact hc.zoneToSlba_eq (Nat.le_of_lt hz)
  elba := by
    intro zid hz
    rw [initDescriptor_end hc.toWf]
    exact hc.zoneToElba_eq hz
  zone := by
    intro zid lba hz hlba
    rw [initDescriptor_end hc.toWf, initDescriptor_zslba hc.toWf]
    unfold InCapacity at hlba
    exact ⟨hc.lbaToZone_range (by omega), fun h => hc.lbaToZone_eq (Nat.le_of_lt hz) h.1 h.2⟩
  page := fun lba _ => hc.lpnToZone_lbaToLpn lba

/-- The last address of the last zone is right only if all addresses fit 32 bits. -/
theorem AddressesAgree.lbas_lt (h : AddressesAgree c capacity) (hc : c.Wf) (hn : 0 < c.zp.nrZones) :
    c.zp.nrZones * c.zoneLbas < 2 ^ 32 := by
  obtain ⟨last, hlast⟩ : ∃ last, c.zp.nrZones = last + 1 := ⟨c.zp.nrZones - 1, by omega⟩
  have helba := h.elba last (by omega)
  rw [initDescriptor_end hc] at helba
  rw [hlast]
  have h32 : u32 (last + 1) = last + 1 := u32_of_lt (hlast ▸ hc.nrZones_lt)
  have hlt : (last + 1) * c.zoneLbas < 2 ^ 55 + 2 ^ 23 := by
    have hstart := hc.zslba_lt (z := last) (by omega)
    have hlbas := hc.zoneLbas_lt
    rw [Nat.succ_mul]
    omega
  have hpos : 0 < (last + 1) * c.zoneLbas := Nat.mul_pos (Nat.succ_pos _) hc.zoneLbas_pos
  unfold zoneToElba at helba
  rw [h32] at helba
  unfold zoneToSlba u32 u64 at helba
  generalize (last + 1) * c.zoneLbas = lbas at helba hlt hpos ⊢
  omega

/-- A block behind `2^32` zones is taken for one of the first zone. -/
theorem AddressesAgree.not_wrapped (h : AddressesAgree c capacity) (hc : c.Wf) (hn : 0 < c.zp.nrZones) :
    ¬ InCapacity capacity (2 ^ 32 * c.zoneLbas) := by
  intro hin
  have hzone : lbaToZone c (2 ^ 32 * c.zoneLbas) = 0 := by
    rw [lbaToZone, Nat.mul_div_cancel _ hc.zoneLbas_pos]
    rfl
  have hrange := ((h.zone 0 _ hn hin).mp hzone).2
  rw [initDescriptor_end hc] at hrange
  have hpos := hc.zoneLbas_pos
  omega

end

/-- **The helpers agree with the descriptors exactly below 2 TiB**, or if `nr_zones` is zero. -/
theorem zone_addresses_agree_iff {t : ZnsTarget} (ht : t.Shipped) (capacity uninit : Nat)
    (hmul : capacity % t.zoneSize = 0) :
    AddressesAgree (znsInitParams t capacity uninit) capacity ↔
      (znsInitParams t capacity uninit).zp.nrZones = 0 ∨ capacity < 2 ^ 41 := by
  have hc := (ht.zrwaOff capacity uninit).toWf
  have hpos := hc.zoneLbas_pos
  have hzones : (znsInitParams t capacity uninit).zp.nrZones = u32 (capacity / t.zoneSize) := rfl
  have hsize : t.zoneSize = 512 * (znsInitParams t capacity uninit).zoneLbas := by
    have hmod : t.zoneSize % 4096 = 0 := hc.zoneSize_mod
    have hlbas : (znsInitParams t capacity uninit).zoneLbas = t.zoneSize / 512 := hc.zoneLbas_eq
    omega
  have hcap : capacity / t.zoneSize * t.zoneSize = capacity := Nat.div_mul_cancel (Nat.dvd_of_mod_eq_zero hmul)
  constructor
  · intro h
    refine (Nat.eq_zero_or_pos _).imp id fun hn => ?_
    -- the number of zones was not narrowed
    have hnarrow : capacity / t.zoneSize < 2 ^ 32 := by
      by_contra hge
      refine h.not_wrapped hc hn ?_
      have hmore : 2 ^ 32 < capacity / t.zoneSize := by
        unfold u32 at hzones
        omega
      have hlt := Nat.mul_lt_mul_of_pos_right hmore (show 0 < t.zoneSize by omega)
      rw [hcap, hsize] at hlt
      unfold InCapacity
      omega
    have hlbas := h.lbas_lt hc hn
    rw [hzones, u32_of_lt hnarrow] at hlbas
    rw [← hcap, hsize, Nat.mul_left_comm, ← hsize]
    omega
  · rintro (hn | hbelow)
    · exact addressesAgree_of_no_zones hc hn
    · refine addressesAgree_of_below ⟨hc, ?_⟩ hbelow
      have hle : u32 (capacity / t.zoneSize) * t.zoneSize ≤ capacity / t.zoneSize * t.zoneSize :=
        Nat.mul_le_mul_right _ (Nat.mod_le _ _)
      rw [hcap] at hle
      exact Nat.lt_of_le_of_lt hle hbelow

/-- Four zones of 2 GiB. -/
theorem zone_addresses_agree_small : AddressesAgree wdSmall (8 * 2 ^ 30) :=
  (zone_addresses_agree_iff (Or.inr rfl) (8 * 2 ^ 30) 0 (by decide)).mpr (Or.inr (by decide))

/-- **Above 2 TiB the start addresses wrap.** On a device of 4 TiB zone 1024 of 2048 starts at block `2^32`, and
    `zone_to_slba` says 0. -/
theorem zone_slba_wraps :
    1024 < (znsInitParams wdZn540 (4 * 2 ^ 40) 0).zp.nrZones ∧
      zoneToSlba (znsInitParams wdZn540 (4 * 2 ^ 40) 0) 1024 = 0 ∧
      (initDescriptor (znsInitParams wdZn540 (4 * 2 ^ 40) 0) 1024).zslba = 2 ^ 32 ∧
      ¬ AddressesAgree (znsInitParams wdZn540 (4 * 2 ^ 40) 0) (4 * 2 ^ 40) := by
  have hz : 1024 < (znsInitParams wdZn540 (4 * 2 ^ 40) 0).zp.nrZones := by decide
  have hslba : zoneToSlba (znsInitParams wdZn540 (4 * 2 ^ 40) 0) 1024 = 0 := by decide
  have hdesc : (initDescriptor (znsInitParams wdZn540 (4 * 2 ^ 40) 0) 1024).zslba = 2 ^ 32 := by decide
  refine ⟨hz, hslba, hdesc, fun h => ?_⟩
  have hagree := h.slba 1024 hz
  rw [hslba, hdesc] at hagree
  cases hagree

end NvmeVirt
