import NvmeVirt.Ftl.Traversal
import NvmeVirt.Fdp.Range

/-!
# `Fdp.Addresses` — the geometry of a capacity and the bit-fields of `struct ppa`

`ssd_init_params` derives the pages of a block from the capacity by two round-ups, while `struct ppa` numbers
them in 16 bits. `FaithfulAddresses` is what the FTL relies on: the pages of the partitions hold the capacity,
`get_new_page` hands out the coordinates of its write pointer, and `ppa2pgidx` tells pages apart. It holds for a
capacity exactly as long as a partition is not larger than the bytes its addresses can name, 128 GiB on the FDP
target and 8 TiB on the 970 PRO, whatever the integer conversions of `ssd_init_params` make of a larger one.
-/

namespace NvmeVirt

open Outcome

variable {c : SsdConfig} {capacity nparts : Nat}

/-! ## What the addresses have to do -/

/-- **Faithful addresses** of the parameters `ssd_init_params` computes for a capacity. -/
structure FaithfulAddresses (c : SsdConfig) (capacity nparts : Nat) : Prop where
  holds_capacity : capacity / nparts * nparts ≤
    (ssdInitParams c capacity nparts).ttPgs * nparts * (ssdInitParams c capacity nparts).pgsz
  /-- every position of a write pointer is read back from the address `get_new_page` makes of it -/
  new_page : ∀ (τ : Type) (cfg : FtlConfig) (io : IoType) (ruh : Nat) (s : Part τ) (wp : WritePointer),
    cfg.sp = ssdInitParams c capacity nparts → getWp cfg io ruh s = .ok wp → wp.Wf cfg.sp →
      wp.curline < cfg.sp.ttLines → getNewPage cfg io ruh s = .ok wp.ppa
  index_lt : ∀ (cfg : FtlConfig) (p : Ppa), cfg.sp = ssdInitParams c capacity nparts → validPpa cfg.sp p →
    ∃ i < cfg.sp.ttPgs, ppa2pgidx cfg p = .ok i
  index_inj : ∀ (cfg : FtlConfig) (p q : Ppa), cfg.sp = ssdInitParams c capacity nparts → validPpa cfg.sp p →
    validPpa cfg.sp q → ppa2pgidx cfg p = ppa2pgidx cfg q → p = q

/-- Bytes of a partition that an address can name. -/
def SsdConfig.addressableBytes (c : SsdConfig) (nparts : Nat) : Nat :=
  2 ^ pageBits * (c.lbaSize * (4096 / c.lbaSize)) *
    (c.blksPerPln * c.plnsPerLun * c.lunsPerNandCh * (c.nandChannels / nparts))

/-- What the argument needs of a target beyond the assertions of `ssd_init_params`: the page field numbers
    whole wordlines, and as many pages as it can number in every block of a plane fit an `int`. -/
structure SsdConfig.Numbered (c : SsdConfig) (nparts : Nat) : Prop extends c.Sound nparts where
  oneshot_dvd : c.oneshotPageSize ∣ 2 ^ pageBits * (c.lbaSize * (4096 / c.lbaSize))
  plane_lt : 2 ^ pageBits * c.blksPerPln < 2 ^ 31

theorem SsdConfig.Sound.nchs_pos (hc : c.Sound nparts) : 0 < c.nandChannels / nparts :=
  Nat.div_pos (Nat.le_of_dvd hc.nandChannels_pos (Nat.dvd_of_mod_eq_zero hc.nchs_mod)) hc.nparts_pos

theorem SsdConfig.Sound.blocks_pos (hc : c.Sound nparts) :
    0 < c.blksPerPln * c.plnsPerLun * c.lunsPerNandCh * (c.nandChannels / nparts) := by
  rw [hc.plnsPerLun_eq, Nat.mul_one]
  exact Nat.mul_pos (Nat.mul_pos hc.blksPerPln_pos hc.lunsPerNandCh_pos) hc.nchs_pos

theorem blksPerPl_ssdInitParams (hc : c.Sound nparts) : (ssdInitParams c capacity nparts).blksPerPl = c.blksPerPln :=
  if_pos hc.blksPerPln_pos

/-! ## Partitions whose addresses suffice -/

/-- Partitions that fit `n` pages per block get no more. -/
theorem pgsPerBlkOf_le {n : Nat} (hc : c.Sound nparts) (hn : c.oneshotPageSize ∣ n * (c.lbaSize * (4096 / c.lbaSize)))
    (h : capacity / nparts ≤ n * (c.lbaSize * (4096 / c.lbaSize)) *
      (c.blksPerPln * c.plnsPerLun * c.lunsPerNandCh * (c.nandChannels / nparts))) :
    c.pgsPerBlkOf capacity nparts ≤ n := by
  have hmod : c.oneshotPageSize / (c.lbaSize * (4096 / c.lbaSize)) * (c.lbaSize * (4096 / c.lbaSize)) =
      c.oneshotPageSize := Nat.div_mul_cancel (Nat.dvd_of_mod_eq_zero hc.oneshot_mod)
  obtain ⟨k, hk⟩ := hn
  have hblk : divRoundUp (capacity / nparts)
      (c.blksPerPln * c.plnsPerLun * c.lunsPerNandCh * (c.nandChannels / nparts)) ≤ c.oneshotPageSize * k := by
    refine divRoundUp_le_of_le_mul hc.blocks_pos ?_
    rw [← hk, Nat.mul_comm]
    exact h
  -- a wordline holds `pgs_per_oneshotpg` pages, so `k` wordlines are the `n` pages
  have hpages : c.oneshotPageSize / (c.lbaSize * (4096 / c.lbaSize)) * k = n := by
    refine Nat.eq_of_mul_eq_mul_right hc.pgsz_pos ?_
    rw [Nat.mul_right_comm, hmod, hk]
  calc c.pgsPerBlkOf capacity nparts
      ≤ c.oneshotPageSize / (c.lbaSize * (4096 / c.lbaSize)) * k :=
        Nat.mul_le_mul_left _ (divRoundUp_le_of_le_mul hc.oneshot_pos hblk)
    _ = n := hpages

/-- The blocks hold the partition. -/
theorem capacity_le_blocks (hc : c.Sound nparts) :
    capacity / nparts ≤ c.pgsPerBlkOf capacity nparts * (c.lbaSize * (4096 / c.lbaSize)) *
      (c.blksPerPln * c.plnsPerLun * c.lunsPerNandCh * (c.nandChannels / nparts)) := by
  have hmod : c.oneshotPageSize / (c.lbaSize * (4096 / c.lbaSize)) * (c.lbaSize * (4096 / c.lbaSize)) =
      c.oneshotPageSize := Nat.div_mul_cancel (Nat.dvd_of_mod_eq_zero hc.oneshot_mod)
  rw [SsdConfig.pgsPerBlkOf, Nat.mul_right_comm _ _ (c.lbaSize * _), hmod]
  calc capacity / nparts
      ≤ divRoundUp (capacity / nparts) _ * _ := le_mul_divRoundUp hc.blocks_pos
    _ ≤ divRoundUp (divRoundUp (capacity / nparts) _) c.oneshotPageSize * c.oneshotPageSize * _ :=
        Nat.mul_le_mul_right _ (le_mul_divRoundUp hc.oneshot_pos)
    _ = _ := by rw [Nat.mul_comm c.oneshotPageSize]

/-- No page is lost to the conversions as long as the pages of a block fit an `int`. -/
theorem pgsPerBlk_eq_pgsPerBlkOf (hc : c.Sound nparts) (h : c.pgsPerBlkOf capacity nparts < 2 ^ 31) :
    (ssdInitParams c capacity nparts).pgsPerBlk = c.pgsPerBlkOf capacity nparts := by
  have hos : 0 < c.oneshotPageSize / (c.lbaSize * (4096 / c.lbaSize)) :=
    Nat.div_pos (Nat.le_of_dvd hc.oneshot_pos (Nat.dvd_of_mod_eq_zero hc.oneshot_mod)) hc.pgsz_pos
  have hopb := lt_of_le_of_lt (Nat.le_mul_of_pos_left _ hos) h
  unfold ssdInitParams
  simp only [hc.blksPerPln_pos, if_true]
  rw [i32_of_lt hopb]
  exact i32_of_lt h

theorem pgsPerBlkOf_le_field (hc : c.Numbered nparts) (h : capacity / nparts ≤ c.addressableBytes nparts) :
    c.pgsPerBlkOf capacity nparts ≤ 2 ^ pageBits := pgsPerBlkOf_le hc.toSound hc.oneshot_dvd h

theorem geometry_of_addressable (hc : c.Numbered nparts) (hpos : 0 < capacity / nparts)
    (h : capacity / nparts ≤ c.addressableBytes nparts) : Geometry (ssdInitParams c capacity nparts) := by
  have hfit := pgsPerBlkOf_le_field hc h
  exact geometry_of_fit hc.toSound hpos hfit (lt_of_le_of_lt (Nat.mul_le_mul_right _ hfit) hc.plane_lt)

/-- The pages of a geometry hold the capacity it was derived from. -/
theorem capacity_le_pages (hc : c.Numbered nparts) (hpos : 0 < capacity / nparts)
    (h : capacity / nparts ≤ c.addressableBytes nparts) :
    capacity / nparts ≤ (ssdInitParams c capacity nparts).ttPgs * (c.lbaSize * (4096 / c.lbaSize)) := by
  have hg := geometry_of_addressable hc hpos h
  have hint := lt_of_le_of_lt (pgsPerBlkOf_le_field hc h) (show 2 ^ pageBits < 2 ^ 31 by decide)
  have hplane : (ssdInitParams c capacity nparts).plsPerLun = c.plnsPerLun := rfl
  have hlun : (ssdInitParams c capacity nparts).lunsPerCh = c.lunsPerNandCh := rfl
  have hch : (ssdInitParams c capacity nparts).nchs = c.nandChannels / nparts := rfl
  rw [hg.ttPgs_eq, hg.pgsPerCh_eq, hg.pgsPerLun_eq, hg.pgsPerPl_eq, pgsPerBlk_eq_pgsPerBlkOf hc.toSound hint,
    blksPerPl_ssdInitParams hc.toSound, hplane, hlun, hch]
  refine (capacity_le_blocks hc.toSound).trans (Nat.le_of_eq ?_)
  ring

/-- A partition of less than a byte has no page, hence no coordinates. -/
theorem pgsPerBlk_eq_zero (hc : c.Sound nparts) (h : capacity / nparts = 0) :
    (ssdInitParams c capacity nparts).pgsPerBlk = 0 := by
  have hblk : divRoundUp 0 (c.blksPerPln * c.plnsPerLun * c.lunsPerNandCh * (c.nandChannels / nparts)) = 0 :=
    Nat.div_eq_of_lt (by have := hc.blocks_pos; omega)
  have hopb : divRoundUp 0 c.oneshotPageSize = 0 := Nat.div_eq_of_lt (by have := hc.oneshot_pos; omega)
  unfold ssdInitParams
  simp only [hc.blksPerPln_pos, if_true]
  rw [h, hblk, hopb]
  rfl

theorem ttPgs_eq_zero (hc : c.Sound nparts) (h : capacity / nparts = 0) :
    (ssdInitParams c capacity nparts).ttPgs = 0 := by
  show u64 (u64 (u64 (ulongOfInt (i32 ((ssdInitParams c capacity nparts).pgsPerBlk *
    (ssdInitParams c capacity nparts).blksPerPl)) * c.plnsPerLun) * c.lunsPerNandCh) * (c.nandChannels / nparts)) = 0
  rw [pgsPerBlk_eq_zero hc h]
  simp [i32, ulongOfInt, u64]

theorem faithful_of_le (hc : c.Numbered nparts) (h : capacity / nparts ≤ c.addressableBytes nparts) :
    FaithfulAddresses c capacity nparts := by
  rcases Nat.eq_zero_or_pos (capacity / nparts) with hzero | hpos
  · have hpgs := pgsPerBlk_eq_zero hc.toSound hzero
    have hnone : ∀ (cfg : FtlConfig) (p : Ppa), cfg.sp = ssdInitParams c capacity nparts → ¬ validPpa cfg.sp p := by
      intro cfg p hsp hp
      have hpg := hp.2.2.2.2
      rw [hsp, hpgs] at hpg
      exact Nat.not_lt_zero _ hpg
    refine ⟨by rw [hzero, Nat.zero_mul]; exact Nat.zero_le _, ?_, fun cfg p hsp hp => absurd hp (hnone cfg p hsp),
      fun cfg p _ hsp hp => absurd hp (hnone cfg p hsp)⟩
    intro _ cfg _ _ _ wp hsp _ hwf
    have hpg := hwf.pg_lt
    rw [hsp, hpgs] at hpg
    exact absurd hpg (Nat.not_lt_zero _)
  · have hg := geometry_of_addressable hc hpos h
    refine ⟨?_, ?_, ?_, ?_⟩
    · calc capacity / nparts * nparts
          ≤ (ssdInitParams c capacity nparts).ttPgs * (c.lbaSize * (4096 / c.lbaSize)) * nparts :=
            Nat.mul_le_mul_right _ (capacity_le_pages hc hpos h)
        _ = _ := Nat.mul_right_comm ..
    · intro _ cfg io ruh s wp hsp hget hwf hline
      rw [getNewPage_of_getWp hget hwf.pl_eq, hwf.cut_eq]
      rw [hsp] at hline ⊢
      exact ⟨hg.pgsPerBlk_le, hg.lunsPerCh_le, hg.nchs_le, hline.trans_le (hg.ttLines_eq ▸ hg.blksPerPl_le)⟩
    · intro cfg p hsp hp
      rw [← hsp] at hg
      exact ⟨pgidx cfg.sp p, pgidx_lt hg hp, ppa2pgidx_of_valid hg hp⟩
    · intro cfg p q hsp hp hq heq
      rw [← hsp] at hg
      rw [ppa2pgidx_of_valid hg hp, ppa2pgidx_of_valid hg hq] at heq
      exact pgidx_inj hg hp hq (Except.ok.inj heq)

/-! ## Partitions with more bytes than addresses -/

/-- Where the page field numbers the pages of a block, the partition has no more pages than addresses. -/
theorem ttPgs_le (hc : c.Numbered nparts) (h : (ssdInitParams c capacity nparts).pgsPerBlk ≤ 2 ^ pageBits) :
    (ssdInitParams c capacity nparts).ttPgs ≤
      2 ^ pageBits * (c.blksPerPln * c.plnsPerLun * c.lunsPerNandCh * (c.nandChannels / nparts)) := by
  have hlt : (ssdInitParams c capacity nparts).pgsPerBlk * c.blksPerPln < 2 ^ 31 :=
    lt_of_le_of_lt (Nat.mul_le_mul_right _ h) hc.plane_lt
  have hplane : (ssdInitParams c capacity nparts).pgsPerPl ≤ 2 ^ pageBits * c.blksPerPln := by
    show ulongOfInt (i32 ((ssdInitParams c capacity nparts).pgsPerBlk * (ssdInitParams c capacity nparts).blksPerPl)) ≤ _
    rw [blksPerPl_ssdInitParams hc.toSound, i32_of_lt hlt, ulongOfInt_of_lt hlt]
    exact Nat.mul_le_mul_right _ h
  -- the conversions to `unsigned long` never make a product larger
  calc (ssdInitParams c capacity nparts).ttPgs
      ≤ (ssdInitParams c capacity nparts).pgsPerCh * (c.nandChannels / nparts) := Nat.mod_le _ _
    _ ≤ (ssdInitParams c capacity nparts).pgsPerLun * c.lunsPerNandCh * (c.nandChannels / nparts) :=
        Nat.mul_le_mul_right _ (Nat.mod_le _ _)
    _ ≤ (ssdInitParams c capacity nparts).pgsPerPl * c.plnsPerLun * c.lunsPerNandCh * (c.nandChannels / nparts) :=
        Nat.mul_le_mul_right _ (Nat.mul_le_mul_right _ (Nat.mod_le _ _))
    _ ≤ 2 ^ pageBits * c.blksPerPln * c.plnsPerLun * c.lunsPerNandCh * (c.nandChannels / nparts) :=
        Nat.mul_le_mul_right _ (Nat.mul_le_mul_right _ (Nat.mul_le_mul_right _ hplane))
    _ = _ := by simp only [Nat.mul_assoc]

/-- The write pointer at the first page the page field cannot number. -/
def WritePointer.pastField : WritePointer := ⟨0, 0, 0, 2 ^ pageBits, 0, 0⟩

/-- A block with more pages than the field can number has a page that is handed out as page 0. -/
theorem FaithfulAddresses.pgsPerBlk_le (hc : c.Sound nparts) (hf : FaithfulAddresses c capacity nparts) :
    (ssdInitParams c capacity nparts).pgsPerBlk ≤ 2 ^ pageBits := by
  by_contra hlong
  have hlines : 0 < (ssdInitParams c capacity nparts).ttLines := by
    show 0 < ulongOfInt (i32 ((ssdInitParams c capacity nparts).blksPerPl * c.plnsPerLun))
    have hle : c.blksPerPln ≤ 65536 := hc.blksPerPln_le
    rw [blksPerPl_ssdInitParams hc, hc.plnsPerLun_eq, Nat.mul_one, i32_of_lt (by omega), ulongOfInt_of_lt (by omega)]
    exact hc.blksPerPln_pos
  let cfg : FtlConfig :=
    { sp := ssdInitParams c capacity nparts, nrRuh := 0, gcThresLinesHigh := 0, enableGcDelay := false }
  let s : Part Unit := setWp .gc 0 .pastField (initTables cfg (fdpInitCtx 0) ())
  have hpage := hf.new_page Unit cfg .gc 0 s .pastField rfl rfl
    ⟨hc.nchs_pos, hc.lunsPerNandCh_pos, Nat.lt_of_not_le hlong, rfl, rfl⟩ hlines
  rw [getNewPage_of_getWp (show getWp cfg .gc 0 s = .ok .pastField from rfl) rfl] at hpage
  exact absurd (Except.ok.inj hpage) (by decide)

theorem FaithfulAddresses.capacity_le (hc : c.Numbered nparts) (hf : FaithfulAddresses c capacity nparts) :
    capacity / nparts ≤ c.addressableBytes nparts := by
  have hpages := ttPgs_le hc (hf.pgsPerBlk_le hc.toSound)
  have hbytes : capacity / nparts * nparts ≤
      (ssdInitParams c capacity nparts).ttPgs * (c.lbaSize * (4096 / c.lbaSize)) * nparts := by
    rw [Nat.mul_right_comm]
    exact hf.holds_capacity
  calc capacity / nparts
      ≤ (ssdInitParams c capacity nparts).ttPgs * (c.lbaSize * (4096 / c.lbaSize)) :=
        Nat.le_of_mul_le_mul_right hbytes hc.nparts_pos
    _ ≤ 2 ^ pageBits * (c.blksPerPln * c.plnsPerLun * c.lunsPerNandCh * (c.nandChannels / nparts)) *
          (c.lbaSize * (4096 / c.lbaSize)) := Nat.mul_le_mul_right _ hpages
    _ = c.addressableBytes nparts := Nat.mul_right_comm ..

/-! ## The shipped targets -/

/-- The constants a target is built from. -/
def Target.config : Target → SsdConfig
  | .fdp => samsungFdp
  | .conv => samsung970Pro

theorem Target.ssdPartitions_eq (t : Target) : t.config.ssdPartitions = 4 := by
  cases t <;> rfl

theorem Target.numbered (t : Target) : t.config.Numbered 4 := by
  cases t <;> exact
    { (by constructor <;> decide : SsdConfig.Sound _ _) with oneshot_dvd := by decide, plane_lt := by decide }

/-- **Addresses are faithful exactly up to the bytes they can name**: a partition of at most 128 GiB on the FDP
    target, 8 TiB on the 970 PRO. -/
theorem faithful_addresses_iff (t : Target) (capacity : Nat) :
    FaithfulAddresses t.config capacity t.config.ssdPartitions ↔
      capacity / t.config.ssdPartitions ≤ t.config.addressableBytes t.config.ssdPartitions := by
  rw [t.ssdPartitions_eq]
  exact ⟨fun hf => hf.capacity_le t.numbered, faithful_of_le t.numbered⟩

example : Target.fdp.config.addressableBytes 4 = 2 ^ 37 ∧ Target.conv.config.addressableBytes 4 = 2 ^ 43 := by decide

/-- A pool of 1 TiB on the FDP target has blocks of 131072 pages; the pointer at page 65536 of a block is handed
    out as page 0 of the block. -/
theorem addresses_alias_at_one_tib :
    (fdpNsConfig (2 ^ 40)).ftl.sp.pgsPerBlk = 131072 ∧
      (∀ s : Part Unit, getNewPage (fdpNsConfig (2 ^ 40)).ftl .gc 0 (setWp .gc 0 .pastField s) =
        getNewPage (fdpNsConfig (2 ^ 40)).ftl .gc 0 (setWp .gc 0 (.start 0) s)) ∧
      ¬ FaithfulAddresses samsungFdp (2 ^ 40) 4 := by
  have hpgs : (fdpNsConfig (2 ^ 40)).ftl.sp.pgsPerBlk = 131072 := by decide +kernel
  refine ⟨hpgs, fun s => ?_, fun hf => ?_⟩
  · have hget : ∀ wp, getWp (fdpNsConfig (2 ^ 40)).ftl .gc 0 (setWp .gc 0 wp s) = .ok wp := fun _ => rfl
    rw [getNewPage_of_getWp (hget .pastField) rfl, getNewPage_of_getWp (hget (.start 0)) rfl]
    rfl
  · have hle : (fdpNsConfig (2 ^ 40)).ftl.sp.pgsPerBlk ≤ 65536 := hf.pgsPerBlk_le samsungFdp_sound
    omega

end NvmeVirt
