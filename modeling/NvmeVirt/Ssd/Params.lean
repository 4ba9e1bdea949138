import Mathlib.Logic.Basic
import Mathlib.Tactic.Linarith

/-!
# `Ssd.Params` — build configurations and the derived geometry (`ssd_config.h`, `ssd_init_params`)

`SsdConfig` holds the preprocessor constants of one `BASE_SSD` target, `ssdInitParams` computes the
`struct ssdparams` of one partition from a capacity, with the C conversions where they can lose bits: an
`int` member keeps a 32-bit pattern and is sign-extended when it meets an `unsigned long`.

`Geometry` is what the FTL proofs use: parameters whose derived members are what their names say and whose
coordinates fit the bit-fields of `struct ppa`. `geometry_of_fit` shows that a configuration that passes
the assertions of `ssd_init_params` yields a `Geometry` whenever the pages of one block fit 16 bits and the
pages of one plane fit an `int`, i.e. for every capacity up to 512 GiB on the shipped FDP target.
-/

namespace NvmeVirt

/-! ## Integer conversions -/

/-- The 32-bit pattern an `int` keeps of a value. -/
def i32 (x : Nat) : Nat := x % 2 ^ 32

/-- An `int` pattern converted to a 64-bit unsigned type: sign extension. -/
def ulongOfInt (x : Nat) : Nat := if x < 2 ^ 31 then x else x + (2 ^ 64 - 2 ^ 32)

/-- 64-bit unsigned wrap-around. -/
def u64 (x : Nat) : Nat := x % 2 ^ 64

/-- 32-bit unsigned wrap-around. -/
def u32 (x : Nat) : Nat := x % 2 ^ 32

/-- `x--` on a 32-bit unsigned variable. -/
def u32Dec (x : Nat) : Nat := u32 (x + (2 ^ 32 - 1))

/-- `DIV_ROUND_UP(n, d)` -/
def divRoundUp (n d : Nat) : Nat := (n + d - 1) / d

theorem i32_of_lt {x : Nat} (h : x < 2 ^ 31) : i32 x = x := Nat.mod_eq_of_lt (by omega)

theorem ulongOfInt_of_lt {x : Nat} (h : x < 2 ^ 31) : ulongOfInt x = x := if_pos h

theorem u64_of_lt {x : Nat} (h : x < 2 ^ 64) : u64 x = x := Nat.mod_eq_of_lt h

theorem u32_of_lt {x : Nat} (h : x < 2 ^ 32) : u32 x = x := Nat.mod_eq_of_lt h

theorem u32Dec_of_pos {x : Nat} (h0 : 0 < x) (h : x < 2 ^ 32) : u32Dec x = x - 1 := by
  unfold u32Dec u32
  omega

/-! ## Build targets -/

/-- The constants of one `BASE_SSD` block of `ssd_config.h` that the modelled code reads. -/
structure SsdConfig where
  lbaBits : Nat
  ssdPartitions : Nat
  nandChannels : Nat
  lunsPerNandCh : Nat
  plnsPerLun : Nat
  flashPageSize : Nat
  oneshotPageSize : Nat
  blksPerPln : Nat
  blkSize : Nat
  writeUnitSize : Nat
  globalWbSize : Nat
  writeEarlyCompletion : Bool
  fw4kbReadLatency : Nat
  fwReadLatency : Nat
  /-- `(int)((1 + OP_AREA_PERCENT) * 100)` -/
  pbaPcent : Nat

/-- `LBA_SIZE` -/
def SsdConfig.lbaSize (c : SsdConfig) : Nat := 2 ^ c.lbaBits

/-- `BASE_SSD == SAMSUNG_FDP` -/
def samsungFdp : SsdConfig where
  lbaBits := 9
  ssdPartitions := 4
  nandChannels := 8
  lunsPerNandCh := 2
  plnsPerLun := 1
  flashPageSize := 32 * 2 ^ 10
  oneshotPageSize := 32 * 2 ^ 10 * 1
  blksPerPln := 128
  blkSize := 0
  writeUnitSize := 512
  globalWbSize := 256 * 2 ^ 20
  writeEarlyCompletion := true
  fw4kbReadLatency := 21500
  fwReadLatency := 30490
  pbaPcent := 107

/-- `BASE_SSD == SAMSUNG_970PRO` -/
def samsung970Pro : SsdConfig where
  lbaBits := 9
  ssdPartitions := 4
  nandChannels := 8
  lunsPerNandCh := 2
  plnsPerLun := 1
  flashPageSize := 32 * 2 ^ 10
  oneshotPageSize := 32 * 2 ^ 10 * 1
  blksPerPln := 8192
  blkSize := 0
  writeUnitSize := 512
  globalWbSize := 8 * 2 * (32 * 2 ^ 10 * 1) * 2
  writeEarlyCompletion := true
  fw4kbReadLatency := 21500
  fwReadLatency := 30490
  pbaPcent := 107

/-! ## `struct ssdparams` -/

/-- The members of `struct ssdparams` that the modelled code reads. -/
structure SsdParams where
  secsz : Nat
  secsPerPg : Nat
  pgsz : Nat
  pgsPerFlashpg : Nat
  flashpgsPerBlk : Nat
  pgsPerOneshotpg : Nat
  oneshotpgsPerBlk : Nat
  pgsPerBlk : Nat
  blksPerPl : Nat
  plsPerLun : Nat
  lunsPerCh : Nat
  nchs : Nat
  writeUnitSize : Nat
  writeEarlyCompletion : Bool
  fw4kbRdLat : Nat
  fwRdLat : Nat
  pgsPerPl : Nat
  pgsPerLun : Nat
  pgsPerCh : Nat
  ttPgs : Nat
  blksPerLun : Nat
  pgsPerLine : Nat
  ttLines : Nat
  ttLuns : Nat
  writeBufferSize : Nat

/-- `ssd_init_params(&spp, capacity, nparts)` -/
def ssdInitParams (c : SsdConfig) (capacity nparts : Nat) : SsdParams :=
  let secsz := c.lbaSize
  let secsPerPg := 4096 / c.lbaSize
  let pgsz := secsz * secsPerPg
  let nchs := c.nandChannels / nparts
  let capacity := capacity / nparts
  let blksPerPl :=
    if c.blksPerPln > 0 then c.blksPerPln
    else i32 (divRoundUp capacity (c.blkSize * c.plnsPerLun * c.lunsPerNandCh * nchs))
  let blkSize :=
    if c.blksPerPln > 0 then
      divRoundUp capacity (c.blksPerPln * c.plnsPerLun * c.lunsPerNandCh * nchs)
    else c.blkSize
  let pgsPerOneshotpg := c.oneshotPageSize / pgsz
  let oneshotpgsPerBlk := i32 (divRoundUp blkSize c.oneshotPageSize)
  let pgsPerFlashpg := c.flashPageSize / pgsz
  let flashpgsPerBlk := i32 (c.oneshotPageSize / c.flashPageSize * oneshotpgsPerBlk)
  let pgsPerBlk := i32 (pgsPerOneshotpg * oneshotpgsPerBlk)
  -- calculated values, `unsigned long`
  let pgsPerPl := ulongOfInt (i32 (pgsPerBlk * blksPerPl))
  let pgsPerLun := u64 (pgsPerPl * c.plnsPerLun)
  let pgsPerCh := u64 (pgsPerLun * c.lunsPerNandCh)
  let ttPgs := u64 (pgsPerCh * nchs)
  let blksPerLun := ulongOfInt (i32 (blksPerPl * c.plnsPerLun))
  let ttLuns := c.lunsPerNandCh * nchs
  { secsz := secsz
    secsPerPg := secsPerPg
    pgsz := pgsz
    pgsPerFlashpg := pgsPerFlashpg
    flashpgsPerBlk := flashpgsPerBlk
    pgsPerOneshotpg := pgsPerOneshotpg
    oneshotpgsPerBlk := oneshotpgsPerBlk
    pgsPerBlk := pgsPerBlk
    blksPerPl := blksPerPl
    plsPerLun := c.plnsPerLun
    lunsPerCh := c.lunsPerNandCh
    nchs := nchs
    writeUnitSize := c.writeUnitSize
    writeEarlyCompletion := c.writeEarlyCompletion
    fw4kbRdLat := c.fw4kbReadLatency
    fwRdLat := c.fwReadLatency
    pgsPerPl := pgsPerPl
    pgsPerLun := pgsPerLun
    pgsPerCh := pgsPerCh
    ttPgs := ttPgs
    blksPerLun := blksPerLun
    ttLuns := ttLuns
    -- `blks_per_line` is `tt_luns`
    pgsPerLine := u64 (ttLuns * ulongOfInt pgsPerBlk)
    ttLines := blksPerLun
    writeBufferSize := c.globalWbSize }

/-! ## Geometry -/

/-- Widths of the bit-fields of `struct ppa`. -/
def pageBits : Nat := 16

@[inherit_doc pageBits] def blkBits : Nat := 16

@[inherit_doc pageBits] def plBits : Nat := 8

@[inherit_doc pageBits] def lunBits : Nat := 8

@[inherit_doc pageBits] def chBits : Nat := 8

/-- **Consistent parameters**: no dimension is empty, the derived members are the products their names
    say, a line is one block of every LUN, and every coordinate fits its bit-field of `struct ppa`. The page field
    has 16 bits, so what needs a geometry is said of FDP devices of 4 bytes to 512 GiB, and of conventional ones up to
    32 TiB. -/
structure Geometry (p : SsdParams) : Prop where
  nchs_pos : 0 < p.nchs
  lunsPerCh_pos : 0 < p.lunsPerCh
  pgsPerOneshotpg_pos : 0 < p.pgsPerOneshotpg
  oneshotpgsPerBlk_pos : 0 < p.oneshotpgsPerBlk
  plsPerLun_eq : p.plsPerLun = 1
  pgsPerBlk_eq : p.pgsPerBlk = p.oneshotpgsPerBlk * p.pgsPerOneshotpg
  pgsPerBlk_eq' : p.pgsPerBlk = p.flashpgsPerBlk * p.pgsPerFlashpg
  pgsPerPl_eq : p.pgsPerPl = p.pgsPerBlk * p.blksPerPl
  pgsPerLun_eq : p.pgsPerLun = p.pgsPerPl * p.plsPerLun
  pgsPerCh_eq : p.pgsPerCh = p.pgsPerLun * p.lunsPerCh
  ttPgs_eq : p.ttPgs = p.pgsPerCh * p.nchs
  pgsPerLine_eq : p.pgsPerLine = p.lunsPerCh * p.nchs * p.pgsPerBlk
  ttLines_eq : p.ttLines = p.blksPerPl
  pgsPerBlk_le : p.pgsPerBlk ≤ 2 ^ pageBits
  blksPerPl_le : p.blksPerPl ≤ 2 ^ blkBits
  lunsPerCh_le : p.lunsPerCh ≤ 2 ^ lunBits
  nchs_le : p.nchs ≤ 2 ^ chBits

/-- The part of a geometry that the order of programming depends on; it says nothing of bit-fields. -/
structure Grid (p : SsdParams) : Prop where
  nchs_pos : 0 < p.nchs
  lunsPerCh_pos : 0 < p.lunsPerCh
  pgsPerOneshotpg_pos : 0 < p.pgsPerOneshotpg
  pgsPerBlk_eq : p.pgsPerBlk = p.oneshotpgsPerBlk * p.pgsPerOneshotpg
  pgsPerLine_eq : p.pgsPerLine = p.lunsPerCh * p.nchs * p.pgsPerBlk

/-- **The parameters of any target form a grid**, unless the pages of a block overflow an `int`. -/
theorem grid_ssdInitParams {c : SsdConfig} {capacity nparts : Nat} (hch : 0 < c.nandChannels / nparts)
    (hlun : 0 < c.lunsPerNandCh) (hos : 0 < (ssdInitParams c capacity nparts).pgsPerOneshotpg)
    (hblk : (ssdInitParams c capacity nparts).pgsPerOneshotpg * (ssdInitParams c capacity nparts).oneshotpgsPerBlk < 2 ^ 31)
    (hline : c.lunsPerNandCh * (c.nandChannels / nparts) * ((ssdInitParams c capacity nparts).pgsPerOneshotpg *
      (ssdInitParams c capacity nparts).oneshotpgsPerBlk) < 2 ^ 64) : Grid (ssdInitParams c capacity nparts) := by
  have hpgs : (ssdInitParams c capacity nparts).pgsPerBlk = (ssdInitParams c capacity nparts).pgsPerOneshotpg *
      (ssdInitParams c capacity nparts).oneshotpgsPerBlk := i32_of_lt hblk
  refine { nchs_pos := hch, lunsPerCh_pos := hlun, pgsPerOneshotpg_pos := hos, pgsPerBlk_eq := ?_, pgsPerLine_eq := ?_ }
  · rw [hpgs, Nat.mul_comm]
  · show u64 (c.lunsPerNandCh * (c.nandChannels / nparts) * ulongOfInt (ssdInitParams c capacity nparts).pgsPerBlk) = _
    rw [hpgs, ulongOfInt_of_lt hblk, u64_of_lt hline]
    rfl

namespace Geometry

variable {p : SsdParams} (hg : Geometry p)
include hg

theorem grid : Grid p :=
  ⟨hg.nchs_pos, hg.lunsPerCh_pos, hg.pgsPerOneshotpg_pos, hg.pgsPerBlk_eq, hg.pgsPerLine_eq⟩

theorem pgsPerBlk_pos : 0 < p.pgsPerBlk := by
  rw [hg.pgsPerBlk_eq]
  exact Nat.mul_pos hg.oneshotpgsPerBlk_pos hg.pgsPerOneshotpg_pos

theorem pgsPerLine_pos : 0 < p.pgsPerLine := by
  rw [hg.pgsPerLine_eq]
  exact Nat.mul_pos (Nat.mul_pos hg.lunsPerCh_pos hg.nchs_pos) hg.pgsPerBlk_pos

theorem flashpgsPerBlk_pos : 0 < p.flashpgsPerBlk := by
  have h := hg.pgsPerBlk_pos
  rw [hg.pgsPerBlk_eq'] at h
  exact Nat.pos_of_mul_pos_right h

theorem pgsPerFlashpg_pos : 0 < p.pgsPerFlashpg := by
  have h := hg.pgsPerBlk_pos
  rw [hg.pgsPerBlk_eq'] at h
  exact Nat.pos_of_mul_pos_left h

end Geometry

/-- The assertions of `ssd_init_params` on the build constants, with the divisions by zero it relies on
    not making, for a target that derives the block size from the capacity. -/
structure SsdConfig.Sound (c : SsdConfig) (nparts : Nat) : Prop where
  nparts_pos : 0 < nparts
  nchs_mod : c.nandChannels % nparts = 0
  nandChannels_pos : 0 < c.nandChannels
  lunsPerNandCh_pos : 0 < c.lunsPerNandCh
  plnsPerLun_eq : c.plnsPerLun = 1
  blksPerPln_pos : 0 < c.blksPerPln
  pgsz_pos : 0 < c.lbaSize * (4096 / c.lbaSize)
  oneshot_pos : 0 < c.oneshotPageSize
  oneshot_mod : c.oneshotPageSize % (c.lbaSize * (4096 / c.lbaSize)) = 0
  flash_pos : 0 < c.flashPageSize
  flash_mod : c.flashPageSize % (c.lbaSize * (4096 / c.lbaSize)) = 0
  oneshot_flash_mod : c.oneshotPageSize % c.flashPageSize = 0
  blksPerPln_le : c.blksPerPln ≤ 2 ^ blkBits
  lunsPerNandCh_le : c.lunsPerNandCh ≤ 2 ^ lunBits
  nandChannels_le : c.nandChannels ≤ 2 ^ chBits

theorem samsungFdp_sound : samsungFdp.Sound 4 := by
  constructor <;> decide

/-- Number of 4 KiB pages of a block before it is cut to an `int`. -/
def SsdConfig.pgsPerBlkOf (c : SsdConfig) (capacity nparts : Nat) : Nat :=
  c.oneshotPageSize / (c.lbaSize * (4096 / c.lbaSize)) *
    divRoundUp (divRoundUp (capacity / nparts)
      (c.blksPerPln * c.plnsPerLun * c.lunsPerNandCh * (c.nandChannels / nparts))) c.oneshotPageSize

theorem divRoundUp_pos {n d : Nat} (hn : 0 < n) (hd : 0 < d) : 0 < divRoundUp n d :=
  Nat.div_pos (by omega) hd

theorem divRoundUp_le_of_le_mul {n d k : Nat} (hd : 0 < d) (h : n ≤ d * k) : divRoundUp n d ≤ k := by
  refine Nat.lt_succ_iff.mp ?_
  refine (Nat.div_lt_iff_lt_mul hd).mpr ?_
  rw [Nat.succ_mul, Nat.mul_comm k d]
  omega

theorem le_mul_divRoundUp {n d : Nat} (hd : 0 < d) : n ≤ divRoundUp n d * d := by
  have h := Nat.div_add_mod (n + d - 1) d
  have hlt := Nat.mod_lt (n + d - 1) hd
  unfold divRoundUp
  rw [Nat.mul_comm]
  omega

/-- Two nested exact divisions are one. -/
theorem div_mul_div_of_mod {a b c : Nat} (hb : 0 < b) (hc : 0 < c) (hab : a % b = 0) (hbc : b % c = 0) :
    a / c = a / b * (b / c) := by
  obtain ⟨k, rfl⟩ := Nat.dvd_of_mod_eq_zero hbc
  obtain ⟨m, rfl⟩ := Nat.dvd_of_mod_eq_zero hab
  rw [Nat.mul_div_cancel_left m hb, Nat.mul_div_cancel_left k hc, Nat.mul_assoc,
    Nat.mul_div_cancel_left _ hc, Nat.mul_comm]

/-- **The parameters of a capacity whose blocks fit the address bit-fields form a geometry.** -/
theorem geometry_of_fit {c : SsdConfig} {capacity nparts : Nat} (hc : c.Sound nparts)
    (hpos : 0 < capacity / nparts) (hfit : c.pgsPerBlkOf capacity nparts ≤ 2 ^ pageBits)
    (hplane : c.pgsPerBlkOf capacity nparts * c.blksPerPln < 2 ^ 31) :
    Geometry (ssdInitParams c capacity nparts) := by
  have hnchs : 0 < c.nandChannels / nparts :=
    Nat.div_pos (Nat.le_of_dvd hc.nandChannels_pos (Nat.dvd_of_mod_eq_zero hc.nchs_mod)) hc.nparts_pos
  have hnchs_le : c.nandChannels / nparts ≤ 2 ^ chBits :=
    Nat.le_trans (Nat.div_le_self _ _) hc.nandChannels_le
  have hos : 0 < c.oneshotPageSize / (c.lbaSize * (4096 / c.lbaSize)) :=
    Nat.div_pos (Nat.le_of_dvd hc.oneshot_pos (Nat.dvd_of_mod_eq_zero hc.oneshot_mod)) hc.pgsz_pos
  have hfp : 0 < c.flashPageSize / (c.lbaSize * (4096 / c.lbaSize)) :=
    Nat.div_pos (Nat.le_of_dvd hc.flash_pos (Nat.dvd_of_mod_eq_zero hc.flash_mod)) hc.pgsz_pos
  have hsplit := div_mul_div_of_mod hc.flash_pos hc.pgsz_pos hc.oneshot_flash_mod hc.flash_mod
  have hblk : 0 < divRoundUp (capacity / nparts)
      (c.blksPerPln * c.plnsPerLun * c.lunsPerNandCh * (c.nandChannels / nparts)) := by
    refine divRoundUp_pos hpos ?_
    rw [hc.plnsPerLun_eq]
    exact Nat.mul_pos (Nat.mul_pos (Nat.mul_pos hc.blksPerPln_pos Nat.one_pos) hc.lunsPerNandCh_pos) hnchs
  have hopb := divRoundUp_pos hblk hc.oneshot_pos
  unfold SsdConfig.pgsPerBlkOf at hfit hplane
  unfold ssdInitParams
  simp only [hc.blksPerPln_pos, if_true]
  generalize hOS : c.oneshotPageSize / (c.lbaSize * (4096 / c.lbaSize)) = os at *
  generalize hFP : c.flashPageSize / (c.lbaSize * (4096 / c.lbaSize)) = fp at *
  generalize hOF : c.oneshotPageSize / c.flashPageSize = q at *
  generalize hOPB : divRoundUp (divRoundUp (capacity / nparts)
    (c.blksPerPln * c.plnsPerLun * c.lunsPerNandCh * (c.nandChannels / nparts))) c.oneshotPageSize =
      opb at *
  generalize hCH : c.nandChannels / nparts = nchs at *
  rw [hc.plnsPerLun_eq]
  have h1 : opb ≤ os * opb := Nat.le_mul_of_pos_left opb hos
  have h2 : q * opb ≤ os * opb := by
    rw [hsplit, Nat.mul_right_comm]
    exact Nat.le_mul_of_pos_right _ hfp
  have hbits : (2 : Nat) ^ pageBits = 65536 ∧ (2 : Nat) ^ blkBits = 65536 ∧ (2 : Nat) ^ lunBits = 256 ∧
      (2 : Nat) ^ chBits = 256 := by decide
  have hblks := hc.blksPerPln_le
  have hluns := hc.lunsPerNandCh_le
  rw [hbits.1] at hfit
  rw [hbits.2.1] at hblks
  rw [hbits.2.2.1] at hluns
  rw [hbits.2.2.2] at hnchs_le
  -- no conversion loses a bit
  have hX : os * opb * c.blksPerPln * c.lunsPerNandCh ≤ 2 ^ 31 * 256 :=
    Nat.mul_le_mul hplane.le hluns
  have hXn : os * opb * c.blksPerPln * c.lunsPerNandCh * nchs ≤ 2 ^ 31 * 256 * 256 :=
    Nat.mul_le_mul hX hnchs_le
  have hL : c.lunsPerNandCh * nchs * (os * opb) ≤ 256 * 256 * 65536 :=
    Nat.mul_le_mul (Nat.mul_le_mul hluns hnchs_le) hfit
  simp only [i32_of_lt (show opb < 2 ^ 31 by omega), i32_of_lt (show q * opb < 2 ^ 31 by omega),
    i32_of_lt (show os * opb < 2 ^ 31 by omega), ulongOfInt_of_lt (show os * opb < 2 ^ 31 by omega),
    Nat.mul_one, i32_of_lt hplane, ulongOfInt_of_lt hplane,
    i32_of_lt (show c.blksPerPln < 2 ^ 31 by omega),
    ulongOfInt_of_lt (show c.blksPerPln < 2 ^ 31 by omega),
    u64_of_lt (show os * opb * c.blksPerPln < 2 ^ 64 by omega),
    u64_of_lt (show os * opb * c.blksPerPln * c.lunsPerNandCh < 2 ^ 64 by omega),
    u64_of_lt (show os * opb * c.blksPerPln * c.lunsPerNandCh * nchs < 2 ^ 64 by omega),
    u64_of_lt (show c.lunsPerNandCh * nchs * (os * opb) < 2 ^ 64 by omega)]
  exact
    { nchs_pos := hnchs
      lunsPerCh_pos := hc.lunsPerNandCh_pos
      pgsPerOneshotpg_pos := hos
      oneshotpgsPerBlk_pos := hopb
      plsPerLun_eq := rfl
      pgsPerBlk_eq := Nat.mul_comm _ _
      pgsPerBlk_eq' := by
        show os * opb = q * opb * fp
        rw [hsplit, Nat.mul_right_comm]
      pgsPerPl_eq := rfl
      pgsPerLun_eq := (Nat.mul_one _).symm
      pgsPerCh_eq := rfl
      ttPgs_eq := rfl
      pgsPerLine_eq := rfl
      ttLines_eq := rfl
      pgsPerBlk_le := by rw [hbits.1]; exact hfit
      blksPerPl_le := hc.blksPerPln_le
      lunsPerCh_le := hc.lunsPerNandCh_le
      nchs_le := by rw [hbits.2.2.2]; exact hnchs_le }

end NvmeVirt
