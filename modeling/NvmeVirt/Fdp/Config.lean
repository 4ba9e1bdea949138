import NvmeVirt.Ftl.State

/-!
# `Fdp.Config` — the shipped FDP target (`SAMSUNG_FDP`)

The parameters `fdp_init_namespace` derives from the size it is given, and the facts about them that do not
depend on the size.
-/

namespace NvmeVirt

/-- `FDP_NR_RUH` -/
def fdpNrRuh : Nat := 8

/-- The parameters of one partition: `ssd_init_params(&spp, size, SSD_PARTITIONS)`. -/
def fdpSp (size : Nat) : SsdParams := ssdInitParams samsungFdp size 4

/-- What a partition works with after `ssd_init_params` and `fdp_init_params`. -/
def fdpFtlConfig (size : Nat) : FtlConfig where
  sp := fdpSp size
  nrRuh := fdpNrRuh
  gcThresLinesHigh := fdpNrRuh + 1
  enableGcDelay := true

/-- **Every size from 4 bytes to 512 GiB gives a consistent geometry.** -/
theorem fdp_geometry {size : Nat} (h1 : 4 ≤ size) (h2 : size ≤ 2 ^ 39) :
    Geometry (fdpFtlConfig size).sp := by
  have hblk : divRoundUp (size / 4) 512 ≤ 32768 * 8192 :=
    divRoundUp_le_of_le_mul (by decide) (by omega)
  have hopb : divRoundUp (divRoundUp (size / 4) 512) 32768 ≤ 8192 :=
    divRoundUp_le_of_le_mul (by decide) hblk
  have hpgs : samsungFdp.pgsPerBlkOf size 4 = 8 * divRoundUp (divRoundUp (size / 4) 512) 32768 := rfl
  refine geometry_of_fit samsungFdp_sound (Nat.div_pos h1 (by decide)) ?_ ?_
  · rw [hpgs]
    show _ ≤ 65536
    omega
  · rw [hpgs]
    show _ * 128 < _
    omega

theorem fdp_secsPerPg (size : Nat) : (fdpFtlConfig size).sp.secsPerPg = 8 := rfl

theorem fdp_pgsz (size : Nat) : (fdpFtlConfig size).sp.pgsz = 4096 := rfl

theorem fdp_pgsPerOneshotpg (size : Nat) : (fdpFtlConfig size).sp.pgsPerOneshotpg = 8 := rfl

theorem fdp_ttLines (size : Nat) : (fdpFtlConfig size).sp.ttLines = 128 := by
  show ulongOfInt (i32 128) = 128
  rw [i32_of_lt (by decide), ulongOfInt_of_lt (by decide)]

theorem fdp_lines_enough (size : Nat) : (fdpFtlConfig size).nrRuh + 1 ≤ (fdpFtlConfig size).sp.ttLines := by
  rw [fdp_ttLines]
  show 8 + 1 ≤ 128
  decide

/-- A device of less than a byte per partition has no pages. -/
theorem fdp_ttPgs_of_lt {size : Nat} (h : size < 4) : (fdpFtlConfig size).sp.ttPgs = 0 := by
  have hzero : size / 4 = 0 := Nat.div_eq_of_lt h
  simp [fdpFtlConfig, fdpSp, ssdInitParams, samsungFdp, hzero, divRoundUp, i32, ulongOfInt, u64]

end NvmeVirt
