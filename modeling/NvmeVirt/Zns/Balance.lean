import NvmeVirt.Lib.Chunk
import NvmeVirt.Zns.Tiling

/-!
# `Zns.Balance` — the write buffer of a zone

A write charges the buffer of its zone by its length; the program loop schedules a release for every oneshot
page whose last page the write touches, and for the rest of the zone at its end. That balances as long as a
write that touches the last page of a oneshot page also fills it: a write that ends inside that page releases
the whole oneshot page early, and the next write releases it again. Finish and reset touch neither the buffer
nor the scheduled releases, so what a zone holds of an incomplete oneshot page is lost with them.

`Tidy` states these conditions on the commands. In a run of tidy commands the account is exact
(`zone_buffer_balanced`).
-/

namespace NvmeVirt

open Outcome

variable {τ : Type} {c : ZnsConfig}

/-! ## The program loop -/

/-- The bytes a list of operations releases. -/
def released (ops : List ZnsOp) : Nat := (ops.map (·.buffsToRelease)).sum

theorem released_append (ops ops' : List ZnsOp) : released (ops ++ ops') = released ops + released ops' := by
  simp [released]

theorem released_programOneshot (L : ZnsLatency τ) (buf : BufferId) (stime lpn n : Nat) (st : ZnsLoop τ) :
    released (programOneshot c L buf stime lpn n st).ops = released st.ops + n := by
  simp [released, programOneshot]

section Loop

variable (hc : c.Below2Tib) {z : Nat} (hz : z < c.zp.nrZones)
include hc hz

/-- Page `p` of the zone, by the address arithmetic of the loop. -/
theorem pgOff_eq {p : Nat} (hp : p < c.zonePgs) : pgOff c (z * c.zonePgs + p) = p % c.sp.pgsPerOneshotpg := by
  have hpos := hc.pgsPerOneshotpg_pos
  have hlt := hc.zone_end_lt hz
  have hmul := hc.zoneLbas_eq_mul
  have hz32 : z < 2 ^ 32 := Nat.lt_trans hz hc.nrZones_lt
  have hdiv : (z * c.zonePgs + p) / c.zonePgs = z := Counting.radix_div z hp
  have hstart : z * c.zonePgs < 2 ^ 32 := by
    rw [hmul, Nat.succ_mul] at hlt
    have := Nat.mul_left_comm z 8 c.zonePgs
    omega
  unfold pgOff znsLpnToPpa lpnToZone zoneToSlpn
  dsimp only
  rw [hdiv, u32_of_lt hz32, u32_of_lt hstart, Nat.add_sub_cancel_left,
    Nat.mod_eq_of_lt (Nat.lt_of_lt_of_le (Nat.mod_lt p hpos) hc.pgsPerOneshotpg_le), Nat.mod_mod]

theorem zoneToElpn_eq : zoneToElpn c z = z * c.zonePgs + c.zonePgs - 1 := by
  have hpgs := hc.zonePgs_pos
  unfold zoneToElpn
  rw [hc.zoneToElba_eq hz, hc.secsPerPg_eq, hc.zoneLbas_eq_mul, Nat.succ_mul]
  have := Nat.mul_left_comm z 8 c.zonePgs
  omega

omit hz in
theorem unalignedSpace_eq : c.unalignedSpace = 4096 * (c.zonePgs % c.sp.pgsPerOneshotpg) := by
  unfold ZnsConfig.unalignedSpace ZnsConfig.oneshotBytes
  rw [hc.zoneSize_eq_mul, hc.pgsz_eq, Nat.mul_comm c.sp.pgsPerOneshotpg, Nat.mul_mod_mul_left]

/-- **What the program loop releases** from page `p` to page `q` of the zone: the oneshot pages it completes, and
    what is left of the zone if it comes to the end. -/
theorem writeProgramLoop_released (L : ZnsLatency τ) (buf : BufferId) (stime : Nat) {q : Nat} (hq : q < c.zonePgs)
    (fuel p : Nat) (st : ZnsLoop τ) (hp : p ≤ q + 1) (hfuel : q + 1 - p ≤ fuel) :
    released (writeProgramLoop c L buf stime (z * c.zonePgs + q) (zoneToElpn c z) fuel (z * c.zonePgs + p) st).ops =
      released st.ops + c.oneshotBytes * ((q + 1) / c.sp.pgsPerOneshotpg - p / c.sp.pgsPerOneshotpg) +
        (if p ≤ q ∧ q + 1 = c.zonePgs then c.unalignedSpace else 0) := by
  have hpos := hc.pgsPerOneshotpg_pos
  -- induction on the fuel; `p` moves to the end of the round's pages
  induction fuel generalizing p st with
  | zero =>
      have hpq : p = q + 1 := by omega
      subst hpq
      simp [writeProgramLoop]
  | succ fuel ih =>
      unfold writeProgramLoop
      by_cases hpq : p ≤ q
      swap
      · rw [if_neg (by omega), if_neg (fun h => hpq h.1)]
        have hp' : p = q + 1 := by omega
        subst hp'
        simp
      rw [if_pos (by omega)]
      have hmod := Nat.mod_lt p hpos
      dsimp only
      rw [pgOff_eq hc hz (by omega)]
      -- the pages of this round
      generalize hk : min (z * c.zonePgs + q - (z * c.zonePgs + p) + 1)
        (c.sp.pgsPerOneshotpg - p % c.sp.pgsPerOneshotpg) = k
      have hk1 : 1 ≤ k := by omega
      have hkq : p + k ≤ q + 1 := by omega
      have hlast : z * c.zonePgs + p + k - 1 = zoneToElpn c z ↔ p + k = c.zonePgs := by
        rw [zoneToElpn_eq hc hz]
        omega
      simp only [hlast]
      rw [Nat.add_assoc (z * c.zonePgs) p k, ih (p + k) _ hkq (by omega)]
      have hun := unalignedSpace_eq hc
      by_cases hreach : p % c.sp.pgsPerOneshotpg + k = c.sp.pgsPerOneshotpg
      · -- a oneshot page is complete; at the end of the zone nothing is left over then
        obtain ⟨hdiv, hmod0⟩ := Chunk.div_of_reach hreach hpos
        have hrel : (if p + k = c.zonePgs ∧ 0 < c.unalignedSpace then c.unalignedSpace else c.oneshotBytes) =
            c.oneshotBytes := by
          refine if_neg ?_
          rintro ⟨heq, hpos⟩
          rw [hun, ← heq, hmod0] at hpos
          omega
        have hle : (p + k) / c.sp.pgsPerOneshotpg ≤ (q + 1) / c.sp.pgsPerOneshotpg := Nat.div_le_div_right hkq
        have hsucc : (q + 1) / c.sp.pgsPerOneshotpg - p / c.sp.pgsPerOneshotpg =
            (q + 1) / c.sp.pgsPerOneshotpg - (p / c.sp.pgsPerOneshotpg + 1) + 1 := by omega
        have htail : (if p + k ≤ q ∧ q + 1 = c.zonePgs then c.unalignedSpace else 0) =
            if p ≤ q ∧ q + 1 = c.zonePgs then c.unalignedSpace else 0 := by
          by_cases hq1 : q + 1 = c.zonePgs
          · by_cases hkq' : p + k ≤ q
            · rw [if_pos ⟨hkq', hq1⟩, if_pos ⟨hpq, hq1⟩]
            · have hz0 : c.unalignedSpace = 0 := by
                have heq : p + k = c.zonePgs := by omega
                rw [hun, ← heq, hmod0]
              rw [hz0, ite_self, ite_self]
          · rw [if_neg (fun h => hq1 h.2), if_neg (fun h => hq1 h.2)]
        rw [if_pos (Or.inl hreach), hrel, released_programOneshot, hdiv, htail, hsucc, Nat.mul_add, Nat.mul_one]
        omega
      · -- the round ends the write
        have hshort : p % c.sp.pgsPerOneshotpg + k < c.sp.pgsPerOneshotpg := by omega
        have hend : p + k = q + 1 := by omega
        obtain ⟨hdiv, hmodk⟩ := Chunk.div_of_short hshort
        rw [hend] at hdiv hmodk ⊢
        have hno : ¬ (q + 1 ≤ q ∧ q + 1 = c.zonePgs) := fun h => by omega
        simp only [hdiv, Nat.sub_self, Nat.mul_zero, if_neg hno, Nat.add_zero]
        by_cases hq1 : q + 1 = c.zonePgs
        · have hpos' : 0 < c.unalignedSpace := by
            rw [hun, ← hq1, hmodk]
            omega
          rw [if_pos (Or.inr hq1), if_pos ⟨hq1, hpos'⟩, if_pos ⟨hpq, hq1⟩, released_programOneshot]
        · rw [if_neg (fun h => h.elim hreach hq1), if_neg (fun h => hq1 h.2), Nat.add_zero]

end Loop

/-- The loop schedules for its own buffer only. -/
theorem writeProgramLoop_buffer (L : ZnsLatency τ) (buf : BufferId) (stime elpn zoneElpn fuel lpn : Nat)
    (st : ZnsLoop τ) (h : ∀ op ∈ st.ops, op.buffer = buf) :
    ∀ op ∈ (writeProgramLoop c L buf stime elpn zoneElpn fuel lpn st).ops, op.buffer = buf := by
  induction fuel generalizing lpn st with
  | zero => exact h
  | succ fuel ih =>
      unfold writeProgramLoop
      split
      · refine ih _ _ ?_
        split
        · intro op hop
          rcases List.mem_append.mp hop with hop | hop
          · exact h op hop
          · rw [List.mem_singleton.mp hop]
        · exact h
      · exact h

/-! ## The account of one write -/

/-- Bytes written to a zone since its last complete oneshot page; 0 in an EMPTY or FULL zone. -/
def ZoneDescriptor.sinceOneshot (c : ZnsConfig) (d : ZoneDescriptor) : Nat :=
  if d.state = .empty ∨ d.state = .full then 0 else lbaToByte (d.wp - d.zslba) % c.oneshotBytes

/-- A write of `nrLba` blocks ends at the end of a page, or in a page that ends neither a oneshot page nor the
    zone. -/
def EndsWell (c : ZnsConfig) (d : ZoneDescriptor) (nrLba : Nat) : Prop :=
  (d.wp - d.zslba + nrLba) % 8 = 0 ∨
    (((d.wp - d.zslba + nrLba) / 8 + 1) % c.sp.pgsPerOneshotpg ≠ 0 ∧
      (d.wp - d.zslba + nrLba) / 8 + 1 ≠ c.zonePgs)

instance (d : ZoneDescriptor) (nrLba : Nat) : Decidable (EndsWell c d nrLba) :=
  inferInstanceAs (Decidable (_ ∨ _ ∧ _))

/-- **The account of one write**: what the zone held of a oneshot page and the new bytes are what the write
    releases and what the zone holds then. -/
theorem write_account (hc : c.Below2Tib) {z : Nat} (hz : z < c.zp.nrZones) {d : ZoneDescriptor} (hr : d.Room c z)
    {nrLba : Nat} (hpos : 0 < nrLba) (hle : d.wp + nrLba ≤ d.zslba + d.zoneCapacity) (hend : EndsWell c d nrLba)
    {L : ZnsLatency τ} {ops : List ZnsOp} (hops : Programs c L z d.wp nrLba ops) :
    lbaToByte (d.wp - d.zslba) % c.oneshotBytes + lbaToByte nrLba =
      released ops + (if d.wp + nrLba = d.zslba + d.zoneCapacity then 0
        else lbaToByte (d.wp + nrLba - d.zslba) % c.oneshotBytes) := by
  obtain ⟨tm, xfer, rfl⟩ := hops
  have hlt := hc.zone_end_lt hz
  have hmul := hc.zoneLbas_eq_mul
  have hn := hc.pgsPerOneshotpg_pos
  -- `a` and `b`: where the write starts and ends, in blocks from the start of the zone
  obtain ⟨a, ha⟩ : ∃ a, d.wp = d.zslba + a := ⟨d.wp - d.zslba, by have := hr.le_wp; omega⟩
  have hz8 : d.zslba = 8 * (z * c.zonePgs) := by rw [hr.zslba_eq, hmul, Nat.mul_left_comm]
  have hcap : d.zoneCapacity = 8 * c.zonePgs := hr.cap_eq.trans hmul
  unfold EndsWell at hend
  rw [ha, Nat.add_sub_cancel_left] at hend ⊢
  rw [ha] at hle
  have hb : a + nrLba ≤ 8 * c.zonePgs := by omega
  have hsum : d.zslba + a + nrLba - d.zslba = a + nrLba := by omega
  rw [Nat.succ_mul, hmul, Nat.mul_left_comm] at hlt
  have hu : u64 (d.zslba + a + nrLba - 1) = d.zslba + a + nrLba - 1 := u64_of_lt (by omega)
  have hslpn : lbaToLpn c (d.zslba + a) = z * c.zonePgs + a / 8 := by
    rw [lbaToLpn, hc.secsPerPg_eq]
    omega
  have helpn : lbaToLpn c (u64 (d.zslba + a + nrLba - 1)) = z * c.zonePgs + (a + nrLba - 1) / 8 := by
    rw [hu, lbaToLpn, hc.secsPerPg_eq]
    omega
  have htouched : (a + nrLba - 1) / 8 + 1 = Chunk.touched 8 (a + nrLba) := by
    unfold Chunk.touched
    omega
  have hdivb := Chunk.touched_div (n := c.sp.pgsPerOneshotpg) (b := a + nrLba) (by decide : 0 < 8)
    (hend.imp id fun h => h.1)
  have hlast : (a / 8 ≤ (a + nrLba - 1) / 8 ∧ (a + nrLba - 1) / 8 + 1 = c.zonePgs) ↔ a + nrLba = 8 * c.zonePgs := by
    omega
  rw [hsum, helpn, hslpn, writeProgramLoop_released hc hz L _ xfer (by omega) _ _ _ (by omega) (by omega), htouched,
    hdivb, Nat.div_div_eq_div_mul]
  rw [← htouched]
  -- all in blocks: a oneshot page has `8 * n` of them
  have hone : c.oneshotBytes = 2 ^ 9 * (8 * c.sp.pgsPerOneshotpg) := by
    rw [ZnsConfig.oneshotBytes, hc.pgsz_eq]
    omega
  have haccount := Chunk.account (m := 8 * c.sp.pgsPerOneshotpg) (Nat.le_add_right a nrLba)
  rw [Nat.add_sub_cancel_left, Nat.mul_assoc] at haccount
  have hfull : d.zslba + a + nrLba = d.zslba + d.zoneCapacity ↔ a + nrLba = 8 * c.zonePgs := by omega
  have hnil : released [] = 0 := rfl
  simp only [hlast, hfull, hone, hnil, lbaToByte, Nat.mul_comm _ (2 ^ 9), Nat.mul_mod_mul_left, Nat.mul_assoc]
  by_cases hall : a + nrLba = 8 * c.zonePgs
  · have hun : c.unalignedSpace = 2 ^ 9 * ((a + nrLba) % (8 * c.sp.pgsPerOneshotpg)) := by
      rw [unalignedSpace_eq hc, hall, Nat.mul_mod_mul_left]
      omega
    rw [if_pos hall, if_pos hall, hun]
    omega
  · rw [if_neg hall, if_neg hall]
    omega

/-! ## Tidy commands -/

/-- Where a command of `__zns_write` starts. -/
def NvmeCommand.startLba (cmd : NvmeCommand) (d : ZoneDescriptor) : Nat :=
  if cmd.opcode = .zoneAppend then d.wp else cmd.slba.toNat

/-- A write that finds no buffer space, or one that succeeds and ends well. -/
def TidyWrite (c : ZnsConfig) (s : ZnsFtl τ) (cmd : NvmeCommand) (z : Nat) : Prop :=
  (s.zoneWriteBuffer z).remaining < lbaToByte cmd.nrLba ∨
    (Admissible c s z (cmd.startLba (s.zoneDescs z)) cmd.nrLba ∧ EndsWell c (s.zoneDescs z) cmd.nrLba)

instance (s : ZnsFtl τ) (cmd : NvmeCommand) (z : Nat) : Decidable (TidyWrite c s cmd z) :=
  inferInstanceAs (Decidable (_ ∨ _ ∧ _))

/-- No open with ZRWA, and no finish or reset of a zone in the middle of a oneshot page. -/
def TidyManagement (c : ZnsConfig) (s : ZnsFtl τ) (cmd : NvmeCommand) : Prop :=
  ¬ (cmd.zsa = .openZone ∧ cmd.zsaso = true) ∧
    (cmd.zsa = .finishZone ∨ cmd.zsa = .resetZone → ∀ z, z < c.zp.nrZones →
      (cmd.selectAll = true ∨ z = lbaToZone c cmd.slba.toNat) → (s.zoneDescs z).sinceOneshot c = 0)

instance (s : ZnsFtl τ) (cmd : NvmeCommand) : Decidable (TidyManagement c s cmd) :=
  inferInstanceAs (Decidable (¬ _ ∧ (_ → _)))

/-- **Tidy** actions. -/
def Tidy (c : ZnsConfig) (s : ZnsSys τ) : ZnsAct → Prop
  | .dispatch slot _ _ =>
      ((s.slots slot).opcode = .write ∨ (s.slots slot).opcode = .zoneAppend →
        TidyWrite c s.ftl (s.slots slot) (lbaToZone c (s.slots slot).slba.toNat)) ∧
      ((s.slots slot).opcode = .zoneMgmtSend → TidyManagement c s.ftl (s.slots slot))
  | _ => True

instance (s : ZnsSys τ) : (a : ZnsAct) → Decidable (Tidy c s a)
  | .dispatch slot _ _ => inferInstanceAs (Decidable ((_ → TidyWrite c s.ftl (s.slots slot) _) ∧ (_ → _)))
  | .submit _ _ | .copy _ | .release _ => inferInstanceAs (Decidable True)

/-! ## The balance -/

/-- The bytes still to be released to the buffer of zone `z`. -/
def pendingFor (ops : List ZnsOp) (z : Nat) : Nat := released (ops.filter (·.buffer = .zone z))

theorem pendingFor_append (ops ops' : List ZnsOp) (z : Nat) :
    pendingFor (ops ++ ops') z = pendingFor ops z + pendingFor ops' z := by
  rw [pendingFor, List.filter_append, released_append]
  rfl

theorem pendingFor_self {ops : List ZnsOp} {z : Nat} (h : ∀ op ∈ ops, op.buffer = .zone z) :
    pendingFor ops z = released ops := by
  rw [pendingFor, List.filter_eq_self.mpr]
  intro op hop
  simp [h op hop]

theorem pendingFor_other {ops : List ZnsOp} {y z : Nat} (h : ∀ op ∈ ops, op.buffer = .zone y) (hne : z ≠ y) :
    pendingFor ops z = 0 := by
  rw [pendingFor, List.filter_eq_nil_iff.mpr]
  · rfl
  · intro op hop
    simp [h op hop, hne.symm]

/-- **The account of the buffer of zone `z`.** -/
structure ZnsBalanced (c : ZnsConfig) (s : ZnsSys τ) (z : Nat) : Prop where
  size : (s.ftl.zoneWriteBuffer z).size = c.zp.zoneWbSize
  plain : (s.ftl.zoneDescs z).zrwav = false
  account : (s.ftl.zoneWriteBuffer z).remaining + pendingFor s.pending z +
    (s.ftl.zoneDescs z).sinceOneshot c = c.zp.zoneWbSize

/-- What a zone holds of a oneshot page, by its state. -/
theorem sinceOneshot_of_idle {d : ZoneDescriptor} (h : d.state = .empty ∨ d.state = .full) :
    d.sinceOneshot c = 0 := if_pos h

theorem sinceOneshot_of_active {d : ZoneDescriptor} (h : d.state.Active) :
    d.sinceOneshot c = lbaToByte (d.wp - d.zslba) % c.oneshotBytes :=
  if_neg fun he => he.elim h.alive.2.2.1 h.alive.2.2.2

/-- The same formula serves for an EMPTY zone. -/
theorem sinceOneshot_of_start {d : ZoneDescriptor} (he : d.state = .empty → d.wp = d.zslba)
    (h : d.state = .empty ∨ d.state.Active) : d.sinceOneshot c = lbaToByte (d.wp - d.zslba) % c.oneshotBytes := by
  rcases h with h | h
  · rw [sinceOneshot_of_idle (Or.inl h), he h, Nat.sub_self]
    simp [lbaToByte]
  · exact sinceOneshot_of_active h

/-- Zone management that is tidy keeps what a zone holds of a oneshot page. -/
theorem ZoneMoves.keeps_since {cmd : NvmeCommand} (hop : ¬ (cmd.opcode = .write ∨ cmd.opcode = .zoneAppend))
    {s : ZnsFtl τ} (htidy : cmd.opcode = .zoneMgmtSend → TidyManagement c s cmd) (hcount : ZonesCounted c s.toZoneTable)
    {z : Nat} (hz : z < c.zp.nrZones) (hplain : (s.zoneDescs z).zrwav = false) {s' : ZoneTable}
    (h : ZoneMoves c (cmd.Drives c) s.toZoneTable s') :
    (s'.zoneDescs z).zrwav = false ∧ (s'.zoneDescs z).sinceOneshot c = (s.zoneDescs z).sinceOneshot c := by
  -- what a command that is not a write can drive
  have hdrives : ∀ k, cmd.Drives c z k → TidyManagement c s cmd ∧ cmd.zsa.Drives cmd.zsaso k ∧
      (cmd.selectAll = true ∨ z = lbaToZone c cmd.slba.toNat) := by
    intro k hk
    unfold NvmeCommand.Drives at hk
    split at hk
    · rename_i hw
      exact absurd (Or.inl hw) hop
    · rename_i hw
      exact absurd (Or.inr hw) hop
    · rename_i hm
      exact ⟨htidy hm, hk⟩
    · exact hk.elim
  refine (h.keeps (I := fun s' => ZonesCounted c s' ∧ (s'.zoneDescs z).zrwav = false ∧
    (s'.zoneDescs z).sinceOneshot c = (s.zoneDescs z).sinceOneshot c) ⟨hcount, hplain, rfl⟩ ?_).2
  rintro s1 s2 y k d hk hm ⟨hcount1, hz1, hs1⟩
  refine ⟨hcount1.move hm, ?_⟩
  rw [hm.descs]
  by_cases hyz : z = y
  swap
  · rw [Function.update_of_ne hyz]
    exact ⟨hz1, hs1⟩
  subst hyz
  rw [Function.update_self]
  obtain ⟨ht, hact, hsel⟩ := hdrives k hk
  cases hm.trans with
  | opens hd hst _ =>
      refine ⟨hz1, ?_⟩
      rw [← hs1, sinceOneshot_of_active (Or.inl hst),
        sinceOneshot_of_start (fun he => (hcount1.empty z hz he).1) hd]
  | opensZrwa => exact absurd hact ht.1
  | closes hd =>
      refine ⟨hz1, ?_⟩
      rw [← hs1, sinceOneshot_of_active (Or.inl hd), sinceOneshot_of_active (Or.inr rfl)]
  | finishes => exact ⟨hz1, (sinceOneshot_of_idle (Or.inr rfl)).trans (ht.2 (Or.inl hact) z hz hsel).symm⟩
  | resets => exact ⟨rfl, (sinceOneshot_of_idle (Or.inl rfl)).trans (ht.2 (Or.inr hact) z hz hsel).symm⟩
  | advances _ hadv _ =>
      cases hadv with
      | write => exact hact.elim
      | flush hzr _ _ => exact absurd (hz1.symm.trans hzr) (by decide)
  | fills _ hadv _ =>
      cases hadv with
      | write => exact hact.elim
      | flush hzr _ _ => exact absurd (hz1.symm.trans hzr) (by decide)

/-- A command that is not a write schedules nothing and touches no write buffer of a zone. -/
theorem znsProcNvmeIoCmd_frame (hc : c.Wf) (L : ZnsLatency τ) (req : NvmevRequest) {s : ZnsFtl τ}
    (h : ZonesCounted c s.toZoneTable) (hop : ¬ (req.cmd.opcode = .write ∨ req.cmd.opcode = .zoneAppend)) :
    Sat (fun _ => True) (fun r => r.2.zoneWriteBuffer = s.zoneWriteBuffer ∧ r.1.ops = [])
      (znsProcNvmeIoCmd c L req s) := by
  unfold znsProcNvmeIoCmd
  cases hcmd : req.cmd.opcode with
  | write => exact absurd (Or.inl hcmd) hop
  | zoneAppend => exact absurd (Or.inr hcmd) hop
  | read =>
      refine sat_nvmevAssert_bind trivial fun _ => ?_
      exact ⟨rfl, rfl⟩
  | zoneMgmtSend =>
      have hm := znsZmgmtSend_managed hc h req hcmd
      have hops : Sat (fun _ => True) (fun r => r.1.ops = []) (znsZmgmtSend c req s) := by
        unfold znsZmgmtSend
        dsimp only
        split
        · exact sat_bind_any fun _ => rfl
        · exact sat_bind_any fun _ => rfl
      cases hres : znsZmgmtSend c req s with
      | error e => trivial
      | ok r => exact ⟨(hm.of_eq_ok hres).2, hops.of_eq_ok hres⟩
  | flush | zoneMgmtRecv | other => exact ⟨rfl, rfl⟩

theorem Writable.not_full {s : ZnsFtl τ} {z slba : Nat} (h : Writable s z slba) :
    (s.zoneDescs z).state = .empty ∨ (s.zoneDescs z).state.Active := by
  unfold Writable at h
  cases hd : (s.zoneDescs z).state with
  | empty => exact Or.inl rfl
  | openedImpl => exact Or.inr (Or.inl (Or.inl rfl))
  | openedExpl => exact Or.inr (Or.inl (Or.inr rfl))
  | closed => exact Or.inr (Or.inr rfl)
  | full | readOnly | offline =>
      rw [hd] at h
      exact h.elim

/-- The account of a write that was accepted, by the descriptors before and after. -/
theorem accepted_account (hc : c.Below2Tib) {z : Nat} (hz : z < c.zp.nrZones) {d : ZoneDescriptor} (hf : d.Fits)
    (hzs : d.zslba = z * c.zoneLbas) (hcap : d.zoneCapacity = c.zoneLbas) (hplain : d.zrwav = false)
    (hd : d.state = .empty ∨ d.state.Active) {nrLba : Nat} (hpos : 0 < nrLba) (hle : nrLba ≤ 65536)
    (hone : checkBoundaryError c d.wp nrLba) (hend : EndsWell c d nrLba) {st : ZoneState} (hst : st.Opened)
    {L : ZnsLatency τ} {ops : List ZnsOp} (hops : Programs c L z d.wp nrLba ops) :
    d.sinceOneshot c + lbaToByte nrLba =
      released ops + ({ d with state := st }.advanced c z (u64 (d.wp + nrLba))).sinceOneshot c := by
  have hlt := hc.zone_end_lt hz
  have hlb := hc.zoneLbas_pos
  have hwp : d.wp < d.zslba + d.zoneCapacity := by
    rcases hd with he | ha
    · rw [hf.empty he, hcap]
      omega
    · exact hf.active ha
  have hroom : d.Room c z := ⟨hzs, hcap, hf.le_wp, hwp⟩
  have hin := (Advance.write (z := z) hplain hpos hle hone).in_zone hc hz
    (fun h => absurd (hplain.symm.trans h) (by decide)) hroom
  rw [Nat.succ_mul] at hlt
  have hu : u64 (d.wp + nrLba) = d.wp + nrLba := u64_of_lt (by omega)
  rw [hu] at hin ⊢
  rw [sinceOneshot_of_start hf.empty hd, write_account hc hz hroom hpos hin.2 hend hops]
  unfold ZoneDescriptor.advanced
  dsimp only
  rw [hc.zoneToSlba_eq (Nat.le_of_lt hz), ← hzs]
  split
  · rw [sinceOneshot_of_idle (Or.inr rfl)]
  · rw [sinceOneshot_of_active (d := { d with state := st, wp := d.wp + nrLba }) (Or.inl hst)]

section Steps

variable {L : ZnsLatency τ} {s : ZnsSys τ} (hwb : c.zp.zoneWbSize ≠ 0)
include hwb

theorem writeBufferOf_zone (z : Nat) : writeBufferOf c z = .zone z := if_pos hwb

/-- A tidy write keeps every account. -/
theorem ZnsWriteOutcome.balanced (hc : c.Below2Tib) {slot sqId now y : Nat}
    (hy : y < c.zp.nrZones) (hcount : ZonesCounted c s.ftl.toZoneTable)
    (hfit : AllFit c s.ftl.toZoneTable) (hwp : (s.ftl.zoneDescs y).wp < 2 ^ 64)
    (htidy : TidyWrite c s.ftl (s.slots slot) y) (hbal : ∀ z, z < c.zp.nrZones → ZnsBalanced c s z)
    {r : ZnsReply × ZnsFtl τ} (h : ZnsWriteOutcome c L ⟨s.slots slot, sqId, now⟩ s.ftl y r) :
    ∀ z, z < c.zp.nrZones → ZnsBalanced c (s.dispatched c slot r.1 r.2) z := by
  have hslba : (appended s.ftl y (s.slots slot)).slba.toNat = (s.slots slot).startLba (s.ftl.zoneDescs y) :=
    appended_slba hwp _
  have hb := writeBufferOf_zone hwb y
  intro z hz
  have hold := hbal z hz
  cases h with
  | refused _ =>
      refine ⟨hold.size, hold.plain, ?_⟩
      show _ + pendingFor (s.pending ++ []) z + _ = _
      rw [List.append_nil]
      exact hold.account
  | failed _ hroom hbad =>
      -- a tidy write does not fail
      rw [hb] at hroom
      rw [hslba] at hbad
      rcases htidy with hshort | ⟨hok, -⟩
      · exact absurd hshort (Nat.not_lt.mpr hroom)
      · exact absurd hok hbad
  | @done target ops s' st hroom hok hops hbuf hst hdescs _ =>
      have hopsbuf : ∀ op ∈ ops, op.buffer = .zone y := by
        obtain ⟨tm, xfer, rfl⟩ := hops
        rw [← hb]
        exact writeProgramLoop_buffer L _ _ _ _ _ _ _ nofun
      rw [hb] at hroom
      have hroom : lbaToByte (s.slots slot).nrLba ≤ (s.ftl.zoneWriteBuffer y).remaining := hroom
      have hbufz : s'.zoneWriteBuffer z = (s.ftl.charged c y (lbaToByte (s.slots slot).nrLba)).buf (.zone z) :=
        congrFun hbuf (.zone z)
      unfold ZnsFtl.charged at hbufz
      rw [hb] at hbufz
      by_cases hzy : z = y
      · subst hzy
        rw [ZnsFtl.buf_setBuf_self] at hbufz
        have hend : EndsWell c (s.ftl.zoneDescs z) (s.slots slot).nrLba := by
          rcases htidy with hshort | ⟨-, hend⟩
          · exact absurd hshort (Nat.not_lt.mpr hroom)
          · exact hend
        have hone := hok.one_zone
        rw [hok.at_wp] at hone
        have hdz : s'.zoneDescs z = { s.ftl.zoneDescs z with state := st }.advanced c z
            (u64 ((s.ftl.zoneDescs z).wp + (s.slots slot).nrLba)) := by
          rw [hdescs, Function.update_self]
        have hacc : (s.ftl.zoneDescs z).sinceOneshot c + lbaToByte (s.slots slot).nrLba =
            released ops + (s'.zoneDescs z).sinceOneshot c := by
          rw [hdz]
          exact accepted_account hc hz (hfit z hz fun h => absurd (hold.plain.symm.trans h) (by decide))
            (hcount.zslba z hz) (hcount.cap z hz) hold.plain hok.writable.not_full (s.slots slot).nrLba_pos
            (s.slots slot).nrLba_le hone hend hst hops
        have hplain' : (s'.zoneDescs z).zrwav = false := by
          rw [hdz]
          unfold ZoneDescriptor.advanced
          split <;> exact hold.plain
        refine ⟨?_, hplain', ?_⟩
        · show (s'.zoneWriteBuffer z).size = _
          rw [hbufz]
          exact hold.size
        · show (s'.zoneWriteBuffer z).remaining + pendingFor (s.pending ++ ops) z + (s'.zoneDescs z).sinceOneshot c = _
          have hbal := hold.account
          rw [hbufz, pendingFor_append, pendingFor_self hopsbuf]
          show (s.ftl.zoneWriteBuffer z).remaining - lbaToByte (s.slots slot).nrLba + _ + _ = _
          omega
      · -- another zone
        rw [ZnsFtl.buf_setBuf_of_ne _ _ (by simpa using hzy)] at hbufz
        have hbufz : s'.zoneWriteBuffer z = s.ftl.zoneWriteBuffer z := hbufz
        have hdz : s'.zoneDescs z = s.ftl.zoneDescs z := by rw [hdescs, Function.update_of_ne hzy]
        refine ⟨(congrArg Buffer.size hbufz).trans hold.size, (congrArg (·.zrwav) hdz).trans hold.plain, ?_⟩
        show (s'.zoneWriteBuffer z).remaining + pendingFor (s.pending ++ ops) z + (s'.zoneDescs z).sinceOneshot c = _
        rw [hbufz, hdz, pendingFor_append, pendingFor_other hopsbuf hzy, Nat.add_zero]
        exact hold.account

/-- A tidy dispatch keeps every account. -/
theorem dispatch_balanced (hc : c.Below2Tib) {slot sqId now : Nat} (hcount : ZonesCounted c s.ftl.toZoneTable)
    (hfit : AllFit c s.ftl.toZoneTable) (hwp : ∀ z, z < c.zp.nrZones → (s.ftl.zoneDescs z).wp < 2 ^ 64)
    (htidy : Tidy c s (.dispatch slot sqId now)) (hbal : ∀ z, z < c.zp.nrZones → ZnsBalanced c s z) :
    Sat (fun _ => True) (fun r => ∀ z, z < c.zp.nrZones → ZnsBalanced c (s.dispatched c slot r.1 r.2) z)
      (znsProcNvmeIoCmd c L ⟨s.slots slot, sqId, now⟩ s.ftl) := by
  by_cases hop : (s.slots slot).opcode = .write ∨ (s.slots slot).opcode = .zoneAppend
  · rw [znsProcNvmeIoCmd_write hop, znsWrite_eq hc.toWf]
    refine sat_nvmevAssert_bind trivial fun hlt => ?_
    rw [if_pos (hbal _ hlt).plain]
    refine (znsWriteSeq_outcome hc.toWf L ⟨s.slots slot, sqId, now⟩ hcount (hbal _ hlt).plain).mono fun r hr => ?_
    exact hr.2.balanced hwb hc hlt hcount hfit (hwp _ hlt) (htidy.1 hop) hbal
  · have hframe := znsProcNvmeIoCmd_frame hc.toWf L ⟨s.slots slot, sqId, now⟩ hcount hop
    have hmoves := znsProcNvmeIoCmd_moves hc.toWf L ⟨s.slots slot, sqId, now⟩ hcount
    cases hres : znsProcNvmeIoCmd c L ⟨s.slots slot, sqId, now⟩ s.ftl with
    | error e => trivial
    | ok r =>
        intro z hz
        obtain ⟨hbuf, hops⟩ := hframe.of_eq_ok hres
        obtain ⟨hplain, hsince⟩ := (hmoves.of_eq_ok hres).keeps_since hop htidy.2 hcount hz (hbal z hz).plain
        refine ⟨?_, hplain, ?_⟩
        · show (r.2.zoneWriteBuffer z).size = _
          rw [hbuf]
          exact (hbal z hz).size
        · show (r.2.zoneWriteBuffer z).remaining + pendingFor (s.pending ++ r.1.ops) z +
            (r.2.zoneDescs z).sinceOneshot c = _
          rw [hbuf, hops, List.append_nil, hsince]
          exact (hbal z hz).account

end Steps

/-- Completing an operation takes its bytes out of what is pending. -/
theorem pendingFor_eraseIdx {ops : List ZnsOp} {i : Nat} {op : ZnsOp} (h : ops[i]? = some op) (z : Nat) :
    pendingFor (ops.eraseIdx i) z + (if op.buffer = .zone z then op.buffsToRelease else 0) = pendingFor ops z := by
  obtain ⟨hi, rfl⟩ := List.getElem?_eq_some_iff.mp h
  have hperm := List.getElem_cons_eraseIdx_perm hi
  have hsum : pendingFor (ops[i] :: ops.eraseIdx i) z = pendingFor ops z :=
    ((hperm.filter _).map _).sum_eq
  rw [← hsum]
  unfold pendingFor
  by_cases hb : ops[i].buffer = .zone z
  · rw [if_pos hb, List.filter_cons_of_pos (by simpa using hb)]
    simp only [released, List.map_cons, List.sum_cons]
    omega
  · rw [if_neg hb, List.filter_cons_of_neg (by simpa using hb), Nat.add_zero]

/-- A completed release keeps every account. -/
theorem release_balanced {s : ZnsSys τ} {i : Nat} {op : ZnsOp} (h : s.pending[i]? = some op)
    (hwb : c.zp.zoneWbSize < 2 ^ 64) {z : Nat} (hbal : ZnsBalanced c s z) :
    ZnsBalanced c { s with
      ftl := s.ftl.setBuf op.buffer (bufferRelease (s.ftl.buf op.buffer) op.buffsToRelease)
      pending := s.pending.eraseIdx i } z := by
  have herase := pendingFor_eraseIdx h z
  have haccount := hbal.account
  have htable := s.ftl.setBuf_toZoneTable op.buffer (bufferRelease (s.ftl.buf op.buffer) op.buffsToRelease)
  have hdz : (s.ftl.setBuf op.buffer (bufferRelease (s.ftl.buf op.buffer) op.buffsToRelease)).zoneDescs z =
      s.ftl.zoneDescs z := by rw [htable]
  by_cases hb : op.buffer = .zone z
  · rw [if_pos hb] at herase
    have hbuf : (s.ftl.setBuf op.buffer (bufferRelease (s.ftl.buf op.buffer) op.buffsToRelease)).zoneWriteBuffer z =
        bufferRelease (s.ftl.zoneWriteBuffer z) op.buffsToRelease := by
      rw [hb]
      exact ZnsFtl.buf_setBuf_self s.ftl (.zone z) _
    refine ⟨(congrArg Buffer.size hbuf).trans hbal.size, (congrArg (·.zrwav) hdz).trans hbal.plain, ?_⟩
    dsimp only
    rw [hbuf, hdz]
    show u64 _ + _ + _ = _
    rw [u64_of_lt (by omega)]
    omega
  · rw [if_neg hb, Nat.add_zero] at herase
    have hbuf : (s.ftl.setBuf op.buffer (bufferRelease (s.ftl.buf op.buffer) op.buffsToRelease)).zoneWriteBuffer z =
        s.ftl.zoneWriteBuffer z :=
      ZnsFtl.buf_setBuf_of_ne s.ftl _ (Ne.symm hb)
    refine ⟨(congrArg Buffer.size hbuf).trans hbal.size, (congrArg (·.zrwav) hdz).trans hbal.plain, ?_⟩
    dsimp only
    rw [hbuf, hdz, herase]
    exact haccount

/-! ## Whole runs -/

variable {L : ZnsLatency τ} {s : ZnsSys τ}

/-- **In a run of tidy commands every account balances.** -/
theorem ZnsRun.balanced (hc : c.Below2Tib) (hwb : 0 < c.zp.zoneWbSize) (hr : ZnsRun c L (Tidy c) s) :
    ∀ z, z < c.zp.nrZones → ZnsBalanced c s z := by
  induction hr with
  | boot tm slots => exact fun z _ => ⟨rfl, rfl, rfl⟩
  | @step s s' a hr hg h ih =>
      cases a with
      | submit slot cmd =>
          cases h
          exact fun z hz => ⟨(ih z hz).size, (ih z hz).plain, (ih z hz).account⟩
      | dispatch slot sqId now =>
          obtain ⟨r, hres, rfl⟩ := ZnsSys.act_dispatch h
          exact (dispatch_balanced (Nat.pos_iff_ne_zero.mp hwb) hc (hr.counted hc.toWf) (hr.allFit hc)
            (hr.wp_lt hc.toWf) hg ih).of_eq_ok hres
      | copy i =>
          unfold ZnsSys.act at h
          dsimp only at h
          split at h <;> cases h
          · exact ih
          · exact fun z hz => ⟨(ih z hz).size, (ih z hz).plain, (ih z hz).account⟩
      | release i =>
          unfold ZnsSys.act at h
          dsimp only at h
          split at h <;> cases h
          · exact ih
          · rename_i op hop
            exact fun z hz => release_balanced hop (Nat.lt_trans hc.zoneWbSize_lt (by decide)) (ih z hz)

/-- **Zone write-buffer conservation.** In a run of tidy commands, when all releases scheduled for a zone have
    completed: its buffer is charged with exactly the bytes written since the last complete oneshot page, which
    are 0 in an EMPTY or FULL zone; in particular it is never above its size, and an empty zone has all of it. -/
theorem zone_buffer_balanced (hc : c.Below2Tib) (hwb : 0 < c.zp.zoneWbSize) (hr : ZnsRun c L (Tidy c) s) {z : Nat}
    (hz : z < c.zp.nrZones) (hdone : ∀ op ∈ s.pending, op.buffer ≠ .zone z) :
    (s.ftl.zoneWriteBuffer z).size - (s.ftl.zoneWriteBuffer z).remaining =
        (if (s.ftl.zoneDescs z).state = .empty ∨ (s.ftl.zoneDescs z).state = .full then 0
          else lbaToByte ((s.ftl.zoneDescs z).wp - (s.ftl.zoneDescs z).zslba) % c.oneshotBytes) ∧
      (s.ftl.zoneWriteBuffer z).remaining ≤ (s.ftl.zoneWriteBuffer z).size ∧
      ((s.ftl.zoneDescs z).state = .empty →
        (s.ftl.zoneWriteBuffer z).remaining = (s.ftl.zoneWriteBuffer z).size) := by
  have hbal := hr.balanced hc hwb z hz
  have haccount := hbal.account
  have hnone : pendingFor s.pending z = 0 := by
    rw [pendingFor, List.filter_eq_nil_iff.mpr (fun op hop => by simpa using hdone op hop)]
    rfl
  rw [hbal.size]
  refine ⟨?_, by omega, ?_⟩
  · show _ = (s.ftl.zoneDescs z).sinceOneshot c
    omega
  · intro he
    rw [sinceOneshot_of_idle (Or.inl he)] at haccount
    omega

/-- One and a half oneshot pages, with the release of the first one completed. -/
theorem zone_buffer_balanced_wd :
    ∃ s : ZnsSys Unit, s.pending = [] ∧ (s.ftl.zoneDescs 0).wp = 288 ∧
      (s.ftl.zoneWriteBuffer 0).size - (s.ftl.zoneWriteBuffer 0).remaining = 49152 := by
  obtain ⟨s, hrun, hobs⟩ := exists_znsRun wdSmall (fun s a => decide (Tidy wdSmall s a))
    (sendActs 0 (znsCmd .write 0 288) ++ [.release 0])
    (fun s => (s.pending, (s.ftl.zoneDescs 0).wp, (s.ftl.zoneDescs 0).zslba, (s.ftl.zoneDescs 0).state))
    ([], 288, 0, .openedImpl) (by decide +kernel)
  obtain ⟨hpend, hobs⟩ := Prod.mk.inj hobs
  obtain ⟨hwp, hobs⟩ := Prod.mk.inj hobs
  obtain ⟨hzs, hstate⟩ := Prod.mk.inj hobs
  have htidy : ZnsRun wdSmall .instant (Tidy wdSmall) s := hrun.mono fun s a h => of_decide_eq_true h
  have hbal := (zone_buffer_balanced wdSmall_below2Tib (by decide +kernel) htidy (z := 0) (by decide +kernel)
    (by rw [hpend]; exact nofun)).1
  rw [hwp, hzs, hstate] at hbal
  exact ⟨s, hpend, hwp, hbal⟩

/-- **Accounts that do not balance.** A write that ends inside the last page of a oneshot page: when its release
    has completed the buffer has more left than its size. And a write of one page, after which the zone is
    reset: the EMPTY zone misses a page of its buffer for good. -/
theorem zone_buffer_unbalanced :
    (∃ s : ZnsSys Unit, ZnsRun wdSmall .instant (fun _ _ => True) s ∧ (s.log 0).length = 1 ∧ s.pending = [] ∧
      (s.ftl.zoneWriteBuffer 0).size < (s.ftl.zoneWriteBuffer 0).remaining) ∧
    ∃ s : ZnsSys Unit, ZnsRun wdSmall .instant (fun _ _ => True) s ∧ s.uncopied.length = 1 ∧ s.pending = [] ∧
      (s.ftl.zoneDescs 0).state = .empty ∧
      (s.ftl.zoneWriteBuffer 0).remaining < (s.ftl.zoneWriteBuffer 0).size := by
  constructor
  · obtain ⟨s, hrun, hobs⟩ := exists_znsRun wdSmall (fun _ _ => true)
      (sendActs 0 (znsCmd .write 0 188) ++ [.release 0])
      (fun s => ((s.log 0).length, s.pending, s.ftl.zoneWriteBuffer 0)) (1, [], ⟨983040, 985088⟩) (by decide +kernel)
    obtain ⟨hlog, hobs⟩ := Prod.mk.inj hobs
    obtain ⟨hpend, hbuf⟩ := Prod.mk.inj hobs
    refine ⟨s, hrun.mono fun _ _ _ => trivial, hlog, hpend, ?_⟩
    rw [hbuf]
    decide
  · obtain ⟨s, hrun, hobs⟩ := exists_znsRun wdSmall (fun _ _ => true)
      (sendActs 0 (znsCmd .write 0 8) ++ sendActs 1 (mgmtCmd 0 0x4))
      (fun s => (s.uncopied.length, s.pending, (s.ftl.zoneDescs 0).state, s.ftl.zoneWriteBuffer 0))
      (1, [], .empty, ⟨983040, 978944⟩) (by decide +kernel)
    obtain ⟨hun, hobs⟩ := Prod.mk.inj hobs
    obtain ⟨hpend, hobs⟩ := Prod.mk.inj hobs
    obtain ⟨hstate, hbuf⟩ := Prod.mk.inj hobs
    refine ⟨s, hrun.mono fun _ _ _ => trivial, hun, hpend, hstate, ?_⟩
    rw [hbuf]
    decide

end NvmeVirt
