import NvmeVirt.Ftl.Safety
import NvmeVirt.Fdp.Run
import Mathlib.Data.List.Perm.Basic

/-!
# `Fdp.Read` — what a read command reads from flash (`fdp_read`, `conv_read`)

A read command goes over its LPNs stripe by stripe, one stripe per partition, and aggregates neighbouring
pages of one flash page into a single `NAND_READ`. The flash commands it issues do not depend on the latency
model, so they have a definition of their own, `nandReads`; `readCommand_tm` says that the handler hands
exactly these to the latency model, in this order.

The loop invariant of a stripe is `Pending`: the pages counted in `xfer_size` lie in the flash page of
`prev_ppa`. At the end every mapped page of the stripe belongs to one command (`stripeReads_merged`), and
because no two LPNs share a page a command cannot be larger than a flash page.
-/

namespace NvmeVirt

variable {τ : Type} {c : NsConfig} {L : Nat → Latency τ} {ns : FdpNs τ}

/-! ## The order of the visits -/

/-- The start values of the outer loop. -/
def readStarts (c : NsConfig) (cmd : NvmeCommand) : List Nat :=
  ((List.range c.nrParts).map (startLpn c cmd + ·)).filter (· ≤ endLpn c cmd)

/-- The LPNs of the inner loop from `start` on. -/
def stripeLpns (c : NsConfig) (last start : Nat) : List Nat :=
  (List.range ((last - start) / c.nrParts + 1)).map fun j => start + j * c.nrParts

/-- The table entries the inner loops look at: the partition, and the LPN. -/
def readVisits (c : NsConfig) (cmd : NvmeCommand) : List (Nat × Nat) :=
  (readStarts c cmd).flatMap fun start =>
    (stripeLpns c (endLpn c cmd) start).map fun lpn => (start % c.nrParts, lpn)

theorem mem_readStarts {cmd : NvmeCommand} {start : Nat} :
    start ∈ readStarts c cmd ↔
      startLpn c cmd ≤ start ∧ start < startLpn c cmd + c.nrParts ∧ start ≤ endLpn c cmd := by
  simp only [readStarts, List.mem_filter, List.mem_map, List.mem_range, decide_eq_true_eq]
  constructor
  · rintro ⟨⟨i, hi, rfl⟩, hle⟩
    omega
  · rintro ⟨hlo, hhi, hle⟩
    exact ⟨⟨start - startLpn c cmd, by omega, by omega⟩, hle⟩

theorem mem_stripeLpns (hp : 0 < c.nrParts) {last start lpn : Nat} (hs : start ≤ last) :
    lpn ∈ stripeLpns c last start ↔ start ≤ lpn ∧ lpn ≤ last ∧ lpn % c.nrParts = start % c.nrParts := by
  simp only [stripeLpns, List.mem_map, List.mem_range]
  constructor
  · rintro ⟨j, hj, rfl⟩
    have hle : j * c.nrParts ≤ last - start := (Nat.le_div_iff_mul_le hp).mp (Nat.lt_succ_iff.mp hj)
    exact ⟨by omega, by omega, Nat.add_mul_mod_self_right ..⟩
  · rintro ⟨hlo, hhi, hmod⟩
    obtain ⟨j, hj⟩ : c.nrParts ∣ lpn - start := (Nat.modEq_iff_dvd' hlo).mp (Eq.symm hmod)
    rw [Nat.mul_comm] at hj
    refine ⟨j, Nat.lt_succ_iff.mpr ((Nat.le_div_iff_mul_le hp).mpr ?_), ?_⟩ <;> omega

theorem stripeLpns_nodup (hp : 0 < c.nrParts) (last start : Nat) : (stripeLpns c last start).Nodup := by
  refine List.Nodup.map (fun a b hab => ?_) List.nodup_range
  exact Nat.eq_of_mul_eq_mul_right hp (Nat.add_left_cancel hab)

theorem readStarts_nodup (c : NsConfig) (cmd : NvmeCommand) : (readStarts c cmd).Nodup :=
  (List.nodup_range.map fun _ _ hab => Nat.add_left_cancel hab).filter _

/-- Two start values of one command belong to different partitions. -/
theorem readStarts_mod_inj {cmd : NvmeCommand} {a b : Nat} (ha : a ∈ readStarts c cmd)
    (hb : b ∈ readStarts c cmd) (h : a % c.nrParts = b % c.nrParts) : a = b := by
  obtain ⟨ha1, ha2, _⟩ := mem_readStarts.mp ha
  obtain ⟨hb1, hb2, _⟩ := mem_readStarts.mp hb
  rcases Nat.le_total a b with hab | hab
  · have hdvd : c.nrParts ∣ b - a := (Nat.modEq_iff_dvd' hab).mp h
    have := Nat.eq_zero_of_dvd_of_lt hdvd (by omega)
    omega
  · have hdvd : c.nrParts ∣ a - b := (Nat.modEq_iff_dvd' hab).mp h.symm
    have := Nat.eq_zero_of_dvd_of_lt hdvd (by omega)
    omega

/-- **Each LPN of the command is visited once, in its own partition.** -/
theorem readVisits_perm (hp : 0 < c.nrParts) (cmd : NvmeCommand) :
    (readVisits c cmd).Perm ((cmdLpns c cmd).map fun lpn => (lpn % c.nrParts, lpn)) := by
  have hleft : (readVisits c cmd).Nodup := by
    refine List.nodup_flatMap.mpr ⟨?_, ?_⟩
    · intro start _
      exact (stripeLpns_nodup hp _ _).map fun _ _ hab => (Prod.mk.inj hab).2
    · refine (readStarts_nodup c cmd).imp_of_mem ?_
      intro a b ha hb hab x hxa hxb
      obtain ⟨_, _, rfl⟩ := List.mem_map.mp hxa
      obtain ⟨_, _, hx⟩ := List.mem_map.mp hxb
      exact hab (readStarts_mod_inj ha hb (Prod.mk.inj hx).1.symm)
  have hright : ((cmdLpns c cmd).map fun lpn => (lpn % c.nrParts, lpn)).Nodup :=
    (List.nodup_range' 1).map fun _ _ hab => (Prod.mk.inj hab).2
  refine (List.perm_ext_iff_of_nodup hleft hright).mpr ?_
  rintro ⟨i, lpn⟩
  simp only [readVisits, List.mem_flatMap, List.mem_map, Prod.mk.injEq, cmdLpns, List.mem_range'_1]
  constructor
  · rintro ⟨start, hstart, x, hx, rfl, rfl⟩
    obtain ⟨hlo, _, hle⟩ := mem_readStarts.mp hstart
    obtain ⟨hsx, hxl, hmod⟩ := (mem_stripeLpns hp hle).mp hx
    exact ⟨x, by omega, hmod, rfl⟩
  · rintro ⟨x, hx, rfl, rfl⟩
    -- the stripe of `x` starts at the first LPN of the command on the same partition
    have hlt := Nat.mod_lt (x - startLpn c cmd) hp
    have hle := Nat.mod_le (x - startLpn c cmd) c.nrParts
    have hmod : x % c.nrParts = (startLpn c cmd + (x - startLpn c cmd) % c.nrParts) % c.nrParts := by
      rw [Nat.add_mod_mod, Nat.add_sub_cancel' hx.1]
    refine ⟨startLpn c cmd + (x - startLpn c cmd) % c.nrParts, mem_readStarts.mpr (by omega), x, ?_, ?_, rfl⟩
    · exact (mem_stripeLpns hp (by omega)).mpr ⟨by omega, by omega, hmod⟩
    · exact hmod.symm

/-! ## The commands of one stripe -/

/-- The flash read that has been aggregated, if there is one. -/
def pendingRead (stime : Nat) (prev : Option Ppa) (xferSize : Nat) : List NandCmd :=
  match prev with
  | none => []
  | some p => if 0 < xferSize then [⟨.user, .read, xferSize, stime, true, p⟩] else []

/-- The flash reads issued for the LPNs of a stripe (numbered on their partition), from given `prev_ppa` and
    `xfer_size`. -/
def stripeReads (spp : SsdParams) (f : FdpFtl) (stime : Nat) :
    List Nat → Option Ppa → Nat → List NandCmd
  | [], prev, xfer => pendingRead stime prev xfer
  | l :: ls, prev, xfer =>
      match f.maptbl l with
      | none => stripeReads spp f stime ls prev xfer
      | some cur =>
          if ¬ validPpa spp cur then stripeReads spp f stime ls prev xfer
          else if (prev.any fun p => isSameFlashPage spp cur p) then
            stripeReads spp f stime ls prev (xfer + spp.pgsz)
          else pendingRead stime prev xfer ++ stripeReads spp f stime ls (some cur) spp.pgsz

/-- Hand flash commands to the latency model of one partition. -/
def advanceAll (L : Latency τ) (tm : τ) (cmds : List NandCmd) : τ :=
  cmds.foldl (fun tm cmd => (L.advanceNand tm cmd).1) tm

theorem advanceAll_append (L : Latency τ) (tm : τ) (a b : List NandCmd) :
    advanceAll L tm (a ++ b) = advanceAll L (advanceAll L tm a) b := List.foldl_append

theorem issueRead_tm (L : Latency τ) (stime : Nat) (st : ReadLoop τ) :
    (issueRead L stime st).tm = advanceAll L st.tm (pendingRead stime st.prevPpa st.xferSize) := by
  unfold issueRead pendingRead
  cases st.prevPpa with
  | none => rfl
  | some p =>
      dsimp only
      split <;> rfl

theorem readPages_tm (spp : SsdParams) (f : FdpFtl) (L : Latency τ) (stime : Nat) (ls : List Nat)
    (st : ReadLoop τ) :
    (issueRead L stime (ls.foldl (fun st l => readPage spp f L stime l st) st)).tm =
      advanceAll L st.tm (stripeReads spp f stime ls st.prevPpa st.xferSize) := by
  induction ls generalizing st with
  | nil => exact issueRead_tm L stime st
  | cons l ls ih =>
      rw [List.foldl_cons, ih, readPage, stripeReads]
      cases f.maptbl l with
      | none => rfl
      | some cur =>
          dsimp only
          split
          · rfl
          · split
            · rfl
            · rw [advanceAll_append, ← issueRead_tm]

/-! ## The commands of a read -/

/-- The time at which the flash reads of a command start. -/
def readStime (c : NsConfig) (req : NvmevRequest) : Nat :=
  req.nsecsStart +
    if req.cmd.bytes c.lbaBits ≤ 4 * 2 ^ 10 * c.nrParts then c.ftl.sp.fw4kbRdLat else c.ftl.sp.fwRdLat

/-- The flash reads of the stripe from `start` on. -/
def readsFrom (c : NsConfig) (ftls : Nat → FdpFtl) (req : NvmevRequest) (start : Nat) : List NandCmd :=
  stripeReads c.ftl.sp (ftls (start % c.nrParts)) (readStime c req)
    ((stripeLpns c (endLpn c req.cmd) start).map (· / c.nrParts))
    ((ftls (start % c.nrParts)).maptbl (start / c.nrParts)) 0

/-- The flash reads of a command, with their partitions. -/
def nandReads (c : NsConfig) (ftls : Nat → FdpFtl) (req : NvmevRequest) : List (Nat × NandCmd) :=
  (readStarts c req.cmd).flatMap fun start => (readsFrom c ftls req start).map (start % c.nrParts, ·)

theorem readStripe_tm (req : NvmevRequest) (r : Nat × τ) (start : Nat) :
    (readStripe c L ns (readStime c req) (endLpn c req.cmd) r start).2 =
      advanceAll (L (start % c.nrParts)) r.2 (readsFrom c ns.ftls req start) := by
  have h := readPages_tm c.ftl.sp (ns.ftls (start % c.nrParts)) (L (start % c.nrParts)) (readStime c req)
    ((stripeLpns c (endLpn c req.cmd) start).map (· / c.nrParts))
    ⟨0, (ns.ftls (start % c.nrParts)).maptbl (start / c.nrParts), r.1, r.2⟩
  rw [List.foldl_map] at h
  exact h

/-- **The handler issues exactly these reads**, in this order, whatever the latency model. -/
theorem readCommand_tm {req : NvmevRequest} (h : ¬ outOfRange c req.cmd) :
    (readCommand c L req ns).2 =
      { ns with tm := (nandReads c ns.ftls req).foldl (fun tm x => ((L x.1).advanceNand tm x.2).1) ns.tm } := by
  have hfold : ∀ (starts : List Nat) (r : Nat × τ),
      (starts.foldl (readStripe c L ns (readStime c req) (endLpn c req.cmd)) r).2 =
        (starts.flatMap fun start => (readsFrom c ns.ftls req start).map (start % c.nrParts, ·)).foldl
          (fun tm x => ((L x.1).advanceNand tm x.2).1) r.2 := by
    intro starts
    induction starts with
    | nil => exact fun r => rfl
    | cons start starts ih =>
        intro r
        rw [List.foldl_cons, ih, List.flatMap_cons, List.foldl_append, List.foldl_map, readStripe_tm]
        rfl
  rw [readCommand, if_neg h]
  exact congrArg (fun tm => { ns with tm := tm }) (hfold (readStarts c req.cmd) (req.nsecsStart, ns.tm))

/-! ## What a command merges -/

/-- `cmd` reads the pages of the LPNs `ls`, all of one flash page. -/
structure MergedRead (spp : SsdParams) (f : FdpFtl) (cmd : NandCmd) (ls : List Nat) : Prop where
  is_read : cmd.cmd = .read
  nonempty : ls ≠ []
  xfer_size : cmd.xferSize = spp.pgsz * ls.length
  same_page : ∀ l ∈ ls, ∃ p, f.maptbl l = some p ∧ isSameFlashPage spp p cmd.ppa = true

/-- A stripe's commands, each with the LPNs it reads: together they are the mapped LPNs of the stripe, in
    order. -/
def MergedStripe (spp : SsdParams) (f : FdpFtl) (cmds : List NandCmd) (ls : List Nat) : Prop :=
  ∃ groups : List (NandCmd × List Nat), groups.map Prod.fst = cmds ∧
    groups.flatMap Prod.snd = ls ∧ ∀ g ∈ groups, MergedRead spp f g.1 g.2

/-- Every entry of the mapping table is an address inside the geometry, and no two are the same page. -/
structure TableSound (spp : SsdParams) (f : FdpFtl) : Prop where
  valid : ∀ lpn p, f.maptbl lpn = some p → validPpa spp p
  inj : ∀ lpn lpn' p, f.maptbl lpn = some p → f.maptbl lpn' = some p → lpn = lpn'

/-- The loop invariant: the pages counted so far are those of `ls`, in the flash page of `prev`. -/
structure Pending (spp : SsdParams) (f : FdpFtl) (prev : Option Ppa) (xfer : Nat) (ls : List Nat) : Prop where
  xfer_eq : xfer = spp.pgsz * ls.length
  same_page : ∀ l ∈ ls, ∃ p q, prev = some p ∧ f.maptbl l = some q ∧ isSameFlashPage spp q p = true

section stripe

variable {spp : SsdParams} {f : FdpFtl} {xfer : Nat} {prev : Option Ppa} {ls : List Nat}

theorem isSameFlashPage_refl (spp : SsdParams) (p : Ppa) : isSameFlashPage spp p p = true := by
  simp [isSameFlashPage]

/-- Issuing what is pending makes a command of it. -/
theorem Pending.issue (h : Pending spp f prev xfer ls) (hpgsz : 0 < spp.pgsz) (stime : Nat) :
    MergedStripe spp f (pendingRead stime prev xfer) ls := by
  cases ls with
  | nil =>
      refine ⟨[], ?_, rfl, List.forall_mem_nil _⟩
      rw [h.xfer_eq]
      unfold pendingRead
      cases prev <;> rfl
  | cons l ls =>
      obtain ⟨p, _, rfl, _⟩ := h.same_page l (List.mem_cons_self ..)
      have hpos : 0 < xfer := by
        rw [h.xfer_eq]
        exact Nat.mul_pos hpgsz (Nat.succ_pos _)
      refine ⟨[(⟨.user, .read, xfer, stime, true, p⟩, l :: ls)], ?_, by simp, ?_⟩
      · simp [pendingRead, hpos]
      · intro g hg
        obtain rfl := List.mem_singleton.mp hg
        refine ⟨rfl, List.cons_ne_nil _ _, h.xfer_eq, ?_⟩
        intro x hx
        obtain ⟨p', q, hp', hq, hsame⟩ := h.same_page x hx
        obtain rfl := Option.some.inj hp'
        exact ⟨q, hq, hsame⟩

theorem MergedStripe.append {cmds cmds' : List NandCmd} {ls' : List Nat} (h : MergedStripe spp f cmds ls)
    (h' : MergedStripe spp f cmds' ls') : MergedStripe spp f (cmds ++ cmds') (ls ++ ls') := by
  obtain ⟨groups, rfl, rfl, hall⟩ := h
  obtain ⟨groups', rfl, rfl, hall'⟩ := h'
  refine ⟨groups ++ groups', List.map_append .., List.flatMap_append .., ?_⟩
  intro g hg
  rcases List.mem_append.mp hg with hg | hg
  · exact hall g hg
  · exact hall' g hg

/-- **One stripe**: every mapped LPN of it is read by exactly one command. -/
theorem stripeReads_merged (hf : TableSound spp f) (hpgsz : 0 < spp.pgsz) (stime : Nat) (todo : List Nat)
    (h : Pending spp f prev xfer ls) :
    MergedStripe spp f (stripeReads spp f stime todo prev xfer)
      (ls ++ todo.filter fun l => (f.maptbl l).isSome) := by
  induction todo generalizing prev xfer ls with
  | nil =>
      rw [List.filter_nil, List.append_nil]
      exact h.issue hpgsz stime
  | cons l todo ih =>
      rw [stripeReads]
      cases hl : f.maptbl l with
      | none =>
          rw [List.filter_cons_of_neg (by simp [hl])]
          exact ih h
      | some cur =>
          rw [List.filter_cons_of_pos (by simp [hl]), List.append_cons]
          dsimp only
          rw [if_neg (not_not_intro (hf.valid l cur hl))]
          by_cases hsame : (prev.any fun p => isSameFlashPage spp cur p) = true
          · -- one more page of the flash page
            rw [if_pos hsame]
            obtain ⟨p, hp, hsame⟩ : ∃ p, prev = some p ∧ isSameFlashPage spp cur p = true := by
              cases prev with
              | none => cases hsame
              | some p => exact ⟨p, rfl, hsame⟩
            refine ih ⟨?_, ?_⟩
            · rw [h.xfer_eq, List.length_append, List.length_singleton, Nat.mul_add, Nat.mul_one]
            · intro x hx
              rcases List.mem_append.mp hx with hx | hx
              · exact h.same_page x hx
              · obtain rfl := List.mem_singleton.mp hx
                exact ⟨p, cur, hp, hl, hsame⟩
          · -- the flash page changes: what was pending is issued
            rw [if_neg hsame, List.append_assoc]
            refine (h.issue hpgsz stime).append (ih ⟨by simp, ?_⟩)
            intro x hx
            obtain rfl := List.mem_singleton.mp hx
            exact ⟨cur, cur, rfl, hl, isSameFlashPage_refl spp cur⟩

/-- A flash page has as many pages as fit it, so that is the most a command can merge. -/
theorem MergedRead.length_le {cmd : NandCmd} (hf : TableSound spp f) (hpos : 0 < spp.pgsPerFlashpg)
    (h : MergedRead spp f cmd ls) (hnd : ls.Nodup) : ls.length ≤ spp.pgsPerFlashpg := by
  -- the page number inside the flash page tells the LPNs apart
  let place : Nat → Nat := fun l => ((f.maptbl l).map fun p => p.pg % spp.pgsPerFlashpg).getD 0
  have hinj : ∀ a ∈ ls, ∀ b ∈ ls, place a = place b → a = b := by
    intro a ha b hb hab
    obtain ⟨p, hp, hsp⟩ := h.same_page a ha
    obtain ⟨q, hq, hsq⟩ := h.same_page b hb
    simp only [isSameFlashPage, Bool.decide_and, Bool.and_eq_true, decide_eq_true_eq] at hsp hsq
    simp only [place, hp, hq, Option.map_some, Option.getD_some] at hab
    have hpg : p.pg = q.pg := by
      rw [← Nat.div_add_mod p.pg spp.pgsPerFlashpg, ← Nat.div_add_mod q.pg spp.pgsPerFlashpg, hsp.2, hsq.2,
        hab]
    have hblk : p.blkAddr = q.blkAddr := hsp.1.trans hsq.1.symm
    have hpq : p = q := by
      cases p
      cases q
      simp_all [Ppa.blkAddr]
    exact hf.inj a b p hp (hpq ▸ hq)
  have hsub : (ls.map place).Subperm (List.range spp.pgsPerFlashpg) := by
    refine List.Nodup.subperm (List.Nodup.map_on hinj hnd) ?_
    intro x hx
    obtain ⟨l, hl, rfl⟩ := List.mem_map.mp hx
    obtain ⟨p, hp, _⟩ := h.same_page l hl
    simp only [place, hp, Option.map_some, Option.getD_some, List.mem_range]
    exact Nat.mod_lt _ hpos
  have hlen := hsub.length_le
  rwa [List.length_map, List.length_range] at hlen

end stripe

/-! ## The whole command -/

/-- The LPN is mapped on its partition. -/
def lpnMapped (c : NsConfig) (ftls : Nat → FdpFtl) (lpn : Nat) : Bool :=
  ((ftls (lpn % c.nrParts)).maptbl (lpn / c.nrParts)).isSome

/-- Flash reads, each with the LPNs it reads: these lie in one flash page of the partition of the read, and
    together they are `lpns`, in order. -/
def MergedCommand (c : NsConfig) (ftls : Nat → FdpFtl) (reads : List (Nat × NandCmd)) (lpns : List Nat) : Prop :=
  ∃ groups : List ((Nat × NandCmd) × List Nat), groups.map Prod.fst = reads ∧
    groups.flatMap Prod.snd = lpns ∧
    ∀ g ∈ groups, (∀ lpn ∈ g.2, lpn % c.nrParts = g.1.1) ∧
      MergedRead c.ftl.sp (ftls g.1.1) g.1.2 (g.2.map (· / c.nrParts))

/-- **What the flash reads of a command are.** -/
structure CoalescedReads (c : NsConfig) (ftls : Nat → FdpFtl) (cmd : NvmeCommand)
    (reads : List (Nat × NandCmd)) : Prop where
  visits : (readVisits c cmd).Perm ((cmdLpns c cmd).map fun lpn => (lpn % c.nrParts, lpn))
  merged : ∃ lpns, lpns.Perm ((cmdLpns c cmd).filter (lpnMapped c ftls)) ∧ MergedCommand c ftls reads lpns
  total : (reads.map fun x => x.2.xferSize).sum =
    c.ftl.sp.pgsz * ((cmdLpns c cmd).filter (lpnMapped c ftls)).length
  xfer_le : ∀ x ∈ reads, x.2.xferSize ≤ c.ftl.sp.pgsPerFlashpg * c.ftl.sp.pgsz

section command

variable {ftls : Nat → FdpFtl} {req : NvmevRequest} {reads : List (Nat × NandCmd)} {lpns : List Nat}

theorem MergedCommand.append {reads' : List (Nat × NandCmd)} {lpns' : List Nat}
    (h : MergedCommand c ftls reads lpns) (h' : MergedCommand c ftls reads' lpns') :
    MergedCommand c ftls (reads ++ reads') (lpns ++ lpns') := by
  obtain ⟨groups, rfl, rfl, hall⟩ := h
  obtain ⟨groups', rfl, rfl, hall'⟩ := h'
  refine ⟨groups ++ groups', List.map_append .., List.flatMap_append .., ?_⟩
  intro g hg
  rcases List.mem_append.mp hg with hg | hg
  · exact hall g hg
  · exact hall' g hg

/-- A stripe of LPNs of one partition, numbered as the partition numbers them, and back. -/
theorem MergedStripe.command {i : Nat} (hi : i < c.nrParts) {cmds : List NandCmd}
    (hlpns : ∀ lpn ∈ lpns, lpn % c.nrParts = i)
    (h : MergedStripe c.ftl.sp (ftls i) cmds (lpns.map (· / c.nrParts))) :
    MergedCommand c ftls (cmds.map (i, ·)) lpns := by
  obtain ⟨groups, rfl, hflat, hall⟩ := h
  have hdiv : ∀ l, (l * c.nrParts + i) / c.nrParts = l := fun l => Counting.radix_div l hi
  refine ⟨groups.map fun g => ((i, g.1), g.2.map fun l => l * c.nrParts + i), ?_, ?_, ?_⟩
  · rw [List.map_map, List.map_map]
    rfl
  · have hback : (lpns.map (· / c.nrParts)).map (fun l => l * c.nrParts + i) = lpns := by
      rw [List.map_map]
      refine (List.map_congr_left fun lpn hlpn => ?_).trans (List.map_id lpns)
      rw [← hlpns lpn hlpn]
      exact Nat.div_add_mod' ..
    rw [← hflat, List.map_flatMap] at hback
    rw [List.flatMap_map]
    exact hback
  · intro g' hg'
    obtain ⟨g, hg, rfl⟩ := List.mem_map.mp hg'
    refine ⟨?_, ?_⟩
    · intro lpn hlpn
      obtain ⟨l, _, rfl⟩ := List.mem_map.mp hlpn
      exact Counting.radix_mod l hi
    · have hsame : (g.2.map fun l => l * c.nrParts + i).map (· / c.nrParts) = g.2 := by
        rw [List.map_map]
        exact (List.map_congr_left fun l _ => hdiv l).trans (List.map_id g.2)
      rw [hsame]
      exact hall g hg

/-- **The reads of one stripe.** -/
theorem readsFrom_merged (hp : 0 < c.nrParts) (hpgsz : 0 < c.ftl.sp.pgsz)
    (hf : ∀ i, TableSound c.ftl.sp (ftls i)) {start : Nat} (hs : start ≤ endLpn c req.cmd) :
    MergedCommand c ftls ((readsFrom c ftls req start).map (start % c.nrParts, ·))
      ((stripeLpns c (endLpn c req.cmd) start).filter (lpnMapped c ftls)) := by
  have hmod : ∀ lpn ∈ stripeLpns c (endLpn c req.cmd) start, lpn % c.nrParts = start % c.nrParts :=
    fun lpn hlpn => ((mem_stripeLpns hp hs).mp hlpn).2.2
  refine MergedStripe.command (Nat.mod_lt _ hp) (fun lpn hlpn => hmod lpn (List.mem_filter.mp hlpn).1) ?_
  have hstart : Pending c.ftl.sp (ftls (start % c.nrParts))
      ((ftls (start % c.nrParts)).maptbl (start / c.nrParts)) 0 [] := ⟨rfl, List.forall_mem_nil _⟩
  have h := stripeReads_merged (hf (start % c.nrParts)) hpgsz (readStime c req)
    ((stripeLpns c (endLpn c req.cmd) start).map (· / c.nrParts)) hstart
  rw [List.nil_append, List.filter_map] at h
  have hfilter : (stripeLpns c (endLpn c req.cmd) start).filter (lpnMapped c ftls) =
      (stripeLpns c (endLpn c req.cmd) start).filter
        ((fun l => ((ftls (start % c.nrParts)).maptbl l).isSome) ∘ (· / c.nrParts)) := by
    refine List.filter_congr fun lpn hlpn => ?_
    rw [lpnMapped, hmod lpn hlpn]
    rfl
  rw [hfilter]
  exact h

theorem nandReads_merged (req : NvmevRequest) (hp : 0 < c.nrParts) (hpgsz : 0 < c.ftl.sp.pgsz)
    (hf : ∀ i, TableSound c.ftl.sp (ftls i)) :
    MergedCommand c ftls (nandReads c ftls req)
      (((readVisits c req.cmd).map Prod.snd).filter (lpnMapped c ftls)) := by
  have hall : ∀ starts : List Nat, (∀ start ∈ starts, start ≤ endLpn c req.cmd) →
      MergedCommand c ftls (starts.flatMap fun start => (readsFrom c ftls req start).map (start % c.nrParts, ·))
        (starts.flatMap fun start => (stripeLpns c (endLpn c req.cmd) start).filter (lpnMapped c ftls)) := by
    intro starts
    induction starts with
    | nil => exact fun _ => ⟨[], rfl, rfl, List.forall_mem_nil _⟩
    | cons start starts ih =>
        intro hstarts
        obtain ⟨hstart, hrest⟩ := List.forall_mem_cons.mp hstarts
        exact (readsFrom_merged hp hpgsz hf hstart).append (ih hrest)
  have hvisits : ((readVisits c req.cmd).map Prod.snd).filter (lpnMapped c ftls) =
      (readStarts c req.cmd).flatMap fun start =>
        (stripeLpns c (endLpn c req.cmd) start).filter (lpnMapped c ftls) := by
    rw [readVisits, List.map_flatMap, List.filter_flatMap]
    refine List.flatMap_congr fun start _ => ?_
    rw [List.map_map]
    exact congrArg _ (List.map_id _)
  rw [hvisits]
  exact hall _ fun start hstart => (mem_readStarts.mp hstart).2.2

/-- The bytes of the reads are the pages of their LPNs. -/
theorem MergedCommand.total (h : MergedCommand c ftls reads lpns) :
    (reads.map fun x => x.2.xferSize).sum = c.ftl.sp.pgsz * lpns.length := by
  obtain ⟨groups, rfl, rfl, hall⟩ := h
  induction groups with
  | nil => rfl
  | cons g groups ih =>
      have hg := (hall g (List.mem_cons_self ..)).2.xfer_size
      have hrest := ih fun x hx => hall x (List.mem_cons_of_mem _ hx)
      rw [List.length_map] at hg
      rw [List.map_cons, List.map_cons, List.sum_cons, hrest, hg, List.flatMap_cons, List.length_append,
        Nat.mul_add]

theorem MergedCommand.xfer_le (h : MergedCommand c ftls reads lpns) (hnd : lpns.Nodup)
    (hpos : 0 < c.ftl.sp.pgsPerFlashpg) (hf : ∀ i, TableSound c.ftl.sp (ftls i)) {x : Nat × NandCmd}
    (hx : x ∈ reads) : x.2.xferSize ≤ c.ftl.sp.pgsPerFlashpg * c.ftl.sp.pgsz := by
  obtain ⟨groups, rfl, rfl, hall⟩ := h
  obtain ⟨g, hg, rfl⟩ := List.mem_map.mp hx
  obtain ⟨hmod, hmerged⟩ := hall g hg
  have hsub : g.2.Nodup := (List.nodup_flatMap.mp hnd).1 g hg
  have hlocal : (g.2.map (· / c.nrParts)).Nodup := by
    refine List.Nodup.map_on (fun a ha b hb hab => ?_) hsub
    rw [← Nat.div_add_mod a c.nrParts, ← Nat.div_add_mod b c.nrParts, hab, hmod a ha, hmod b hb]
  rw [hmerged.xfer_size, Nat.mul_comm]
  exact Nat.mul_le_mul_right _ (hmerged.length_le (hf _) hpos hlocal)

theorem coalescedReads (hp : 0 < c.nrParts) (hpgsz : 0 < c.ftl.sp.pgsz) (hpos : 0 < c.ftl.sp.pgsPerFlashpg)
    (hf : ∀ i, TableSound c.ftl.sp (ftls i)) : CoalescedReads c ftls req.cmd (nandReads c ftls req) := by
  have hperm := readVisits_perm hp req.cmd
  have hlpns : ((readVisits c req.cmd).map Prod.snd).Perm (cmdLpns c req.cmd) := by
    have h := hperm.map Prod.snd
    rw [List.map_map] at h
    exact h.trans (.of_eq (List.map_id _))
  have hfilter := hlpns.filter (lpnMapped c ftls)
  have hmerged := nandReads_merged req hp hpgsz hf
  refine ⟨hperm, ⟨_, hfilter, hmerged⟩, ?_, fun x hx => hmerged.xfer_le ?_ hpos hf hx⟩
  · rw [hmerged.total, hfilter.length_eq]
  · exact (hlpns.nodup_iff.mpr (List.nodup_range' 1)).filter _

end command

/-! ## Reachable states -/

theorem Sound.tableSound {cfg : FtlConfig} {f : FdpFtl} (h : Sound cfg f) : TableSound cfg.sp f := by
  obtain ⟨g, hq, hinv⟩ := h
  refine ⟨fun lpn p hp => (hinv.mapped.of_maptbl lpn p hp (hq.not_stale lpn)).2.1, ?_⟩
  intro lpn lpn' p hp hp'
  obtain ⟨_, _, _, hback, _⟩ := hinv.mapped.of_maptbl lpn p hp (hq.not_stale lpn)
  obtain ⟨_, _, _, hback', _⟩ := hinv.mapped.of_maptbl lpn' p hp' (hq.not_stale lpn')
  exact hback.symm.trans hback'

/-- **Read coalescing is exact**, on FDP devices of 4 bytes to 512 GiB and conventional ones up to 32 TiB. -/
theorem read_coalescing_exact (hc : c.Wf) {k : Hooks} (hk : k.Valid c.ftl.nrRuh) {log : List NvmeCommand}
    (h : NsRun c k L log ns) {req : NvmevRequest} (hin : ¬ outOfRange c req.cmd) :
    (readCommand c L req ns).2 =
        { ns with tm := (nandReads c ns.ftls req).foldl (fun tm x => ((L x.1).advanceNand tm x.2).1) ns.tm } ∧
      CoalescedReads c ns.ftls req.cmd (nandReads c ns.ftls req) := by
  have hpgsz : 0 < c.ftl.sp.pgsz := by
    rw [hc.pgsz_eq]
    exact Nat.mul_pos hc.secsPerPg_pos (Nat.two_pow_pos _)
  have hreach := h.reach hc.lbaBits_le hk
  refine ⟨readCommand_tm hin, coalescedReads hc.nrParts_pos hpgsz hc.geometry.pgsPerFlashpg_pos fun i => ?_⟩
  exact ((hreach i).sound hc.geometry hc.lines_enough).tableSound

/-- A read of the blocks of a write. -/
def readReq (slba : UInt64) (length : UInt16) : NvmevRequest :=
  { writeReq slba length none with cmd := { (writeReq slba length none).cmd with opcode := .read } }

/-- Eight pages written, sixteen read: one command of two pages on each of the four partitions. -/
theorem read_coalescing_exact_half_mapped :
    ∃ log, ∃ ns : FdpNs Unit,
      NsRun (fdpNsConfig 67108864) (fdpHooks (fdpNsConfig 67108864)) (fun _ => Latency.instant) log ns ∧
      (nandReads (fdpNsConfig 67108864) ns.ftls (readReq 0 127)).map (fun x => (x.1, x.2.xferSize)) =
        [(0, 8192), (1, 8192), (2, 8192), (3, 8192)] ∧
      CoalescedReads (fdpNsConfig 67108864) ns.ftls (readReq 0 127).cmd
        (nandReads (fdpNsConfig 67108864) ns.ftls (readReq 0 127)) := by
  obtain ⟨log, ns, hrun, hobs⟩ := exists_nsRun (fdpNsConfig 67108864) (fdpHooks (fdpNsConfig 67108864))
    (fun _ => Latency.instant) 0 () [writeReq 0 63 none]
    (fun r => (nandReads (fdpNsConfig 67108864) r.2.ftls (readReq 0 127)).map fun x => (x.1, x.2.xferSize))
    (a := [(0, 8192), (1, 8192), (2, 8192), (3, 8192)]) (by decide +kernel)
  have hc : (fdpNsConfig 67108864).Wf := fdpNsConfig_wf (by decide) (by decide)
  exact ⟨log, ns, hrun, hobs, (read_coalescing_exact hc (fdpHooks_valid hc.nrRuh_pos) hrun (by decide +kernel)).2⟩

end NvmeVirt
