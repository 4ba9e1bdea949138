import NvmeVirt.Ftl.Occupancy
import NvmeVirt.Ftl.LongBlock
import NvmeVirt.Fdp.Run

/-!
# `Conv.FreeLines` — the conventional FTL does not run out of free lines (`conv_ftl.c`)

The host of a conventional namespace addresses `ns->size` bytes, 7 % less than the flash. So a partition never
has more than `convLpns` valid pages, and by `Sound.victim_pos` there is a victim whenever only three lines
are free. That is what `Stocked.writePage` needs: no page write is left without a line.

On blocks with more pages than an address can number nothing of this applies; there `Young` shows that the
partition stops on an assertion on its first line, before it looks for another.
-/

namespace NvmeVirt

open Outcome

variable {τ : Type} {c : NsConfig} {L : Nat → Latency τ} {ns ns' : FdpNs τ} {size : Nat}

/-! ## Runs -/

/-- The range of a command lies inside `ns->size`. -/
def NvmeCommand.Inside (c : NsConfig) (cmd : NvmeCommand) : Prop :=
  (cmd.slba.toNat + cmd.nrLba) * 2 ^ c.lbaBits ≤ c.size

instance (c : NsConfig) (cmd : NvmeCommand) : Decidable (cmd.Inside c) :=
  inferInstanceAs (Decidable (_ ≤ _))

/-- **Runs of a conventional namespace** whose writes stay inside `ns->size`; the I/O workers may change the
    write buffer at any time. -/
inductive ConvRun (size : Nat) (L : Nat → Latency τ) : FdpNs τ → Prop where
  | init {ctx : FdpCtx} {tm : τ} {ns : FdpNs τ} (h : initNamespace (convNsConfig size) ctx tm = .ok ns) :
      ConvRun size L ns
  | io {ns ns' : FdpNs τ} {req : NvmevRequest} {out : Option Handled} (hr : ConvRun size L ns)
      (hin : req.cmd.opcode = .write → req.cmd.Inside (convNsConfig size))
      (h : convProcNvmeIoCmd (convNsConfig size) L req ns = .ok (out, ns')) : ConvRun size L ns'
  | buffer {ns : FdpNs τ} (hr : ConvRun size L ns) (buf : Buffer) : ConvRun size L { ns with wbuf := buf }

/-- If the credits are used up after a page is programmed and `foreground_gc` finds few lines free, then
    `select_victim_line` finds a victim. -/
def FindsVictim (cfg : FtlConfig) (L : Latency τ) (stime lpn : Nat) (s : Part τ) : Prop :=
  ∀ t s₁, putPage cfg L stime 0 lpn s = .ok (t, s₁) → s₁.writeCredits = 0 → shouldGcHigh cfg s₁.toFdpFtl →
    selectVictimLine cfg true s₁ ≠ none

/-- Every round of a write loop finds a victim if it looks for one. -/
def LoopFinds (c : NsConfig) (L : Nat → Latency τ) (stime : Nat) : List Nat → WriteLoop τ → Prop
  | [], _ => True
  | lpn :: lpns, st =>
      FindsVictim c.ftl (L (lpn % c.nrParts)) stime (lpn / c.nrParts) (st.ns.part (lpn % c.nrParts)) ∧
        ∀ st', writeLoopBody c L stime 0 st lpn = .ok st' → LoopFinds c L stime lpns st'

/-! ## Invariants of the page writes -/

/-- **An invariant of page writes** below `B`: a page write keeps it or stops on an assertion, and finds a
    victim if it looks for one. -/
structure PageInv (τ : Type) (cfg : FtlConfig) (B : Nat) (P : FdpFtl → Prop) : Prop where
  step : ∀ (L : Latency τ) (stime : Nat) {lpn : Nat} (s : Part τ), lpn < B → lpn < cfg.sp.ttPgs →
    P s.toFdpFtl → Sat (· = .bug) (fun r => P r.2.toFdpFtl) (writePage cfg L stime 0 lpn s)
  finds : ∀ (L : Latency τ) (stime : Nat) {lpn : Nat} (s : Part τ), lpn < B → lpn < cfg.sp.ttPgs →
    P s.toFdpFtl → FindsVictim cfg L stime lpn s

variable {B : Nat} {P : FdpFtl → Prop}

/-- **A whole write loop** keeps an invariant of its page writes. -/
theorem PageInv.foldlM (hp : PageInv τ c.ftl B P) (stime : Nat) (lpns : List Nat)
    (hlpns : ∀ lpn ∈ lpns, lpn / c.nrParts < B ∧ lpn / c.nrParts < c.ftl.sp.ttPgs) {st : WriteLoop τ}
    (h : ∀ i, P (st.ns.ftls i)) :
    Sat (· = .bug) (fun st => ∀ i, P (st.ns.ftls i)) (lpns.foldlM (writeLoopBody c L stime 0) st) := by
  refine sat_foldlM_const (I := fun st : WriteLoop τ => ∀ i, P (st.ns.ftls i)) lpns ?_ h
  intro lpn hlpn st hst
  obtain ⟨hB, htt⟩ := hlpns lpn hlpn
  exact writeLoopBody_parts hst (hp.step _ stime _ hB htt (hst _))

theorem PageInv.loopFinds (hp : PageInv τ c.ftl B P) (stime : Nat) (lpns : List Nat)
    (hlpns : ∀ lpn ∈ lpns, lpn / c.nrParts < B ∧ lpn / c.nrParts < c.ftl.sp.ttPgs) {st : WriteLoop τ}
    (h : ∀ i, P (st.ns.ftls i)) : LoopFinds c L stime lpns st := by
  induction lpns generalizing st with
  | nil => trivial
  | cons lpn lpns ih =>
      obtain ⟨hB, htt⟩ := hlpns lpn (List.mem_cons_self ..)
      refine ⟨hp.finds _ stime _ hB htt (h _), fun st' hst' => ?_⟩
      have hbody := writeLoopBody_parts h (hp.step (L (lpn % c.nrParts)) stime
        (st.ns.part (lpn % c.nrParts)) hB htt (h _))
      exact ih (fun x hx => hlpns x (List.mem_cons_of_mem lpn hx)) (hbody.of_eq_ok hst')

/-- **Partitions whose tables stay small enough** always find a victim. -/
theorem stocked_pageInv {cfg : FtlConfig} (hf : cfg.Flow) (hruh : 0 < cfg.nrRuh)
    (htt : cfg.sp.ttPgs ≤ invalidLpn)
    (hfew : B < (cfg.sp.ttLines - (cfg.gcThresLinesHigh + 1 + cfg.nrRuh + 1)) * cfg.sp.pgsPerLine) :
    PageInv τ cfg B fun s => Stocked cfg s ∧ LpnBound B s where
  step L stime lpn s hB hlpn h := by
    obtain ⟨hs, hb⟩ := h
    have hready : GcReady cfg s.toFdpFtl := fun _ hfree =>
      hs.sound.victim_pos hf.geometry hb hfree hfew
    have hstock := hs.writePage L hf hready stime hruh hlpn
    have hbound := writePage_bound (L := L) htt stime 0 hB hb
    cases hres : writePage cfg L stime 0 lpn s with
    | error e => exact absurd (hstock.of_eq_error hres) id
    | ok r => exact ⟨hstock.of_eq_ok hres, hbound.of_eq_ok hres⟩
  finds L stime lpn s hB hlpn h := by
    obtain ⟨hs, hb⟩ := h
    intro t s₁ hres _ hhigh
    have hput : Put cfg 0 lpn s s₁ := (putPage_spec L hf.geometry hs.sound stime hruh hlpn).of_eq_ok hres
    have hb₁ : LpnBound B s₁.toFdpFtl := hb.put hB ((putPage_cases cfg L stime 0 lpn s).of_eq_ok hres)
    have hpos := hput.sound.victim_pos hf.geometry hb₁ (Nat.le_succ_of_le hhigh) hfew
    unfold selectVictimLine
    cases hpeek : s₁.victimLinePq.peek with
    | none => exact absurd hpeek (hput.sound.peek_ne_none hpos)
    | some v => exact nofun

/-- **Long blocks** stop before the credits are used up. -/
theorem young_pageInv {cfg : FtlConfig} (hb : LongBlock cfg) :
    PageInv τ cfg B fun s =>
      ∃ n, n ≤ addressable cfg.sp ∧ ∀ ctx (tm : τ), Young cfg n (⟨s, ctx, tm⟩ : Part τ) where
  step L stime lpn s _ _ h := by
    obtain ⟨n, _, hy⟩ := h
    refine ((hy s.ctx s.tm).writePage L hb stime lpn).mono ?_
    rintro r ⟨hlt, hr⟩
    exact ⟨n + 1, hlt, fun _ _ => ⟨hr.wf, hr.idx_eq, hr.curline_eq, hr.programmed, hr.credits_eq⟩⟩
  finds L stime lpn s _ _ h := by
    obtain ⟨n, _, hy⟩ := h
    intro t s₁ hres hzero
    obtain ⟨hlt, hr⟩ := ((hy s.ctx s.tm).putPage (L := L) hb stime lpn).of_eq_ok hres
    exact absurd hzero (hr.credits_pos hb hlt).ne'

/-! ## The shipped target -/

/-- Wordlines of a block. -/
def convWordlines (size : Nat) : Nat := divRoundUp (divRoundUp (size / 4) 32768) 32768

theorem convWordlines_le (size k : Nat) (h : size / 4 ≤ 2 ^ 30 * k) : convWordlines size ≤ k := by
  refine divRoundUp_le_of_le_mul (by decide) (divRoundUp_le_of_le_mul (by decide) ?_)
  omega

theorem le_convWordlines (size : Nat) : size / 4 ≤ 2 ^ 30 * convWordlines size := by
  have h1 : size / 4 ≤ divRoundUp (size / 4) 32768 * 32768 := le_mul_divRoundUp (by decide)
  have h2 : divRoundUp (size / 4) 32768 ≤ convWordlines size * 32768 := le_mul_divRoundUp (by decide)
  omega

/-- The sizes derived from it, as long as none is cut to an `int`. -/
theorem conv_sizes {size : Nat} (h : convWordlines size ≤ 2 ^ 26) :
    (convNsConfig size).ftl.sp.oneshotpgsPerBlk = convWordlines size ∧
      (convNsConfig size).ftl.sp.pgsPerBlk = 8 * convWordlines size ∧
      (convNsConfig size).ftl.sp.pgsPerLine = 32 * convWordlines size := by
  have hone : (convNsConfig size).ftl.sp.oneshotpgsPerBlk = convWordlines size :=
    i32_of_lt (show convWordlines size < 2 ^ 31 by omega)
  have hblk : (convNsConfig size).ftl.sp.pgsPerBlk = 8 * convWordlines size := by
    show i32 (8 * (convNsConfig size).ftl.sp.oneshotpgsPerBlk) = _
    rw [hone]
    exact i32_of_lt (by omega)
  refine ⟨hone, hblk, ?_⟩
  show u64 (4 * ulongOfInt (convNsConfig size).ftl.sp.pgsPerBlk) = _
  rw [hblk, ulongOfInt_of_lt (by omega), u64_of_lt (by omega)]
  omega

theorem samsung970Pro_sound : samsung970Pro.Sound 4 := by
  constructor <;> decide

/-- The flow control of the conventional target: a collection starts at 2 free lines, for the host and GC. -/
theorem conv_flow {size : Nat} (h1 : 4 ≤ size) (h2 : size / 4 ≤ 2 ^ 43) : (convNsConfig size).ftl.Flow where
  geometry := by
    have hw := convWordlines_le size 8192 (by omega)
    have hpgs : samsung970Pro.pgsPerBlkOf size 4 = 8 * convWordlines size := rfl
    refine geometry_of_fit samsung970Pro_sound (Nat.div_pos h1 (by decide)) ?_ ?_
    · rw [hpgs]
      show _ ≤ 65536
      omega
    · rw [hpgs]
      show _ * 8192 < _
      omega
  thres_eq := rfl
  lines_enough := by
    rw [conv_ttLines]
    show 1 + 2 ≤ 8192
    decide
  pgsPerLine_lt := by
    have hw := convWordlines_le size 8192 (by omega)
    rw [(conv_sizes (by omega)).2.2]
    omega

/-- Beyond 32 TiB a block has more than 65536 pages. -/
theorem conv_longBlock {size : Nat} (h1 : 2 ^ 43 < size / 4) (h2 : size ≤ 2 ^ 58) :
    LongBlock (convNsConfig size).ftl := by
  have hle := convWordlines_le size (2 ^ 26) (by omega)
  have hge := le_convWordlines size
  obtain ⟨hone, hblk, hline⟩ := conv_sizes hle
  have hos : (convNsConfig size).ftl.sp.pgsPerOneshotpg = 8 := rfl
  refine ⟨⟨show 0 < 2 by decide, show 0 < 2 by decide, by rw [hos]; decide, ?_, ?_⟩, ?_, ?_, ?_,
    show 0 < 1 by decide⟩
  · rw [hblk, hone, hos, Nat.mul_comm]
  · rw [hline, hblk]
    show _ = 2 * 2 * _
    omega
  · rw [hos]
    exact ⟨8192, rfl⟩
  · rw [hblk]
    show 65536 < _
    omega
  · rw [hline]
    omega

/-- Bound on the LPNs of a partition that a host inside `ns->size` can reach. -/
def convLpns (size : Nat) : Nat := nsSize samsung970Pro size / 16384 + 1

theorem convLpns_le (size : Nat) : convLpns size ≤ size * 100 / 107 / 16384 + 1 := by
  have hmod : nsSize samsung970Pro size ≤ size * 100 / 107 := Nat.div_le_div_right (Nat.mod_le _ _)
  exact Nat.succ_le_succ (Nat.div_le_div_right hmod)

theorem NvmeCommand.Inside.lpn_lt {cmd : NvmeCommand} (h : cmd.Inside (convNsConfig size)) {lpn : Nat}
    (hlpn : lpn ∈ cmdLpns (convNsConfig size) cmd) : lpn / (convNsConfig size).nrParts < convLpns size := by
  obtain ⟨i, hi, rfl⟩ := List.mem_range'.mp hlpn
  have hlast : cmd.lastLba ≤ cmd.slba.toNat + cmd.nrLba - 1 := Nat.mod_le _ _
  have hend : endLpn (convNsConfig size) cmd = cmd.lastLba / 8 := rfl
  have hbytes : (cmd.slba.toNat + cmd.nrLba) * 512 ≤ nsSize samsung970Pro size := h
  rw [hend] at hi
  show (startLpn (convNsConfig size) cmd + 1 * i) / 4 < _
  unfold convLpns
  omega

/-- **The reserve**: 7 % of the flash are more than the five lines that may be open or free. -/
theorem conv_few {size : Nat} (h1 : 4 ≤ size) (h2 : size / 4 ≤ 2 ^ 43) :
    convLpns size < ((convNsConfig size).ftl.sp.ttLines - (2 + 1 + 1 + 1)) *
      (convNsConfig size).ftl.sp.pgsPerLine := by
  have hw := convWordlines_le size 8192 (by omega)
  have hge := le_convWordlines size
  have hle := convLpns_le size
  rw [conv_ttLines, (conv_sizes (by omega)).2.2]
  omega

theorem conv_ttPgs_of_lt {size : Nat} (h : size < 4) : (convNsConfig size).ftl.sp.ttPgs = 0 := by
  have hzero : size / 4 = 0 := Nat.div_eq_of_lt h
  simp [convNsConfig, ssdInitParams, samsung970Pro, hzero, divRoundUp, i32, ulongOfInt, u64]

/-- **Every size has an invariant** that its initial state satisfies. -/
theorem conv_pageInv (τ : Type) {size : Nat} (h1 : 4 ≤ size) (h2 : size ≤ 2 ^ 58) :
    ∃ P : FdpFtl → Prop, PageInv τ (convNsConfig size).ftl (convLpns size) P ∧
      ∀ ctx (tm : τ), P (initialised (convNsConfig size).ftl ctx tm).toFdpFtl := by
  rcases Nat.lt_or_ge (2 ^ 43) (size / 4) with hlong | hfit
  · have hb := conv_longBlock hlong h2
    refine ⟨_, young_pageInv hb, fun ctx tm => ⟨0, Nat.zero_le _, fun _ _ => ?_⟩⟩
    have hy := young_initialised hb ctx tm
    exact ⟨hy.wf, hy.idx_eq, hy.curline_eq, hy.programmed, hy.credits_eq⟩
  · have hf := conv_flow h1 hfit
    have htt : (convNsConfig size).ftl.sp.ttPgs ≤ invalidLpn := by
      have hlt : (convNsConfig size).ftl.sp.ttPgs < 2 ^ 64 := Nat.mod_lt _ (by decide)
      exact Nat.le_sub_one_of_lt hlt
    refine ⟨_, stocked_pageInv hf (show 0 < 1 by decide) htt (conv_few h1 hfit), fun ctx tm =>
      ⟨stocked_initialised ctx tm hf, ?_, ?_⟩⟩
    · intro lpn hlpn
      exact absurd rfl hlpn
    · intro i
      exact Or.inl rfl

/-- The LPNs of an accepted write. -/
theorem conv_lpns {req : NvmevRequest} (hin : req.cmd.Inside (convNsConfig size))
    (hacc : ¬ outOfRange (convNsConfig size) req.cmd) : ∀ lpn ∈ cmdLpns (convNsConfig size) req.cmd,
    lpn / (convNsConfig size).nrParts < convLpns size ∧
      lpn / (convNsConfig size).nrParts < (convNsConfig size).ftl.sp.ttPgs :=
  fun _ hlpn => ⟨hin.lpn_lt hlpn, lpn_in_range hacc hlpn⟩

/-- **Every state of a run keeps the invariant.** -/
theorem ConvRun.keeps (h : ConvRun size L ns) (hp : PageInv τ (convNsConfig size).ftl (convLpns size) P)
    (hinit : ∀ ctx (tm : τ), P (initialised (convNsConfig size).ftl ctx tm).toFdpFtl) :
    ∀ i, P (ns.ftls i) := by
  induction h with
  | init h =>
      rw [initNamespace_eq _ _ (conv_lines_enough size)] at h
      obtain rfl := Except.ok.inj h
      exact fun _ => hinit _ _
  | io _ hin h ih =>
      obtain ⟨hop, hw⟩ | ⟨_, ⟨tm, rfl⟩, _⟩ := procNvmeIoCmd_cases (show 9 ≤ 15 by decide) h
      · cases hw with
        | outOfRange _ => exact ih
        | rejected _ _ => exact ih
        | refused _ _ _ => exact ih
        | written hacc hr _ hloop _ =>
            obtain rfl := Option.some.inj (Prod.mk.inj hr).1
            exact (hp.foldlM _ _ (conv_lpns (hin hop) hacc) ih).of_eq_ok hloop
      · exact ih
  | buffer _ _ ih => exact ih

/-- **Free lines and victims suffice.** On every device up to 256 PiB, from every state of a run, a request inside
    `ns->size` never dereferences a missing line, and every collection its page writes start finds a
    victim. -/
theorem conv_free_lines_suffice (hsize : size ≤ 2 ^ 58) (h : ConvRun size L ns) {req : NvmevRequest}
    (hin : req.cmd.opcode = .write → req.cmd.Inside (convNsConfig size)) :
    convProcNvmeIoCmd (convNsConfig size) L req ns ≠ .error .nullLine ∧
      (req.cmd.opcode = .write → ¬ outOfRange (convNsConfig size) req.cmd →
        LoopFinds (convNsConfig size) L (xferCompleted (convNsConfig size) L req ns)
          (cmdLpns (convNsConfig size) req.cmd)
          (writeLoopStart (convNsConfig size) convHooks L req ns ns.ctx)) := by
  rcases Nat.lt_or_ge size 4 with hsmall | hlarge
  · -- without pages every range is refused
    have hrefused : outOfRange (convNsConfig size) req.cmd := by
      rw [outOfRange, conv_ttPgs_of_lt hsmall]
      exact Nat.zero_le _
    refine ⟨fun herr => ?_, fun _ hacc => absurd hrefused hacc⟩
    obtain ⟨hbug, _⟩ | ⟨_, _, hacc, _⟩ := procNvmeIoCmd_error (show 9 ≤ 15 by decide) herr
    · exact absurd hbug nofun
    · exact hacc hrefused
  · obtain ⟨P, hp, hinit⟩ := conv_pageInv τ hlarge hsize
    have hP := h.keeps hp hinit
    refine ⟨fun herr => ?_, fun hop hacc => hp.loopFinds _ _ (conv_lpns (hin hop) hacc) hP⟩
    obtain ⟨hbug, _⟩ | ⟨ruh, ctx, hacc, hr, hloop⟩ := procNvmeIoCmd_error (show 9 ≤ 15 by decide) herr
    · exact absurd hbug nofun
    · have hop : req.cmd.opcode = .write := by
        by_contra hne
        unfold convProcNvmeIoCmd procNvmeIoCmd at herr
        split at herr
        · exact absurd ‹_› hne
        all_goals exact absurd herr nofun
      obtain rfl := Option.some.inj (Prod.mk.inj hr).1
      have hfault := (hp.foldlM _ _ (conv_lpns (hin hop) hacc) hP).of_eq_error hloop
      exact absurd hfault nofun

/-- Page `i` of partition 0 of a 64 MiB device. -/
def convPageReq (i : Nat) : NvmevRequest := writeReq (UInt64.ofNat (32 * i)) 7 none

/-- The page of a 64 MiB device that uses up the credits of its partition and closes a line. -/
theorem conv_free_lines_suffice_line_closed :
    ∃ ns : FdpNs Unit, ConvRun 67108864 (fun _ => Latency.instant) ns ∧ (ns.ftls 0).writeCredits = 1 ∧
      convProcNvmeIoCmd (convNsConfig 67108864) (fun _ => Latency.instant) (convPageReq 31) ns ≠ .error .nullLine ∧
      LoopFinds (convNsConfig 67108864) (fun _ => Latency.instant)
        (xferCompleted (convNsConfig 67108864) (fun _ => Latency.instant) (convPageReq 31) ns)
        (cmdLpns (convNsConfig 67108864) (convPageReq 31).cmd)
        (writeLoopStart (convNsConfig 67108864) convHooks (fun _ => Latency.instant) (convPageReq 31) ns ns.ctx) := by
  have hinit := initNamespace_eq (c := convNsConfig 67108864) (fdpInitCtx 0) () (conv_lines_enough _)
  have hobs : (((List.range 31).map convPageReq).foldlM
      (admitted
        (fun ns req => do return (← convProcNvmeIoCmd (convNsConfig 67108864) (fun _ => Latency.instant) req ns).2)
        fun _ req => decide (req.cmd.Inside (convNsConfig 67108864)))
      (freshNs (convNsConfig 67108864) (fdpInitCtx 0) ())).map (fun ns => (ns.ftls 0).writeCredits) = some 1 := by
    decide +kernel
  obtain ⟨ns, hrun, hcredits⟩ := exists_played (P := ConvRun 67108864 (fun _ => Latency.instant))
    (fun ns req ns' hr hg hstep => by
      obtain ⟨r, hio, heq⟩ := bind_eq_ok hstep
      cases heq
      exact .io hr (fun _ => of_decide_eq_true hg) hio) (.init hinit) hobs
  have hin : (convPageReq 31).cmd.Inside (convNsConfig 67108864) := by decide +kernel
  obtain ⟨hline, hfinds⟩ := conv_free_lines_suffice (by decide) hrun fun _ => hin
  exact ⟨ns, hrun, hcredits, hline, hfinds rfl (by decide +kernel)⟩

end NvmeVirt
