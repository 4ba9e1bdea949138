import NvmeVirt.Fdp.Stats
import NvmeVirt.Ftl.Wordline
import NvmeVirt.Io.Accounts
import NvmeVirt.Io.Handlers
import NvmeVirt.Io.Progress
import NvmeVirt.Lib.Counting

/-!
# `Io.WriteBuffer` — what the write buffer is charged for

A write takes its bytes from the write buffer. They are to come back when the wordlines its pages complete have been
programmed: the handler schedules an internal operation for each of them, and the worker is to release the buffer when
the operation is due. So the buffer should be charged for the pages of incomplete wordlines and for the operations that
are not due yet, and for nothing else.

* `procNvmeIoCmd_credit` — what one command does: bytes are charged, pages are released.
* `writeBuffer_conserved_iff` — the FDP build keeps the balance exactly as long as no operation has completed and no
  write ran over the end of the address space: it does not release, and a write whose last block number overflows takes
  its bytes without writing a page.
* `conv_buffer_within` — the conventional build releases, in whole pages. It never releases more than was charged if
  writes cover whole pages; a write that touches a page in part gets the whole page back (`conv_buffer_overflows`).
-/

namespace NvmeVirt

open Counting Outcome

variable {τ : Type} {c : NsConfig} {L : Nat → Latency τ} {ns ns' : FdpNs τ}

/-! ## Pages and wordlines -/

/-- What the buffer needs of a namespace: pages of whole blocks, wordlines of whole pages. -/
structure NsConfig.Paged (c : NsConfig) : Prop extends c.Blocked where
  wordline_pos : 0 < c.ftl.sp.pgsPerOneshotpg
  wordline_dvd : c.ftl.sp.pgsPerOneshotpg ∣ 2 ^ pageBits

/-- The FDP target has them, of every size. -/
theorem fdpNsConfig_paged (size : Nat) : (fdpNsConfig size).Paged where
  toBlocked := fdpNsConfig_blocked size
  wordline_pos := by
    show 0 < (fdpFtlConfig size).sp.pgsPerOneshotpg
    rw [fdp_pgsPerOneshotpg]
    decide
  wordline_dvd := by
    show (fdpFtlConfig size).sp.pgsPerOneshotpg ∣ 2 ^ pageBits
    rw [fdp_pgsPerOneshotpg]
    exact ⟨8192, rfl⟩

/-- So has the conventional one. -/
theorem convNsConfig_paged (size : Nat) : (convNsConfig size).Paged where
  lbaBits_le := show 9 ≤ 15 by decide
  nrParts_pos := show 0 < 4 by decide
  nrRuh_pos := show 0 < 1 by decide
  secsPerPg_pos := by
    rw [conv_secsPerPg]
    decide
  secsPerPg_le := by
    rw [conv_secsPerPg]
    decide
  pgsz_eq := by
    show (convNsConfig size).ftl.sp.pgsz = (convNsConfig size).ftl.sp.secsPerPg * 2 ^ 9
    rw [conv_secsPerPg, conv_pgsz]
    decide
  wordline_pos := by
    rw [conv_pgsPerOneshotpg]
    decide
  wordline_dvd := by
    rw [conv_pgsPerOneshotpg]
    exact ⟨8192, rfl⟩

theorem NsConfig.Paged.pgsz_pos (hc : c.Paged) : 0 < c.ftl.sp.pgsz := by
  rw [hc.pgsz_eq]
  exact Nat.mul_pos hc.secsPerPg_pos (Nat.two_pow_pos _)

/-- The command starts and ends at a page boundary. -/
def OnPageBounds (c : NsConfig) (cmd : NvmeCommand) : Prop :=
  cmd.slba.toNat % c.ftl.sp.secsPerPg = 0 ∧ cmd.nrLba % c.ftl.sp.secsPerPg = 0

instance (c : NsConfig) (cmd : NvmeCommand) : Decidable (OnPageBounds c cmd) := inferInstanceAs (Decidable (_ ∧ _))

/-- The number of the last block overflows. -/
def NvmeCommand.Wraps (cmd : NvmeCommand) : Prop := 2 ^ 64 < cmd.slba.toNat + cmd.nrLba

instance (cmd : NvmeCommand) : Decidable cmd.Wraps := inferInstanceAs (Decidable (_ < _))

/-- A command that wraps writes nothing: its loop starts behind its end. -/
theorem cmdLpns_of_wraps (hc : c.Paged) {cmd : NvmeCommand} (h : cmd.Wraps) : cmdLpns c cmd = [] := by
  have hle := cmd.nrLba_le
  have hslba := cmd.slba.toNat_lt
  have hlast : cmd.lastLba + c.ftl.sp.secsPerPg ≤ cmd.slba.toNat := by
    have hsecs := hc.secsPerPg_le
    unfold NvmeCommand.Wraps at h
    unfold NvmeCommand.lastLba u64
    omega
  have hend : endLpn c cmd + 1 ≤ startLpn c cmd := by
    have hdiv := Nat.div_le_div_right (c := c.ftl.sp.secsPerPg) hlast
    rwa [Nat.add_div_right _ hc.secsPerPg_pos] at hdiv
  rw [cmdLpns, Nat.sub_eq_zero_of_le hend]
  rfl

/-- A command of whole pages writes the bytes it takes. -/
theorem length_cmdLpns (hc : c.Paged) {cmd : NvmeCommand} (h : PageAligned c cmd) :
    c.ftl.sp.pgsz * (cmdLpns c cmd).length = cmd.bytes c.lbaBits :=
  (pages_eq_bytes_iff hc.secsPerPg_pos hc.secsPerPg_le hc.pgsz_eq cmd).mpr h

/-- **The host pages in wordlines that are not complete**, over all partitions and pointers. -/
def FdpNs.incompletePages (c : NsConfig) (ns : FdpNs τ) : Nat :=
  ∑ i ∈ Finset.range c.nrParts, ∑ r ∈ Finset.range c.ftl.nrRuh, ((ns.ftls i).wpRuh r).fill c.ftl.sp

theorem incompletePages_setPart (ns : FdpNs τ) {i ruh x : Nat} {s : Part τ} (hi : i < c.nrParts) (hruh : ruh < c.ftl.nrRuh)
    (hothers : ∀ r, r ≠ ruh → (s.wpRuh r).fill c.ftl.sp = ((ns.ftls i).wpRuh r).fill c.ftl.sp)
    (h : (s.wpRuh ruh).fill c.ftl.sp + x = ((ns.ftls i).wpRuh ruh).fill c.ftl.sp + 1) :
    (ns.setPart i s).incompletePages c + x = ns.incompletePages c + 1 := by
  have hinner := sum_add_of_eq_off (f := fun r => ((ns.ftls i).wpRuh r).fill c.ftl.sp)
    (g := fun r => (s.wpRuh r).fill c.ftl.sp) (Finset.mem_range.mpr hruh) fun r _ hr => hothers r hr
  have houter := sum_add_of_eq_off
    (f := fun j => ∑ r ∈ Finset.range c.ftl.nrRuh, ((ns.ftls j).wpRuh r).fill c.ftl.sp)
    (g := fun j => ∑ r ∈ Finset.range c.ftl.nrRuh, (((ns.setPart i s).ftls j).wpRuh r).fill c.ftl.sp)
    (Finset.mem_range.mpr hi) fun j _ hj => by rw [ftls_setPart_of_ne ns s hj]
  have hself : (ns.setPart i s).ftls i = s.toFdpFtl := Function.update_self ..
  rw [hself] at houter
  unfold FdpNs.incompletePages
  omega

/-! ## A command -/

/-- The write loop after `n` pages. -/
structure LoopFilled (c : NsConfig) (ns : FdpNs τ) (n : Nat) (st : WriteLoop τ) : Prop where
  pages : st.ns.incompletePages c + c.ftl.sp.pgsPerOneshotpg * st.ops.length = ns.incompletePages c + n
  ops : ∀ op ∈ st.ops, op.buffsToRelease = c.ftl.sp.pgsPerOneshotpg * c.ftl.sp.pgsz
  wbuf : st.ns.wbuf = ns.wbuf

theorem writeLoopBody_filled (hc : c.Paged) {ruh n : Nat} (hruh : ruh < c.ftl.nrRuh) (stime lpn : Nat)
    {st : WriteLoop τ} (h : LoopFilled c ns n st) :
    Sat (fun _ => True) (LoopFilled c ns (n + 1)) (writeLoopBody c L stime ruh st lpn) := by
  unfold writeLoopBody
  refine Sat.bind (writePage_fill hc.wordline_pos hc.wordline_dvd stime ruh _ _) ?_
  rintro ⟨t, s⟩ ⟨hothers, hself⟩
  have hset := incompletePages_setPart st.ns (Nat.mod_lt lpn hc.nrParts_pos) hruh hothers hself
  have hpages := h.pages
  cases t with
  | none =>
      refine ⟨?_, h.ops, h.wbuf⟩
      simp only [Option.isSome_none, Bool.false_eq_true, if_false] at hset
      dsimp only
      omega
  | some t =>
      refine ⟨?_, fun op hop => ?_, h.wbuf⟩
      · simp only [Option.isSome_some, if_true] at hset
        simp only [List.length_append, List.length_singleton, Nat.mul_succ]
        omega
      · rcases List.mem_append.mp hop with hop | hop
        · exact h.ops op hop
        · rw [List.mem_singleton.mp hop]

theorem writeLoop_filled (hc : c.Paged) {k : Hooks} {req : NvmevRequest} {ruh : Nat} {ctx : FdpCtx} {st : WriteLoop τ}
    (hruh : ruh < c.ftl.nrRuh) (h : writeLoop c k L req ns ruh ctx = .ok st) :
    LoopFilled c (writeLoopStart c k L req ns ctx).ns (cmdLpns c req.cmd).length st := by
  refine (sat_foldlM (E := fun _ => True)
    (fun pre st => LoopFilled c (writeLoopStart c k L req ns ctx).ns pre.length st) _ ?_ ?_).of_eq_ok h
  · intro pre lpn post st _ hst
    rw [List.length_append]
    exact writeLoopBody_filled hc hruh _ lpn hst
  · exact ⟨rfl, nofun, rfl⟩

/-- What the buffer has, or should get back when the wordlines are complete. -/
def FdpNs.credit (c : NsConfig) (ns : FdpNs τ) : Nat := ns.wbuf.remaining + c.ftl.sp.pgsz * ns.incompletePages c

/-- The bytes a list of operations is to release. -/
def opBytes (ops : List InternalOp) : Nat := (ops.map InternalOp.buffsToRelease).sum

theorem opBytes_cons (op : InternalOp) (ops : List InternalOp) :
    opBytes (op :: ops) = op.buffsToRelease + opBytes ops := List.sum_cons

theorem opBytes_eq {ops : List InternalOp} {n : Nat} (h : ∀ op ∈ ops, op.buffsToRelease = n) :
    opBytes ops = n * ops.length := by
  rw [opBytes, List.map_congr_left h, List.map_const', List.sum_replicate, nsmul_eq_mul, Nat.mul_comm]
  rfl

/-- A write that was accepted. -/
def AcceptedWrite (cmd : NvmeCommand) (ret : NvmevResult) : Prop := cmd.opcode = .write ∧ ret.status = scSuccess

instance (cmd : NvmeCommand) (ret : NvmevResult) : Decidable (AcceptedWrite cmd ret) :=
  inferInstanceAs (Decidable (_ ∧ _))

/-- What a command takes from the buffer. -/
def chargedBytes (c : NsConfig) (cmd : NvmeCommand) (ret : NvmevResult) : Nat :=
  if AcceptedWrite cmd ret then cmd.bytes c.lbaBits else 0

/-- The pages it writes, in bytes. -/
def writtenBytes (c : NsConfig) (cmd : NvmeCommand) (ret : NvmevResult) : Nat :=
  if AcceptedWrite cmd ret then c.ftl.sp.pgsz * (cmdLpns c cmd).length else 0

theorem LoopFilled.credit {k : Hooks} {req : NvmevRequest} {ctx : FdpCtx} {st : WriteLoop τ}
    (h : LoopFilled c (writeLoopStart c k L req ns ctx).ns (cmdLpns c req.cmd).length st)
    (hroom : req.cmd.bytes c.lbaBits ≤ ns.wbuf.remaining) :
    st.ns.credit c + opBytes st.ops + req.cmd.bytes c.lbaBits =
      ns.credit c + c.ftl.sp.pgsz * (cmdLpns c req.cmd).length := by
  have hpages : c.ftl.sp.pgsz * st.ns.incompletePages c + opBytes st.ops =
      c.ftl.sp.pgsz * ns.incompletePages c + c.ftl.sp.pgsz * (cmdLpns c req.cmd).length := by
    have hmul := congrArg (c.ftl.sp.pgsz * ·) h.pages
    rw [opBytes_eq h.ops]
    simp only [Nat.mul_add] at hmul
    rw [← Nat.mul_assoc, Nat.mul_comm c.ftl.sp.pgsz c.ftl.sp.pgsPerOneshotpg] at hmul
    exact hmul
  have hbuf : st.ns.wbuf.remaining = ns.wbuf.remaining - req.cmd.bytes c.lbaBits := congrArg Buffer.remaining h.wbuf
  unfold FdpNs.credit
  omega

/-- **A command and the buffer.** Bytes are charged, pages go to incomplete wordlines or to operations. -/
theorem procNvmeIoCmd_credit (hc : c.Paged) {k : Hooks} (hk : k.Valid c.ftl.nrRuh) {req : NvmevRequest}
    {out : Option Handled} (h : procNvmeIoCmd c k L req ns = .ok (out, ns')) :
    ns'.wbuf.size = ns.wbuf.size ∧
      ns'.credit c + out.elim 0 (fun r => opBytes r.ops + chargedBytes c req.cmd r.ret) =
        ns.credit c + out.elim 0 (fun r => writtenBytes c req.cmd r.ret) ∧
      ∀ r, out = some r → ∀ op ∈ r.ops, 0 < op.buffsToRelease := by
  obtain ⟨hop, hw⟩ | ⟨hop, ⟨tm, rfl⟩, hops⟩ := procNvmeIoCmd_cases hc.lbaBits_le h
  · cases hw with
    | outOfRange _ => exact ⟨rfl, rfl, nofun⟩
    | refused _ _ _ => exact ⟨rfl, rfl, nofun⟩
    | rejected _ _ =>
        have hnot : ¬ AcceptedWrite req.cmd ⟨scInvalidField, req.nsecsStart, 0⟩ := fun h => nomatch h.2
        refine ⟨rfl, ?_, fun r hr => ?_⟩
        · rw [Option.elim_some, Option.elim_some, chargedBytes, writtenBytes, if_neg hnot, if_neg hnot]
          rfl
        · cases hr
          exact nofun
    | @written ruh ctx st _ hr hb hloop target ht =>
        have hfilled := writeLoop_filled hc (hk _ _ _ _ _ hr) hloop
        have hacc : AcceptedWrite req.cmd ⟨scSuccess, target, 0⟩ := ⟨hop, rfl⟩
        refine ⟨by rw [hfilled.wbuf]; rfl, ?_, fun r hr op hop => ?_⟩
        · rw [Option.elim_some, Option.elim_some, chargedBytes, writtenBytes, if_pos hacc, if_pos hacc, ← Nat.add_assoc]
          exact hfilled.credit hb
        · cases hr
          rw [hfilled.ops op hop]
          exact Nat.mul_pos hc.wordline_pos hc.pgsz_pos
  · refine ⟨rfl, ?_, fun r hr op hop => ?_⟩
    · cases out with
      | none => rfl
      | some r =>
          have hnot : ¬ AcceptedWrite req.cmd r.ret := fun h => hop h.1
          rw [Option.elim_some, Option.elim_some, hops r rfl, chargedBytes, writtenBytes, if_neg hnot, if_neg hnot]
          rfl
    · rw [hops r hr] at hop
      cases hop

/-! ## The device -/

section Device

variable {σ : Type} {dc : DevConfig}

def Duty.opBytes : Duty InternalOp → Nat
  | .complete _ => 0
  | .release op => op.buffsToRelease

/-- The bytes the operations among the duties are to release. -/
def owedBytes (s : Multiset (Duty InternalOp)) : Nat := (s.map Duty.opBytes).sum

theorem owedBytes_add (s t : Multiset (Duty InternalOp)) : owedBytes (s + t) = owedBytes s + owedBytes t := by
  simp [owedBytes]

theorem owedBytes_le {s t : Multiset (Duty InternalOp)} (h : s ≤ t) : owedBytes s ≤ owedBytes t := by
  obtain ⟨u, rfl⟩ := Multiset.le_iff_exists_add.mp h
  rw [owedBytes_add]
  exact Nat.le_add_right _ _

theorem owedBytes_release (ops : List InternalOp) :
    owedBytes (ops.map .release : List (Duty InternalOp)) = NvmeVirt.opBytes ops := by
  simp only [owedBytes, Multiset.map_coe, Multiset.sum_coe, List.map_map]
  rfl

theorem owedBytes_duties (t : Taken InternalOp) :
    owedBytes (t.duties dc : List (Duty InternalOp)) = NvmeVirt.opBytes t.reply.ops := by
  rw [Taken.duties, ← Multiset.coe_add, owedBytes_add, owedBytes_release]
  rfl

theorem owedBytes_issued (d : Dev InternalOp σ) :
    owedBytes (d.issued dc) = (d.taken.map fun t => NvmeVirt.opBytes t.reply.ops).sum := by
  unfold Dev.issued
  generalize d.taken = taken
  induction taken with
  | nil => rfl
  | cons t taken ih =>
      rw [List.flatMap_cons, ← Multiset.coe_add, owedBytes_add, owedBytes_duties, ih, List.map_cons, List.sum_cons]

theorem owedBytes_discharged (d : Dev InternalOp σ) : owedBytes d.discharged = NvmeVirt.opBytes d.released := by
  have hposted : owedBytes (d.posted.map fun p => .complete p.report : List (Duty InternalOp)) = 0 := by
    simp [owedBytes, Duty.opBytes, Function.comp_def]
  rw [Dev.discharged, owedBytes_add, hposted, Nat.zero_add, owedBytes_release]

/-- What all commands were charged. -/
def Dev.charged (c : NsConfig) (d : Dev InternalOp σ) : Nat :=
  (d.taken.map fun t => chargedBytes c t.cmd t.reply.ret).sum

/-- What they wrote. -/
def Dev.written (c : NsConfig) (d : Dev InternalOp σ) : Nat :=
  (d.taken.map fun t => writtenBytes c t.cmd t.reply.ret).sum

/-- **The balance** of all commands so far, after `released` bytes have been released. -/
structure BufferBalanced (c : NsConfig) (dc : DevConfig) (released : Nat) (d : Dev InternalOp (FdpNs τ)) : Prop where
  balance : d.ns.credit c + owedBytes (d.issued dc) + d.charged c = d.ns.wbuf.size + d.written c + released
  ops : ∀ t ∈ d.taken, ∀ op ∈ t.reply.ops, 0 < op.buffsToRelease

variable {H : IoHandler InternalOp (FdpNs τ)} {k : Hooks} {d d' : Dev InternalOp (FdpNs τ)} {now released : Nat}

theorem ProcIo.bufferBalanced (hc : c.Paged) (hk : k.Valid c.ftl.nrRuh) (hH : H.procIoCmd = blockProcIoCmd c k L)
    (h : ProcIo dc H d now d') (hbal : BufferBalanced c dc released d) :
    d'.ns.wbuf.size = d.ns.wbuf.size ∧ BufferBalanced c dc released d' := by
  cases h with
  | @refused s cmd ns hscan hseq hproc =>
      rw [hH] at hproc
      obtain ⟨⟨out, ns₁⟩, hio, hret⟩ := bind_eq_ok hproc
      obtain ⟨hsize, hcredit, _⟩ := procNvmeIoCmd_credit hc hk hio
      cases out with
      | some r => cases hret
      | none =>
          cases hret
          refine ⟨hsize, ⟨?_, hbal.ops⟩⟩
          have hbalance := hbal.balance
          simp only [Option.elim_none, Nat.add_zero] at hcredit
          show ns.credit c + owedBytes (d.issued dc) + d.charged c = ns.wbuf.size + d.written c + released
          rw [hsize, hcredit]
          exact hbalance
  | @accepted s reply cmd ns hscan hseq hproc workers entry new hothers hfed hnew hentry =>
      rw [hH] at hproc
      obtain ⟨⟨out, ns₁⟩, hio, hret⟩ := bind_eq_ok hproc
      obtain ⟨hsize, hcredit, hops⟩ := procNvmeIoCmd_credit hc hk hio
      cases out with
      | none => cases hret
      | some r =>
          cases hret
          refine ⟨hsize, ⟨?_, fun t ht => ?_⟩⟩
          · have hbalance := hbal.balance
            rw [owedBytes_issued] at hbalance
            rw [owedBytes_issued]
            unfold Dev.charged Dev.written at hbalance ⊢
            simp only [Option.elim_some] at hcredit
            simp only [List.map_cons, List.sum_cons]
            show ns.credit c + (opBytes r.ops + _) + (chargedBytes c _ r.ret + _) =
              ns.wbuf.size + (writtenBytes c _ r.ret + _) + released
            rw [hsize]
            omega
          · rcases List.mem_cons.mp ht with rfl | ht
            · exact hops r rfl
            · exact hbal.ops t ht

/-- **A worker** changes the namespace only by the operations it releases. -/
theorem Worked.release_cases {dk : Nat} (h : Worked dc H d dk now d') :
    d'.taken = d.taken ∧ ((d'.ns = d.ns ∧ d'.released = d.released) ∨
      ∃ op, d'.ns = H.release op d.ns ∧ d'.released = op :: d.released) := by
  cases h with
  | @settle curr currNsecs hpc hdue =>
      unfold Dev.settle
      split
      · refine ⟨rfl, ?_⟩
        cases hop : ((d.workers dk).workQueue curr).op with
        | none => exact Or.inl ⟨rfl, rfl⟩
        | some op => exact Or.inr ⟨op, rfl, rfl⟩
      · exact ⟨rfl, Or.inl ⟨rfl, rfl⟩⟩
  | _ => exact ⟨rfl, Or.inl ⟨rfl, rfl⟩⟩

theorem Dev.issued_congr (h : d'.taken = d.taken) : d'.issued dc = d.issued dc := by
  rw [Dev.issued, Dev.issued, h]

/-- The command that is decided next, if it is a write, satisfies `P`. -/
def WritesMeet (P : FdpNs τ → NvmeCommand → Prop) (d : Dev InternalOp (FdpNs τ)) : DevAct → Prop
  | .procIo _ =>
      match d.scan with
      | some s => (d.slots s.sqid s.sqEntry).opcode = .write → P d.ns (d.slots s.sqid s.sqEntry)
      | none => True
  | _ => True

instance decidableOnScan (P : Scan → Prop) [∀ s, Decidable (P s)] :
    (scan : Option Scan) → Decidable (match scan with | some s => P s | none => True)
  | some s => inferInstanceAs (Decidable (P s))
  | none => inferInstanceAs (Decidable True)

instance (P : FdpNs τ → NvmeCommand → Prop) [∀ ns cmd, Decidable (P ns cmd)] (d : Dev InternalOp (FdpNs τ)) :
    (a : DevAct) → Decidable (WritesMeet P d a)
  | .procIo _ => inferInstanceAs (Decidable (match d.scan with
      | some s => (d.slots s.sqid s.sqEntry).opcode = .write → P d.ns (d.slots s.sqid s.sqEntry)
      | none => True))
  | .writeSlot .. | .ringDoorbell .. | .writeMem _ | .procDbs _ | .work .. | .scanDone =>
      inferInstanceAs (Decidable True)

/-! ## The FDP build -/

/-- **The write buffer is conserved**: what is not remaining is in wordlines that are not complete, or with operations
    that are scheduled and not completed. -/
def BufferConserved (c : NsConfig) (dc : DevConfig) (d : Dev InternalOp (FdpNs τ)) : Prop :=
  d.ns.wbuf.size = d.ns.wbuf.remaining + c.ftl.sp.pgsz * d.ns.incompletePages c + owedBytes (d.outstanding dc)

/-- Every write taken covers whole pages. -/
def AlignedWrites (c : NsConfig) (d : Dev InternalOp (FdpNs τ)) : Prop :=
  ∀ t ∈ d.taken, t.cmd.opcode = .write → OnPageBounds c t.cmd

theorem ProcIo.alignedWrites (h : ProcIo dc H d now d')
    (hmeet : WritesMeet (fun _ cmd => OnPageBounds c cmd) d (.procIo now))
    (hal : AlignedWrites c d) : AlignedWrites c d' := by
  cases h with
  | refused _ _ _ => exact hal
  | accepted hscan _ _ _ _ _ _ =>
      simp only [WritesMeet, hscan] at hmeet
      exact List.forall_mem_cons.mpr ⟨hmeet, hal⟩

theorem chargedBytes_eq (hc : c.Paged) {cmd : NvmeCommand} (ret : NvmevResult)
    (hal : cmd.opcode = .write → OnPageBounds c cmd) :
    writtenBytes c cmd ret ≤ chargedBytes c cmd ret ∧
      (writtenBytes c cmd ret = chargedBytes c cmd ret ↔ (AcceptedWrite cmd ret → ¬ cmd.Wraps)) := by
  unfold writtenBytes chargedBytes
  by_cases hacc : AcceptedWrite cmd ret
  · rw [if_pos hacc, if_pos hacc]
    by_cases hwrap : cmd.Wraps
    · have hpos : 0 < cmd.bytes c.lbaBits := Nat.mul_pos cmd.nrLba_pos (Nat.two_pow_pos _)
      rw [cmdLpns_of_wraps hc hwrap, List.length_nil, Nat.mul_zero]
      exact ⟨Nat.zero_le _, iff_of_false hpos.ne fun h => h hacc hwrap⟩
    · obtain ⟨hfirst, hlength⟩ := hal hacc.1
      rw [length_cmdLpns hc ⟨hfirst, hlength, Nat.le_of_not_lt hwrap⟩]
      exact ⟨Nat.le_refl _, iff_of_true rfl fun _ => hwrap⟩
  · rw [if_neg hacc, if_neg hacc]
    exact ⟨Nat.le_refl _, iff_of_true rfl fun h => absurd h hacc⟩

theorem incompletePages_fresh (c : NsConfig) (ctx : FdpCtx) (tm : τ) : (freshNs c ctx tm).incompletePages c = 0 := by
  refine Finset.sum_eq_zero fun i _ => Finset.sum_eq_zero fun r hr => ?_
  have hwp : ((freshNs c ctx tm).ftls i).wpRuh r = .start r := if_pos (Finset.mem_range.mp hr)
  rw [hwp]
  exact Nat.zero_mod _

theorem bufferBalanced_boot (c : NsConfig) (dc : DevConfig) (ctx : FdpCtx) (tm : τ) (slots : Nat → Nat → NvmeCommand)
    (mem : IoMem) : BufferBalanced c dc 0 (Dev.boot slots mem (freshNs c ctx tm)) where
  balance := by
    show (freshNs c ctx tm).credit c + 0 + 0 = c.ftl.sp.writeBufferSize + 0 + 0
    rw [FdpNs.credit, incompletePages_fresh]
    rfl
  ops := nofun

/-- An operation that was released was one of a command. -/
theorem DutiesWithin.mem_of_released (h : DutiesWithin dc d) {op : InternalOp} (hop : op ∈ d.released) :
    ∃ t ∈ d.taken, op ∈ t.reply.ops := by
  have hmem : Duty.release op ∈ d.issued dc := by
    refine Multiset.mem_of_le h (Multiset.mem_add.mpr (Or.inl (Multiset.mem_add.mpr (Or.inr ?_))))
    exact Multiset.mem_coe.mpr (List.mem_map_of_mem hop)
  obtain ⟨t, ht, hduty⟩ := List.mem_flatMap.mp (Multiset.mem_coe.mp hmem)
  rcases List.mem_append.mp hduty with hduty | hduty
  · obtain ⟨op', hop', heq⟩ := List.mem_map.mp hduty
    cases heq
    exact ⟨t, ht, hop'⟩
  · cases List.mem_singleton.mp hduty

theorem BufferBalanced.opBytes_eq_zero (h : BufferBalanced c dc released d) (hin : DutiesWithin dc d) :
    opBytes d.released = 0 ↔ d.released = [] := by
  refine ⟨fun hzero => ?_, fun hnil => by rw [hnil]; rfl⟩
  by_contra hne
  obtain ⟨op, hop⟩ := List.exists_mem_of_ne_nil _ hne
  obtain ⟨t, ht, hmem⟩ := hin.mem_of_released hop
  have hpos := h.ops t ht op hmem
  have hle := List.single_le_sum (fun _ _ => Nat.zero_le _) _ (List.mem_map_of_mem (f := InternalOp.buffsToRelease) hop)
  unfold opBytes at hzero
  omega

/-- What an FDP run of page writes with room keeps up. -/
structure FdpBuffer (c : NsConfig) (dc : DevConfig) (d : Dev InternalOp (FdpNs τ)) : Prop where
  workers : WorkersOk dc d
  accounted : DutiesAccounted dc d
  balanced : BufferBalanced c dc 0 d
  aligned : AlignedWrites c d

theorem fdpBuffer_step (hc : c.Paged) {a : DevAct} (h : d.act dc (fdpHandler c L) a = .ok d')
    (hroom : HasRoom dc (fdpHandler c L) d a) (hmeet : WritesMeet (fun _ cmd => OnPageBounds c cmd) d a)
    (hinv : FdpBuffer c dc d) : FdpBuffer c dc d' := by
  have hworkers := workersOk_step hinv.workers h
  have hacc := accounted_step hinv.workers hinv.accounted hroom h
  cases act_cases hinv.workers h with
  | procIo hcase =>
      have hbal := (hcase.bufferBalanced hc (fdpHooks_valid hc.nrRuh_pos) rfl hinv.balanced).2
      exact ⟨hworkers, hacc, hbal, hcase.alignedWrites hmeet hinv.aligned⟩
  | work hk hcase =>
      obtain ⟨htaken, hrel⟩ := hcase.release_cases
      have hns : d'.ns = d.ns := by
        obtain ⟨hns, _⟩ | ⟨op, hns, _⟩ := hrel
        · exact hns
        · exact hns
      refine ⟨hworkers, hacc, ⟨?_, ?_⟩, ?_⟩
      · rw [Dev.issued_congr htaken, Dev.charged, Dev.written, htaken, hns]
        exact hinv.balanced.balance
      · rw [htaken]
        exact hinv.balanced.ops
      · rw [AlignedWrites, htaken]
        exact hinv.aligned
  | _ => exact ⟨hworkers, hacc, ⟨hinv.balanced.balance, hinv.balanced.ops⟩, hinv.aligned⟩

theorem DevRun.fdpBuffer (hc : c.Paged) {ctx : FdpCtx} {tm : τ} {slots : Nat → Nat → NvmeCommand} {mem : IoMem}
    (hrun : DevRun dc (fdpHandler c L)
      (fun d a => HasRoom dc (fdpHandler c L) d a ∧ WritesMeet (fun _ cmd => OnPageBounds c cmd) d a)
      (Dev.boot slots mem (freshNs c ctx tm)) d) : FdpBuffer c dc d := by
  induction hrun with
  | refl => exact ⟨workersOk_boot _ _ _, accounted_boot _ _ _, bufferBalanced_boot _ _ _ _ _ _, nofun⟩
  | step _ hG hact ih => exact fdpBuffer_step hc hact hG.1 hG.2 ih

/-- **When the FDP write buffer is conserved**: in every run of page-aligned writes in which the work queue never runs
    out of entries, exactly as long as no internal operation has completed and no accepted write wrapped around the end
    of the address space. -/
theorem writeBuffer_conserved_iff {size : Nat} {tm : τ} (hinit : fdpInitNamespace size tm = .ok ns)
    {slots : Nat → Nat → NvmeCommand} {mem : IoMem}
    (hrun : DevRun dc (fdpHandler (fdpNsConfig size) L)
      (fun d a => HasRoom dc (fdpHandler (fdpNsConfig size) L) d a ∧
        WritesMeet (fun _ cmd => OnPageBounds (fdpNsConfig size) cmd) d a)
      (Dev.boot slots mem ns) d) :
    BufferConserved (fdpNsConfig size) dc d ↔
      d.released = [] ∧ ∀ t ∈ d.taken, AcceptedWrite t.cmd t.reply.ret → ¬ t.cmd.Wraps := by
  have hc := fdpNsConfig_paged size
  rw [fdpInitNamespace, initNamespace_eq _ _ (fdp_lines_enough size)] at hinit
  cases hinit
  have hinv := hrun.fdpBuffer hc
  have hbalance := hinv.balanced.balance
  have hin : DutiesWithin dc d := le_of_eq hinv.accounted.symm
  have hissued : owedBytes (d.issued dc) = opBytes d.released + owedBytes (d.outstanding dc) := by
    rw [hinv.accounted, owedBytes_add, owedBytes_discharged]
  have hle := fun t ht => (chargedBytes_eq hc t.reply.ret (hinv.aligned t ht)).1
  have hsum : d.written (fdpNsConfig size) = d.charged (fdpNsConfig size) ↔
      ∀ t ∈ d.taken, AcceptedWrite t.cmd t.reply.ret → ¬ t.cmd.Wraps := by
    refine (sum_map_eq_iff hle).trans (forall₂_congr fun t ht => ?_)
    exact (chargedBytes_eq hc t.reply.ret (hinv.aligned t ht)).2
  have hwritten : d.written (fdpNsConfig size) ≤ d.charged (fdpNsConfig size) := List.sum_le_sum hle
  rw [← hinv.balanced.opBytes_eq_zero hin, ← hsum, BufferConserved]
  unfold FdpNs.credit at hbalance
  omega

/-! ### A write of 32 pages -/

/-- 128 KiB at the beginning of the device: eight pages, and so a wordline, on every partition. -/
def fourWordlines : NvmeCommand := (writeReq 0 255 none).cmd

instance (c : NsConfig) (dc : DevConfig) (d : Dev InternalOp (FdpNs τ)) : Decidable (BufferConserved c dc d) :=
  inferInstanceAs (Decidable (_ = _))

/-- The write before its operations are due: 128 KiB are charged, and owed. -/
theorem writeBuffer_conserved_at_first :
    ∃ ns, fdpInitNamespace 67108864 () = .ok ns ∧ ∃ d,
      DevRun oneWorker fdpDevice
        (fun d a => HasRoom oneWorker fdpDevice d a ∧
          WritesMeet (fun _ cmd => OnPageBounds (fdpNsConfig 67108864) cmd) d a)
        (Dev.boot (fun _ _ => fourWordlines) ⟨fun _ => 0, fun _ => 0⟩ ns) d ∧
      d.ns.wbuf.size = d.ns.wbuf.remaining + 131072 ∧ BufferConserved (fdpNsConfig 67108864) oneWorker d := by
  refine ⟨fdpFresh, fdpInitNamespace_fresh, ?_⟩
  obtain ⟨d, hrun, hsee⟩ := exists_roomRun oneWorker fdpDevice
    (WritesMeet fun _ cmd => OnPageBounds (fdpNsConfig 67108864) cmd) (fun _ _ => fourWordlines)
    ⟨fun _ => 0, fun _ => 0⟩ fdpFresh [.ringDoorbell 1 1, .procDbs 1, .procIo 0]
    (fun d => (decide (d.ns.wbuf.size = d.ns.wbuf.remaining + 131072), d.released,
      decide (∀ t ∈ d.taken, AcceptedWrite t.cmd t.reply.ret → ¬ t.cmd.Wraps))) (a := (true, [], true))
    (by decide +kernel)
  simp only [Prod.mk.injEq, decide_eq_true_eq] at hsee
  obtain ⟨hcharged, hnone, hwraps⟩ := hsee
  exact ⟨d, hrun, hcharged, (writeBuffer_conserved_iff fdpInitNamespace_fresh hrun).mpr ⟨hnone, hwraps⟩⟩

/-- The command is submitted and taken, and the worker completes the four operations. -/
def bufferActs : List DevAct := [.ringDoorbell 1 1, .procDbs 1, .procIo 0] ++ List.replicate 12 (.work 0 0)

/-- **The buffer leaks.** After the four operations have completed the buffer is still charged for all of them. -/
theorem writeBuffer_leaks :
    ∃ ns, fdpInitNamespace 67108864 () = .ok ns ∧ ∃ d,
      DevRun oneWorker fdpDevice
        (fun d a => HasRoom oneWorker fdpDevice d a ∧
          WritesMeet (fun _ cmd => OnPageBounds (fdpNsConfig 67108864) cmd) d a)
        (Dev.boot (fun _ _ => fourWordlines) ⟨fun _ => 0, fun _ => 0⟩ ns) d ∧
      d.ns.wbuf.size = d.ns.wbuf.remaining + 131072 ∧ ¬ BufferConserved (fdpNsConfig 67108864) oneWorker d := by
  refine ⟨fdpFresh, fdpInitNamespace_fresh, ?_⟩
  obtain ⟨d, hrun, hsee⟩ := exists_roomRun oneWorker fdpDevice
    (WritesMeet fun _ cmd => OnPageBounds (fdpNsConfig 67108864) cmd) (fun _ _ => fourWordlines)
    ⟨fun _ => 0, fun _ => 0⟩ fdpFresh bufferActs
    (fun d => (decide (d.ns.wbuf.size = d.ns.wbuf.remaining + 131072),
      decide (BufferConserved (fdpNsConfig 67108864) oneWorker d))) (a := (true, false)) (by decide +kernel)
  simp only [Prod.mk.injEq, decide_eq_true_eq, decide_eq_false_iff_not] at hsee
  exact ⟨d, hrun, hsee.1, hsee.2⟩

/-! ## The conventional build -/

/-- The checks of `conv_write`. -/
def WriteAdmitted (c : NsConfig) (ns : FdpNs τ) (cmd : NvmeCommand) : Prop :=
  ¬ outOfRange c cmd ∧ cmd.bytes c.lbaBits ≤ ns.wbuf.remaining

instance (c : NsConfig) (ns : FdpNs τ) (cmd : NvmeCommand) : Decidable (WriteAdmitted c ns cmd) :=
  inferInstanceAs (Decidable (_ ∧ _))

/-- A write that is admitted covers whole pages, or wraps and writes none. -/
def WholePages (c : NsConfig) (ns : FdpNs τ) (cmd : NvmeCommand) : Prop :=
  WriteAdmitted c ns cmd → PageAligned c cmd ∨ cmd.Wraps

instance (c : NsConfig) (ns : FdpNs τ) (cmd : NvmeCommand) : Decidable (WholePages c ns cmd) :=
  inferInstanceAs (Decidable (_ → _))

theorem admitted_of_accepted (hlba : c.lbaBits ≤ 15) {req : NvmevRequest} {r : Handled}
    (h : procNvmeIoCmd c k L req ns = .ok (some r, ns')) (hacc : AcceptedWrite req.cmd r.ret) :
    WriteAdmitted c ns req.cmd := by
  obtain ⟨_, hw⟩ | ⟨hop, _⟩ := procNvmeIoCmd_cases hlba h
  · cases hw with
    | rejected _ _ => exact nomatch hacc.2
    | written hin _ hb _ _ => exact ⟨hin, hb⟩
  · exact absurd hacc.1 hop

theorem writtenBytes_le (hc : c.Paged) {cmd : NvmeCommand} (ret : NvmevResult)
    (h : AcceptedWrite cmd ret → PageAligned c cmd ∨ cmd.Wraps) : writtenBytes c cmd ret ≤ chargedBytes c cmd ret := by
  unfold writtenBytes chargedBytes
  by_cases hacc : AcceptedWrite cmd ret
  · rw [if_pos hacc, if_pos hacc]
    by_cases hwrap : cmd.Wraps
    · rw [cmdLpns_of_wraps hc hwrap]
      exact Nat.zero_le _
    · exact Nat.le_of_eq (length_cmdLpns hc ((h hacc).resolve_right hwrap))
  · rw [if_neg hacc, if_neg hacc]

/-- What a conventional run keeps up. -/
structure ConvBuffer (c : NsConfig) (dc : DevConfig) (d : Dev InternalOp (FdpNs τ)) : Prop where
  workers : WorkersOk dc d
  within : DutiesWithin dc d
  balanced : BufferBalanced c dc (opBytes d.released) d
  covered : d.written c ≤ d.charged c
  size_lt : d.ns.wbuf.size < 2 ^ 64

theorem ConvBuffer.credit_le (h : ConvBuffer c dc d) : d.ns.credit c ≤ d.ns.wbuf.size := by
  have hbalance := h.balanced.balance
  have hcovered := h.covered
  have hle := owedBytes_le (le_self_add.trans h.within)
  rw [owedBytes_discharged] at hle
  omega

/-- An operation gives back no more than is missing. -/
theorem ConvBuffer.release_le (h : ConvBuffer c dc d) {op : InternalOp} (htaken : d'.taken = d.taken)
    (hrel : d'.released = op :: d.released) (hin : DutiesWithin dc d') :
    d.ns.credit c + op.buffsToRelease ≤ d.ns.wbuf.size := by
  have hbalance := h.balanced.balance
  have hcovered := h.covered
  have hle := owedBytes_le (le_self_add.trans hin)
  rw [owedBytes_discharged, hrel, opBytes_cons, Dev.issued_congr htaken] at hle
  omega

theorem ProcIo.convBuffer (hc : c.Paged) (h : ProcIo dc (convHandler c L) d now d')
    (hmeet : WritesMeet (WholePages c) d (.procIo now)) (hcov : d.written c ≤ d.charged c) :
    d'.written c ≤ d'.charged c ∧ d'.released = d.released := by
  cases h with
  | refused _ _ _ => exact ⟨hcov, rfl⟩
  | @accepted s reply cmd ns hscan hseq hproc workers entry new hothers hfed hnew hentry =>
      refine ⟨?_, rfl⟩
      obtain ⟨⟨out, ns₁⟩, hio, hret⟩ := bind_eq_ok hproc
      cases out with
      | none => cases hret
      | some r =>
          cases hret
          simp only [WritesMeet, hscan] at hmeet
          have hone := writtenBytes_le hc r.ret fun hacc =>
            hmeet hacc.1 (admitted_of_accepted hc.lbaBits_le hio hacc)
          unfold Dev.written Dev.charged at hcov ⊢
          simp only [List.map_cons, List.sum_cons]
          exact Nat.add_le_add hone hcov

theorem convBuffer_step (hc : c.Paged) {a : DevAct} (h : d.act dc (convHandler c L) a = .ok d')
    (hmeet : WritesMeet (WholePages c) d a) (hinv : ConvBuffer c dc d) : ConvBuffer c dc d' := by
  have hworkers := workersOk_step hinv.workers h
  have hin := dutiesWithin_step hinv.workers hinv.within h
  have hbalance := hinv.balanced.balance
  cases act_cases hinv.workers h with
  | procIo hcase =>
      obtain ⟨hsize, hbal⟩ := hcase.bufferBalanced hc (convHooks_valid hc.nrRuh_pos) rfl hinv.balanced
      obtain ⟨hcov, hrel⟩ := hcase.convBuffer hc hmeet hinv.covered
      exact ⟨hworkers, hin, hrel ▸ hbal, hcov, hsize ▸ hinv.size_lt⟩
  | work hk hcase =>
      obtain ⟨htaken, hrelease⟩ := hcase.release_cases
      have hops : ∀ t ∈ d'.taken, ∀ op ∈ t.reply.ops, 0 < op.buffsToRelease := htaken ▸ hinv.balanced.ops
      have hcov : d'.written c ≤ d'.charged c := by
        rw [Dev.written, Dev.charged, htaken]
        exact hinv.covered
      obtain ⟨hns, hrel⟩ | ⟨op, hns, hrel⟩ := hrelease
      · refine ⟨hworkers, hin, ⟨?_, hops⟩, hcov, hns ▸ hinv.size_lt⟩
        rw [Dev.issued_congr htaken, Dev.charged, Dev.written, htaken, hns, hrel]
        exact hbalance
      · have hcredit := hinv.release_le htaken hrel hin
        have hns' : d'.ns = { d.ns with wbuf := bufferRelease d.ns.wbuf op.buffsToRelease } := hns
        have hsize_lt := hinv.size_lt
        have hremaining : d'.ns.wbuf.remaining = d.ns.wbuf.remaining + op.buffsToRelease := by
          rw [hns']
          show u64 (d.ns.wbuf.remaining + op.buffsToRelease) = _
          unfold FdpNs.credit at hcredit
          exact Nat.mod_eq_of_lt (by omega)
        have hsize : d'.ns.wbuf.size = d.ns.wbuf.size := by
          rw [hns']
          rfl
        have hpages : d'.ns.incompletePages c = d.ns.incompletePages c := by
          rw [hns']
          rfl
        refine ⟨hworkers, hin, ⟨?_, hops⟩, hcov, hsize ▸ hsize_lt⟩
        rw [Dev.issued_congr htaken, Dev.charged, Dev.written, htaken, hrel, opBytes_cons, FdpNs.credit, hremaining, hsize,
          hpages]
        unfold FdpNs.credit Dev.charged Dev.written at hbalance
        omega
  | _ => exact ⟨hworkers, hin, ⟨hbalance, hinv.balanced.ops⟩, hinv.covered, hinv.size_lt⟩

theorem DevRun.convBuffer (hc : c.Paged) {ctx : FdpCtx} {tm : τ} {slots : Nat → Nat → NvmeCommand} {mem : IoMem}
    (hsize : c.ftl.sp.writeBufferSize < 2 ^ 64)
    (hrun : DevRun dc (convHandler c L) (WritesMeet (WholePages c)) (Dev.boot slots mem (freshNs c ctx tm)) d) :
    ConvBuffer c dc d := by
  induction hrun with
  | refl =>
      exact ⟨workersOk_boot _ _ _, le_of_eq (accounted_boot _ _ _).symm, bufferBalanced_boot _ _ _ _ _ _,
        Nat.le_refl _, hsize⟩
  | step _ hmeet hact ih => exact convBuffer_step hc hact hmeet ih

/-- **The conventional write buffer never gets more than it has room for**, in every run in which the writes that are
    admitted cover whole pages. -/
theorem conv_buffer_within {size : Nat} {ctx : FdpCtx} {tm : τ}
    (hinit : initNamespace (convNsConfig size) ctx tm = .ok ns) {slots : Nat → Nat → NvmeCommand} {mem : IoMem}
    (hrun : DevRun dc (convHandler (convNsConfig size) L) (WritesMeet (WholePages (convNsConfig size)))
      (Dev.boot slots mem ns) d) : d.ns.wbuf.remaining ≤ d.ns.wbuf.size := by
  rw [initNamespace_eq _ _ (conv_lines_enough size)] at hinit
  cases hinit
  have hsize : (convNsConfig size).ftl.sp.writeBufferSize < 2 ^ 64 := by
    show 8 * 2 * (32 * 2 ^ 10 * 1) * 2 < 2 ^ 64
    decide
  have hle := (hrun.convBuffer (convNsConfig_paged size) hsize).credit_le
  unfold FdpNs.credit at hle
  omega

/-! ### A write of 32 pages, the first and the last of them in part -/

/-- The conventional device of 64 MiB. -/
def convDevice : IoHandler InternalOp (FdpNs Unit) := convHandler (convNsConfig 67108864) fun _ => Latency.instant

/-- Its namespace as `conv_init_namespace` leaves it. -/
def convFresh : FdpNs Unit := freshNs (convNsConfig 67108864) (fdpInitCtx 0) ()

theorem convInitNamespace_fresh : initNamespace (convNsConfig 67108864) (fdpInitCtx 0) () = .ok convFresh :=
  initNamespace_eq _ _ (conv_lines_enough _)

/-- 128 KiB of whole pages come and go. -/
theorem conv_buffer_within_32_pages :
    ∃ ns, initNamespace (convNsConfig 67108864) (fdpInitCtx 0) () = .ok ns ∧ ∃ d,
      DevRun oneWorker convDevice (WritesMeet (WholePages (convNsConfig 67108864)))
        (Dev.boot (fun _ _ => fourWordlines) ⟨fun _ => 0, fun _ => 0⟩ ns) d ∧
      d.released.length = 4 ∧ d.ns.wbuf.remaining ≤ d.ns.wbuf.size := by
  refine ⟨convFresh, convInitNamespace_fresh, ?_⟩
  have hobs : ((Dev.boot (fun _ _ => fourWordlines) ⟨fun _ => 0, fun _ => 0⟩ convFresh).acts oneWorker convDevice
      (WritesMeet (WholePages (convNsConfig 67108864))) bufferActs).toOption.map (fun d => d.released.length) =
      some 4 := by decide +kernel
  obtain ⟨d, hok, hsee⟩ := exists_ok_of_observed hobs
  have hrun := devRun_of_acts hok
  exact ⟨d, hrun, hsee, conv_buffer_within convInitNamespace_fresh hrun⟩

/-- **The buffer gets more than it gave.** 242 blocks from block 7 on lie in 32 pages: 121 KiB are charged, and 128 KiB
    released. -/
theorem conv_buffer_overflows :
    ∃ ns, initNamespace (convNsConfig 67108864) (fdpInitCtx 0) () = .ok ns ∧ ∃ d,
      DevRun oneWorker convDevice (fun _ _ => True)
        (Dev.boot (fun _ _ => (writeReq 7 241 none).cmd) ⟨fun _ => 0, fun _ => 0⟩ ns) d ∧
      d.ns.wbuf.remaining = d.ns.wbuf.size + 7168 ∧ ¬ d.ns.wbuf.remaining ≤ d.ns.wbuf.size := by
  refine ⟨convFresh, convInitNamespace_fresh, ?_⟩
  have hobs : ((Dev.boot (fun _ _ => (writeReq 7 241 none).cmd) ⟨fun _ => 0, fun _ => 0⟩ convFresh).acts oneWorker
      convDevice (fun _ _ => True) bufferActs).toOption.map
        (fun d => decide (d.ns.wbuf.remaining = d.ns.wbuf.size + 7168)) = some true := by decide +kernel
  obtain ⟨d, hok, hsee⟩ := exists_ok_of_observed hobs
  have hmore := of_decide_eq_true hsee
  exact ⟨d, devRun_of_acts hok, hmore, by omega⟩

end Device

end NvmeVirt
