import NvmeVirt.Ftl.Run
import NvmeVirt.Fdp.Namespace

/-!
# `Fdp.Run` — runs of a namespace, and their partitions

`WriteOutcome` says once what a write command can do; `NsRun` is a run of a namespace, with the writes it
completed. Nothing a command does to one partition is visible to another except through the shared
statistics and latencies, so every partition of a run is a run of its own: `NsRun.reach` turns what
`Ftl.Run` proves of a partition into a fact about the device.
-/

namespace NvmeVirt

open Outcome

variable {τ : Type} {c : NsConfig} {k : Hooks} {L : Nat → Latency τ} {ns ns' : FdpNs τ}

/-! ## Partitions of a namespace -/

@[simp] theorem part_setPart_self (ns : FdpNs τ) (i : Nat) (s : Part τ) : (ns.setPart i s).part i = s := by
  simp [FdpNs.part, FdpNs.setPart]

theorem ftls_setPart_of_ne (ns : FdpNs τ) {i j : Nat} (s : Part τ) (h : j ≠ i) :
    (ns.setPart i s).ftls j = ns.ftls j := by
  simp [FdpNs.setPart, h]

/-- The namespace `fdp_init_namespace` leaves. -/
def freshNs (c : NsConfig) (ctx : FdpCtx) (tm : τ) : FdpNs τ where
  ftls := fun _ => (initialised c.ftl ctx tm).toFdpFtl
  wbuf := bufferInit c.ftl.sp.writeBufferSize
  ctx := ctx
  tm := tm

theorem initNamespace_eq (ctx : FdpCtx) (tm : τ) (h : c.ftl.nrRuh + 1 ≤ c.ftl.sp.ttLines) :
    initNamespace c ctx tm = .ok (freshNs c ctx tm) := by
  rw [initNamespace, fdpInitFtl_eq _ _ h]
  rfl

/-- The LPNs of a command that passes the range check pass it on their partition. -/
theorem lpn_in_range {cmd : NvmeCommand} (h : ¬ outOfRange c cmd) {lpn : Nat} (hlpn : lpn ∈ cmdLpns c cmd) :
    lpn / c.nrParts < c.ftl.sp.ttPgs := by
  obtain ⟨i, hi, rfl⟩ := List.mem_range'.mp hlpn
  refine Nat.lt_of_le_of_lt (Nat.div_le_div_right ?_) (Nat.lt_of_not_le h)
  show startLpn c cmd + 1 * i ≤ endLpn c cmd
  omega

/-! ## What a write command can do -/

theorem bytes_lt (h : c.lbaBits ≤ 15) (cmd : NvmeCommand) : cmd.bytes c.lbaBits < 2 ^ 32 := by
  have hpow : 2 ^ c.lbaBits ≤ 2 ^ 15 := Nat.pow_le_pow_right (by decide) h
  calc cmd.nrLba * 2 ^ c.lbaBits ≤ 65536 * 2 ^ 15 := Nat.mul_le_mul cmd.nrLba_le hpow
    _ < 2 ^ 32 := by decide

/-- The completion time of a write: with early completion, when its data is in the write buffer. -/
def writeTarget (c : NsConfig) (cmd : NvmeCommand) (xfer latest : Nat) : Nat :=
  if cmd.fua || !c.ftl.sp.writeEarlyCompletion then latest else xfer

/-- When the data of a command is in the write buffer. -/
def xferCompleted (c : NsConfig) (L : Nat → Latency τ) (req : NvmevRequest) (ns : FdpNs τ) : Nat :=
  ((L 0).advanceWriteBuffer ns.tm req.nsecsStart (req.cmd.bytes c.lbaBits)).2

/-- The state in which the write loop of a command starts. -/
def writeLoopStart (c : NsConfig) (k : Hooks) (L : Nat → Latency τ) (req : NvmevRequest) (ns : FdpNs τ)
    (ctx : FdpCtx) : WriteLoop τ where
  ns :=
    { ns with
      wbuf := { ns.wbuf with remaining := ns.wbuf.remaining - req.cmd.bytes c.lbaBits }
      ctx := k.account (req.cmd.bytes c.lbaBits) ctx
      tm := ((L 0).advanceWriteBuffer ns.tm req.nsecsStart (req.cmd.bytes c.lbaBits)).1 }
  nsecsLatest := xferCompleted c L req ns
  ops := []

/-- The write loop of a command. -/
def writeLoop (c : NsConfig) (k : Hooks) (L : Nat → Latency τ) (req : NvmevRequest) (ns : FdpNs τ)
    (ruh : Nat) (ctx : FdpCtx) : Except Fault (WriteLoop τ) :=
  (cmdLpns c req.cmd).foldlM (writeLoopBody c L (xferCompleted c L req ns) ruh)
    (writeLoopStart c k L req ns ctx)

/-- **What a write command can do**: be refused for its range, be rejected for its placement handle, be
    refused for want of buffer space, or run its loop. -/
inductive WriteOutcome (c : NsConfig) (k : Hooks) (L : Nat → Latency τ) (req : NvmevRequest)
    (ns : FdpNs τ) : Option Handled → FdpNs τ → Prop where
  | outOfRange (h : outOfRange c req.cmd) : WriteOutcome c k L req ns none ns
  | rejected {ctx : FdpCtx} (h : ¬ NvmeVirt.outOfRange c req.cmd)
      (hr : k.route req.cmd ((L 0).localClock ns.tm) ns.ctx = (none, ctx)) :
      WriteOutcome c k L req ns (some ⟨⟨scInvalidField, req.nsecsStart, 0⟩, []⟩) { ns with ctx := ctx }
  | refused {ruh : Nat} {ctx : FdpCtx} (h : ¬ NvmeVirt.outOfRange c req.cmd)
      (hr : k.route req.cmd ((L 0).localClock ns.tm) ns.ctx = (some ruh, ctx))
      (hb : ns.wbuf.remaining < req.cmd.bytes c.lbaBits) :
      WriteOutcome c k L req ns none { ns with ctx := ctx }
  | written {ruh : Nat} {ctx : FdpCtx} {st : WriteLoop τ} (h : ¬ NvmeVirt.outOfRange c req.cmd)
      (hr : k.route req.cmd ((L 0).localClock ns.tm) ns.ctx = (some ruh, ctx))
      (hb : req.cmd.bytes c.lbaBits ≤ ns.wbuf.remaining)
      (hloop : writeLoop c k L req ns ruh ctx = .ok st) {target : Nat}
      (ht : target = writeTarget c req.cmd (xferCompleted c L req ns) st.nsecsLatest) :
      WriteOutcome c k L req ns (some ⟨⟨scSuccess, target, 0⟩, st.ops⟩) st.ns

/-- **How a write command can stop the module**: it is larger than the whole write buffer, or its loop
    faults. -/
def WriteFault (c : NsConfig) (k : Hooks) (L : Nat → Latency τ) (req : NvmevRequest) (ns : FdpNs τ)
    (e : Fault) : Prop :=
  e = .bug ∧ ns.wbuf.size < req.cmd.bytes c.lbaBits ∨
    ∃ ruh ctx, ¬ outOfRange c req.cmd ∧
      k.route req.cmd ((L 0).localClock ns.tm) ns.ctx = (some ruh, ctx) ∧
      writeLoop c k L req ns ruh ctx = .error e

theorem writeCommand_spec (k : Hooks) (L : Nat → Latency τ) (req : NvmevRequest) (ns : FdpNs τ)
    (hlba : c.lbaBits ≤ 15) :
    Sat (WriteFault c k L req ns) (fun r => WriteOutcome c k L req ns r.1 r.2)
      (writeCommand c k L req ns) := by
  unfold writeCommand
  split
  · rename_i hoor
    exact WriteOutcome.outOfRange hoor
  · rename_i hin
    cases hroute : k.route req.cmd ((L 0).localClock ns.tm) ns.ctx with
    | mk ruh ctx =>
        cases ruh with
        | none => exact WriteOutcome.rejected hin hroute
        | some ruh =>
            by_cases hsize : req.cmd.bytes c.lbaBits ≤ ns.wbuf.size
            · by_cases hrem : ns.wbuf.remaining < req.cmd.bytes c.lbaBits
              · have hzero : 0 < req.cmd.bytes c.lbaBits := Nat.lt_of_le_of_lt (Nat.zero_le _) hrem
                simp only [bufferAllocate_of_short hsize hrem, ok_bind, if_pos hzero]
                exact WriteOutcome.refused hin hroute hrem
              · simp only [bufferAllocate_of_le hsize (bytes_lt hlba req.cmd) (Nat.le_of_not_lt hrem), ok_bind,
                  Nat.lt_irrefl, if_false]
                show Sat _ _ (writeLoop c k L req ns ruh ctx >>= _)
                cases hloop : writeLoop c k L req ns ruh ctx with
                | error e => exact Or.inr ⟨ruh, ctx, hin, hroute, hloop⟩
                | ok st => exact WriteOutcome.written hin hroute (Nat.le_of_not_lt hrem) hloop rfl
            · simp only [bufferAllocate_of_lt (Nat.lt_of_not_le hsize), error_bind]
              exact Or.inl ⟨rfl, Nat.lt_of_not_le hsize⟩

theorem writeCommand_cases (hlba : c.lbaBits ≤ 15) {req : NvmevRequest} {out : Option Handled}
    (h : writeCommand c k L req ns = .ok (out, ns')) : WriteOutcome c k L req ns out ns' :=
  (writeCommand_spec k L req ns hlba).of_eq_ok h

/-- **A write of one page** that fits the buffer does to its partition what its page write does. -/
theorem onePage_spec {E : Fault → Prop} {P : FdpFtl → Prop} (ns : FdpNs τ) {req : NvmevRequest}
    {lpn ruh : Nat} (hlba : c.lbaBits ≤ 15) (hlpns : cmdLpns c req.cmd = [lpn]) (hin : ¬ outOfRange c req.cmd)
    (hroute : (k.route req.cmd ((L 0).localClock ns.tm) ns.ctx).1 = some ruh)
    (hbuf : req.cmd.bytes c.lbaBits ≤ ns.wbuf.remaining ∧ ns.wbuf.remaining ≤ ns.wbuf.size)
    (hpage : ∀ ctx tm stime, Sat E (fun r => P r.2.toFdpFtl)
      (writePage c.ftl (L (lpn % c.nrParts)) stime ruh (lpn / c.nrParts)
        ⟨ns.ftls (lpn % c.nrParts), ctx, tm⟩)) :
    Sat E
      (fun r => P (r.2.ftls (lpn % c.nrParts)) ∧
        r.2.wbuf = { ns.wbuf with remaining := ns.wbuf.remaining - req.cmd.bytes c.lbaBits } ∧
        ∃ h : Handled, r.1 = some h ∧ h.ret.status = scSuccess)
      (writeCommand c k L req ns) := by
  have hloop : ∀ ctx, Sat E
      (fun st : WriteLoop τ => P (st.ns.ftls (lpn % c.nrParts)) ∧
        st.ns.wbuf = { ns.wbuf with remaining := ns.wbuf.remaining - req.cmd.bytes c.lbaBits })
      (writeLoop c k L req ns ruh ctx) := by
    intro ctx
    rw [writeLoop, hlpns, List.foldlM_cons]
    refine Sat.bind ?_ fun st hst => hst
    rw [writeLoopBody]
    refine Sat.bind (hpage _ _ _) ?_
    rintro ⟨t, s⟩ hs
    have hset : P (Function.update ns.ftls (lpn % c.nrParts) s.toFdpFtl (lpn % c.nrParts)) := by
      rw [Function.update_self]
      exact hs
    cases t with
    | none => exact ⟨hset, rfl⟩
    | some t => exact ⟨hset, rfl⟩
  refine ((writeCommand_spec _ L req ns hlba).mono_error ?_).mono ?_
  · rintro e (⟨_, hsize⟩ | ⟨ruh', ctx, _, hr, herr⟩)
    · exact absurd (Nat.le_trans hbuf.1 hbuf.2) (Nat.not_le.mpr hsize)
    · rw [hr] at hroute
      obtain rfl := Option.some.inj hroute
      exact (hloop ctx).of_eq_error herr
  · rintro ⟨out, ns'⟩ hout
    cases hout with
    | outOfRange h => exact absurd h hin
    | rejected _ hr =>
        rw [hr] at hroute
        exact absurd hroute nofun
    | refused _ _ hb => exact absurd hbuf.1 (Nat.not_le.mpr hb)
    | written _ hr _ hok _ =>
        rw [hr] at hroute
        obtain rfl := Option.some.inj hroute
        obtain ⟨hP, hwbuf⟩ := (hloop _).of_eq_ok hok
        exact ⟨hP, hwbuf, _, rfl, rfl⟩

/-- A write without a placement directive goes to handle 0. -/
theorem fdpRoute_default {nrRuh : Nat} {cmd : NvmeCommand} (h : cmd.dtype ≠ directivePlacement) (now : Nat)
    (ctx : FdpCtx) : (fdpRoute nrRuh cmd now ctx).1 = some 0 := by
  rw [fdpRoute, if_neg h]
  split <;> rfl

/-- **What a request can do**: a write has its outcomes, anything else moves the latency model only and
    schedules nothing. -/
theorem procNvmeIoCmd_cases (hlba : c.lbaBits ≤ 15) {req : NvmevRequest} {out : Option Handled}
    (h : procNvmeIoCmd c k L req ns = .ok (out, ns')) :
    req.cmd.opcode = .write ∧ WriteOutcome c k L req ns out ns' ∨
      req.cmd.opcode ≠ .write ∧ (∃ tm, ns' = { ns with tm := tm }) ∧ ∀ r, out = some r → r.ops = [] := by
  unfold procNvmeIoCmd at h
  split at h
  · rename_i hop
    exact Or.inl ⟨hop, writeCommand_cases hlba h⟩
  · rename_i hop
    refine Or.inr ⟨by rw [hop]; exact nofun, ?_⟩
    simp only [readCommand] at h
    split at h
    all_goals
      obtain ⟨rfl, rfl⟩ := Prod.mk.inj (Except.ok.inj h)
      refine ⟨⟨_, rfl⟩, ?_⟩
      rintro r hr
      cases hr
    rfl
  · rename_i hop
    refine Or.inr ⟨by rw [hop]; exact nofun, ?_⟩
    obtain ⟨rfl, rfl⟩ := Prod.mk.inj (Except.ok.inj h)
    refine ⟨⟨_, rfl⟩, ?_⟩
    rintro r hr
    cases hr
    rfl
  · rename_i hop _ _
    refine Or.inr ⟨hop, ?_⟩
    obtain ⟨rfl, rfl⟩ := Prod.mk.inj (Except.ok.inj h)
    refine ⟨⟨_, rfl⟩, ?_⟩
    rintro r hr
    cases hr
    rfl

/-- Only a write can stop the module. -/
theorem procNvmeIoCmd_error (hlba : c.lbaBits ≤ 15) {req : NvmevRequest} {e : Fault}
    (h : procNvmeIoCmd c k L req ns = .error e) : WriteFault c k L req ns e := by
  unfold procNvmeIoCmd at h
  split at h
  · exact (writeCommand_spec k L req ns hlba).of_eq_error h
  all_goals exact absurd h nofun

/-! ## Runs -/

/-- The write a request completed with success, if it did. -/
def completedWrites (req : NvmevRequest) : Option Handled → List NvmeCommand
  | none => []
  | some r => if req.cmd.opcode = .write ∧ r.ret.status = scSuccess then [req.cmd] else []

/-- **Runs of a namespace**, with the writes completed so far, newest first: initialisation, any requests,
    Set Features for the event types, and any change the I/O workers make to the write buffer. -/
inductive NsRun (c : NsConfig) (k : Hooks) (L : Nat → Latency τ) : List NvmeCommand → FdpNs τ → Prop where
  | init {runs : Nat} {tm : τ} {ns : FdpNs τ} (h : initNamespace c (fdpInitCtx runs) tm = .ok ns) :
      NsRun c k L [] ns
  | io {log : List NvmeCommand} {ns ns' : FdpNs τ} {req : NvmevRequest} {out : Option Handled}
      (hr : NsRun c k L log ns) (h : procNvmeIoCmd c k L req ns = .ok (out, ns')) :
      NsRun c k L (completedWrites req out ++ log) ns'
  | events {log : List NvmeCommand} {ns : FdpNs τ} (hr : NsRun c k L log ns) (descs : List (Nat × Nat)) :
      NsRun c k L log { ns with ctx := fdpSetFeatureEvents descs ns.ctx }
  | buffer {log : List NvmeCommand} {ns : FdpNs τ} (hr : NsRun c k L log ns) (buf : Buffer) :
      NsRun c k L log { ns with wbuf := buf }

/-- A write of `length + 1` blocks at `slba`, through a placement handle if one is given. -/
def writeReq (slba : UInt64) (length : UInt16) (handle : Option UInt32) : NvmevRequest where
  cmd :=
    { opcode := .write
      commandId := 0
      nsid := 1
      prp1 := 0
      prp2 := 0
      slba := slba
      length := length
      control := if handle.isSome then 0x20 else 0
      dsmgmt := handle.getD 0 <<< 16 }
  sqId := 1
  nsecsStart := 0

/-- Requests one after another, from a fresh namespace; returns the completed writes and the namespace. -/
def initThenIo (c : NsConfig) (k : Hooks) (L : Nat → Latency τ) (runs : Nat) (tm : τ)
    (reqs : List NvmevRequest) : Except Fault (List NvmeCommand × FdpNs τ) := do
  let ns ← initNamespace c (fdpInitCtx runs) tm
  reqs.foldlM (fun (r : List NvmeCommand × FdpNs τ) req => do
    let (out, ns) ← procNvmeIoCmd c k L req r.2
    return (completedWrites req out ++ r.1, ns)) ([], ns)

/-- A run that was evaluated as far as an observation `f` is a run of the namespace. -/
theorem exists_nsRun {α : Type} (c : NsConfig) (k : Hooks) (L : Nat → Latency τ) (runs : Nat) (tm : τ)
    (reqs : List NvmevRequest) (f : List NvmeCommand × FdpNs τ → α) {a : α}
    (h : ((initThenIo c k L runs tm reqs).map f).toOption = some a) :
    ∃ log ns, NsRun c k L log ns ∧ f (log, ns) = a := by
  have hrun : Sat (fun _ => True) (fun r => NsRun c k L r.1 r.2) (initThenIo c k L runs tm reqs) := by
    unfold initThenIo
    cases hinit : initNamespace c (fdpInitCtx runs) tm with
    | error e => trivial
    | ok ns =>
        refine sat_foldlM_const (I := fun r : List NvmeCommand × FdpNs τ => NsRun c k L r.1 r.2) _ ?_
          (.init hinit)
        rintro req _ ⟨log, ns⟩ hns
        show Sat _ _ (procNvmeIoCmd c k L req ns >>= _)
        cases hio : procNvmeIoCmd c k L req ns with
        | error e => trivial
        | ok r => exact .io hns hio
  cases hres : initThenIo c k L runs tm reqs with
  | error e =>
      rw [hres] at h
      exact absurd h nofun
  | ok r =>
      rw [hres] at h hrun
      exact ⟨r.1, r.2, hrun, Option.some.inj h⟩

/-- Hooks that route to write pointers the partitions have. -/
def Hooks.Valid (k : Hooks) (nrRuh : Nat) : Prop :=
  ∀ cmd now ctx r ctx', k.route cmd now ctx = (some r, ctx') → r < nrRuh

theorem fdpHooks_valid (h : 0 < c.ftl.nrRuh) : (fdpHooks c).Valid c.ftl.nrRuh := by
  intro cmd now ctx r ctx' hr
  simp only [fdpHooks, fdpRoute] at hr
  split at hr
  · split at hr
    · exact absurd (Prod.mk.inj hr).1 nofun
    · rename_i hlt
      obtain ⟨hr, _⟩ := Prod.mk.inj hr
      rw [← Option.some.inj hr]
      exact Nat.lt_of_not_le hlt
  · split at hr
    all_goals
      rw [← Option.some.inj (Prod.mk.inj hr).1]
      exact h

theorem convHooks_valid {nrRuh : Nat} (h : 0 < nrRuh) : convHooks.Valid nrRuh := by
  intro cmd now ctx r ctx' hr
  rw [← Option.some.inj (Prod.mk.inj hr).1]
  exact h

/-- A round of a write loop keeps what its page write keeps, on every partition. -/
theorem writeLoopBody_parts {E : Fault → Prop} {P : FdpFtl → Prop} {stime ruh lpn : Nat} {st : WriteLoop τ}
    (h : ∀ i, P (st.ns.ftls i))
    (hpage : Sat E (fun r => P r.2.toFdpFtl) (writePage c.ftl (L (lpn % c.nrParts)) stime ruh
      (lpn / c.nrParts) (st.ns.part (lpn % c.nrParts)))) :
    Sat E (fun st => ∀ i, P (st.ns.ftls i)) (writeLoopBody c L stime ruh st lpn) := by
  unfold writeLoopBody
  refine Sat.bind hpage ?_
  rintro ⟨t, s⟩ hs
  have hset : ∀ i, P ((st.ns.setPart (lpn % c.nrParts) s).ftls i) := by
    intro i
    by_cases hi : i = lpn % c.nrParts
    · subst hi
      simp only [FdpNs.setPart, Function.update_self]
      exact hs
    · rw [ftls_setPart_of_ne _ _ hi]
      exact h i
  cases t with
  | none => exact hset
  | some t => exact hset

/-- Every partition is in a state of a run of its own. -/
def PartsReach (c : NsConfig) (L : Nat → Latency τ) (ns : FdpNs τ) : Prop :=
  ∀ i, Reach c.ftl (L i) (ns.part i)

/-- Partitions do not notice a change of what they share. -/
theorem PartsReach.shared (h : PartsReach c L ns) (hftls : ns'.ftls = ns.ftls) : PartsReach c L ns' := by
  intro i
  have hi := (h i).shared ns'.ctx ns'.tm
  rw [FdpNs.part, hftls]
  exact hi

theorem writeLoopBody_reach {stime ruh lpn : Nat} {st : WriteLoop τ} (hruh : ruh < c.ftl.nrRuh)
    (hlpn : lpn / c.nrParts < c.ftl.sp.ttPgs) (h : PartsReach c L st.ns) :
    Sat (fun _ => True) (fun st => PartsReach c L st.ns) (writeLoopBody c L stime ruh st lpn) := by
  unfold writeLoopBody
  refine Sat.bind (Q := fun r => Reach c.ftl (L (lpn % c.nrParts)) r.2) ?_ ?_
  · cases hw : writePage c.ftl (L (lpn % c.nrParts)) stime ruh (lpn / c.nrParts)
        (st.ns.part (lpn % c.nrParts)) with
    | ok r => exact .write (h _) hruh hlpn hw
    | error e => trivial
  · rintro ⟨t, s⟩ hs
    have hset : PartsReach c L (st.ns.setPart (lpn % c.nrParts) s) := by
      intro i
      by_cases hi : i = lpn % c.nrParts
      · subst hi
        rw [part_setPart_self]
        exact hs
      · have hother := (h i).shared s.ctx s.tm
        rw [FdpNs.part, ftls_setPart_of_ne _ _ hi]
        exact hother
    cases t with
    | none => exact hset
    | some t => exact hset

theorem WriteOutcome.reach {req : NvmevRequest} {out : Option Handled} (hk : k.Valid c.ftl.nrRuh)
    (h : PartsReach c L ns) (hw : WriteOutcome c k L req ns out ns') : PartsReach c L ns' := by
  cases hw with
  | outOfRange _ => exact h
  | rejected _ _ => exact h.shared rfl
  | refused _ _ _ => exact h.shared rfl
  | written hin hr _ hloop _ =>
      refine (sat_foldlM_const (E := fun _ => True) (I := fun st => PartsReach c L st.ns) _ ?_ ?_).of_eq_ok
        hloop
      · intro lpn hlpn st hst
        exact writeLoopBody_reach (hk _ _ _ _ _ hr) (lpn_in_range hin hlpn) hst
      · exact h.shared rfl

/-- **Every partition of a run of the namespace is a run of the partition.** -/
theorem NsRun.reach {log : List NvmeCommand} (hlba : c.lbaBits ≤ 15) (hk : k.Valid c.ftl.nrRuh)
    (h : NsRun c k L log ns) : PartsReach c L ns := by
  induction h with
  | init h =>
      intro i
      simp only [initNamespace] at h
      cases hs : fdpInitFtl c.ftl (fdpInitCtx _) _ with
      | error e =>
          rw [hs] at h
          exact absurd h nofun
      | ok s =>
          rw [hs] at h
          obtain rfl := Except.ok.inj h
          exact .init hs
  | io _ h ih =>
      obtain ⟨_, hw⟩ | ⟨_, ⟨tm, rfl⟩, _⟩ := procNvmeIoCmd_cases hlba h
      · exact hw.reach hk ih
      · exact ih.shared rfl
  | events _ _ ih => exact ih.shared rfl
  | buffer _ _ ih => exact ih.shared rfl

end NvmeVirt
