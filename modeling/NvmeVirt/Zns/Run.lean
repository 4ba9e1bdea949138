import NvmeVirt.Zns.Dispatch

/-!
# `Zns.Run` — a zoned namespace at work

The namespace with the submission entries its commands come from, the buffer releases it has scheduled, and a
record of what it has accepted. An entry that was refused stays where it is and is dispatched again. Nothing is
assumed of the commands, of the order in which entries are filled and dispatched, or of the time at which releases
and copies happen.

The first result is on whole runs of this system: the zone state machine keeps its books
(`zone_states_consistent`).
-/

namespace NvmeVirt

open Outcome Counting

variable {τ : Type}

/-! ## The system -/

/-- A successful write or append to a zone without ZRWA. -/
structure ZnsAccepted where
  /-- The submission entry, and the command in it when it was dispatched. -/
  slot : Nat
  cmd : NvmeCommand
  /-- Where the write pointer of the zone was: the first block the command advanced it over. -/
  first : Nat
  /-- The two halves of the completion value. -/
  result0 : Nat
  result1 : Nat
deriving DecidableEq, Repr

structure ZnsSys (τ : Type) where
  ftl : ZnsFtl τ
  /-- The submission entries of all queues. -/
  slots : Nat → NvmeCommand
  /-- The entries the host has filled. -/
  filled : Nat → Bool
  /-- The releases scheduled and not completed. -/
  pending : List ZnsOp
  /-- Per zone, what was accepted since it was last EMPTY, in the order of dispatch. -/
  log : Nat → List ZnsAccepted
  /-- What was accepted and not copied yet. -/
  uncopied : List ZnsAccepted
  /-- The copies made, each with the address it used. -/
  copies : List (ZnsAccepted × Nat)

/-- What happens: the host fills an entry, the dispatcher takes one, the worker copies the data of an accepted
    command or completes a scheduled release. -/
inductive ZnsAct where
  | submit (slot : Nat) (cmd : NvmeCommand)
  | dispatch (slot sqId now : Nat)
  | copy (i : Nat)
  | release (i : Nat)

/-- The operations a handler scheduled. -/
def ZnsReply.ops (reply : ZnsReply) : List ZnsOp := (reply.handled.map (·.ops)).getD []

namespace ZnsSys

variable (c : ZnsConfig) (s : ZnsSys τ)

/-- The record of a dispatch, empty unless it was a successful write to a zone without ZRWA.
    `__enqueue_io_req` splits the completion value. -/
def accepted (slot : Nat) (reply : ZnsReply) : List ZnsAccepted :=
  let cmd := s.slots slot
  let d := s.ftl.zoneDescs (lbaToZone c cmd.slba.toNat)
  match reply.handled with
  | some h =>
      if (cmd.opcode = .write ∨ cmd.opcode = .zoneAppend) ∧ h.ret.status = scSuccess ∧ d.zrwav = false then
        [⟨slot, cmd, d.wp, u32 h.ret.result, u32 (h.ret.result / 2 ^ 32)⟩]
      else []
  | none => []

/-- The system after the handler returned. -/
def dispatched (slot : Nat) (reply : ZnsReply) (ftl : ZnsFtl τ) : ZnsSys τ :=
  { ftl := ftl
    slots := Function.update s.slots slot reply.cmd
    filled := s.filled
    pending := s.pending ++ reply.ops
    log := fun z =>
      if (ftl.zoneDescs z).state = .empty then []
      else if z = lbaToZone c (s.slots slot).slba.toNat then s.log z ++ s.accepted c slot reply
      else s.log z
    uncopied := s.uncopied ++ s.accepted c slot reply
    copies := s.copies }

/-- The action itself. -/
def act (L : ZnsLatency τ) : ZnsAct → Except Fault (ZnsSys τ)
  | .submit slot cmd =>
      .ok { s with slots := Function.update s.slots slot cmd, filled := Function.update s.filled slot true }
  | .dispatch slot sqId now => do
      let r ← znsProcNvmeIoCmd c L ⟨s.slots slot, sqId, now⟩ s.ftl
      return s.dispatched c slot r.1 r.2
  | .copy i =>
      match s.uncopied[i]? with
      | none => .ok s
      | some e =>
          .ok { s with
            uncopied := s.uncopied.eraseIdx i
            copies := s.copies ++ [(e, (s.slots e.slot).slba.toNat)] }
  | .release i =>
      match s.pending[i]? with
      | none => .ok s
      | some op =>
          .ok { s with
            ftl := s.ftl.setBuf op.buffer (bufferRelease (s.ftl.buf op.buffer) op.buffsToRelease)
            pending := s.pending.eraseIdx i }

/-- The namespace just initialised; the submission queues hold anything. -/
def boot (tm : τ) (slots : Nat → NvmeCommand) : ZnsSys τ :=
  ⟨znsInitFtl c tm, slots, fun _ => false, [], fun _ => [], [], []⟩

end ZnsSys

/-- **Runs** whose actions all satisfy `G`. -/
inductive ZnsRun (c : ZnsConfig) (L : ZnsLatency τ) (G : ZnsSys τ → ZnsAct → Prop) : ZnsSys τ → Prop where
  | boot (tm : τ) (slots : Nat → NvmeCommand) : ZnsRun c L G (.boot c tm slots)
  | step {s s' : ZnsSys τ} {a : ZnsAct} (hr : ZnsRun c L G s) (hg : G s a) (h : s.act c L a = .ok s') :
      ZnsRun c L G s'

variable {c : ZnsConfig} {L : ZnsLatency τ} {G : ZnsSys τ → ZnsAct → Prop} {s s' : ZnsSys τ}

/-- What an action does to the zones: a dispatch moves them as its command says, all else leaves them. -/
theorem ZnsSys.act_moves (hc : c.Wf) {a : ZnsAct} (h : ZonesCounted c s.ftl.toZoneTable) (ha : s.act c L a = .ok s') :
    (∃ slot sqId now, a = .dispatch slot sqId now ∧
        ZoneMoves c ((s.slots slot).Drives c) s.ftl.toZoneTable s'.ftl.toZoneTable) ∨
      s'.ftl.toZoneTable = s.ftl.toZoneTable := by
  cases a with
  | submit slot cmd =>
      cases ha
      exact Or.inr rfl
  | dispatch slot sqId now =>
      have hmoves : Sat (fun _ => True)
          (fun s' : ZnsSys τ => ZoneMoves c ((s.slots slot).Drives c) s.ftl.toZoneTable s'.ftl.toZoneTable)
          (s.act c L (.dispatch slot sqId now)) :=
        (znsProcNvmeIoCmd_moves hc L ⟨s.slots slot, sqId, now⟩ h).bind fun r hr => hr
      exact Or.inl ⟨slot, sqId, now, rfl, hmoves.of_eq_ok ha⟩
  | copy i =>
      unfold ZnsSys.act at ha
      dsimp only at ha
      split at ha <;> cases ha <;> exact Or.inr rfl
  | release i =>
      unfold ZnsSys.act at ha
      dsimp only at ha
      split at ha <;> cases ha
      · exact Or.inr rfl
      · exact Or.inr (ZnsFtl.setBuf_toZoneTable _ _ _)

/-- A fresh table is counted. -/
theorem counted_init (hc : c.Wf) (tm : τ) : ZonesCounted c (znsInitFtl c tm).toZoneTable where
  total := fun _ => rfl
  opened := (countBelow_eq_zero fun _ _ => by simp [znsInitFtl, ZoneState.Opened]).symm
  active := (countBelow_eq_zero fun _ _ => by simp [znsInitFtl, ZoneState.Active, ZoneState.Opened]).symm
  zslba := fun z _ => by rw [hc.zoneLbas_eq]; rfl
  cap := fun z _ => by rw [hc.zoneLbas_eq]; rfl
  alive := fun _ _ => by simp [znsInitFtl]
  empty := fun _ _ _ => ⟨rfl, rfl⟩

/-- **In every run the counters count the zones**, whatever the size of the device. -/
theorem ZnsRun.counted (hc : c.Wf) (hr : ZnsRun c L G s) : ZonesCounted c s.ftl.toZoneTable := by
  induction hr with
  | boot tm slots => exact counted_init hc tm
  | step _ _ h ih =>
      rcases ZnsSys.act_moves hc ih h with ⟨_, _, _, _, hm⟩ | heq
      · exact ih.moves hm
      · rw [heq]
        exact ih

/-- Write pointers are 64-bit addresses. -/
theorem ZnsRun.wp_lt (hc : c.Wf) (hr : ZnsRun c L G s) :
    ∀ z, z < c.zp.nrZones → (s.ftl.zoneDescs z).wp < 2 ^ 64 := by
  induction hr with
  | boot tm slots =>
      intro z hz
      show z * (c.zp.zoneSize / 2 ^ 9) < 2 ^ 64
      have hlt := hc.zslba_lt hz
      rw [hc.zoneLbas_eq] at hlt
      exact Nat.lt_trans hlt (by decide)
  | step hr _ h ih =>
      rcases ZnsSys.act_moves hc (hr.counted hc) h with ⟨_, _, _, _, hm⟩ | heq
      · exact hm.wp_lt hc (hr.counted hc) ih
      · rw [heq]
        exact ih

theorem allFit_init (hc : c.Wf) (tm : τ) : AllFit c (znsInitFtl c tm).toZoneTable := by
  intro z _ _
  have hpos := hc.zoneLbas_pos
  have hcap : ((znsInitFtl c tm).zoneDescs z).zoneCapacity = c.zoneLbas := by
    rw [hc.zoneLbas_eq]
    rfl
  refine ⟨Nat.le_refl _, Nat.le_add_right _ _, fun _ => rfl, fun ha => absurd rfl ha.alive.2.2.1, ?_⟩
  intro he
  have he : ((znsInitFtl c tm).zoneDescs z).zslba = ((znsInitFtl c tm).zoneDescs z).zslba +
    ((znsInitFtl c tm).zoneDescs z).zoneCapacity := he
  omega

/-- **Below 2 TiB every write pointer stays in its zone**, ZRWA with bad parameters aside. -/
theorem ZnsRun.allFit (hc : c.Below2Tib) (hr : ZnsRun c L G s) : AllFit c s.ftl.toZoneTable := by
  induction hr with
  | boot tm slots => exact allFit_init hc.toWf tm
  | step hr _ h ih =>
      have hcount := hr.counted hc.toWf
      rcases ZnsSys.act_moves hc.toWf hcount h with ⟨_, _, _, _, hm⟩ | heq
      · exact ih.moves hc hcount hm
      · rw [heq]
        exact ih

/-! ## The zone state machine -/

/-- The action opens a zone with ZRWA. -/
def OpensZrwa (s : ZnsSys τ) : ZnsAct → Prop
  | .dispatch slot _ _ =>
      (s.slots slot).opcode = .zoneMgmtSend ∧ (s.slots slot).zsa = .openZone ∧ (s.slots slot).zsaso = true
  | _ => False

/-- If ZRWA is only used with sane parameters, every zone that uses it has them. -/
theorem ZnsRun.sane (hc : c.Wf) (hr : ZnsRun c L (fun s a => OpensZrwa s a → c.ZrwaSane) s) :
    ∀ z, z < c.zp.nrZones → (s.ftl.zoneDescs z).zrwav = true → c.ZrwaSane := by
  induction hr with
  | boot tm slots => intro z _ hz; cases hz
  | @step s s' a hr hg h ih =>
      rcases ZnsSys.act_moves hc (hr.counted hc) h with ⟨slot, sqId, now, rfl, hm⟩ | heq
      · refine hm.sane ?_ ih
        intro z hz
        unfold NvmeCommand.Drives at hz
        split at hz
        · rcases hz.2 with h | h <;> cases h
        · rcases hz.2 with h | h <;> cases h
        · rename_i hop
          exact hg ⟨hop, hz.1.1, hz.1.2⟩
        · exact hz.elim
      · rw [heq]
        exact ih

/-- **Zone state machine invariant.** On a device below 2 TiB that opens zones with ZRWA only if the flush
    granularity is at most the ZRWA size, after any commands: the counters are the numbers of opened and of
    active zones, so they never exceed the number of zones; and every write pointer is in its zone, at the
    start of an EMPTY zone, before the end of an opened or closed one, and at the end only of a FULL one. -/
theorem zone_states_consistent (hc : c.Below2Tib)
    (hr : ZnsRun c L (fun s a => OpensZrwa s a → c.zp.lbasPerZrwafg ≤ c.zp.lbasPerZrwa) s) :
    (s.ftl.resInfos .openZone).acquiredCnt =
        countBelow (fun d => d.state = .openedImpl ∨ d.state = .openedExpl) s.ftl.zoneDescs c.zp.nrZones ∧
      (s.ftl.resInfos .activeZone).acquiredCnt =
        countBelow (fun d => (d.state = .openedImpl ∨ d.state = .openedExpl) ∨ d.state = .closed)
          s.ftl.zoneDescs c.zp.nrZones ∧
      (s.ftl.resInfos .openZone).acquiredCnt ≤ c.zp.nrZones ∧
      (s.ftl.resInfos .activeZone).acquiredCnt ≤ c.zp.nrZones ∧
      ∀ z, z < c.zp.nrZones →
        (s.ftl.zoneDescs z).zslba ≤ (s.ftl.zoneDescs z).wp ∧
        (s.ftl.zoneDescs z).wp ≤ (s.ftl.zoneDescs z).zslba + (s.ftl.zoneDescs z).zoneCapacity ∧
        ((s.ftl.zoneDescs z).state = .empty → (s.ftl.zoneDescs z).wp = (s.ftl.zoneDescs z).zslba) ∧
        ((s.ftl.zoneDescs z).state = .openedImpl ∨ (s.ftl.zoneDescs z).state = .openedExpl ∨
            (s.ftl.zoneDescs z).state = .closed →
          (s.ftl.zoneDescs z).wp < (s.ftl.zoneDescs z).zslba + (s.ftl.zoneDescs z).zoneCapacity) ∧
        ((s.ftl.zoneDescs z).wp = (s.ftl.zoneDescs z).zslba + (s.ftl.zoneDescs z).zoneCapacity →
          (s.ftl.zoneDescs z).state = .full) := by
  have hcount := hr.counted hc.toWf
  refine ⟨hcount.opened, hcount.active, hcount.opened_le, hcount.active_le, ?_⟩
  intro z hz
  have hf := hr.allFit hc z hz (hr.sane hc.toWf z hz)
  refine ⟨hf.le_wp, hf.wp_le, hf.empty, ?_, hf.full⟩
  intro ha
  exact hf.active (or_assoc.mpr ha)

/-! ## Played runs -/

/-- Whether a target is consistent does not depend on the size of the device. -/
theorem ZnsConfig.Wf.any_size {t : ZnsTarget} (h : (znsInitParams t 0 0).Wf) (capacity uninit : Nat) :
    (znsInitParams t capacity uninit).Wf :=
  { h with nrZones_lt := Nat.mod_lt _ (by decide) }

theorem wdZn540_wf : (znsInitParams wdZn540 0 0).Wf := by constructor <;> decide

theorem wdZn540_below2Tib {capacity : Nat} (h : capacity < 2 ^ 41) (uninit : Nat) :
    (znsInitParams wdZn540 capacity uninit).Below2Tib where
  toWf := wdZn540_wf.any_size capacity uninit
  below_2tib := by
    show u32 (capacity / (2 * 2 ^ 30)) * (2 * 2 ^ 30) < 2 ^ 41
    have hle : u32 (capacity / (2 * 2 ^ 30)) ≤ capacity / (2 * 2 ^ 30) := Nat.mod_le _ _
    omega

theorem ZnsRun.mono {G' : ZnsSys τ → ZnsAct → Prop} (hG : ∀ s a, G s a → G' s a) (h : ZnsRun c L G s) :
    ZnsRun c L G' s := by
  induction h with
  | boot tm slots => exact .boot tm slots
  | step _ hg hact ih => exact .step ih (hG _ _ hg) hact

/-- A command of `nrLba` blocks. -/
def znsCmd (opcode : Opcode) (slba : UInt64) (nrLba : Nat) : NvmeCommand :=
  ⟨opcode, 0, 1, 0, 0, slba, UInt16.ofNat (nrLba - 1), 0, 0⟩

/-- A zone management command. -/
def mgmtCmd (slba : UInt64) (dw13 : UInt32) : NvmeCommand := ⟨.zoneMgmtSend, 0, 1, 0, 0, slba, 0, 0, dw13⟩

/-- Submit a command to an entry and dispatch it. -/
def sendActs (slot : Nat) (cmd : NvmeCommand) : List ZnsAct := [.submit slot cmd, .dispatch slot 1 0]

/-- A device of four zones. -/
def wdSmall : ZnsConfig := znsInitParams wdZn540 (8 * 2 ^ 30) 0

theorem wdSmall_below2Tib : wdSmall.Below2Tib := wdZn540_below2Tib (by decide) 0

def ZnsSys.booted (c : ZnsConfig) : ZnsSys Unit := .boot c () fun _ => znsCmd .other 0 1

/-- A run that was played as far as an observation `f`. -/
theorem exists_znsRun {α : Type} (c : ZnsConfig) (G : ZnsSys Unit → ZnsAct → Bool) (acts : List ZnsAct)
    (f : ZnsSys Unit → α) (a : α)
    (h : (acts.foldlM (admitted (ZnsSys.act c · .instant) G) (.booted c)).map f = some a) :
    ∃ s, ZnsRun c .instant (fun s a => G s a = true) s ∧ f s = a :=
  exists_played (fun _ _ _ hr hg hact => .step hr hg hact) (.boot _ _) h

/-- A zone written, and another one opened and closed. -/
theorem zone_states_consistent_wd :
    ∃ s : ZnsSys Unit, ((s.ftl.zoneDescs 0).state, (s.ftl.zoneDescs 0).wp) = (.openedImpl, 8) ∧
      (s.ftl.zoneDescs 1).state = .closed ∧
      (s.ftl.resInfos .activeZone).acquiredCnt =
        countBelow (fun d => (d.state = .openedImpl ∨ d.state = .openedExpl) ∨ d.state = .closed)
          s.ftl.zoneDescs 4 := by
  obtain ⟨s, hrun, hobs⟩ := exists_znsRun wdSmall (fun _ _ => true)
    (sendActs 0 (znsCmd .write 0 8) ++ sendActs 1 (mgmtCmd 4194304 0x3) ++ sendActs 1 (mgmtCmd 4194304 0x1))
    (fun s => (((s.ftl.zoneDescs 0).state, (s.ftl.zoneDescs 0).wp), (s.ftl.zoneDescs 1).state))
    ((.openedImpl, 8), .closed) (by decide +kernel)
  obtain ⟨h0, h1⟩ := Prod.mk.inj hobs
  have hr : ZnsRun wdSmall .instant
      (fun s a => OpensZrwa s a → wdSmall.zp.lbasPerZrwafg ≤ wdSmall.zp.lbasPerZrwa) s :=
    hrun.mono fun _ _ _ _ => Nat.le_refl 0
  exact ⟨s, h0, h1, (zone_states_consistent wdSmall_below2Tib hr).2.1⟩

end NvmeVirt
