import NvmeVirt.Lib.Outcome
import NvmeVirt.Zns.Machine
import NvmeVirt.Zns.Mgmt

/-!
# `Zns.Moves` — writes refine the zone state machine

Both write functions take the zone table along moves of the machine. For `__zns_write` there is more:
`ZnsWriteOutcome` lists all it can do, which is what the results on errors, addresses and buffers start from.
-/

namespace NvmeVirt

open Outcome

variable {τ : Type} {c : ZnsConfig}

/-! ## Descriptors and counters after the elementary steps -/

section Elementary

variable (s : ZnsFtl τ) (z : Nat) (d : ZoneDescriptor) (st : ZoneState) (r : ZoneResource) (n : Nat)

@[simp] theorem setDesc_zoneDescs : (s.setDesc z d).zoneDescs = Function.update s.zoneDescs z d := rfl

@[simp] theorem setDesc_resInfos : (s.setDesc z d).resInfos = s.resInfos := rfl

@[simp] theorem setAcquired_zoneDescs : (s.setAcquired r n).zoneDescs = s.zoneDescs := rfl

@[simp] theorem setAcquired_resInfos : (s.setAcquired r n).resInfos =
    Function.update s.resInfos r { s.resInfos r with acquiredCnt := n } := rfl

@[simp] theorem changeZoneState_zoneDescs : (changeZoneState z st s).zoneDescs =
    Function.update s.zoneDescs z { s.zoneDescs z with state := st } := rfl

@[simp] theorem changeZoneState_resInfos : (changeZoneState z st s).resInfos = s.resInfos := rfl

@[simp] theorem releaseZoneResource_zoneDescs : (releaseZoneResource r s).zoneDescs = s.zoneDescs := rfl

@[simp] theorem releaseZoneResource_resInfos : (releaseZoneResource r s).resInfos =
    Function.update s.resInfos r { s.resInfos r with acquiredCnt := u32Dec (s.resInfos r).acquiredCnt } := rfl

@[simp] theorem acquireZoneResource_zoneDescs : (acquireZoneResource r s).2.zoneDescs = s.zoneDescs := by
  unfold acquireZoneResource
  split <;> rfl

variable {s r} in
theorem acquireZoneResource_of_avail (h : isZoneResourceAvail s r) :
    acquireZoneResource r s = (true, s.setAcquired r ((s.resInfos r).acquiredCnt + 1)) := if_pos h

variable {s r} in
theorem acquireZoneResource_of_not_avail (h : ¬ isZoneResourceAvail s r) :
    acquireZoneResource r s = (false, s) := if_neg h

end Elementary

namespace ZonesCounted

variable {s : ZnsFtl τ} (h : ZonesCounted c s.toZoneTable) (hc : c.Wf) {z : Nat} (hz : z < c.zp.nrZones)
include h

/-- While the counters count, "not full" and "available" are the same. -/
theorem open_avail (hn : ¬ isZoneResourceFull s .openZone) : isZoneResourceAvail s .openZone := by
  unfold isZoneResourceAvail
  unfold isZoneResourceFull at hn
  rw [h.total] at hn ⊢
  exact Nat.lt_of_le_of_ne h.opened_le hn

theorem active_avail (hn : ¬ isZoneResourceFull s .activeZone) : isZoneResourceAvail s .activeZone := by
  unfold isZoneResourceAvail
  unfold isZoneResourceFull at hn
  rw [h.total] at hn ⊢
  exact Nat.lt_of_le_of_ne h.active_le hn

include hc hz

/-- Releasing what an opened zone holds does not wrap. -/
theorem release_open (ho : (s.zoneDescs z).state.Opened) :
    u32Dec (s.resInfos .openZone).acquiredCnt + 1 = (s.resInfos .openZone).acquiredCnt := by
  have hpos := h.opened_pos hz ho
  have hle := h.opened_le
  rw [u32Dec_of_pos hpos (Nat.lt_of_le_of_lt hle hc.nrZones_lt)]
  omega

theorem release_active (ha : (s.zoneDescs z).state.Active) :
    u32Dec (s.resInfos .activeZone).acquiredCnt + 1 = (s.resInfos .activeZone).acquiredCnt := by
  have hpos := h.active_pos hz ha
  have hle := h.active_le
  rw [u32Dec_of_pos hpos (Nat.lt_of_le_of_lt hle hc.nrZones_lt)]
  omega

end ZonesCounted

/-- The two weights of a state. -/
theorem weight_of_opened {d : ZoneDescriptor} (h : d.state.Opened) :
    d.weight ZoneState.Opened = 1 ∧ d.weight ZoneState.Active = 1 :=
  ⟨if_pos h, if_pos (Or.inl h)⟩

theorem weight_of_closed {d : ZoneDescriptor} (h : d.state = .closed) :
    d.weight ZoneState.Opened = 0 ∧ d.weight ZoneState.Active = 1 := by
  simp [ZoneDescriptor.weight, h, ZoneState.Opened, ZoneState.Active]

theorem weight_of_idle {d : ZoneDescriptor} (h : d.state = .empty ∨ d.state = .full) :
    d.weight ZoneState.Opened = 0 ∧ d.weight ZoneState.Active = 0 := by
  rcases h with h | h <;> simp [ZoneDescriptor.weight, h, ZoneState.Opened, ZoneState.Active]

/-! ## Moves from what a step does to the counters -/

section Steps

variable {s : ZnsFtl τ} {s' : ZoneTable} {z : Nat} {k : ZoneKind} {d : ZoneDescriptor}

/-- The weights and counters of a step, zone by zone. -/
theorem ZoneMove.of_counters (hz : z < c.zp.nrZones) (ht : ZoneTrans c z k (s.zoneDescs z) d)
    (hd : s'.zoneDescs = Function.update s.zoneDescs z d)
    (htotal : ∀ r, (s'.resInfos r).totalCnt = (s.resInfos r).totalCnt) {a b : Nat}
    (hw : (s.zoneDescs z).weight ZoneState.Opened = a ∧ (s.zoneDescs z).weight ZoneState.Active = b)
    {a' b' : Nat} (hw' : d.weight ZoneState.Opened = a' ∧ d.weight ZoneState.Active = b')
    (ho : (s'.resInfos .openZone).acquiredCnt + a = (s.resInfos .openZone).acquiredCnt + a')
    (ha : (s'.resInfos .activeZone).acquiredCnt + b = (s.resInfos .activeZone).acquiredCnt + b') :
    ZoneMove c z k d s.toZoneTable s' where
  lt := hz
  trans := ht
  descs := hd
  total := htotal
  opened := by rw [hw.1, hw'.1]; exact ho
  active := by rw [hw.2, hw'.2]; exact ha

end Steps

/-! ## Writes -/

section Opening

variable {s : ZnsFtl τ} {z : Nat} (hz : z < c.zp.nrZones) {k : ZoneKind} (hk : k ≠ .reset) {st : ZoneState}
include hz hk

/-- The zone is opened already. -/
theorem stays_opened (ho : (s.zoneDescs z).state.Opened) :
    ZoneMove c z k (s.zoneDescs z) s.toZoneTable s.toZoneTable where
  lt := hz
  trans := .opens (Or.inr (Or.inl ho)) ho hk
  descs := (Function.update_eq_self z _).symm
  total := fun _ => rfl
  opened := rfl
  active := rfl

/-- Opening a closed zone. -/
theorem opens_closed (hst : st.Opened) (hd : (s.zoneDescs z).state = .closed) :
    ZoneMove c z k { s.zoneDescs z with state := st } s.toZoneTable
      (changeZoneState z st (s.setAcquired .openZone ((s.resInfos .openZone).acquiredCnt + 1))).toZoneTable :=
  .of_counters hz (.opens (Or.inr (Or.inr hd)) hst hk) rfl (by intro r; cases r <;> rfl) (weight_of_closed hd)
    (weight_of_opened hst) rfl rfl

/-- Opening an empty zone. -/
theorem opens_empty (hst : st.Opened) (hd : (s.zoneDescs z).state = .empty) :
    ZoneMove c z k { s.zoneDescs z with state := st } s.toZoneTable
      (changeZoneState z st ((s.setAcquired .activeZone ((s.resInfos .activeZone).acquiredCnt + 1)).setAcquired
        .openZone ((s.resInfos .openZone).acquiredCnt + 1))).toZoneTable :=
  .of_counters hz (.opens (Or.inl hd) hst hk) rfl (by intro r; cases r <;> rfl) (weight_of_idle (Or.inl hd))
    (weight_of_opened hst) rfl rfl

end Opening

/-- The zone is opened by a move that touches no buffer. -/
def OpenedBy (c : ZnsConfig) (z : Nat) (k : ZoneKind) (s s' : ZnsFtl τ) : Prop :=
  s'.buf = s.buf ∧
    ∃ st : ZoneState, st.Opened ∧
      ZoneMove c z k { s.zoneDescs z with state := st } s.toZoneTable s'.toZoneTable

/-- The zone is in a state in which `__zns_write` takes a write at `slba`. -/
def Writable (s : ZnsFtl τ) (z slba : Nat) : Prop :=
  match (s.zoneDescs z).state with
  | .empty => slba = (s.zoneDescs z).zslba ∧ ¬ isZoneResourceFull s .activeZone ∧ ¬ isZoneResourceFull s .openZone
  | .closed => ¬ isZoneResourceFull s .openZone
  | .openedImpl | .openedExpl => True
  | .full | .readOnly | .offline => False

instance (s : ZnsFtl τ) (z slba : Nat) : Decidable (Writable s z slba) := by
  unfold Writable
  split <;> infer_instance

/-- **A write `__zns_write` takes**: a multiple of the write unit, in one zone, at the write pointer of a zone
    that can be written. -/
structure Admissible (c : ZnsConfig) (s : ZnsFtl τ) (z slba nrLba : Nat) : Prop where
  unit : lbaToByte nrLba % c.sp.writeUnitSize = 0
  one_zone : checkBoundaryError c slba nrLba
  at_wp : slba = (s.zoneDescs z).wp
  writable : Writable s z slba

instance (s : ZnsFtl τ) (z slba nrLba : Nat) : Decidable (Admissible c s z slba nrLba) :=
  decidable_of_iff (lbaToByte nrLba % c.sp.writeUnitSize = 0 ∧ checkBoundaryError c slba nrLba ∧
      slba = (s.zoneDescs z).wp ∧ Writable s z slba)
    ⟨fun h => ⟨h.1, h.2.1, h.2.2.1, h.2.2.2⟩, fun h => ⟨h.unit, h.one_zone, h.at_wp, h.writable⟩⟩

/-- A descriptor after its write pointer moved. -/
def ZoneDescriptor.advanced (c : ZnsConfig) (z : Nat) (d : ZoneDescriptor) (wp : Nat) : ZoneDescriptor :=
  if wp = zoneToSlba c z + d.zoneCapacity then { d with wp := wp, state := .full } else { d with wp := wp }

theorem increaseWritePtr_zoneDescs (s : ZnsFtl τ) (z k : Nat) : (increaseWritePtr c z k s).zoneDescs =
    Function.update s.zoneDescs z ((s.zoneDescs z).advanced c z (u64 ((s.zoneDescs z).wp + k))) := by
  have hcap : ((s.setDesc z { s.zoneDescs z with wp := u64 ((s.zoneDescs z).wp + k) }).zoneDescs
      z).zoneCapacity = (s.zoneDescs z).zoneCapacity := by
    simp
  unfold increaseWritePtr ZoneDescriptor.advanced
  dsimp only
  rw [hcap]
  split
  · simp
  · rfl

section Writes

variable {s : ZnsFtl τ} (h : ZonesCounted c s.toZoneTable) {z : Nat} (hz : z < c.zp.nrZones)
include h hz

/-- `case ZONE_STATE_CLOSED`, reached from a closed zone. -/
theorem openClosed_spec (hd : (s.zoneDescs z).state = .closed) :
    ((openClosed z s).1 = scSuccess ∧ ¬ isZoneResourceFull s .openZone ∧ OpenedBy c z .write s (openClosed z s).2) ∨
      ((openClosed z s).1 ≠ scSuccess ∧ isZoneResourceFull s .openZone ∧ (openClosed z s).2 = s) := by
  by_cases hf : isZoneResourceFull s .openZone
  · have hn : ¬ isZoneResourceAvail s .openZone := by
      unfold isZoneResourceAvail
      unfold isZoneResourceFull at hf
      omega
    rw [openClosed, acquireZoneResource_of_not_avail hn]
    exact Or.inr ⟨by dsimp only; decide, hf, rfl⟩
  · rw [openClosed, acquireZoneResource_of_avail (h.open_avail hf)]
    refine Or.inl ⟨rfl, hf, by funext id; cases id <;> rfl, _, Or.inl rfl, ?_⟩
    exact opens_closed hz (by decide) (Or.inl rfl) hd

/-- **The switch over the zone state**: success on a writable zone, which is then open; otherwise an error, and
    nothing has changed. -/
theorem openForWrite_spec (slba : Nat) :
    ((openForWrite z slba s).1 = scSuccess ∧ Writable s z slba ∧ OpenedBy c z .write s (openForWrite z slba s).2) ∨
      ((openForWrite z slba s).1 ≠ scSuccess ∧ ¬ Writable s z slba ∧ (openForWrite z slba s).2 = s) := by
  unfold openForWrite Writable
  cases hd : (s.zoneDescs z).state with
  | empty =>
      dsimp only
      by_cases hs : slba = (s.zoneDescs z).zslba
      · rw [if_neg (not_not.mpr hs)]
        by_cases ha : isZoneResourceFull s .activeZone
        · rw [if_pos ha]
          exact Or.inr ⟨by dsimp only; decide, fun hw => hw.2.1 ha, rfl⟩
        · rw [if_neg ha]
          by_cases ho : isZoneResourceFull s .openZone
          · rw [if_pos ho]
            exact Or.inr ⟨by dsimp only; decide, fun hw => hw.2.2 ho, rfl⟩
          · have hav : isZoneResourceAvail
                (s.setAcquired .activeZone ((s.resInfos .activeZone).acquiredCnt + 1)) .openZone :=
              h.open_avail ho
            rw [if_neg ho, acquireZoneResource_of_avail (h.active_avail ha), openClosed,
              acquireZoneResource_of_avail hav]
            refine Or.inl ⟨rfl, ⟨hs, ha, ho⟩, by funext id; cases id <;> rfl, _, Or.inl rfl, ?_⟩
            exact opens_empty hz (by decide) (Or.inl rfl) hd
      · rw [if_pos hs]
        exact Or.inr ⟨by dsimp only; decide, fun hw => hs hw.1, rfl⟩
  | closed =>
      rcases openClosed_spec h hz hd with ⟨h1, h2, h3⟩ | ⟨h1, h2, h3⟩
      · exact Or.inl ⟨h1, h2, h3⟩
      · exact Or.inr ⟨h1, not_not.mpr h2, h3⟩
  | openedImpl =>
      have ho : (s.zoneDescs z).state.Opened := Or.inl hd
      exact Or.inl ⟨rfl, trivial, rfl, _, ho, stays_opened hz (by decide) ho⟩
  | openedExpl =>
      have ho : (s.zoneDescs z).state.Opened := Or.inr hd
      exact Or.inl ⟨rfl, trivial, rfl, _, ho, stays_opened hz (by decide) ho⟩
  | full => exact Or.inr ⟨by dsimp only; decide, id, rfl⟩
  | readOnly => exact Or.inr ⟨by dsimp only; decide, id, rfl⟩
  | offline => exact Or.inr ⟨by dsimp only; decide, id, rfl⟩

/-- **The verdict on a write.** -/
theorem admitWrite_spec (slba nrLba : Nat) :
    ((admitWrite c z slba nrLba s).1 = scSuccess ∧ Admissible c s z slba nrLba ∧
        OpenedBy c z .write s (admitWrite c z slba nrLba s).2) ∨
      ((admitWrite c z slba nrLba s).1 ≠ scSuccess ∧ ¬ Admissible c s z slba nrLba ∧
        (admitWrite c z slba nrLba s).2 = s) := by
  unfold admitWrite
  by_cases hu : lbaToByte nrLba % c.sp.writeUnitSize = 0
  · rw [if_neg (not_not.mpr hu)]
    by_cases hb : checkBoundaryError c slba nrLba
    · rw [if_neg (not_not.mpr hb)]
      by_cases hw : slba = (s.zoneDescs z).wp
      · rw [if_neg (not_not.mpr hw)]
        rcases openForWrite_spec h hz slba with ⟨h1, h2, h3⟩ | ⟨h1, h2, h3⟩
        · exact Or.inl ⟨h1, ⟨hu, hb, hw, h2⟩, h3⟩
        · exact Or.inr ⟨h1, fun ha => h2 ha.writable, h3⟩
      · rw [if_pos hw]
        exact Or.inr ⟨by dsimp only; decide, fun ha => hw ha.at_wp, rfl⟩
    · rw [if_pos hb]
      exact Or.inr ⟨by dsimp only; decide, fun ha => hb ha.one_zone, rfl⟩
  · rw [if_pos hu]
    exact Or.inr ⟨by dsimp only; decide, fun ha => hu ha.unit, rfl⟩

/-- `__increase_write_ptr` on an opened zone. -/
theorem increaseWritePtr_move (hc : c.Wf) {k : ZoneKind} {nrLba : Nat} (ho : (s.zoneDescs z).state.Opened)
    (hadv : Advance c z (s.zoneDescs z) k (u64 ((s.zoneDescs z).wp + nrLba))) :
    ZoneMove c z k ((s.zoneDescs z).advanced c z (u64 ((s.zoneDescs z).wp + nrLba))) s.toZoneTable
      (increaseWritePtr c z nrLba s).toZoneTable := by
  have hopen := h.release_open hc hz ho
  have hactive := h.release_active hc hz (Or.inl ho)
  have hcap : ((s.setDesc z { s.zoneDescs z with wp := u64 ((s.zoneDescs z).wp + nrLba) }).zoneDescs
      z).zoneCapacity = (s.zoneDescs z).zoneCapacity := by
    simp
  unfold increaseWritePtr ZoneDescriptor.advanced
  dsimp only
  rw [hcap]
  split
  · rename_i heq
    refine .of_counters hz (.fills (Or.inl ho) hadv heq) ?_ ?_ (weight_of_opened ho)
      (weight_of_idle (Or.inr rfl)) ?_ ?_
    · simp
    · intro r
      cases r <;> simp
    · simpa using hopen
    · simpa using hactive
  · rename_i hne
    exact .of_counters hz (.advances (Or.inl ho) hadv hne) rfl (fun _ => rfl) (weight_of_opened ho)
      (weight_of_opened ho) rfl rfl

end Writes

theorem appended_nrLba (s : ZnsFtl τ) (z : Nat) (cmd : NvmeCommand) : (appended s z cmd).nrLba = cmd.nrLba := by
  unfold appended
  split <;> rfl

theorem lbaToByte_nrLba_lt (cmd : NvmeCommand) : lbaToByte cmd.nrLba < 2 ^ 32 := by
  have := cmd.nrLba_le
  unfold lbaToByte
  omega

/-- The buffer of the zone charged with `n` bytes. -/
def ZnsFtl.charged (c : ZnsConfig) (s : ZnsFtl τ) (z n : Nat) : ZnsFtl τ :=
  s.setBuf (writeBufferOf c z)
    { s.buf (writeBufferOf c z) with remaining := (s.buf (writeBufferOf c z)).remaining - n }

@[simp] theorem charged_toZoneTable (s : ZnsFtl τ) (z n : Nat) :
    (s.charged c z n).toZoneTable = s.toZoneTable :=
  s.setBuf_toZoneTable _ _

/-- A buffer is not looked at when a write is judged. -/
theorem admissible_charged {s : ZnsFtl τ} {y n z slba nrLba : Nat} :
    Admissible c (s.charged c y n) z slba nrLba ↔ Admissible c s z slba nrLba := by
  unfold ZnsFtl.charged
  generalize writeBufferOf c y = id
  cases id <;> exact ⟨fun h => ⟨h.1, h.2, h.3, h.4⟩, fun h => ⟨h.1, h.2, h.3, h.4⟩⟩

theorem setBuf_buf (s : ZnsFtl τ) (id : BufferId) : s.setBuf id (s.buf id) = s := by
  cases id <;> simp [ZnsFtl.setBuf, ZnsFtl.buf]

theorem increaseWritePtr_buf (s : ZnsFtl τ) (z n : Nat) : (increaseWritePtr c z n s).buf = s.buf := by
  funext id
  unfold increaseWritePtr
  dsimp only
  split <;> cases id <;> rfl

/-- What a write schedules: the releases of its program loop, started at some time. -/
def Programs (c : ZnsConfig) (L : ZnsLatency τ) (z slba nrLba : Nat) (ops : List ZnsOp) : Prop :=
  ∃ tm xfer, ops = (writeProgramLoop c L (writeBufferOf c z) xfer (lbaToLpn c (u64 (slba + nrLba - 1)))
    (zoneToElpn c z) (lbaToLpn c (u64 (slba + nrLba - 1)) - lbaToLpn c slba + 1) (lbaToLpn c slba)
    ⟨tm, xfer, []⟩).ops

/-- **What `__zns_write` can do** to zone `z`. -/
inductive ZnsWriteOutcome (c : ZnsConfig) (L : ZnsLatency τ) (req : NvmevRequest) (s : ZnsFtl τ) (z : Nat) :
    ZnsReply × ZnsFtl τ → Prop where
  /-- The buffer is short. -/
  | refused (hshort : (s.buf (writeBufferOf c z)).remaining < lbaToByte req.cmd.nrLba) :
      ZnsWriteOutcome c L req s z (⟨appended s z req.cmd, none⟩, s)
  /-- A check fails, and the charge stays. -/
  | failed {status : Nat} (hs : status ≠ scSuccess)
      (hroom : lbaToByte req.cmd.nrLba ≤ (s.buf (writeBufferOf c z)).remaining)
      (hbad : ¬ Admissible c s z (appended s z req.cmd).slba.toNat req.cmd.nrLba) :
      ZnsWriteOutcome c L req s z
        (⟨appended s z req.cmd, some ⟨⟨status, req.nsecsStart, appendResult s z req.cmd⟩, []⟩⟩,
          s.charged c z (lbaToByte req.cmd.nrLba))
  /-- The zone is open and its write pointer moves by the length of the command. -/
  | done {target : Nat} {ops : List ZnsOp} {s' : ZnsFtl τ} {st : ZoneState}
      (hroom : lbaToByte req.cmd.nrLba ≤ (s.buf (writeBufferOf c z)).remaining)
      (hok : Admissible c s z (appended s z req.cmd).slba.toNat req.cmd.nrLba)
      (hops : Programs c L z (s.zoneDescs z).wp req.cmd.nrLba ops)
      (hbuf : s'.buf = (s.charged c z (lbaToByte req.cmd.nrLba)).buf) (hst : st.Opened)
      (hdescs : s'.zoneDescs = Function.update s.zoneDescs z
        ({ s.zoneDescs z with state := st }.advanced c z (u64 ((s.zoneDescs z).wp + req.cmd.nrLba))))
      (hmoves : ZoneMoves c (fun y k => y = z ∧ k = .write) s.toZoneTable s'.toZoneTable) :
      ZnsWriteOutcome c L req s z
        (⟨appended s z req.cmd, some ⟨⟨scSuccess, target, appendResult s z req.cmd⟩, ops⟩⟩, s')

theorem znsWriteSeq_outcome (hc : c.Wf) (L : ZnsLatency τ) (req : NvmevRequest) {s : ZnsFtl τ}
    (h : ZonesCounted c s.toZoneTable) (hz : (s.zoneDescs (lbaToZone c req.cmd.slba.toNat)).zrwav = false) :
    Sat (fun _ => True)
      (fun r => lbaToZone c req.cmd.slba.toNat < c.zp.nrZones ∧
        ZnsWriteOutcome c L req s (lbaToZone c req.cmd.slba.toNat) r)
      (znsWriteSeq c L req s) := by
  unfold znsWriteSeq
  refine sat_nvmevAssert_bind trivial fun hlt => ?_
  generalize lbaToZone c req.cmd.slba.toNat = z at hz hlt ⊢
  dsimp only
  rw [appended_nrLba]
  by_cases hsize : lbaToByte req.cmd.nrLba ≤ (s.buf (writeBufferOf c z)).size
  swap
  · rw [bufferAllocate_of_lt (Nat.lt_of_not_le hsize)]
    trivial
  by_cases hshort : (s.buf (writeBufferOf c z)).remaining < lbaToByte req.cmd.nrLba
  · have hpos : 0 < lbaToByte req.cmd.nrLba := Nat.lt_of_le_of_lt (Nat.zero_le _) hshort
    simp only [bufferAllocate_of_short hsize hshort, ok_bind, if_pos hpos, setBuf_buf]
    exact ⟨hlt, .refused hshort⟩
  have hroom := Nat.le_of_not_lt hshort
  simp only [bufferAllocate_of_le hsize (lbaToByte_nrLba_lt _) hroom, ok_bind, Nat.lt_irrefl, if_false]
  have hch : ZonesCounted c (s.charged c z (lbaToByte req.cmd.nrLba)).toZoneTable := by
    rw [charged_toZoneTable]
    exact h
  have hspec := admitWrite_spec hch hlt (appended s z req.cmd).slba.toNat req.cmd.nrLba
  rw [admissible_charged] at hspec
  show z < c.zp.nrZones ∧ ZnsWriteOutcome c L req s z (completeWrite c L _ z _ _
    (admitWrite c z (appended s z req.cmd).slba.toNat req.cmd.nrLba (s.charged c z (lbaToByte req.cmd.nrLba))))
  refine ⟨hlt, ?_⟩
  generalize admitWrite c z (appended s z req.cmd).slba.toNat req.cmd.nrLba
    (s.charged c z (lbaToByte req.cmd.nrLba)) = r at hspec ⊢
  obtain ⟨status, s1⟩ := r
  rcases hspec with ⟨h1, hok, hbuf, st, hst, hmove⟩ | ⟨h1, hbad, h3⟩
  · dsimp only at h1
    subst h1
    -- the zone as the switch left it, for `__increase_write_ptr`
    have hd1 : s1.zoneDescs z = { s.zoneDescs z with state := st } := by
      rw [hmove.descs, Function.update_self, charged_toZoneTable]
    have hwp : (s1.zoneDescs z).wp = (s.zoneDescs z).wp := by rw [hd1]
    have hadv : Advance c z (s1.zoneDescs z) .write (u64 ((s1.zoneDescs z).wp + req.cmd.nrLba)) := by
      have hb := hok.one_zone
      rw [hok.at_wp, checkBoundaryError, ← hwp] at hb
      exact .write (by rw [hd1]; exact hz) req.cmd.nrLba_pos req.cmd.nrLba_le hb
    have hinc := increaseWritePtr_move (hch.move hmove) hlt hc (by rw [hd1]; exact hst) hadv
    rw [completeWrite, if_neg (by decide), appended_nrLba]
    refine .done hroom hok ?_ ?_ hst ?_ ?_
    · rw [hok.at_wp]
      exact ⟨_, _, rfl⟩
    · exact (funext fun id => by cases id <;> rfl : _ = (increaseWritePtr c z req.cmd.nrLba s1).buf).trans
        ((increaseWritePtr_buf s1 z _).trans hbuf)
    · have hdescs := hinc.descs
      rw [hmove.descs, charged_toZoneTable, Function.update_self, Function.update_idem] at hdescs
      exact hdescs
    · rw [charged_toZoneTable] at hmove
      exact .tail (hmove.moves ⟨rfl, rfl⟩) ⟨rfl, rfl⟩ hinc
  · dsimp only at h1 h3
    subst h3
    rw [completeWrite, if_pos h1]
    exact .failed h1 hroom hbad

/-! ## Writes to a zone with ZRWA -/

/-- Charging a ZRWA buffer leaves the table. -/
theorem zrwaAllocate_table (s : ZnsFtl τ) (z n : Nat) :
    Sat (fun _ => True) (fun r => r.2.toZoneTable = s.toZoneTable) (zrwaAllocate c z n s) := by
  unfold zrwaAllocate
  refine sat_nvmevAssert_bind trivial fun _ => ?_
  exact sat_bind_any fun _ => rfl

/-- The verdict on a write with ZRWA: an error, and the table unchanged, or an opened zone. -/
def ZrwaAdmitted (c : ZnsConfig) (z : Nat) (s : ZnsFtl τ) (r : Nat × ZnsFtl τ) : Prop :=
  (r.1 ≠ scSuccess ∧ r.2.toZoneTable = s.toZoneTable) ∨
    (r.1 = scSuccess ∧ ∃ st : ZoneState, st.Opened ∧
      ZoneMove c z .flush { s.zoneDescs z with state := st } s.toZoneTable r.2.toZoneTable)

section Zrwa

variable {s : ZnsFtl τ} (h : ZonesCounted c s.toZoneTable) {z : Nat} (hz : z < c.zp.nrZones)
  (hzr : (s.zoneDescs z).zrwav = true)
include h hz hzr

theorem openForZrwa_spec : Sat (fun _ => True) (ZrwaAdmitted c z s) (openForZrwa c z s) := by
  unfold openForZrwa
  cases hd : (s.zoneDescs z).state with
  | empty =>
      -- a zone with ZRWA is not empty
      have hne := (h.empty z hz hd).2
      rw [hzr] at hne
      exact absurd hne (by decide)
  | closed =>
      dsimp only
      by_cases hf : isZoneResourceAvail s .openZone
      · rw [acquireZoneResource_of_avail hf]
        refine (zrwaAllocate_table _ z _).bind fun r hr => sat_nvmevAssert_bind trivial fun _ => ?_
        refine Or.inr ⟨rfl, .openedImpl, Or.inl rfl, ?_⟩
        have hmove := opens_closed (k := .flush) hz (by decide) (show ZoneState.openedImpl.Opened from Or.inl rfl) hd
        have htable : (changeZoneState z .openedImpl r.2).toZoneTable = (changeZoneState z .openedImpl
            (s.setAcquired .openZone ((s.resInfos .openZone).acquiredCnt + 1))).toZoneTable := by
          show (⟨Function.update r.2.toZoneTable.zoneDescs z
            { r.2.toZoneTable.zoneDescs z with state := .openedImpl }, r.2.toZoneTable.resInfos⟩ : ZoneTable) = _
          rw [hr]
          rfl
        show ZoneMove c z .flush _ _ (changeZoneState z .openedImpl r.2).toZoneTable
        rw [htable]
        exact hmove
      · rw [acquireZoneResource_of_not_avail hf]
        exact Or.inl ⟨by dsimp only; decide, rfl⟩
  | openedImpl =>
      have ho : (s.zoneDescs z).state.Opened := Or.inl hd
      exact Or.inr ⟨rfl, _, ho, stays_opened hz (by decide) ho⟩
  | openedExpl =>
      have ho : (s.zoneDescs z).state.Opened := Or.inr hd
      exact Or.inr ⟨rfl, _, ho, stays_opened hz (by decide) ho⟩
  | full | readOnly | offline => exact Or.inl ⟨by dsimp only; decide, rfl⟩

/-- After the verdict the range is known to lie in the zone, below the end of the ZRWA. -/
theorem admitZrwa_spec {slba nrLba elba implEnd : Nat} :
    Sat (fun _ => True)
      (fun r => ZrwaAdmitted c z s r ∧ (r.1 = scSuccess → checkBoundaryError c slba nrLba ∧ elba ≤ implEnd))
      (admitZrwa c z slba nrLba elba implEnd s) := by
  unfold admitZrwa
  split
  · exact ⟨Or.inl ⟨by dsimp only; decide, rfl⟩, fun he => absurd he (by dsimp only; decide)⟩
  · split
    · exact ⟨Or.inl ⟨by dsimp only; decide, rfl⟩, fun he => absurd he (by dsimp only; decide)⟩
    · rename_i hb
      split
      · exact ⟨Or.inl ⟨by dsimp only; decide, rfl⟩, fun he => absurd he (by dsimp only; decide)⟩
      · rename_i hrange
        refine (openForZrwa_spec h hz hzr).mono fun r hr => ⟨hr, fun _ => ⟨not_not.mp hb, ?_⟩⟩
        exact Nat.le_of_not_lt fun hlt => hrange (Or.inr hlt)

end Zrwa

theorem divRoundUp_mul_le (n d : Nat) : divRoundUp n d * d ≤ n + d - 1 := Nat.div_mul_le_self _ _

/-- **A flush stays in its zone.** An implicit flush is rounded up to the flush granularity, which is not more
    than what the ZRWA keeps back. -/
theorem zrwaFlushLbas_in_zone (hc : c.Below2Tib) (hsane : c.ZrwaSane) {z : Nat} (hz : z < c.zp.nrZones)
    {d : ZoneDescriptor} (hr : d.Room c z) {elba : Nat} (hzone : lbaToZone c elba = z)
    (hend : elba ≤ u64 (d.wp + u32 (2 * c.zp.lbasPerZrwa) + (2 ^ 64 - 1))) :
    Sat (fun _ => True)
      (fun n => 0 < n → d.wp ≤ u64 (d.wp + u32 n) ∧ u64 (d.wp + u32 n) ≤ d.zslba + d.zoneCapacity)
      (zrwaFlushLbas c z d.wp elba (u64 (d.wp + c.zp.lbasPerZrwa))) := by
  have hlt := hc.zone_end_lt hz
  have hzrwa := hc.lbasPerZrwa_lt
  have hle := hr.le_wp
  have hwp := hr.wp_lt
  have hmul : z * c.zoneLbas + c.zoneLbas = (z + 1) * c.zoneLbas := (Nat.succ_mul _ _).symm
  rw [hr.zslba_eq] at hle
  rw [hr.zslba_eq, hr.cap_eq, hmul] at hwp ⊢
  have hstart : u64 (d.wp + c.zp.lbasPerZrwa) = d.wp + c.zp.lbasPerZrwa := u64_of_lt (by omega)
  unfold zrwaFlushLbas
  rw [hstart]
  split
  · rename_i himpl
    refine sat_nvmevAssert_bind trivial fun hfg => ?_
    intro _
    -- the granularity is not zero, so the ZRWA is not empty
    have hsane' : c.zp.lbasPerZrwafg ≤ c.zp.lbasPerZrwa := hsane
    have h2 : u32 (2 * c.zp.lbasPerZrwa) = 2 * c.zp.lbasPerZrwa := u32_of_lt (by omega)
    rw [h2] at hend
    have himplEnd : u64 (d.wp + 2 * c.zp.lbasPerZrwa + (2 ^ 64 - 1)) = d.wp + 2 * c.zp.lbasPerZrwa - 1 := by
      unfold u64
      omega
    rw [himplEnd] at hend
    have hrange := hc.lbaToZone_range (by omega) hzone
    have hround := divRoundUp_mul_le (elba - (d.wp + c.zp.lbasPerZrwa) + 1) c.zp.lbasPerZrwafg
    generalize divRoundUp _ c.zp.lbasPerZrwafg * c.zp.lbasPerZrwafg = n at hround ⊢
    rw [u32_of_lt (by omega), u64_of_lt (by omega)]
    omega
  · split
    · rename_i helba
      intro _
      rw [hc.zoneToElba_eq hz] at helba
      have hn : u64 (elba + 2 ^ 64 - d.wp + 1) = (z + 1) * c.zoneLbas - d.wp := by
        unfold u64
        omega
      rw [hn, u32_of_lt (by omega), u64_of_lt (by omega)]
      omega
    · intro h0
      exact absurd h0 (Nat.lt_irrefl 0)

/-- The flush of a write moves an opened zone, or nothing if it was refused. -/
theorem zrwaFlush_moves (hc : c.Wf) {s : ZnsFtl τ} (h : ZonesCounted c s.toZoneTable) {z : Nat} (hz : z < c.zp.nrZones)
    (ho : (s.zoneDescs z).state.Opened) {n : Nat}
    (hadv : 0 < n → Advance c z (s.zoneDescs z) .flush (u64 ((s.zoneDescs z).wp + u32 n))) :
    Sat (fun _ => True) (fun r => ZoneMoves c (fun y k => y = z ∧ k = .flush) s.toZoneTable r.2.toZoneTable)
      (zrwaFlush c z n s) := by
  unfold zrwaFlush
  split
  · rename_i hn
    refine (zrwaAllocate_table s z _).bind fun r hr => ?_
    dsimp only
    split
    · show ZoneMoves c _ s.toZoneTable r.2.toZoneTable
      rw [hr]
      exact .refl
    · show ZoneMoves c _ s.toZoneTable (increaseWritePtr c z (u32 n) r.2).toZoneTable
      rw [← hr] at h ho hadv ⊢
      exact (increaseWritePtr_move h hz hc ho (hadv hn)).moves ⟨rfl, rfl⟩
  · exact .refl

/-- **`__zns_write_zrwa` moves its zone along flush transitions.** -/
theorem znsWriteZrwa_moves (hc : c.Wf) (L : ZnsLatency τ) (req : NvmevRequest) {s : ZnsFtl τ}
    (h : ZonesCounted c s.toZoneTable) (hzr : (s.zoneDescs (lbaToZone c req.cmd.slba.toNat)).zrwav = true) :
    Sat (fun _ => True)
      (fun r => ZoneMoves c (fun y k => y = lbaToZone c req.cmd.slba.toNat ∧ k = .flush) s.toZoneTable
        r.2.toZoneTable)
      (znsWriteZrwa c L req s) := by
  unfold znsWriteZrwa
  refine sat_nvmevAssert_bind trivial fun hz => ?_
  refine (admitZrwa_spec h hz hzr).bind fun r hr => ?_
  obtain ⟨status, s1⟩ := r
  dsimp only
  split
  · rename_i hs
    rcases hr.1 with ⟨-, htable⟩ | ⟨hok, -⟩
    · show ZoneMoves c _ s.toZoneTable s1.toZoneTable
      rw [htable]
      exact .refl
    · exact absurd hok hs
  · rename_i hs
    have hs := not_not.mp hs
    rcases hr.1 with ⟨hno, -⟩ | ⟨-, st, hst, hmove⟩
    · exact absurd hs hno
    · obtain ⟨hb, hend⟩ := hr.2 hs
      generalize hzid : lbaToZone c req.cmd.slba.toNat = z at *
      have hd1 : s1.zoneDescs z = { s.zoneDescs z with state := st } := by
        rw [hmove.descs, Function.update_self]
      have hwp : (s1.zoneDescs z).wp = (s.zoneDescs z).wp := by rw [hd1]
      have hzr1 : (s1.zoneDescs z).zrwav = true := by
        rw [hd1]
        exact hzr
      have hzone : lbaToZone c (u64 (req.cmd.slba.toNat + req.cmd.nrLba - 1)) = z := by
        rw [← hzid]
        exact hb.symm
      rw [← hwp] at hend ⊢
      -- how far a flush of `n` blocks goes
      have hadv : Sat (fun _ => True)
          (fun n => 0 < n → Advance c z (s1.zoneDescs z) .flush (u64 ((s1.zoneDescs z).wp + u32 n)))
          (zrwaFlushLbas c z (s1.zoneDescs z).wp (u64 (req.cmd.slba.toNat + req.cmd.nrLba - 1))
            (u64 ((s1.zoneDescs z).wp + c.zp.lbasPerZrwa))) := by
        refine Sat.mono (sat_imp fun hc2 => sat_imp fun hsane => sat_imp fun hroom =>
          zrwaFlushLbas_in_zone hc2 hsane hz hroom hzone hend) ?_
        intro n hin hn
        exact .flush hzr1 (Nat.mod_lt _ (by decide)) fun hc2 hsane _ hroom => hin hc2 hsane hroom hn
      refine hadv.bind fun n hn => ?_
      refine (zrwaFlush_moves hc (h.move hmove) hz (by rw [hd1]; exact hst) hn).bind fun r hr => ?_
      have hmoves := (hmove.moves (K := fun y k => y = z ∧ k = .flush) ⟨rfl, rfl⟩).trans hr
      obtain ⟨flushed, s2⟩ := r
      cases flushed <;> exact hmoves

end NvmeVirt
