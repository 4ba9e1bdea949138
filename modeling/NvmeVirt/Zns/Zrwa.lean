import NvmeVirt.Zns.Run

/-!
# `Zns.Zrwa` — the books of the ZRWA resource

The third counter of `res_infos`. A zone opened with ZRWA acquires a resource and should hold it as long as
the zone is opened or closed. `__increase_write_ptr` gives back the open and the active resource of a zone it
fills, but not this one; and it is reached by one kind of write, the one that ends at the last block of a zone
whose end is less than a ZRWA away from the write pointer. An implicit flush never gets there, because it stays
behind the last block that was written.

The invariant `ZrwaBooks` is kept with the number of resources that were lost; `ZrwaStep` is what one zone's
step does to it.
-/

namespace NvmeVirt

open Outcome Counting

variable {τ : Type}

/-! ## The books -/

/-- An opened or closed zone with ZRWA holds a ZRWA resource. -/
def ZoneDescriptor.HoldsZrwa (d : ZoneDescriptor) : Prop := d.state.Active ∧ d.zrwav = true

instance : DecidablePred ZoneDescriptor.HoldsZrwa := fun _ => inferInstanceAs (Decidable (_ ∧ _))

/-- What a zone weighs in the ZRWA counter. -/
def ZoneDescriptor.zrwaWeight (d : ZoneDescriptor) : Nat := if d.HoldsZrwa then 1 else 0

/-- `res_infos[ZRWA_ZONE].acquired_cnt` -/
def ZoneTable.zrwaAcquired (s : ZoneTable) : Nat := (s.resInfos .zrwaZone).acquiredCnt

variable (c : ZnsConfig)

def ZoneTable.zrwaHolders (s : ZoneTable) : Nat :=
  countBelow ZoneDescriptor.HoldsZrwa s.zoneDescs c.zp.nrZones

/-- The write pointer of a zone that holds ZRWA lies in the zone, also on devices where `zone_to_slba` wraps. -/
def ZoneDescriptor.ZrwaRoom (z : Nat) (d : ZoneDescriptor) : Prop :=
  d.HoldsZrwa → z * c.zoneLbas ≤ d.wp ∧ d.wp < (z + 1) * c.zoneLbas

/-- **The books**: `lost` resources are acquired and held by no zone. -/
structure ZrwaBooks (lost : Nat) (s : ZoneTable) : Prop where
  count : s.zrwaAcquired = s.zrwaHolders c + lost
  le : s.zrwaAcquired ≤ c.zp.nrZones
  room : ∀ z, z < c.zp.nrZones → (s.zoneDescs z).ZrwaRoom c z

/-- **One step of the books**: zone `z` becomes `d`, and the counter moves by what the old and the new
    descriptor weigh, but for the resources that are `lost`. -/
structure ZrwaStep (z lost : Nat) (d : ZoneDescriptor) (s s' : ZoneTable) : Prop where
  descs : s'.zoneDescs = Function.update s.zoneDescs z d
  acquired : s'.zrwaAcquired + (s.zoneDescs z).zrwaWeight = s.zrwaAcquired + d.zrwaWeight + lost
  le : s'.zrwaAcquired ≤ c.zp.nrZones
  room : d.ZrwaRoom c z

variable {c} {s s' : ZoneTable} {z lost n : Nat} {d : ZoneDescriptor}

/-- **A step moves the books by what it loses.** -/
theorem ZrwaBooks.step (b : ZrwaBooks c n s) (hz : z < c.zp.nrZones) (hs : ZrwaStep c z lost d s s') :
    ZrwaBooks c (n + lost) s' where
  count := by
    have hu := countBelow_update (P := ZoneDescriptor.HoldsZrwa) (f := s.zoneDescs) hz d
    have hacq := hs.acquired
    have hcount := b.count
    unfold ZoneTable.zrwaHolders at hcount ⊢
    unfold ZoneDescriptor.zrwaWeight at hacq
    rw [hs.descs]
    omega
  le := hs.le
  room := by
    intro y hy
    rw [hs.descs]
    by_cases hyz : y = z
    · subst hyz
      rw [Function.update_self]
      exact hs.room
    · rw [Function.update_of_ne hyz]
      exact b.room y hy

/-- A step that loses nothing leaves the books as they are. -/
theorem ZrwaBooks.step_kept (b : ZrwaBooks c n s) (hz : z < c.zp.nrZones) (hs : ZrwaStep c z 0 d s s') :
    ZrwaBooks c n s' :=
  b.step hz hs

theorem zrwaWeight_of_active (h : d.state.Active) : d.zrwaWeight = if d.zrwav then 1 else 0 := by
  simp [ZoneDescriptor.zrwaWeight, ZoneDescriptor.HoldsZrwa, h]

theorem zrwaWeight_of_idle (h : d.state = .empty ∨ d.state = .full) : d.zrwaWeight = 0 := by
  rcases h with h | h <;>
    simp [ZoneDescriptor.zrwaWeight, ZoneDescriptor.HoldsZrwa, h, ZoneState.Active, ZoneState.Opened]

theorem zrwaRoom_of_idle (h : d.state = .empty ∨ d.state = .full) : d.ZrwaRoom c z := by
  intro hh
  rcases h with h | h
  · exact absurd h hh.1.alive.2.2.1
  · exact absurd h hh.1.alive.2.2.2

/-- A zone that stays active and keeps its ZRWA flag weighs what it did. -/
theorem ZrwaBooks.stays_active (b : ZrwaBooks c n s) (ha : (s.zoneDescs z).state.Active) (hd : d.state.Active)
    (hzr : d.zrwav = (s.zoneDescs z).zrwav) (hroom : d.ZrwaRoom c z)
    (hdescs : s'.zoneDescs = Function.update s.zoneDescs z d) (hacq : s'.zrwaAcquired = s.zrwaAcquired) :
    ZrwaStep c z 0 d s s' where
  descs := hdescs
  acquired := by rw [hacq, zrwaWeight_of_active ha, zrwaWeight_of_active hd, hzr, Nat.add_zero]
  le := by
    rw [hacq]
    exact b.le
  room := hroom

/-- A zone that only goes from one active state to another. -/
theorem ZrwaBooks.changes_state (b : ZrwaBooks c n s) (hz : z < c.zp.nrZones) (ha : (s.zoneDescs z).state.Active)
    {st : ZoneState} (hst : st.Active)
    (hdescs : s'.zoneDescs = Function.update s.zoneDescs z { s.zoneDescs z with state := st })
    (hacq : s'.zrwaAcquired = s.zrwaAcquired) : ZrwaBooks c n s' :=
  b.step hz (b.stays_active (d := { s.zoneDescs z with state := st }) ha hst rfl
    (fun hh => b.room z hz ⟨ha, hh.2⟩) hdescs hacq)

/-- A zone that holds a resource can give it back. -/
theorem ZrwaBooks.release (b : ZrwaBooks c n s) (hc : c.Wf) (hz : z < c.zp.nrZones)
    (hh : (s.zoneDescs z).HoldsZrwa) : u32Dec s.zrwaAcquired + 1 = s.zrwaAcquired := by
  have hpos : 0 < s.zrwaHolders c := countBelow_pos hz hh
  have hcount := b.count
  have hle := b.le
  rw [u32Dec_of_pos (by omega) (Nat.lt_of_le_of_lt hle hc.nrZones_lt)]
  omega

/-! ## Zone management -/

/-- Acquiring one resource leaves the others. -/
theorem acquireZoneResource_of_ne (s : ZnsFtl τ) {r r' : ZoneResource} (h : r' ≠ r) :
    (acquireZoneResource r s).2.resInfos r' = s.resInfos r' := by
  unfold acquireZoneResource
  split
  · exact Function.update_of_ne h _ _
  · rfl

theorem setAcquired_zrwaAcquired (s : ZnsFtl τ) (m : Nat) : (s.setAcquired .zrwaZone m).zrwaAcquired = m := by
  simp [ZoneTable.zrwaAcquired]

theorem releaseZoneResource_zrwaAcquired (s : ZnsFtl τ) :
    (releaseZoneResource .zrwaZone s).zrwaAcquired = u32Dec s.zrwaAcquired :=
  setAcquired_zrwaAcquired s _

theorem changeZoneState_zrwaAcquired (s : ZnsFtl τ) (z : Nat) (st : ZoneState) :
    (changeZoneState z st s).zrwaAcquired = s.zrwaAcquired := rfl

theorem releaseActive_zrwa (s : ZnsFtl τ) (z : Nat) :
    (releaseActive z s).zrwaAcquired = if (s.zoneDescs z).zrwav then u32Dec s.zrwaAcquired else s.zrwaAcquired := by
  unfold releaseActive ZoneTable.zrwaAcquired
  split <;> simp

section Actions

variable {s : ZnsFtl τ} (h : ZonesCounted c s.toZoneTable) (b : ZrwaBooks c n s.toZoneTable) (hc : c.Wf) {z : Nat}
  (hz : z < c.zp.nrZones)
include b hz

theorem zmgmtSendCloseZone_books : ZrwaBooks c n (zmgmtSendCloseZone z s).2.toZoneTable := by
  unfold zmgmtSendCloseZone
  cases hd : (s.zoneDescs z).state with
  | openedImpl => exact b.changes_state hz (Or.inl (Or.inl hd)) (Or.inr rfl) rfl rfl
  | openedExpl => exact b.changes_state hz (Or.inl (Or.inr hd)) (Or.inr rfl) rfl rfl
  | empty | closed | readOnly | full | offline => exact b

include hc in
/-- **Finish and reset** give back the ZRWA resource of a zone that holds one. -/
theorem gaveUp_books {s' : ZoneTable} (hd : d.state = .empty ∨ d.state = .full)
    (hdescs : s'.zoneDescs = Function.update s.zoneDescs z d) (hres : GaveUp z s s'.resInfos) :
    ZrwaBooks c n s' := by
  have hle := b.le
  -- an active zone loses its weight, and the counter with it
  have hactive : (s.zoneDescs z).state.Active →
      s'.zrwaAcquired = (if (s.zoneDescs z).zrwav then u32Dec s.zrwaAcquired else s.zrwaAcquired) →
      ZrwaBooks c n s' := by
    intro ha hacq
    have hrel : (s.zoneDescs z).zrwav = true → u32Dec s.zrwaAcquired + 1 = s.zrwaAcquired :=
      fun hzr => b.release hc hz ⟨ha, hzr⟩
    refine b.step_kept hz ⟨hdescs, ?_, ?_, zrwaRoom_of_idle hd⟩
    · rw [zrwaWeight_of_active ha, zrwaWeight_of_idle hd, hacq]
      split
      · rename_i hzr
        have := hrel hzr
        omega
      · rfl
    · rw [hacq]
      split
      · rename_i hzr
        have := hrel hzr
        omega
      · exact hle
  obtain ⟨descs, infos⟩ := s'
  dsimp only at hdescs hres
  cases hres with
  | opened ho => exact hactive (Or.inl ho) (releaseActive_zrwa (releaseZoneResource .openZone s) z)
  | closed hcl => exact hactive (Or.inr hcl) (releaseActive_zrwa s z)
  | idle hi =>
      refine b.step_kept hz ⟨hdescs, ?_, hle, zrwaRoom_of_idle hd⟩
      rw [zrwaWeight_of_idle hi, zrwaWeight_of_idle hd]
      rfl

include hc in
theorem zmgmtSendFinishZone_books : ZrwaBooks c n (zmgmtSendFinishZone z s).2.toZoneTable := by
  rcases zmgmtSendFinishZone_cases z s with heq | ⟨hdescs, -, hres⟩
  · rw [heq]
    exact b
  · exact gaveUp_books b hc hz (Or.inr rfl) hdescs hres

include hc in
theorem zmgmtSendResetZone_books : ZrwaBooks c n (zmgmtSendResetZone c z s).2.toZoneTable := by
  rcases zmgmtSendResetZone_cases c z s with heq | ⟨hdescs, -, hres⟩
  · rw [heq]
    exact b
  · exact gaveUp_books b hc hz (Or.inl rfl) hdescs hres

theorem openClosedExpl_books (hd : (s.zoneDescs z).state = .closed) :
    ZrwaBooks c n (openClosedExpl z s).2.toZoneTable := by
  unfold openClosedExpl
  by_cases hf : isZoneResourceAvail s .openZone
  · rw [acquireZoneResource_of_avail hf]
    exact b.changes_state hz (Or.inr hd) (Or.inl (Or.inr rfl)) rfl rfl
  · rw [acquireZoneResource_of_not_avail hf]
    exact b

include h

theorem zmgmtSendOfflineZone_books : ZrwaBooks c n (zmgmtSendOfflineZone z s).2.toZoneTable := by
  unfold zmgmtSendOfflineZone
  cases hd : (s.zoneDescs z).state with
  | readOnly => exact absurd hd (h.alive z hz).1
  | empty | openedImpl | openedExpl | closed | full | offline => exact b

/-- An EMPTY zone that is opened: with ZRWA the counter has gone up before. -/
theorem opens_books {s1 : ZnsFtl τ} (zrwa : Bool) (hd : (s.zoneDescs z).state = .empty)
    (hopen : isZoneResourceAvail s1 .openZone)
    (hdescs : s1.zoneDescs = Function.update s.zoneDescs z { s.zoneDescs z with zrwav := zrwa })
    (hacq : s1.zrwaAcquired = s.zrwaAcquired + if zrwa then 1 else 0) (hle : s1.zrwaAcquired ≤ c.zp.nrZones) (hc : c.Wf) :
    ZrwaBooks c n (openClosedExpl z s1).2.toZoneTable := by
  have hact : ZoneState.openedExpl.Active := Or.inl (Or.inr rfl)
  rw [openClosedExpl, acquireZoneResource_of_avail hopen]
  refine b.step_kept (d := { s.zoneDescs z with state := .openedExpl, zrwav := zrwa }) hz ⟨?_, ?_, hle, ?_⟩
  · simp [hdescs]
  · rw [zrwaWeight_of_idle (Or.inl hd), zrwaWeight_of_active hact]
    exact hacq
  · -- the write pointer of an EMPTY zone is at its start
    intro _
    have hpos := hc.zoneLbas_pos
    show z * c.zoneLbas ≤ (s.zoneDescs z).wp ∧ (s.zoneDescs z).wp < (z + 1) * c.zoneLbas
    rw [(h.empty z hz hd).1, h.zslba z hz, Nat.succ_mul]
    omega

theorem zmgmtSendOpenZone_books (hc : c.Wf) {zrwa : Bool} :
    ZrwaBooks c n (zmgmtSendOpenZone z zrwa s).2.toZoneTable := by
  unfold zmgmtSendOpenZone
  cases hd : (s.zoneDescs z).state with
  | empty =>
      dsimp only
      split
      · exact b
      split
      · exact b
      rename_i ho
      have hopen := h.open_avail ho
      split
      · split
        · exact b
        rename_i hzr
        have hfree : isZoneResourceAvail s .zrwaZone := by
          refine Nat.lt_of_le_of_ne ?_ hzr
          rw [h.total]
          exact b.le
        rw [acquireZoneResource_of_avail hfree]
        refine opens_books h b hz true hd ?_ ?_ ?_ ?_ hc
        · unfold isZoneResourceAvail
          rw [acquireZoneResource_of_ne _ (by decide)]
          exact hopen
        · simp
        · unfold ZoneTable.zrwaAcquired
          rw [acquireZoneResource_of_ne _ (by decide)]
          simp
        · unfold ZoneTable.zrwaAcquired
          rw [acquireZoneResource_of_ne _ (by decide), ← h.total .zrwaZone]
          have hlt : (s.resInfos .zrwaZone).acquiredCnt + 1 ≤ (s.resInfos .zrwaZone).totalCnt := hfree
          simpa using hlt
      · have hflag := (h.empty z hz hd).2
        refine opens_books h b hz false hd ?_ ?_ ?_ ?_ hc
        · unfold isZoneResourceAvail
          rw [acquireZoneResource_of_ne _ (by decide)]
          exact hopen
        · rw [acquireZoneResource_zoneDescs, ← hflag]
          exact (Function.update_eq_self z _).symm
        · unfold ZoneTable.zrwaAcquired
          rw [acquireZoneResource_of_ne _ (by decide)]
          rfl
        · unfold ZoneTable.zrwaAcquired
          rw [acquireZoneResource_of_ne _ (by decide)]
          exact b.le
  | closed => exact openClosedExpl_books b hz hd
  | openedImpl => exact b.changes_state hz (Or.inl (Or.inl hd)) (Or.inl (Or.inr rfl)) rfl rfl
  | openedExpl | full | readOnly | offline => exact b

/-- **An explicit flush** gives the resource back with the other two when it reaches the end of the zone. -/
theorem flushTo_books (hc : c.Wf) {slba : Nat} (hzr : (s.zoneDescs z).zrwav = true) (hge : (s.zoneDescs z).wp ≤ slba)
    (hle : slba ≤ zoneToSlba c z + (s.zoneDescs z).zoneCapacity - 1) :
    ZrwaBooks c n (flushTo c z slba s).2.toZoneTable := by
  have hcap := h.cap z hz
  have hpos := hc.zoneLbas_pos
  have hlt := hc.zslba_lt hz
  have hzl := hc.zoneLbas_lt
  have hslba := ZnsConfig.Wf.zoneToSlba_cases (c := c) z
  have hacq := b.le
  -- the resource is there to be released
  have hfull : (s.zoneDescs z).state.Active → ∀ s1 : ZnsFtl τ, s1.zrwaAcquired = s.zrwaAcquired →
      s1.zoneDescs = Function.update s.zoneDescs z { s.zoneDescs z with wp := u64 (slba + 1) } →
      ZrwaBooks c n (changeZoneState z .full (releaseZoneResource .zrwaZone s1)).toZoneTable := by
    intro ha s1 heq hdescs
    have hrel := b.release hc hz ⟨ha, hzr⟩
    have hdec : (changeZoneState z .full (releaseZoneResource .zrwaZone s1)).zrwaAcquired + 1 = s.zrwaAcquired := by
      rw [changeZoneState_zrwaAcquired, releaseZoneResource_zrwaAcquired, heq]
      exact hrel
    refine b.step_kept (d := { s.zoneDescs z with wp := u64 (slba + 1), state := .full }) hz
      ⟨?_, ?_, ?_, zrwaRoom_of_idle (Or.inr rfl)⟩
    · rw [changeZoneState_zoneDescs, releaseZoneResource_zoneDescs, hdescs, Function.update_idem, Function.update_self]
    · rw [zrwaWeight_of_active ha, zrwaWeight_of_idle (Or.inr rfl), if_pos hzr]
      exact hdec
    · omega
  have hmoved : (s.zoneDescs z).state.Active → u64 (slba + 1) ≠ zoneToSlba c z + (s.zoneDescs z).zoneCapacity →
      ZrwaBooks c n (s.setDesc z { s.zoneDescs z with wp := u64 (slba + 1) }).toZoneTable := by
    intro ha hne
    obtain ⟨h1, h2⟩ := b.room z hz ⟨ha, hzr⟩
    have hwp : z * c.zoneLbas ≤ u64 (slba + 1) ∧ u64 (slba + 1) < (z + 1) * c.zoneLbas := by
      rw [hcap] at hle hne
      rw [Nat.succ_mul] at h2 ⊢
      rw [u64_of_lt (by omega)] at hne ⊢
      omega
    have hstep : ZrwaStep c z 0 { s.zoneDescs z with wp := u64 (slba + 1) } s.toZoneTable
        (s.setDesc z { s.zoneDescs z with wp := u64 (slba + 1) }).toZoneTable :=
      b.stays_active ha ha rfl (fun _ => hwp) rfl rfl
    exact b.step hz hstep
  unfold flushTo
  dsimp only
  split
  · rename_i hd
    split
    · exact hfull (Or.inl (Or.inr hd)) _ rfl rfl
    · exact hmoved (Or.inl (Or.inr hd)) (by assumption)
  · rename_i hd
    split
    · exact hfull (Or.inl (Or.inl hd)) _ rfl rfl
    · exact hmoved (Or.inl (Or.inl hd)) (by assumption)
  · rename_i hd
    split
    · exact hfull (Or.inr hd) _ rfl rfl
    · exact hmoved (Or.inr hd) (by assumption)
  · exact b

end Actions

theorem zmgmtSendFlushExplicitZrwa_books (hc : c.Wf) {s : ZnsFtl τ} (h : ZonesCounted c s.toZoneTable)
    (b : ZrwaBooks c n s.toZoneTable) {slba : Nat} (hz : lbaToZone c slba < c.zp.nrZones) :
    Sat (fun _ => True) (fun r => ZrwaBooks c n r.2.toZoneTable) (zmgmtSendFlushExplicitZrwa c slba s) := by
  unfold zmgmtSendFlushExplicitZrwa
  generalize lbaToZone c slba = z at hz ⊢
  dsimp only
  split
  · exact b
  rename_i hzr
  split
  · exact b
  rename_i hrange
  refine sat_nvmevAssert_bind trivial fun _ => ?_
  split
  · exact b
  obtain ⟨h1, h2⟩ := not_not.mp hrange
  exact flushTo_books h b hz hc (by simpa using hzr) h1 (Nat.le_trans h2 (Nat.min_le_right _ _))

/-- **No action loses a ZRWA resource.** -/
theorem zmgmtSend_books (hc : c.Wf) {s : ZnsFtl τ} (h : ZonesCounted c s.toZoneTable)
    (b : ZrwaBooks c n s.toZoneTable) {slba : Nat} {action : ZoneSendAction} {option : Bool} :
    Sat (fun _ => True) (fun r => ZrwaBooks c n r.2.toZoneTable) (zmgmtSend c slba action option s) := by
  cases action with
  | other => exact b
  | closeZone => exact sat_nvmevAssert_bind trivial fun hz => zmgmtSendCloseZone_books b hz
  | finishZone => exact sat_nvmevAssert_bind trivial fun hz => zmgmtSendFinishZone_books b hc hz
  | openZone => exact sat_nvmevAssert_bind trivial fun hz => zmgmtSendOpenZone_books h b hz hc
  | resetZone => exact sat_nvmevAssert_bind trivial fun hz => zmgmtSendResetZone_books b hc hz
  | offlineZone => exact sat_nvmevAssert_bind trivial fun hz => zmgmtSendOfflineZone_books h b hz
  | flushExplZrwa => exact sat_nvmevAssert_bind trivial fun hz => zmgmtSendFlushExplicitZrwa_books hc h b hz

/-! ## Writes to a zone without ZRWA -/

theorem acquireZoneResource_zrwaAcquired (s : ZnsFtl τ) {r : ZoneResource} (hr : r ≠ .zrwaZone) :
    (acquireZoneResource r s).2.zrwaAcquired = s.zrwaAcquired := by
  unfold ZoneTable.zrwaAcquired
  rw [acquireZoneResource_of_ne s hr.symm]

theorem increaseWritePtr_zrwaAcquired (s : ZnsFtl τ) (z k : Nat) :
    (increaseWritePtr c z k s).zrwaAcquired = s.zrwaAcquired := by
  unfold increaseWritePtr
  dsimp only
  split <;> rfl

theorem openClosed_zrwaAcquired (s : ZnsFtl τ) (z : Nat) : (openClosed z s).2.zrwaAcquired = s.zrwaAcquired := by
  unfold openClosed
  by_cases hf : isZoneResourceAvail s .openZone
  · rw [acquireZoneResource_of_avail hf]
    rfl
  · rw [acquireZoneResource_of_not_avail hf]

theorem openForWrite_zrwaAcquired (s : ZnsFtl τ) (z slba : Nat) :
    (openForWrite z slba s).2.zrwaAcquired = s.zrwaAcquired := by
  unfold openForWrite
  cases (s.zoneDescs z).state with
  | empty =>
      dsimp only
      split
      · rfl
      split
      · rfl
      split
      · rfl
      exact (openClosed_zrwaAcquired _ z).trans (acquireZoneResource_zrwaAcquired s (by decide))
  | closed => exact openClosed_zrwaAcquired s z
  | openedImpl | openedExpl | full | readOnly | offline => rfl

theorem admitWrite_zrwaAcquired (s : ZnsFtl τ) (z slba nrLba : Nat) :
    (admitWrite c z slba nrLba s).2.zrwaAcquired = s.zrwaAcquired := by
  unfold admitWrite
  split
  · rfl
  split
  · rfl
  split
  · rfl
  exact openForWrite_zrwaAcquired s z slba

theorem completeWrite_zrwaAcquired (L : ZnsLatency τ) (nsecsStart z result : Nat) (cmd : NvmeCommand)
    (r : Nat × ZnsFtl τ) : (completeWrite c L nsecsStart z result cmd r).2.zrwaAcquired = r.2.zrwaAcquired := by
  unfold completeWrite
  dsimp only
  split
  · rfl
  · exact increaseWritePtr_zrwaAcquired _ _ _

theorem znsWriteSeq_zrwaAcquired (L : ZnsLatency τ) (req : NvmevRequest) (s : ZnsFtl τ) :
    Sat (fun _ => True) (fun r => r.2.zrwaAcquired = s.zrwaAcquired) (znsWriteSeq c L req s) := by
  unfold znsWriteSeq
  refine sat_nvmevAssert_bind trivial fun _ => sat_bind_any fun g => ?_
  have htable : ∀ id b, (s.setBuf id b).zrwaAcquired = s.zrwaAcquired := by
    intro id b
    rw [ZnsFtl.setBuf_toZoneTable]
  dsimp only
  split
  · exact htable _ _
  · exact (completeWrite_zrwaAcquired L _ _ _ _ _).trans ((admitWrite_zrwaAcquired _ _ _ _).trans (htable _ _))

/-- A write to a zone without ZRWA is not seen in the books. -/
theorem znsWriteSeq_books (hc : c.Wf) (L : ZnsLatency τ) (req : NvmevRequest) {s : ZnsFtl τ}
    (h : ZonesCounted c s.toZoneTable) (b : ZrwaBooks c n s.toZoneTable)
    (hzr : (s.zoneDescs (lbaToZone c req.cmd.slba.toNat)).zrwav = false) :
    Sat (fun _ => True) (fun r => ZrwaBooks c n r.2.toZoneTable) (znsWriteSeq c L req s) := by
  refine ((znsWriteSeq_outcome hc L req h hzr).and (znsWriteSeq_zrwaAcquired L req s)).mono ?_
  rintro r ⟨⟨hz, hout⟩, hacq⟩
  generalize lbaToZone c req.cmd.slba.toNat = z at hz hout hzr
  have hweight : ∀ d : ZoneDescriptor, d.zrwav = false → ¬ d.HoldsZrwa := by
    intro d hd hh
    exact absurd (hd.symm.trans hh.2) (by decide)
  -- only zone `z` moves, and it stays without ZRWA
  obtain ⟨hdescs, hflag⟩ := hout.moves.keeps
    (I := fun s' => s'.zoneDescs = Function.update s.zoneDescs z (s'.zoneDescs z) ∧ (s'.zoneDescs z).zrwav = false)
    ⟨(Function.update_eq_self z _).symm, hzr⟩ (by
      rintro s1 s2 y k d ⟨rfl, rfl⟩ hm ⟨hd, hf⟩
      rw [hm.descs, Function.update_self]
      refine ⟨by rw [hd, Function.update_idem], ?_⟩
      rcases hm.trans.zrwav with hkeep | ⟨hk, -⟩ | ⟨hk, -⟩
      · exact hkeep.trans hf
      · cases hk
      · cases hk)
  refine b.step_kept hz ⟨hdescs, ?_, ?_, fun hh => absurd hh (hweight _ hflag)⟩
  · unfold ZoneDescriptor.zrwaWeight
    rw [if_neg (hweight _ hzr), if_neg (hweight _ hflag), hacq]
  · rw [hacq]
    exact b.le

/-! ## Writes to a zone with ZRWA -/

/-- The zone is in a state in which `__zns_write_zrwa` takes a write. -/
def ZrwaWritable (s : ZnsFtl τ) (z : Nat) : Prop :=
  (s.zoneDescs z).state.Opened ∨ (s.zoneDescs z).state = .closed ∧ isZoneResourceAvail s .openZone

instance (s : ZnsFtl τ) (z : Nat) : Decidable (ZrwaWritable s z) := inferInstanceAs (Decidable (_ ∨ _ ∧ _))

theorem ZrwaWritable.active {s : ZnsFtl τ} {z : Nat} (h : ZrwaWritable s z) : (s.zoneDescs z).state.Active :=
  h.imp id And.left

/-- What a write takes from the ZRWA buffer when it opens the zone. -/
def zrwaCharge (c : ZnsConfig) (s : ZnsFtl τ) (z : Nat) : Nat :=
  if (s.zoneDescs z).state = .closed then c.zp.zrwaSize else 0

/-- **A write that fills a zone with ZRWA**: one that passes the checks, ends at the last block of the zone less
    than a ZRWA behind the write pointer, and finds room in the ZRWA buffer for all that is not flushed yet. -/
structure FillsZrwa (c : ZnsConfig) (s : ZnsFtl τ) (z slba nrLba : Nat) : Prop where
  zrwa : (s.zoneDescs z).zrwav = true
  unit : lbaToByte nrLba % c.sp.writeUnitSize = 0
  one_zone : checkBoundaryError c slba nrLba
  behind_wp : (s.zoneDescs z).wp ≤ slba
  at_end : u64 (slba + nrLba - 1) = zoneToElba c z
  near : u64 (slba + nrLba - 1) < (s.zoneDescs z).wp + c.zp.lbasPerZrwa
  writable : ZrwaWritable s z
  buffer : zrwaCharge c s z + lbaToByte (u64 (slba + nrLba - 1) + 1 - (s.zoneDescs z).wp) ≤
    (s.zrwaBuffer z).remaining

instance (c : ZnsConfig) (s : ZnsFtl τ) (z slba nrLba : Nat) : Decidable (FillsZrwa c s z slba nrLba) :=
  decidable_of_iff ((s.zoneDescs z).zrwav = true ∧ lbaToByte nrLba % c.sp.writeUnitSize = 0 ∧
      checkBoundaryError c slba nrLba ∧ (s.zoneDescs z).wp ≤ slba ∧ u64 (slba + nrLba - 1) = zoneToElba c z ∧
      u64 (slba + nrLba - 1) < (s.zoneDescs z).wp + c.zp.lbasPerZrwa ∧ ZrwaWritable s z ∧
      zrwaCharge c s z + lbaToByte (u64 (slba + nrLba - 1) + 1 - (s.zoneDescs z).wp) ≤ (s.zrwaBuffer z).remaining)
    ⟨fun ⟨h1, h2, h3, h4, h5, h6, h7, h8⟩ => ⟨h1, h2, h3, h4, h5, h6, h7, h8⟩,
      fun ⟨h1, h2, h3, h4, h5, h6, h7, h8⟩ => ⟨h1, h2, h3, h4, h5, h6, h7, h8⟩⟩

/-- What an allocation from the ZRWA buffer says. -/
theorem zrwaAllocate_spec (s : ZnsFtl τ) (z k : Nat) :
    Sat (fun _ => True)
      (fun r => r.2.toZoneTable = s.toZoneTable ∧
        (r.1 ≠ 0 → k + (r.2.zrwaBuffer z).remaining = (s.zrwaBuffer z).remaining) ∧
        (r.1 = 0 → 0 < k → k < 2 ^ 32 → (s.zrwaBuffer z).remaining < k))
      (zrwaAllocate c z k s) := by
  unfold zrwaAllocate bufferAllocate
  refine sat_nvmevAssert_bind trivial fun _ => ?_
  by_cases hk : k ≤ (s.zrwaBuffer z).size
  swap
  · simp only [nvmevAssert, if_neg hk, error_bind]
    trivial
  by_cases hshort : (s.zrwaBuffer z).remaining < k
  · simp only [nvmevAssert_of hk, ok_bind, pure_eq_ok, if_pos hshort, sat_ok]
    exact ⟨ZnsFtl.setBuf_toZoneTable _ _ _, fun hne => absurd rfl hne, fun _ _ _ => hshort⟩
  · simp only [nvmevAssert_of hk, ok_bind, pure_eq_ok, if_neg hshort, sat_ok]
    refine ⟨ZnsFtl.setBuf_toZoneTable _ _ _, fun _ => ?_, fun h0 hpos hlt => ?_⟩
    · simp only [ZnsFtl.setBuf, Function.update_self]
      omega
    · rw [u32_of_lt hlt] at h0
      omega

/-- **The switch over the zone state in `__zns_write_zrwa`**: success on a writable zone, and what it charged. -/
theorem openForZrwa_granted {s : ZnsFtl τ} {z : Nat} (hne : (s.zoneDescs z).state ≠ .empty) :
    Sat (fun _ => True)
      (fun r => (r.1 = scSuccess ↔ ZrwaWritable s z) ∧ r.2.zrwaAcquired = s.zrwaAcquired ∧
        (r.1 = scSuccess → zrwaCharge c s z + (r.2.zrwaBuffer z).remaining = (s.zrwaBuffer z).remaining))
      (openForZrwa c z s) := by
  have hopened : (s.zoneDescs z).state.Opened → zrwaCharge c s z = 0 := by
    intro ho
    refine if_neg fun hcl => ?_
    rcases ho with ho | ho <;> exact absurd (hcl.symm.trans ho) (by decide)
  unfold openForZrwa
  cases hd : (s.zoneDescs z).state with
  | empty => exact absurd hd hne
  | closed =>
      dsimp only
      have hcharge : zrwaCharge c s z = c.zp.zrwaSize := if_pos hd
      by_cases hf : isZoneResourceAvail s .openZone
      · rw [acquireZoneResource_of_avail hf]
        refine (zrwaAllocate_spec _ z _).bind fun r hr => sat_nvmevAssert_bind trivial fun hg => ?_
        refine ⟨iff_of_true rfl (Or.inr ⟨hd, hf⟩), ?_, fun _ => ?_⟩
        · show r.2.toZoneTable.zrwaAcquired = s.zrwaAcquired
          rw [hr.1]
          rfl
        · rw [hcharge]
          exact hr.2.1 hg
      · rw [acquireZoneResource_of_not_avail hf]
        refine ⟨iff_of_false (by dsimp only; decide) ?_, rfl, fun he => absurd he (by dsimp only; decide)⟩
        rintro (ho | ⟨-, hav⟩)
        · rcases ho with ho | ho <;> exact absurd (hd.symm.trans ho) (by decide)
        · exact hf hav
  | openedImpl =>
      have ho : (s.zoneDescs z).state.Opened := Or.inl hd
      exact ⟨iff_of_true rfl (Or.inl ho), rfl, fun _ => by rw [hopened ho, Nat.zero_add]⟩
  | openedExpl =>
      have ho : (s.zoneDescs z).state.Opened := Or.inr hd
      exact ⟨iff_of_true rfl (Or.inl ho), rfl, fun _ => by rw [hopened ho, Nat.zero_add]⟩
  | full =>
      exact ⟨iff_of_false (by dsimp only; decide) (fun hw => hw.active.alive.2.2.2 hd), rfl,
        fun he => absurd he (by dsimp only; decide)⟩
  | readOnly =>
      exact ⟨iff_of_false (by dsimp only; decide) (fun hw => hw.active.alive.1 hd), rfl,
        fun he => absurd he (by dsimp only; decide)⟩
  | offline =>
      exact ⟨iff_of_false (by dsimp only; decide) (fun hw => hw.active.alive.2.1 hd), rfl,
        fun he => absurd he (by dsimp only; decide)⟩

/-- **The verdict on a write with ZRWA.** -/
theorem admitZrwa_granted {s : ZnsFtl τ} {z slba nrLba elba implEnd : Nat} (hne : (s.zoneDescs z).state ≠ .empty) :
    Sat (fun _ => True)
      (fun r => (r.1 = scSuccess ↔ lbaToByte nrLba % c.sp.writeUnitSize = 0 ∧ checkBoundaryError c slba nrLba ∧
          (s.zoneDescs z).wp ≤ slba ∧ elba ≤ implEnd ∧ ZrwaWritable s z) ∧
        r.2.zrwaAcquired = s.zrwaAcquired ∧
        (r.1 = scSuccess → zrwaCharge c s z + (r.2.zrwaBuffer z).remaining = (s.zrwaBuffer z).remaining))
      (admitZrwa c z slba nrLba elba implEnd s) := by
  unfold admitZrwa
  split
  · rename_i hu
    exact ⟨iff_of_false (by dsimp only; decide) fun hw => hu hw.1, rfl, fun he => absurd he (by dsimp only; decide)⟩
  split
  · rename_i hb
    exact ⟨iff_of_false (by dsimp only; decide) fun hw => hb hw.2.1, rfl, fun he => absurd he (by dsimp only; decide)⟩
  split
  · rename_i hrange
    refine ⟨iff_of_false (by dsimp only; decide) ?_, rfl, fun he => absurd he (by dsimp only; decide)⟩
    rintro ⟨-, -, h1, h2, -⟩
    omega
  rename_i hu hb hrange
  refine (openForZrwa_granted hne).mono fun r hr => ⟨?_, hr.2⟩
  rw [hr.1]
  refine ⟨fun hw => ⟨not_not.mp hu, not_not.mp hb, ?_, ?_, hw⟩, fun hw => hw.2.2.2.2⟩
  · omega
  · omega

section Flush

variable {s : ZnsFtl τ} {z : Nat} (b : ZrwaBooks c n s.toZoneTable) (hz : z < c.zp.nrZones)
  (ho : (s.zoneDescs z).state.Opened) {k : Nat}
include b hz

include ho

/-- A flush that stays in the zone. -/
theorem zrwaFlush_inside (hc : c.Wf) (hcap : (s.zoneDescs z).zoneCapacity = c.zoneLbas)
    (hin : 0 < k → z * c.zoneLbas ≤ u64 ((s.zoneDescs z).wp + u32 k) ∧
      u64 ((s.zoneDescs z).wp + u32 k) < (z + 1) * c.zoneLbas) :
    Sat (fun _ => True) (fun r => ZrwaBooks c n r.2.toZoneTable) (zrwaFlush c z k s) := by
  unfold zrwaFlush
  split
  · rename_i hk
    obtain ⟨h1, h2⟩ := hin hk
    have hne : u64 ((s.zoneDescs z).wp + u32 k) ≠ zoneToSlba c z + (s.zoneDescs z).zoneCapacity := by
      have hslba := ZnsConfig.Wf.zoneToSlba_cases (c := c) z
      have hzl := hc.zoneLbas_lt
      rw [Nat.succ_mul] at h2
      rw [hcap]
      omega
    refine (zrwaAllocate_table s z _).bind fun r hr => ?_
    dsimp only
    split
    · show ZrwaBooks c n r.2.toZoneTable
      rw [hr]
      exact b
    · show ZrwaBooks c n (increaseWritePtr c z (u32 k) r.2).toZoneTable
      have hdescs := increaseWritePtr_zoneDescs (c := c) r.2 z (u32 k)
      have hacq := increaseWritePtr_zrwaAcquired (c := c) r.2 z (u32 k)
      rw [hr, ZoneDescriptor.advanced, if_neg hne] at hdescs
      rw [hr] at hacq
      have ha : (s.zoneDescs z).state.Active := Or.inl ho
      exact b.step hz (b.stays_active (d := { s.zoneDescs z with wp := u64 ((s.zoneDescs z).wp + u32 k) }) ha ha rfl
        (fun _ => ⟨h1, h2⟩) hdescs hacq)
  · exact b

/-- **A flush to the end of the zone** loses the resource, if the buffer has room for it. -/
theorem zrwaFlush_fills (hk : 0 < k) (hlt : lbaToByte k < 2 ^ 32) (hzr : (s.zoneDescs z).zrwav = true)
    (hend : u64 ((s.zoneDescs z).wp + u32 k) = zoneToSlba c z + (s.zoneDescs z).zoneCapacity) :
    Sat (fun _ => True)
      (fun r => ZrwaBooks c (n + if lbaToByte k ≤ (s.zrwaBuffer z).remaining then 1 else 0) r.2.toZoneTable)
      (zrwaFlush c z k s) := by
  have hbytes : 0 < lbaToByte k := Nat.mul_pos hk (by decide)
  rw [zrwaFlush, if_pos hk]
  refine (zrwaAllocate_spec s z _).bind ?_
  rintro ⟨granted, s1⟩ ⟨htable, hgrant, hshort⟩
  dsimp only at htable hgrant hshort ⊢
  by_cases h0 : granted = 0
  · rw [if_pos h0, if_neg (Nat.not_le.mpr (hshort h0 hbytes hlt))]
    show ZrwaBooks c (n + 0) s1.toZoneTable
    rw [htable]
    exact b
  · rw [if_neg h0, if_pos (by have := hgrant h0; omega)]
    show ZrwaBooks c (n + 1) (increaseWritePtr c z (u32 k) s1).toZoneTable
    have hdescs := increaseWritePtr_zoneDescs (c := c) s1 z (u32 k)
    have hacq := increaseWritePtr_zrwaAcquired (c := c) s1 z (u32 k)
    rw [htable, ZoneDescriptor.advanced, if_pos hend] at hdescs
    rw [htable] at hacq
    refine b.step hz ⟨hdescs, ?_, ?_, zrwaRoom_of_idle (Or.inr rfl)⟩
    · rw [hacq, zrwaWeight_of_active (Or.inl ho), zrwaWeight_of_idle (Or.inr rfl), if_pos hzr]
    · rw [hacq]
      exact b.le

/-- **How far a write flushes.** An implicit flush stays behind the last block written. -/
theorem zrwaFlushLbas_books (hc : c.Wf) (hfg : 0 < c.zp.lbasPerZrwafg) (hle : c.zp.lbasPerZrwafg ≤ c.zp.lbasPerZrwa)
    (hcap : (s.zoneDescs z).zoneCapacity = c.zoneLbas) (hzr : (s.zoneDescs z).zrwav = true) {elba : Nat}
    (hzone : lbaToZone c elba = z) (hend : elba ≤ (s.zoneDescs z).wp + 2 * c.zp.lbasPerZrwa - 1) :
    Sat (fun _ => True)
      (fun k => Sat (fun _ => True)
        (fun r => ZrwaBooks c (n + if elba = zoneToElba c z ∧ elba < (s.zoneDescs z).wp + c.zp.lbasPerZrwa ∧
          lbaToByte (elba + 1 - (s.zoneDescs z).wp) ≤ (s.zrwaBuffer z).remaining then 1 else 0) r.2.toZoneTable)
        (zrwaFlush c z k s))
      (zrwaFlushLbas c z (s.zoneDescs z).wp elba (u64 ((s.zoneDescs z).wp + c.zp.lbasPerZrwa))) := by
  obtain ⟨h1, h2⟩ := b.room z hz ⟨Or.inl ho, hzr⟩
  have hlt := hc.zslba_lt hz
  have hzl := hc.zoneLbas_lt
  have hpos := hc.zoneLbas_pos
  have hzrwa := hc.lbasPerZrwa_lt
  have hmul : (z + 1) * c.zoneLbas = z * c.zoneLbas + c.zoneLbas := Nat.succ_mul _ _
  obtain ⟨he1, he2⟩ := hc.lbaToZone_range_near (z := z) (by rw [Nat.add_mul]; omega) hzone
  rw [u64_of_lt (by omega), zrwaFlushLbas]
  by_cases himpl : (s.zoneDescs z).wp + c.zp.lbasPerZrwa ≤ elba
  · rw [if_pos himpl, if_neg (by omega)]
    refine sat_nvmevAssert_bind trivial fun _ => ?_
    refine zrwaFlush_inside b hz ho hc hcap fun _ => ?_
    have hround := divRoundUp_mul_le (elba - ((s.zoneDescs z).wp + c.zp.lbasPerZrwa) + 1) c.zp.lbasPerZrwafg
    generalize divRoundUp _ c.zp.lbasPerZrwafg * c.zp.lbasPerZrwafg = k at hround ⊢
    rw [u32_of_lt (by omega), u64_of_lt (by omega)]
    omega
  · rw [if_neg himpl]
    by_cases helba : elba = zoneToElba c z
    · rw [if_pos helba]
      rw [helba] at he1 he2
      obtain ⟨hlast, hslba⟩ := hc.zoneToElba_of_in_zone hz he1 he2
      have hk : u64 (elba + 2 ^ 64 - (s.zoneDescs z).wp + 1) = elba + 1 - (s.zoneDescs z).wp := by
        unfold u64
        omega
      rw [hk]
      have hbytes : lbaToByte (elba + 1 - (s.zoneDescs z).wp) < 2 ^ 32 := by
        unfold lbaToByte
        omega
      refine (zrwaFlush_fills b hz ho (by omega) hbytes hzr ?_).mono fun r hr => ?_
      · rw [u32_of_lt (by omega), u64_of_lt (by omega), hslba, hcap]
        omega
      · have hcond : (elba = zoneToElba c z ∧ elba < (s.zoneDescs z).wp + c.zp.lbasPerZrwa ∧
            lbaToByte (elba + 1 - (s.zoneDescs z).wp) ≤ (s.zrwaBuffer z).remaining) =
            (lbaToByte (elba + 1 - (s.zoneDescs z).wp) ≤ (s.zrwaBuffer z).remaining) := by
          simp only [helba, true_and, eq_iff_iff, and_iff_right_iff_imp]
          omega
        simp only [hcond]
        exact hr
    · rw [if_neg helba, if_neg fun hf => helba hf.1]
      exact zrwaFlush_inside b hz ho hc hcap fun h0 => absurd h0 (Nat.lt_irrefl 0)

end Flush

/-- **`__zns_write_zrwa` loses a resource exactly when it fills its zone.** -/
theorem znsWriteZrwa_books (hc : c.Wf) (hfg : 0 < c.zp.lbasPerZrwafg) (hle : c.zp.lbasPerZrwafg ≤ c.zp.lbasPerZrwa)
    (L : ZnsLatency τ) (req : NvmevRequest) {s : ZnsFtl τ} (h : ZonesCounted c s.toZoneTable)
    (b : ZrwaBooks c n s.toZoneTable) {z : Nat} (hzid : lbaToZone c req.cmd.slba.toNat = z)
    (hzr : (s.zoneDescs z).zrwav = true) :
    Sat (fun _ => True)
      (fun r => ZrwaBooks c (n + if FillsZrwa c s z req.cmd.slba.toNat req.cmd.nrLba then 1 else 0) r.2.toZoneTable)
      (znsWriteZrwa c L req s) := by
  unfold znsWriteZrwa
  dsimp only
  rw [hzid]
  refine sat_nvmevAssert_bind trivial fun hz => ?_
  have hne : (s.zoneDescs z).state ≠ .empty := by
    intro hd
    exact absurd (hzr.symm.trans (h.empty z hz hd).2) (by decide)
  refine ((admitZrwa_spec h hz hzr).and (admitZrwa_granted hne)).bind ?_
  rintro ⟨status, s1⟩ ⟨⟨hadm, -⟩, hiff, hacq, hcharge⟩
  dsimp only at hadm hiff hacq hcharge ⊢
  have hzrwa := hc.lbasPerZrwa_lt
  have hlt := hc.zslba_lt hz
  have hzl := hc.zoneLbas_lt
  -- the end of the window, once the zone is known to hold ZRWA
  have himplEnd : (s.zoneDescs z).state.Active →
      u64 ((s.zoneDescs z).wp + u32 (2 * c.zp.lbasPerZrwa) + (2 ^ 64 - 1)) =
        (s.zoneDescs z).wp + 2 * c.zp.lbasPerZrwa - 1 := by
    intro ha
    obtain ⟨-, h2⟩ := b.room z hz ⟨ha, hzr⟩
    rw [Nat.succ_mul] at h2
    rw [u32_of_lt (by omega), u64]
    omega
  by_cases hs : status = scSuccess
  · rw [if_neg (not_not.mpr hs)]
    obtain ⟨hu, hb, hwp, hend, hw⟩ := hiff.mp hs
    rcases hadm with ⟨hno, -⟩ | ⟨-, st, hst, hmove⟩
    · exact absurd hs hno
    have hd1 : s1.zoneDescs z = { s.zoneDescs z with state := st } := by
      rw [hmove.descs, Function.update_self]
    have hwp1 : (s1.zoneDescs z).wp = (s.zoneDescs z).wp := by rw [hd1]
    have hzone : lbaToZone c (u64 (req.cmd.slba.toNat + req.cmd.nrLba - 1)) = z := by
      rw [← hzid]
      exact hb.symm
    rw [himplEnd hw.active, ← hwp1] at hend
    have hflush := zrwaFlushLbas_books (b.changes_state hz hw.active (Or.inl hst) hmove.descs hacq) hz
      (by rw [hd1]; exact hst) hc hfg hle (by rw [hd1]; exact h.cap z hz) (by rw [hd1]; exact hzr) hzone hend
    rw [hwp1] at hflush
    refine hflush.bind fun k hk => hk.bind fun r hr => ?_
    have hcond : FillsZrwa c s z req.cmd.slba.toNat req.cmd.nrLba ↔
        u64 (req.cmd.slba.toNat + req.cmd.nrLba - 1) = zoneToElba c z ∧
          u64 (req.cmd.slba.toNat + req.cmd.nrLba - 1) < (s.zoneDescs z).wp + c.zp.lbasPerZrwa ∧
          lbaToByte (u64 (req.cmd.slba.toNat + req.cmd.nrLba - 1) + 1 - (s.zoneDescs z).wp) ≤
            (s1.zrwaBuffer z).remaining := by
      have hrem := hcharge hs
      refine ⟨fun hf => ⟨hf.at_end, hf.near, ?_⟩, fun hf => ⟨hzr, hu, hb, hwp, hf.1, hf.2.1, hw, ?_⟩⟩
      · have := hf.buffer
        omega
      · have := hf.2.2
        omega
    simp only [← hcond] at hr
    obtain ⟨flushed, s2⟩ := r
    cases flushed <;> exact hr
  · rw [if_pos hs]
    rcases hadm with ⟨-, htable⟩ | ⟨hok, -⟩
    swap
    · exact absurd hok hs
    have hno : ¬ FillsZrwa c s z req.cmd.slba.toNat req.cmd.nrLba := by
      intro hf
      refine hs (hiff.mpr ⟨hf.unit, hf.one_zone, hf.behind_wp, ?_, hf.writable⟩)
      rw [himplEnd hf.writable.active]
      have := hf.near
      omega
    rw [if_neg hno]
    show ZrwaBooks c (n + 0) s1.toZoneTable
    rw [htable]
    exact b

/-! ## Whole runs -/

/-- The command is a write that fills a zone with ZRWA. -/
def NvmeCommand.FillsZone (c : ZnsConfig) (s : ZnsFtl τ) (cmd : NvmeCommand) : Prop :=
  (cmd.opcode = .write ∨ cmd.opcode = .zoneAppend) ∧
    FillsZrwa c s (lbaToZone c cmd.slba.toNat) cmd.slba.toNat cmd.nrLba

instance (c : ZnsConfig) (s : ZnsFtl τ) (cmd : NvmeCommand) : Decidable (cmd.FillsZone c s) :=
  inferInstanceAs (Decidable (_ ∧ _))

/-- The loop over all zones loses nothing. -/
theorem zmgmtSendAll_books (hc : c.Wf) {s : ZnsFtl τ} (h : ZonesCounted c s.toZoneTable)
    (b : ZrwaBooks c n s.toZoneTable) (action : ZoneSendAction) (option : Bool) :
    Sat (fun _ => True) (fun s' => ZrwaBooks c n s'.toZoneTable) (zmgmtSendAll c action option s) := by
  unfold zmgmtSendAll
  refine (sat_foldlM_const (I := fun s' : ZnsFtl τ => ZonesCounted c s'.toZoneTable ∧ ZrwaBooks c n s'.toZoneTable) _
    ?_ ⟨h, b⟩).mono fun _ hs => hs.2
  rintro z - s1 ⟨h1, b1⟩
  have hmanaged : Sat (fun _ => True) (fun r => Managed c (fun _ _ => True) s1 r.2)
      (zmgmtSend c (zoneToSlba c z) action option s1) :=
    zmgmtSend_managed hc h1 (zoneToSlba_lt z) fun _ _ => trivial
  exact (hmanaged.and (zmgmtSend_books hc h1 b1)).bind fun r hr => ⟨h1.moves hr.1.1, hr.2⟩

/-- **Every command**: one resource is lost by a write that fills a zone, none by anything else. -/
theorem znsProcNvmeIoCmd_books (hc : c.Wf) (hfg : 0 < c.zp.lbasPerZrwafg)
    (hle : c.zp.lbasPerZrwafg ≤ c.zp.lbasPerZrwa) (L : ZnsLatency τ) (req : NvmevRequest) {s : ZnsFtl τ}
    (h : ZonesCounted c s.toZoneTable) (b : ZrwaBooks c n s.toZoneTable) :
    Sat (fun _ => True) (fun r => ZrwaBooks c (n + if req.cmd.FillsZone c s then 1 else 0) r.2.toZoneTable)
      (znsProcNvmeIoCmd c L req s) := by
  have hwrite : req.cmd.opcode = .write ∨ req.cmd.opcode = .zoneAppend →
      Sat (fun _ => True) (fun r => ZrwaBooks c (n + if req.cmd.FillsZone c s then 1 else 0) r.2.toZoneTable)
        (znsWrite c L req s) := by
    intro hop
    have hfills : req.cmd.FillsZone c s ↔
        FillsZrwa c s (lbaToZone c req.cmd.slba.toNat) req.cmd.slba.toNat req.cmd.nrLba := and_iff_right hop
    simp only [hfills]
    rw [znsWrite_eq hc]
    refine sat_nvmevAssert_bind trivial fun _ => ?_
    by_cases hzr : (s.zoneDescs (lbaToZone c req.cmd.slba.toNat)).zrwav = false
    · rw [if_pos hzr, if_neg fun hf => absurd (hzr.symm.trans hf.zrwa) (by decide)]
      exact znsWriteSeq_books hc L req h b hzr
    · rw [if_neg hzr]
      exact znsWriteZrwa_books hc hfg hle L req h b rfl (by simpa using hzr)
  have hother : ¬ (req.cmd.opcode = .write ∨ req.cmd.opcode = .zoneAppend) →
      (n + if req.cmd.FillsZone c s then 1 else 0) = n := by
    intro hop
    rw [if_neg fun hf => hop hf.1]
    rfl
  unfold znsProcNvmeIoCmd
  cases hop : req.cmd.opcode with
  | write => exact hwrite (Or.inl hop)
  | zoneAppend => exact hwrite (Or.inr hop)
  | read =>
      rw [hother (by simp [hop])]
      exact sat_nvmevAssert_bind trivial fun _ => b
  | zoneMgmtSend =>
      rw [hother (by simp [hop])]
      dsimp only
      unfold znsZmgmtSend
      dsimp only
      split
      · exact (zmgmtSendAll_books hc h b _ _).bind fun _ hs => hs
      · exact (zmgmtSend_books hc h b).bind fun _ hs => hs
  | flush | zoneMgmtRecv | other =>
      rw [hother (by simp [hop])]
      exact b

/-- The action dispatches a write that fills a zone with ZRWA. -/
def FillsZrwaZone (c : ZnsConfig) (s : ZnsSys τ) : ZnsAct → Prop
  | .dispatch slot _ _ => (s.slots slot).FillsZone c s.ftl
  | .submit _ _ | .copy _ | .release _ => False

instance (c : ZnsConfig) (s : ZnsSys τ) : (a : ZnsAct) → Decidable (FillsZrwaZone c s a)
  | .dispatch slot _ _ => inferInstanceAs (Decidable ((s.slots slot).FillsZone c s.ftl))
  | .submit _ _ | .copy _ | .release _ => inferInstanceAs (Decidable False)

variable {L : ZnsLatency τ}

/-- **One action.** -/
theorem ZnsSys.act_books (hc : c.Wf) (hfg : 0 < c.zp.lbasPerZrwafg) (hle : c.zp.lbasPerZrwafg ≤ c.zp.lbasPerZrwa)
    {s s' : ZnsSys τ} {a : ZnsAct} (h : ZonesCounted c s.ftl.toZoneTable) (b : ZrwaBooks c n s.ftl.toZoneTable)
    (hact : s.act c L a = .ok s') : ZrwaBooks c (n + if FillsZrwaZone c s a then 1 else 0) s'.ftl.toZoneTable := by
  cases a with
  | submit slot cmd =>
      cases hact
      exact b
  | dispatch slot sqId now =>
      have hbooks : Sat (fun _ => True)
          (fun s' : ZnsSys τ => ZrwaBooks c (n + if (s.slots slot).FillsZone c s.ftl then 1 else 0) s'.ftl.toZoneTable)
          (s.act c L (.dispatch slot sqId now)) :=
        (znsProcNvmeIoCmd_books hc hfg hle L ⟨s.slots slot, sqId, now⟩ h b).bind fun _ hr => hr
      exact hbooks.of_eq_ok hact
  | copy i =>
      unfold ZnsSys.act at hact
      dsimp only at hact
      split at hact <;> cases hact <;> exact b
  | release i =>
      unfold ZnsSys.act at hact
      dsimp only at hact
      split at hact <;> cases hact
      · exact b
      · show ZrwaBooks c (n + 0) (ZnsFtl.setBuf _ _ _).toZoneTable
        rw [ZnsFtl.setBuf_toZoneTable]
        exact b

theorem zrwaBooks_init (c : ZnsConfig) (tm : τ) : ZrwaBooks c 0 (znsInitFtl c tm).toZoneTable where
  count := (countBelow_eq_zero fun _ _ hh => absurd hh.2 (by simp [znsInitFtl])).symm
  le := Nat.zero_le _
  room := fun _ _ hh => absurd hh.2 (by simp [znsInitFtl])

/-- While no write fills a zone, nothing is lost. -/
theorem ZnsRun.zrwaBooks (hc : c.Wf) (hfg : 0 < c.zp.lbasPerZrwafg) (hle : c.zp.lbasPerZrwafg ≤ c.zp.lbasPerZrwa)
    {s : ZnsSys τ} (hr : ZnsRun c L (fun s a => ¬ FillsZrwaZone c s a) s) : ZrwaBooks c 0 s.ftl.toZoneTable := by
  induction hr with
  | boot tm slots => exact zrwaBooks_init c tm
  | step hr hg hact ih =>
      have hstep := ZnsSys.act_books hc hfg hle (hr.counted hc) ih hact
      rw [if_neg hg] at hstep
      exact hstep

/-- **ZRWA accounting.** As long as no write fills a zone with ZRWA, the counter is the number of opened or closed
    zones with ZRWA; and after the next action, whatever it is, it is so again exactly if that action is no such
    write. -/
theorem zrwa_accounting_iff (hc : c.Wf) (hfg : 0 < c.zp.lbasPerZrwafg) (hle : c.zp.lbasPerZrwafg ≤ c.zp.lbasPerZrwa)
    {s : ZnsSys τ} (hr : ZnsRun c L (fun s a => ¬ FillsZrwaZone c s a) s) :
    (s.ftl.resInfos .zrwaZone).acquiredCnt = countBelow
        (fun d => ((d.state = .openedImpl ∨ d.state = .openedExpl) ∨ d.state = .closed) ∧ d.zrwav = true)
        s.ftl.zoneDescs c.zp.nrZones ∧
      (s.ftl.resInfos .zrwaZone).acquiredCnt ≤ c.zp.nrZones ∧
      ∀ a s', s.act c L a = .ok s' →
        ((s'.ftl.resInfos .zrwaZone).acquiredCnt = countBelow
            (fun d => ((d.state = .openedImpl ∨ d.state = .openedExpl) ∨ d.state = .closed) ∧ d.zrwav = true)
            s'.ftl.zoneDescs c.zp.nrZones ↔
          ¬ FillsZrwaZone c s a) := by
  have b := hr.zrwaBooks hc hfg hle
  refine ⟨b.count, b.le, fun a s' hact => ?_⟩
  have hcount : s'.ftl.zrwaAcquired = s'.ftl.zrwaHolders c + (0 + if FillsZrwaZone c s a then 1 else 0) :=
    (ZnsSys.act_books hc hfg hle (hr.counted hc) b hact).count
  show s'.ftl.zrwaAcquired = s'.ftl.zrwaHolders c ↔ ¬ FillsZrwaZone c s a
  by_cases hf : FillsZrwaZone c s a
  · rw [if_pos hf] at hcount
    exact iff_of_false (by omega) (not_not.mpr hf)
  · rw [if_neg hf] at hcount
    exact iff_of_true (by omega) hf

/-- `ZNS_PROTOTYPE` with a ZRWA of 4 MiB and a flush granularity of 128 KiB. -/
def znsPrototypeZrwa : ZnsTarget :=
  { znsPrototype with
    zrwafgSize := 128 * 2 ^ 10
    zrwaSize := 4 * 2 ^ 20
    zrwaBufferSize := 8 * 2 ^ 20 }

/-- Two zones of 65536 blocks. -/
def zrwaSmall : ZnsConfig := znsInitParams znsPrototypeZrwa (64 * 2 ^ 20) 0

theorem znsPrototypeZrwa_wf : (znsInitParams znsPrototypeZrwa 0 0).Wf := by constructor <;> decide

/-- A zone opened with ZRWA and written. -/
theorem zrwa_accounting_open_zone :
    ∃ s : ZnsSys Unit, (s.ftl.zoneDescs 0).state = .openedExpl ∧ (s.ftl.resInfos .zrwaZone).acquiredCnt = 1 ∧
      (s.ftl.resInfos .zrwaZone).acquiredCnt = countBelow
        (fun d => ((d.state = .openedImpl ∨ d.state = .openedExpl) ∨ d.state = .closed) ∧ d.zrwav = true)
        s.ftl.zoneDescs 2 := by
  obtain ⟨s, hrun, hobs⟩ := exists_znsRun zrwaSmall (fun s a => !decide (FillsZrwaZone zrwaSmall s a))
    (sendActs 0 (mgmtCmd 0 0x203) ++ sendActs 0 (znsCmd .write 0 256))
    (fun s => ((s.ftl.zoneDescs 0).state, (s.ftl.resInfos .zrwaZone).acquiredCnt)) (.openedExpl, 1)
    (by decide +kernel)
  obtain ⟨h0, h1⟩ := Prod.mk.inj hobs
  have hr : ZnsRun zrwaSmall .instant (fun s a => ¬ FillsZrwaZone zrwaSmall s a) s :=
    hrun.mono fun _ _ hg => by simpa using hg
  exact ⟨s, h0, h1, (zrwa_accounting_iff (znsPrototypeZrwa_wf.any_size _ _) (by decide) (by decide) hr).1⟩

/-- **A lost resource.** A zone opened with ZRWA, flushed up to a ZRWA before its end, and a write of its last
    256 blocks: the zone is FULL, no zone is open, and the counter is still 1. -/
theorem zrwa_resource_lost :
    ∃ s : ZnsSys Unit, ZnsRun zrwaSmall .instant (fun _ _ => True) s ∧
      (s.ftl.zoneDescs 0).state = .full ∧ (s.ftl.resInfos .zrwaZone).acquiredCnt = 1 ∧
      (s.ftl.resInfos .zrwaZone).acquiredCnt ≠ countBelow
        (fun d => ((d.state = .openedImpl ∨ d.state = .openedExpl) ∨ d.state = .closed) ∧ d.zrwav = true)
        s.ftl.zoneDescs 2 := by
  obtain ⟨s, hrun, hobs⟩ := exists_znsRun zrwaSmall (fun _ _ => true)
    (sendActs 0 (mgmtCmd 0 0x203) ++
      ((List.range 7).map fun i => sendActs 0 (mgmtCmd (UInt64.ofNat (8192 * (i + 1) - 1)) 0x11)).flatten ++
      sendActs 0 (znsCmd .write 65280 256))
    (fun s => ((s.ftl.zoneDescs 0).state, (s.ftl.zoneDescs 1).state, (s.ftl.resInfos .zrwaZone).acquiredCnt))
    (.full, .empty, 1) (by decide +kernel)
  obtain ⟨h0, hobs⟩ := Prod.mk.inj hobs
  obtain ⟨h1, h2⟩ := Prod.mk.inj hobs
  refine ⟨s, hrun.mono fun _ _ _ => trivial, h0, h2, ?_⟩
  have hzero : ∀ z, z < 2 → ¬ (((s.ftl.zoneDescs z).state = .openedImpl ∨ (s.ftl.zoneDescs z).state = .openedExpl) ∨
      (s.ftl.zoneDescs z).state = .closed) := by
    intro z hz
    obtain rfl | rfl : z = 0 ∨ z = 1 := by omega
    · simp [h0]
    · simp [h1]
  rw [h2, countBelow_eq_zero fun z hz hh => hzero z hz hh.1]
  decide

end NvmeVirt
