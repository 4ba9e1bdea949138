import NvmeVirt.Ssd.Timeline
import NvmeVirt.Zns.Zrwa

/-!
# `Zns.Trap` — what stops the module when ZRWA is configured off

Both shipped zoned targets have no ZRWA: no flush granularity, no window, no buffers. The option bit of an open
puts a zone into ZRWA mode all the same. Such a zone is never written, because the window behind its write
pointer is empty (`ZrwaUnwritten`), with one exception: the end of the window is computed as `wp - 1`, and for the
first zone of the device that wraps. So a write to the first zone and an explicit flush of it stop the module, once
that zone has been opened with the option bit.

The only other command that stops it comes from the module itself: an append whose entry was given the write pointer
of the last zone as its address, past the zone tables, and is dispatched again (`NvmeCommand.Strayed`).
-/

namespace NvmeVirt

open Outcome Counting

variable {τ : Type} {c : ZnsConfig}

/-! ## The configuration -/

/-- The buffer size behind `writeBufferOf`. -/
def ZnsConfig.wbSize (c : ZnsConfig) : Nat := if c.zp.zoneWbSize ≠ 0 then c.zp.zoneWbSize else c.sp.writeBufferSize

/-- **ZRWA configured off.** -/
structure ZnsConfig.ZrwaOff (c : ZnsConfig) : Prop extends c.Wf where
  lbasPerZrwa_eq : c.zp.lbasPerZrwa = 0
  lbasPerZrwafg_eq : c.zp.lbasPerZrwafg = 0
  zrwaBufferSize_eq : c.zp.zrwaBufferSize = 0

/-- **What holds between commands**: a zone in ZRWA mode has not been written, and the buffers have the sizes they
    were given. -/
structure ZrwaUnwritten (c : ZnsConfig) (s : ZnsFtl τ) : Prop where
  counted : ZonesCounted c s.toZoneTable
  unwritten : ∀ z, z < c.zp.nrZones → (s.zoneDescs z).zrwav = true → (s.zoneDescs z).wp = (s.zoneDescs z).zslba
  sized : ∀ z, (s.buf (writeBufferOf c z)).size = c.wbSize

/-- Moves other than by ZRWA leave the zones in ZRWA mode unwritten. -/
theorem ZoneMoves.unwritten {K : Nat → ZoneKind → Prop} {s s' : ZoneTable} (hm : ZoneMoves c K s s')
    (hK : ∀ z, ¬ K z .flush) (hcount : ZonesCounted c s)
    (h : ∀ z, z < c.zp.nrZones → (s.zoneDescs z).zrwav = true → (s.zoneDescs z).wp = (s.zoneDescs z).zslba) :
    ∀ z, z < c.zp.nrZones → (s'.zoneDescs z).zrwav = true → (s'.zoneDescs z).wp = (s'.zoneDescs z).zslba := by
  refine (hm.keeps (I := fun s => ZonesCounted c s ∧
    ∀ z, z < c.zp.nrZones → (s.zoneDescs z).zrwav = true → (s.zoneDescs z).wp = (s.zoneDescs z).zslba)
    ⟨hcount, h⟩ ?_).2
  rintro s s' z k d hk hm ⟨hcount, h⟩
  refine ⟨hcount.move hm, hm.forall_zone (I := fun _ d => d.zrwav = true → d.wp = d.zslba) h ?_⟩
  have hz := h z hm.lt
  cases hm.trans with
  | opensZrwa hd => exact fun _ => (hcount.empty z hm.lt hd).1
  | resets => exact fun hzr => absurd hzr (by simp)
  | advances _ hadv _ =>
      cases hadv with
      | write hoff => exact fun hzr => absurd (hoff.symm.trans hzr) (by decide)
      | flush => exact absurd hk (hK z)
  | fills _ hadv _ =>
      cases hadv with
      | write hoff => exact fun hzr => absurd (hoff.symm.trans hzr) (by decide)
      | flush => exact absurd hk (hK z)
  | opens | closes | finishes => exact hz

/-- Replacing a buffer by one of its size keeps all sizes. -/
theorem setBuf_size (s : ZnsFtl τ) {id : BufferId} {b : Buffer} (hb : b.size = (s.buf id).size) (id' : BufferId) :
    ((s.setBuf id b).buf id').size = (s.buf id').size := by
  by_cases hid : id' = id
  · subst hid
    rw [ZnsFtl.buf_setBuf_self, hb]
  · rw [ZnsFtl.buf_setBuf_of_ne s b hid]

/-- The block before a zone; it wraps for the first one. -/
theorem ZnsConfig.Wf.before_zone_eq (hc : c.Wf) {z : Nat} (hz : z < c.zp.nrZones) :
    u64 (z * c.zoneLbas + (2 ^ 64 - 1)) = if z = 0 then 2 ^ 64 - 1 else z * c.zoneLbas - 1 := by
  have hlt := hc.zslba_lt hz
  split
  · rename_i h0
    subst h0
    simp [u64]
  · rename_i h0
    have : 0 < z * c.zoneLbas := Nat.mul_pos (Nat.pos_of_ne_zero h0) hc.zoneLbas_pos
    unfold u64
    omega

section Off

variable {s : ZnsFtl τ} (h : ZrwaUnwritten c s)
include h

/-- A zone in ZRWA mode that is not FULL can be written. -/
theorem ZrwaUnwritten.zrwaWritable_iff {z : Nat} (hz : z < c.zp.nrZones) (hzr : (s.zoneDescs z).zrwav = true) :
    ZrwaWritable s z ↔ (s.zoneDescs z).state ≠ .full := by
  refine ⟨fun hw => hw.active.alive.2.2.2, fun hne => ?_⟩
  have halive := h.counted.alive z hz
  cases hd : (s.zoneDescs z).state with
  | openedImpl => exact Or.inl (Or.inl hd)
  | openedExpl => exact Or.inl (Or.inr hd)
  | closed =>
      -- a closed zone leaves an open resource free
      have hle := countBelow_add_le (P := fun d : ZoneDescriptor => d.state.Opened) (Q := fun d => d.state = .closed)
        (f := s.zoneDescs) (n := c.zp.nrZones) (by
          rintro d (ho | ho) hcl <;> exact absurd (ho.symm.trans hcl) (by decide))
      have hpos := countBelow_pos (P := fun d : ZoneDescriptor => d.state = .closed) (f := s.zoneDescs) hz hd
      refine Or.inr ⟨hd, ?_⟩
      unfold isZoneResourceAvail
      rw [h.counted.total, h.counted.opened]
      omega
  | empty => exact absurd (hzr.symm.trans (h.counted.empty z hz hd).2) (by decide)
  | full => exact absurd hd hne
  | readOnly => exact absurd hd halive.1
  | offline => exact absurd hd halive.2

theorem ZrwaUnwritten.wp_eq {z : Nat} (hz : z < c.zp.nrZones) (hzr : (s.zoneDescs z).zrwav = true) :
    (s.zoneDescs z).wp = z * c.zoneLbas := by
  rw [h.unwritten z hz hzr, h.counted.zslba z hz]

variable (ho : c.ZrwaOff) {z : Nat} (hz : z < c.zp.nrZones) (hzr : (s.zoneDescs z).zrwav = true)
include ho hz hzr

variable (L : ZnsLatency τ) {req : NvmevRequest} (hzid : lbaToZone c req.cmd.slba.toNat = z)
  (hin : req.cmd.slba.toNat + req.cmd.nrLba ≤ 2 ^ 64)
include hzid hin

/-- **A write to a zone in ZRWA mode that is refused** leaves everything as it is. -/
theorem znsWriteZrwa_off (hno : ¬ (z = 0 ∧ lbaToByte req.cmd.nrLba % c.sp.writeUnitSize = 0 ∧
      checkBoundaryError c req.cmd.slba.toNat req.cmd.nrLba ∧ (s.zoneDescs z).state ≠ .full)) :
    Sat (fun _ => False) (fun r => r.2 = s) (znsWriteZrwa c L req s) := by
  have hpos := req.cmd.nrLba_pos
  unfold znsWriteZrwa
  dsimp only
  rw [hzid, nvmevAssert_of hz, ok_bind, h.wp_eq hz hzr, ho.lbasPerZrwa_eq]
  refine Sat.bind (Q := fun r : Nat × ZnsFtl τ => r.1 ≠ scSuccess ∧ r.2 = s) ?_ ?_
  · have hwin := ho.before_zone_eq hz
    unfold admitZrwa
    rw [h.wp_eq hz hzr, show u32 (2 * 0) = 0 from rfl, Nat.add_zero]
    generalize u64 (z * c.zoneLbas + (2 ^ 64 - 1)) = implEnd at hwin ⊢
    rw [u64_of_lt (by omega)]
    split
    · exact ⟨by dsimp only; decide, rfl⟩
    split
    · exact ⟨by dsimp only; decide, rfl⟩
    split
    · exact ⟨by dsimp only; decide, rfl⟩
    rename_i hu hb hrange
    -- only in the first zone does a range lie below the end of the window
    have h0 : z = 0 := by
      by_contra hne
      have : 0 < z * c.zoneLbas := Nat.mul_pos (Nat.pos_of_ne_zero hne) ho.zoneLbas_pos
      rw [if_neg hne] at hwin
      omega
    have hfull : (s.zoneDescs z).state = .full := by
      by_contra hne
      exact hno ⟨h0, not_not.mp hu, not_not.mp hb, hne⟩
    unfold openForZrwa
    rw [hfull]
    exact ⟨by dsimp only; decide, rfl⟩
  · rintro ⟨status, s1⟩ ⟨hst, rfl⟩
    dsimp only at hst ⊢
    rw [if_pos hst]
    rfl

/-- **A write to the first zone in ZRWA mode stops the module**: at the missing buffer if the zone is closed, at
    the division by the flush granularity if it is open. -/
theorem znsWriteZrwa_traps (h0 : z = 0) (hu : lbaToByte req.cmd.nrLba % c.sp.writeUnitSize = 0)
    (hb : checkBoundaryError c req.cmd.slba.toNat req.cmd.nrLba) (hne : (s.zoneDescs z).state ≠ .full) :
    znsWriteZrwa c L req s = .error .bug := by
  have hpos := req.cmd.nrLba_pos
  have hw := (h.zrwaWritable_iff hz hzr).mpr hne
  refine Sat.eq_error ?_
  unfold znsWriteZrwa
  dsimp only
  rw [hzid, nvmevAssert_of hz, ok_bind, h.wp_eq hz hzr, ho.lbasPerZrwa_eq]
  refine Sat.bind (Q := fun r : Nat × ZnsFtl τ => r.1 = scSuccess) ?_ ?_
  · unfold admitZrwa
    rw [h.wp_eq hz hzr, show u32 (2 * 0) = 0 from rfl, Nat.add_zero, ho.before_zone_eq hz, u64_of_lt (by omega),
      if_neg (not_not.mpr hu), if_neg (not_not.mpr hb), if_neg (by rw [h0, if_pos rfl, Nat.zero_mul]; omega)]
    unfold openForZrwa
    rcases hw with (hd | hd) | ⟨hd, hav⟩
    · rw [hd]
      rfl
    · rw [hd]
      rfl
    · rw [hd]
      dsimp only
      rw [acquireZoneResource_of_avail hav]
      simp only [zrwaAllocate, nvmevAssert, ho.zrwaBufferSize_eq, ne_eq, not_true, if_false, error_bind, sat_error]
  · rintro ⟨status, s1⟩ hst
    dsimp only at hst ⊢
    rw [if_neg (not_not.mpr hst), zrwaFlushLbas, if_pos (by rw [h0, Nat.zero_mul]; exact Nat.zero_le _)]
    simp only [nvmevAssert, ho.lbasPerZrwafg_eq, ne_eq, not_true, if_false, error_bind, sat_error]

end Off

/-! ## Zone management -/

/-- **An explicit flush** is refused, but for the first zone in ZRWA mode. -/
theorem zmgmtSendFlushExplicitZrwa_off (ho : c.ZrwaOff) {s : ZnsFtl τ} (h : ZrwaUnwritten c s) {slba : Nat}
    (hz : lbaToZone c slba < c.zp.nrZones) (hno : ¬ (lbaToZone c slba = 0 ∧ (s.zoneDescs 0).zrwav = true)) :
    Sat (fun _ => False) (fun r => r.2 = s) (zmgmtSendFlushExplicitZrwa c slba s) := by
  unfold zmgmtSendFlushExplicitZrwa
  generalize lbaToZone c slba = z at hz hno ⊢
  dsimp only
  split
  · rfl
  rename_i hflag
  have hzr : (s.zoneDescs z).zrwav = true := by simpa using hflag
  have hne : z ≠ 0 := by
    rintro rfl
    exact hno ⟨rfl, hzr⟩
  have hwin := ho.before_zone_eq hz
  have hpos : 0 < z * c.zoneLbas := Nat.mul_pos (Nat.pos_of_ne_zero hne) ho.zoneLbas_pos
  rw [if_neg hne] at hwin
  rw [h.wp_eq hz hzr, ho.lbasPerZrwa_eq, Nat.add_zero, hwin]
  -- the window ends before the write pointer
  rw [if_pos (by omega)]
  rfl

theorem zmgmtSendFlushExplicitZrwa_traps (ho : c.ZrwaOff) {s : ZnsFtl τ} (h : ZrwaUnwritten c s) {slba : Nat}
    (hlt : slba < c.zp.nrZones * c.zoneLbas) (h0 : lbaToZone c slba = 0) (hzr : (s.zoneDescs 0).zrwav = true) :
    zmgmtSendFlushExplicitZrwa c slba s = .error .bug := by
  have hz : 0 < c.zp.nrZones := by
    refine Nat.pos_of_ne_zero fun hno => ?_
    rw [hno, Nat.zero_mul] at hlt
    exact absurd hlt (Nat.not_lt_zero _)
  have hnear : slba < (0 + 2 ^ 32) * c.zoneLbas :=
    Nat.lt_of_lt_of_le hlt (Nat.mul_le_mul_right _ (by have := ho.nrZones_lt; omega))
  have hend := (ho.lbaToZone_range_near hnear h0).2
  unfold zmgmtSendFlushExplicitZrwa
  rw [h0]
  dsimp only
  rw [if_neg (by simp [hzr]), h.wp_eq hz hzr, h.counted.cap 0 hz, ho.lbasPerZrwa_eq, Nat.add_zero,
    ho.before_zone_eq hz, if_pos rfl, show zoneToSlba c 0 = 0 by simp [zoneToSlba, u32],
    if_neg (by rw [Nat.zero_mul]; rw [Nat.zero_add, Nat.one_mul] at hend; have := ho.zoneLbas_lt; omega)]
  simp only [nvmevAssert, ho.lbasPerZrwafg_eq, ne_eq, not_true, if_false, error_bind]

/-- An action that is not a flush returns. -/
theorem zmgmtSend_returns {s : ZnsFtl τ} {slba : Nat} (hz : lbaToZone c slba < c.zp.nrZones)
    {action : ZoneSendAction} (hne : action ≠ .flushExplZrwa) (option : Bool) :
    ∃ r, zmgmtSend c slba action option s = .ok r := by
  unfold zmgmtSend
  dsimp only
  rw [nvmevAssert_of hz]
  cases action with
  | flushExplZrwa => exact absurd rfl hne
  | closeZone | finishZone | openZone | resetZone | offlineZone | other => exact ⟨_, rfl⟩

section WriteBuffer

variable (s : ZnsFtl τ) (z : Nat)

theorem releaseActive_writeBuffer : (releaseActive z s).writeBuffer = s.writeBuffer := by
  unfold releaseActive
  split <;> rfl

theorem acquireZoneResource_writeBuffer (r : ZoneResource) : (acquireZoneResource r s).2.writeBuffer = s.writeBuffer := by
  unfold acquireZoneResource
  split <;> rfl

theorem openClosedExpl_writeBuffer : (openClosedExpl z s).2.writeBuffer = s.writeBuffer := by
  have hacq := acquireZoneResource_writeBuffer s .openZone
  unfold openClosedExpl
  split
  · rename_i heq
    rw [heq] at hacq
    exact hacq
  · rename_i heq
    rw [heq] at hacq
    exact hacq

theorem zmgmtSendOpenZone_writeBuffer (zrwa : Bool) : (zmgmtSendOpenZone z zrwa s).2.writeBuffer = s.writeBuffer := by
  unfold zmgmtSendOpenZone
  cases (s.zoneDescs z).state with
  | empty =>
      dsimp only
      split
      · rfl
      split
      · rfl
      split
      · split
        · rfl
        · rw [openClosedExpl_writeBuffer, acquireZoneResource_writeBuffer]
          exact acquireZoneResource_writeBuffer s .zrwaZone
      · rw [openClosedExpl_writeBuffer, acquireZoneResource_writeBuffer]
  | closed => exact openClosedExpl_writeBuffer s z
  | openedImpl | openedExpl | full | readOnly | offline => rfl

theorem resetZone_writeBuffer : (resetZone c z s).writeBuffer = s.writeBuffer := by
  unfold resetZone
  dsimp only
  split <;> rfl

/-- No action touches the global write buffer. -/
theorem zmgmtSend_writeBuffer {slba : Nat} {action : ZoneSendAction} (hne : action ≠ .flushExplZrwa) {option : Bool} :
    Sat (fun _ => True) (fun r => r.2.writeBuffer = s.writeBuffer) (zmgmtSend c slba action option s) := by
  cases action with
  | other => rfl
  | flushExplZrwa => exact absurd rfl hne
  | closeZone =>
      refine sat_nvmevAssert_bind trivial fun _ => ?_
      show (zmgmtSendCloseZone _ s).2.writeBuffer = _
      unfold zmgmtSendCloseZone
      split <;> rfl
  | finishZone =>
      refine sat_nvmevAssert_bind trivial fun _ => ?_
      show (zmgmtSendFinishZone _ s).2.writeBuffer = _
      unfold zmgmtSendFinishZone
      split
      · exact releaseActive_writeBuffer _ _
      · exact releaseActive_writeBuffer _ _
      · exact releaseActive_writeBuffer _ _
      all_goals rfl
  | openZone => exact sat_nvmevAssert_bind trivial fun _ => zmgmtSendOpenZone_writeBuffer s _ option
  | resetZone =>
      refine sat_nvmevAssert_bind trivial fun _ => ?_
      show (zmgmtSendResetZone c _ s).2.writeBuffer = _
      unfold zmgmtSendResetZone
      split
      · exact (resetZone_writeBuffer _ _).trans (releaseActive_writeBuffer _ _)
      · exact (resetZone_writeBuffer _ _).trans (releaseActive_writeBuffer _ _)
      · exact (resetZone_writeBuffer _ _).trans (releaseActive_writeBuffer _ _)
      · exact resetZone_writeBuffer _ _
      · exact resetZone_writeBuffer _ _
      · rfl
  | offlineZone =>
      refine sat_nvmevAssert_bind trivial fun _ => ?_
      show (zmgmtSendOfflineZone _ s).2.writeBuffer = _
      unfold zmgmtSendOfflineZone
      split <;> rfl

end WriteBuffer

/-- The buffers behind `writeBufferOf` are among those of a zone and the global one. -/
theorem ZrwaUnwritten.of_buffers {s s' : ZnsFtl τ} (h : ZrwaUnwritten c s) (hcount : ZonesCounted c s'.toZoneTable)
    (hun : ∀ z, z < c.zp.nrZones → (s'.zoneDescs z).zrwav = true → (s'.zoneDescs z).wp = (s'.zoneDescs z).zslba)
    (hg : s'.writeBuffer = s.writeBuffer) (hzb : s'.zoneWriteBuffer = s.zoneWriteBuffer) : ZrwaUnwritten c s' where
  counted := hcount
  unwritten := hun
  sized := by
    intro z
    rw [← h.sized z]
    unfold writeBufferOf
    split
    · show (s'.zoneWriteBuffer z).size = (s.zoneWriteBuffer z).size
      rw [hzb]
    · show s'.writeBuffer.size = s.writeBuffer.size
      rw [hg]

/-- **Every action but a flush** returns and keeps the zones in ZRWA mode unwritten. -/
theorem zmgmtSend_unwritten (hc : c.Wf) {s : ZnsFtl τ} (h : ZrwaUnwritten c s) {slba : Nat} (hslba : slba < 2 ^ 64)
    (hz : lbaToZone c slba < c.zp.nrZones) {action : ZoneSendAction} (hne : action ≠ .flushExplZrwa) {option : Bool} :
    Sat (fun _ => False) (fun r => ZrwaUnwritten c r.2) (zmgmtSend c slba action option s) := by
  obtain ⟨r, hr⟩ := zmgmtSend_returns (s := s) hz hne option
  have hm := (zmgmtSend_managed hc h.counted hslba (K := fun _ k => k ≠ .flush) (by
    rintro k hk rfl
    exact hne hk)).of_eq_ok hr
  rw [hr]
  exact h.of_buffers (h.counted.moves hm.1) (hm.1.unwritten (fun _ hk => hk rfl) h.counted h.unwritten)
    ((zmgmtSend_writeBuffer s hne).of_eq_ok hr) hm.2

/-- `zone_to_slba` may wrap, but stays on the device. -/
theorem ZnsConfig.Wf.zoneToSlba_in_range (hc : c.Wf) {z : Nat} (hz : z < c.zp.nrZones) :
    zoneToSlba c z < c.zp.nrZones * c.zoneLbas ∧ lbaToZone c (zoneToSlba c z) < c.zp.nrZones := by
  have hle : zoneToSlba c z ≤ z * c.zoneLbas := Nat.mod_le _ _
  have hlt : z * c.zoneLbas < c.zp.nrZones * c.zoneLbas := Nat.mul_lt_mul_of_pos_right hz hc.zoneLbas_pos
  refine ⟨Nat.lt_of_le_of_lt hle hlt, ?_⟩
  have hdiv : zoneToSlba c z / c.zoneLbas ≤ z := Nat.div_le_of_le_mul (by rw [Nat.mul_comm]; exact hle)
  exact Nat.lt_of_le_of_lt (Nat.le_trans (Nat.mod_le _ _) hdiv) hz

/-- **The loop over all zones.** -/
theorem zmgmtSendAll_unwritten (hc : c.Wf) {s : ZnsFtl τ} (h : ZrwaUnwritten c s) {action : ZoneSendAction}
    (hne : action ≠ .flushExplZrwa) {option : Bool} :
    Sat (fun _ => False) (ZrwaUnwritten c) (zmgmtSendAll c action option s) := by
  unfold zmgmtSendAll
  refine sat_foldlM_const _ ?_ h
  intro z hz s1 h1
  have hrange := hc.zoneToSlba_in_range (List.mem_range.mp hz)
  exact (zmgmtSend_unwritten hc h1 (zoneToSlba_lt z) hrange.2 hne).bind fun _ hr => hr

theorem zmgmtSendAll_flush_off (ho : c.ZrwaOff) {s : ZnsFtl τ} (h : ZrwaUnwritten c s)
    (hno : (s.zoneDescs 0).zrwav = false) {option : Bool} :
    Sat (fun _ => False) (· = s) (zmgmtSendAll c .flushExplZrwa option s) := by
  unfold zmgmtSendAll
  refine sat_foldlM_const _ ?_ rfl
  rintro z hz s1 rfl
  have hrange := (ho.zoneToSlba_in_range (List.mem_range.mp hz)).2
  have hflush : Sat (fun _ => False) (fun r => r.2 = s1) (zmgmtSend c (zoneToSlba c z) .flushExplZrwa option s1) := by
    unfold zmgmtSend
    dsimp only
    rw [nvmevAssert_of hrange, ok_bind]
    exact zmgmtSendFlushExplicitZrwa_off ho h hrange fun h0 => absurd (hno.symm.trans h0.2) (by decide)
  exact hflush.bind fun _ hr => hr

theorem zmgmtSendAll_flush_traps (ho : c.ZrwaOff) {s : ZnsFtl τ} (h : ZrwaUnwritten c s) (hz : 0 < c.zp.nrZones)
    (hzr : (s.zoneDescs 0).zrwav = true) {option : Bool} :
    zmgmtSendAll c .flushExplZrwa option s = .error .bug := by
  have h0 : zoneToSlba c 0 = 0 := by simp [zoneToSlba, u32]
  have hz0 : lbaToZone c 0 = 0 := by simp [lbaToZone, u32]
  have hlt : 0 < c.zp.nrZones * c.zoneLbas := Nat.mul_pos hz ho.zoneLbas_pos
  have hfirst : zmgmtSend c (zoneToSlba c 0) .flushExplZrwa option s = .error .bug := by
    unfold zmgmtSend
    dsimp only
    rw [h0, nvmevAssert_of (by rw [hz0]; exact hz), ok_bind]
    exact zmgmtSendFlushExplicitZrwa_traps ho h hlt hz0 hzr
  obtain ⟨n, hn⟩ := Nat.exists_eq_succ_of_ne_zero (Nat.pos_iff_ne_zero.mp hz)
  unfold zmgmtSendAll
  rw [hn, Nat.succ_eq_add_one, List.range_succ_eq_map, List.foldlM_cons, hfirst]
  rfl

/-! ## Writes to a zone without ZRWA -/

/-- A write that fits the buffer returns. -/
theorem znsWriteSeq_returns (L : ZnsLatency τ) {req : NvmevRequest} {s : ZnsFtl τ} {z : Nat}
    (hzid : lbaToZone c req.cmd.slba.toNat = z) (hz : z < c.zp.nrZones)
    (hsize : lbaToByte req.cmd.nrLba ≤ (s.buf (writeBufferOf c z)).size) : ∃ r, znsWriteSeq c L req s = .ok r := by
  unfold znsWriteSeq
  dsimp only
  rw [hzid, nvmevAssert_of hz, ok_bind, appended_nrLba]
  by_cases hshort : (s.buf (writeBufferOf c z)).remaining < lbaToByte req.cmd.nrLba
  · rw [bufferAllocate_of_short hsize hshort, ok_bind]
    dsimp only
    split <;> exact ⟨_, rfl⟩
  · rw [bufferAllocate_of_le hsize (lbaToByte_nrLba_lt _) (Nat.not_lt.mp hshort), ok_bind]
    dsimp only
    split <;> exact ⟨_, rfl⟩

theorem charged_size (s : ZnsFtl τ) (z k : Nat) (id : BufferId) :
    ((s.charged c z k).buf id).size = (s.buf id).size := by
  unfold ZnsFtl.charged
  refine setBuf_size s ?_ id
  rfl

/-- **A write to a zone without ZRWA** returns and touches no other zone. -/
theorem znsWriteSeq_unwritten (hc : c.Wf) (L : ZnsLatency τ) {req : NvmevRequest} {s : ZnsFtl τ} (h : ZrwaUnwritten c s)
    (hz : lbaToZone c req.cmd.slba.toNat < c.zp.nrZones)
    (hzr : (s.zoneDescs (lbaToZone c req.cmd.slba.toNat)).zrwav = false) (hsize : lbaToByte req.cmd.nrLba ≤ c.wbSize) :
    Sat (fun _ => False) (fun r => ZrwaUnwritten c r.2) (znsWriteSeq c L req s) := by
  obtain ⟨r, hr⟩ := znsWriteSeq_returns L rfl hz (by rw [h.sized]; exact hsize)
  have hout := ((znsWriteSeq_outcome hc L req h.counted hzr).of_eq_ok hr).2
  rw [hr]
  refine ⟨h.counted.moves hout.moves, hout.moves.unwritten ?_ h.counted h.unwritten, fun y => ?_⟩
  · rintro y ⟨-, hk⟩
    cases hk
  · rw [← h.sized y]
    cases hout with
    | refused => rfl
    | failed => exact charged_size s _ _ _
    | done _ _ _ hbuf =>
        dsimp only
        rw [hbuf]
        exact charged_size s _ _ _

/-! ## Every command -/

/-- `2^MDTS` pages of 4 KiB; both targets have `MDTS` 6. -/
def znsMaxTransfer : Nat := 2 ^ 6 * 4096

/-- A command inside the namespace, of a length the controller advertises. -/
def NvmeCommand.InNamespace (c : ZnsConfig) (cmd : NvmeCommand) : Prop :=
  cmd.slba.toNat < c.zp.nrZones * c.zoneLbas ∧
    (cmd.opcode = .write ∨ cmd.opcode = .zoneAppend ∨ cmd.opcode = .read → lbaToByte cmd.nrLba ≤ znsMaxTransfer)

instance (cmd : NvmeCommand) : Decidable (cmd.InNamespace c) := inferInstanceAs (Decidable (_ ∧ (_ → _)))

/-- **What an entry can hold** that was filled with a command inside the namespace: an append may have been given
    another address. -/
def NvmeCommand.Served (c : ZnsConfig) (cmd : NvmeCommand) : Prop :=
  (cmd.opcode ≠ .zoneAppend → cmd.slba.toNat < c.zp.nrZones * c.zoneLbas) ∧
    (cmd.opcode = .write ∨ cmd.opcode = .zoneAppend ∨ cmd.opcode = .read → lbaToByte cmd.nrLba ≤ znsMaxTransfer)

theorem NvmeCommand.InNamespace.served {cmd : NvmeCommand} (h : cmd.InNamespace c) : cmd.Served c := ⟨fun _ => h.1, h.2⟩

/-- **An append that has left the device**: its address is past the zone tables. -/
def NvmeCommand.Strayed (c : ZnsConfig) (cmd : NvmeCommand) : Prop :=
  cmd.opcode = .zoneAppend ∧ c.zp.nrZones ≤ lbaToZone c cmd.slba.toNat

instance (cmd : NvmeCommand) : Decidable (cmd.Strayed c) := inferInstanceAs (Decidable (_ ∧ _))

/-- No range that starts in a zone wraps around the 64-bit addresses. -/
def ZnsConfig.NoWrap (c : ZnsConfig) : Prop :=
  ∀ cmd : NvmeCommand, lbaToZone c cmd.slba.toNat < c.zp.nrZones → lbaToByte cmd.nrLba ≤ znsMaxTransfer →
    cmd.slba.toNat + cmd.nrLba ≤ 2 ^ 64

/-- **The commands that stop the module**: the first zone is in ZRWA mode, and the command writes to it while it is
    not FULL, passing the checks of length and boundary, or flushes it. -/
def NvmeCommand.TrapsZrwa (c : ZnsConfig) (s : ZnsFtl τ) (cmd : NvmeCommand) : Prop :=
  (s.zoneDescs 0).zrwav = true ∧
    (((cmd.opcode = .write ∨ cmd.opcode = .zoneAppend) ∧ lbaToZone c cmd.slba.toNat = 0 ∧
        lbaToByte cmd.nrLba % c.sp.writeUnitSize = 0 ∧ checkBoundaryError c cmd.slba.toNat cmd.nrLba ∧
        (s.zoneDescs 0).state ≠ .full) ∨
      (cmd.opcode = .zoneMgmtSend ∧ cmd.zsa = .flushExplZrwa ∧
        (cmd.selectAll = true ∨ lbaToZone c cmd.slba.toNat = 0)))

theorem NvmeCommand.Served.zone_lt (hc : c.Wf) {cmd : NvmeCommand} (h : cmd.Served c) (hs : ¬ cmd.Strayed c) :
    lbaToZone c cmd.slba.toNat < c.zp.nrZones := by
  by_cases hop : cmd.opcode = .zoneAppend
  · exact Nat.not_le.mp fun hle => hs ⟨hop, hle⟩
  · exact Nat.lt_of_le_of_lt (Nat.mod_le _ _) ((Nat.div_lt_iff_lt_mul hc.zoneLbas_pos).mpr (h.1 hop))

/-- The address that an append is given leaves the entry served. -/
theorem NvmeCommand.Served.appended {cmd : NvmeCommand} (h : cmd.Served c) (s : ZnsFtl τ) (z : Nat) :
    (appended s z cmd).Served c := by
  unfold NvmeVirt.appended
  split
  · rename_i hop
    exact ⟨fun hne => absurd hop hne, h.2⟩
  · exact h

section Commands

variable (ho : c.ZrwaOff) (hw : c.NoWrap) (L : ZnsLatency τ) {req : NvmevRequest} (hin : req.cmd.Served c)
  {s : ZnsFtl τ} (h : ZrwaUnwritten c s)
include ho hin h

/-- Whatever the handler does, the entry stays served. -/
theorem znsProcNvmeIoCmd_served :
    Sat (fun _ => True) (fun r => r.1.cmd.Served c) (znsProcNvmeIoCmd c L req s) := by
  unfold znsProcNvmeIoCmd
  cases hop : req.cmd.opcode with
  | write | zoneAppend =>
      rw [znsWrite_eq ho.toWf]
      refine sat_nvmevAssert_bind trivial fun _ => ?_
      split
      · rename_i hzr
        refine (znsWriteSeq_outcome ho.toWf L req h.counted hzr).mono fun r hr => ?_
        cases hr.2 with
        | refused | failed | done => exact hin.appended s _
      · refine sat_nvmevAssert_bind trivial fun _ => sat_bind_any ?_
        rintro ⟨status, s1⟩
        dsimp only
        split
        · exact hin
        · refine sat_bind_any fun _ => sat_bind_any ?_
          rintro ⟨flushed, s2⟩
          cases flushed <;> exact hin
  | read => exact sat_nvmevAssert_bind trivial fun _ => hin
  | zoneMgmtSend =>
      dsimp only
      unfold znsZmgmtSend
      dsimp only
      split <;> exact sat_bind_any fun _ => hin
  | flush | zoneMgmtRecv | other => exact hin

variable (hstay : ¬ req.cmd.Strayed c)
include hstay

include hw in
theorem znsWrite_unwritten (hwb : znsMaxTransfer ≤ c.wbSize)
    (hop : req.cmd.opcode = .write ∨ req.cmd.opcode = .zoneAppend) (hno : ¬ req.cmd.TrapsZrwa c s) :
    Sat (fun _ => False) (fun r => ZrwaUnwritten c r.2) (znsWrite c L req s) := by
  have hz := hin.zone_lt ho.toWf hstay
  have hlen := hin.2 (by tauto)
  rw [znsWrite_eq ho.toWf, nvmevAssert_of hz, ok_bind]
  by_cases hzr : (s.zoneDescs (lbaToZone c req.cmd.slba.toNat)).zrwav = false
  · rw [if_pos hzr]
    exact znsWriteSeq_unwritten ho.toWf L h hz hzr (Nat.le_trans hlen hwb)
  · rw [if_neg hzr]
    have hflag : (s.zoneDescs (lbaToZone c req.cmd.slba.toNat)).zrwav = true := by simpa using hzr
    refine (znsWriteZrwa_off h ho hz hflag L rfl (hw _ hz hlen) ?_).mono fun r hr => ?_
    · rintro ⟨h0, hu, hb, hne⟩
      rw [h0] at hflag hne
      exact hno ⟨hflag, Or.inl ⟨hop, h0, hu, hb, hne⟩⟩
    · rw [hr]
      exact h

theorem znsZmgmtSend_unwritten (hop : req.cmd.opcode = .zoneMgmtSend) (hno : ¬ req.cmd.TrapsZrwa c s) :
    Sat (fun _ => False) (fun r => ZrwaUnwritten c r.2) (znsZmgmtSend c req s) := by
  have hz := hin.zone_lt ho.toWf hstay
  unfold znsZmgmtSend
  dsimp only
  by_cases hflush : req.cmd.zsa = .flushExplZrwa
  · split
    · rename_i hall
      have hflag : (s.zoneDescs 0).zrwav = false := by
        rw [← Bool.not_eq_true]
        exact fun hzr => hno ⟨hzr, Or.inr ⟨hop, hflush, Or.inl hall⟩⟩
      rw [hflush]
      refine (zmgmtSendAll_flush_off ho h hflag).bind ?_
      rintro s1 rfl
      exact h
    · have hsend : Sat (fun _ => False) (fun r => r.2 = s)
          (zmgmtSend c req.cmd.slba.toNat .flushExplZrwa req.cmd.zsaso s) := by
        unfold zmgmtSend
        dsimp only
        rw [nvmevAssert_of hz, ok_bind]
        exact zmgmtSendFlushExplicitZrwa_off ho h hz
          fun h0 => hno ⟨h0.2, Or.inr ⟨hop, hflush, Or.inr h0.1⟩⟩
      rw [hflush]
      refine hsend.bind fun r hr => ?_
      show ZrwaUnwritten c r.2
      rw [hr]
      exact h
  · split
    · exact (zmgmtSendAll_unwritten ho.toWf h hflush).bind fun _ hr => hr
    · exact (zmgmtSend_unwritten ho.toWf h req.cmd.slba.toNat_lt hz hflush).bind fun _ hr => hr

include hw in
/-- **A command that is not one of the trapping ones** returns and keeps the zones in ZRWA mode unwritten. -/
theorem znsProcNvmeIoCmd_unwritten (hwb : znsMaxTransfer ≤ c.wbSize) (hno : ¬ req.cmd.TrapsZrwa c s) :
    Sat (fun _ => False) (fun r => ZrwaUnwritten c r.2) (znsProcNvmeIoCmd c L req s) := by
  unfold znsProcNvmeIoCmd
  cases hop : req.cmd.opcode with
  | write => exact znsWrite_unwritten ho hw L hin h hstay hwb (Or.inl hop) hno
  | zoneAppend => exact znsWrite_unwritten ho hw L hin h hstay hwb (Or.inr hop) hno
  | read =>
      dsimp only
      unfold znsRead
      dsimp only
      rw [ho.lpnToZone_lbaToLpn, nvmevAssert_of (hin.zone_lt ho.toWf hstay), ok_bind]
      exact ⟨h.counted, h.unwritten, h.sized⟩
  | zoneMgmtSend => exact znsZmgmtSend_unwritten ho hin h hstay hop hno
  | flush | zoneMgmtRecv | other => exact h

include hw in
/-- **A trapping command** does not return. -/
theorem znsProcNvmeIoCmd_traps (ht : req.cmd.TrapsZrwa c s) : znsProcNvmeIoCmd c L req s = .error .bug := by
  have hz := hin.zone_lt ho.toWf hstay
  obtain ⟨hzr, ⟨hop, h0, hu, hb, hne⟩ | ⟨hop, hflush, hwhich⟩⟩ := ht
  · rw [znsProcNvmeIoCmd_write hop, znsWrite_eq ho.toWf, nvmevAssert_of hz, ok_bind, h0, if_neg (by simp [hzr])]
    exact znsWriteZrwa_traps h ho (Nat.zero_lt_of_lt hz) hzr L h0 (hw _ hz (hin.2 (by tauto))) rfl hu hb hne
  · unfold znsProcNvmeIoCmd
    rw [hop]
    dsimp only
    unfold znsZmgmtSend
    dsimp only
    rw [hflush]
    by_cases hall : req.cmd.selectAll = true
    · rw [if_pos hall, zmgmtSendAll_flush_traps ho h (Nat.zero_lt_of_lt hz) hzr]
      rfl
    · have hsend : zmgmtSend c req.cmd.slba.toNat .flushExplZrwa req.cmd.zsaso s = .error .bug := by
        unfold zmgmtSend
        dsimp only
        rw [nvmevAssert_of hz, ok_bind]
        exact zmgmtSendFlushExplicitZrwa_traps ho h (hin.1 (by simp [hop])) (hwhich.resolve_left hall) hzr
      rw [if_neg hall, hsend]
      rfl

end Commands

/-- **A strayed append** fails the assertion on its zone. -/
theorem znsProcNvmeIoCmd_strayed (hc : c.Wf) (L : ZnsLatency τ) {req : NvmevRequest} (h : req.cmd.Strayed c)
    (s : ZnsFtl τ) : znsProcNvmeIoCmd c L req s = .error .bug := by
  rw [znsProcNvmeIoCmd_write (Or.inr h.1), znsWrite_eq hc, nvmevAssert, if_neg (Nat.not_lt.mpr h.2)]
  rfl

/-! ## Whole runs -/

/-- The host fills entries with commands inside the namespace, and only entries it has filled are dispatched. -/
def ZnsSys.InNamespace (c : ZnsConfig) (s : ZnsSys τ) : ZnsAct → Prop
  | .submit _ cmd => cmd.InNamespace c
  | .dispatch slot _ _ => s.filled slot = true
  | .copy _ | .release _ => True

instance (s : ZnsSys τ) : (a : ZnsAct) → Decidable (s.InNamespace c a)
  | .submit _ cmd => inferInstanceAs (Decidable (cmd.InNamespace c))
  | .dispatch slot _ _ => inferInstanceAs (Decidable (s.filled slot = true))
  | .copy _ | .release _ => inferInstanceAs (Decidable True)

/-- The action dispatches a trapping command or an append that has left the device. -/
def ZnsSys.Traps (c : ZnsConfig) (s : ZnsSys τ) : ZnsAct → Prop
  | .dispatch slot _ _ => (s.slots slot).TrapsZrwa c s.ftl ∨ (s.slots slot).Strayed c
  | .submit _ _ | .copy _ | .release _ => False

/-- **What holds between actions.** -/
structure ZnsSys.Sound (c : ZnsConfig) (s : ZnsSys τ) : Prop where
  unwritten : ZrwaUnwritten c s.ftl
  served : ∀ slot, s.filled slot = true → (s.slots slot).Served c

variable {L : ZnsLatency τ}

/-- **One action**: it returns unless it dispatches a trapping command or a strayed append. -/
theorem ZnsSys.act_sound (ho : c.ZrwaOff) (hw : c.NoWrap) (hwb : znsMaxTransfer ≤ c.wbSize) {s : ZnsSys τ} {a : ZnsAct}
    (hin : s.InNamespace c a) (h : s.Sound c) (hno : ¬ s.Traps c a) :
    Sat (fun _ => False) (ZnsSys.Sound c) (s.act c L a) := by
  cases a with
  | submit slot cmd =>
      refine ⟨h.unwritten, fun y hy => ?_⟩
      show (Function.update s.slots slot cmd y).Served c
      by_cases hyz : y = slot
      · subst hyz
        rw [Function.update_self]
        exact NvmeCommand.InNamespace.served hin
      · rw [Function.update_of_ne hyz]
        exact h.served y ((Function.update_of_ne hyz _ _).symm.trans hy)
  | dispatch slot sqId now =>
      have hserved : NvmeCommand.Served c (NvmevRequest.mk (s.slots slot) sqId now).cmd := h.served slot hin
      obtain ⟨r, hres, hun⟩ := (znsProcNvmeIoCmd_unwritten ho hw L hserved h.unwritten (fun hs => hno (Or.inr hs)) hwb
        fun ht => hno (Or.inl ht)).exists_ok
      have hcmd := (znsProcNvmeIoCmd_served ho L hserved h.unwritten).of_eq_ok hres
      unfold ZnsSys.act
      dsimp only
      rw [hres]
      refine ⟨hun, fun y hy => ?_⟩
      show (Function.update s.slots slot r.1.cmd y).Served c
      by_cases hyz : y = slot
      · subst hyz
        rw [Function.update_self]
        exact hcmd
      · rw [Function.update_of_ne hyz]
        exact h.served y hy
  | copy i =>
      unfold ZnsSys.act
      dsimp only
      split
      · exact h
      · exact ⟨h.unwritten, h.served⟩
  | release i =>
      unfold ZnsSys.act
      dsimp only
      split
      · exact h
      · refine ⟨⟨?_, ?_, fun z => ?_⟩, h.served⟩
        · show ZonesCounted c (ZnsFtl.setBuf _ _ _).toZoneTable
          rw [ZnsFtl.setBuf_toZoneTable]
          exact h.unwritten.counted
        · show ∀ z, z < c.zp.nrZones → ((ZnsFtl.setBuf _ _ _).toZoneTable.zoneDescs z).zrwav = true →
            ((ZnsFtl.setBuf _ _ _).toZoneTable.zoneDescs z).wp = ((ZnsFtl.setBuf _ _ _).toZoneTable.zoneDescs z).zslba
          rw [ZnsFtl.setBuf_toZoneTable]
          exact h.unwritten.unwritten
        · refine Eq.trans (setBuf_size s.ftl ?_ _) (h.unwritten.sized z)
          rfl

theorem ZnsSys.act_traps (ho : c.ZrwaOff) (hw : c.NoWrap) {s : ZnsSys τ} {a : ZnsAct} (hin : s.InNamespace c a)
    (h : s.Sound c) (ht : s.Traps c a) : s.act c L a = .error .bug := by
  cases a with
  | dispatch slot sqId now =>
      have hserved : NvmeCommand.Served c (NvmevRequest.mk (s.slots slot) sqId now).cmd := h.served slot hin
      have hbug : znsProcNvmeIoCmd c L ⟨s.slots slot, sqId, now⟩ s.ftl = .error .bug := by
        by_cases hs : (s.slots slot).Strayed c
        · exact znsProcNvmeIoCmd_strayed ho.toWf L hs s.ftl
        · exact znsProcNvmeIoCmd_traps ho hw L hserved h.unwritten hs (ht.resolve_right hs)
      unfold ZnsSys.act
      dsimp only
      rw [hbug]
      rfl
  | submit | copy | release => exact ht.elim

theorem zrwaUnwritten_init (hc : c.Wf) (tm : τ) : ZrwaUnwritten c (znsInitFtl c tm) where
  counted := counted_init hc tm
  unwritten := fun _ _ hzr => absurd hzr (by simp [znsInitFtl])
  sized := by
    intro z
    unfold writeBufferOf ZnsConfig.wbSize
    split <;> rfl

theorem ZnsRun.sound (ho : c.ZrwaOff) (hw : c.NoWrap) (hwb : znsMaxTransfer ≤ c.wbSize) {s : ZnsSys τ}
    (hr : ZnsRun c L (ZnsSys.InNamespace c) s) : s.Sound c := by
  induction hr with
  | boot tm slots => exact ⟨zrwaUnwritten_init ho.toWf tm, fun _ hf => absurd hf Bool.false_ne_true⟩
  | @step s s' a _ hin hact ih =>
      -- an action that returned was no trapping one
      have hno : ¬ s.Traps c a := by
        intro ht
        rw [ZnsSys.act_traps ho hw hin ih ht] at hact
        cases hact
      exact (ZnsSys.act_sound ho hw hwb hin ih hno).of_eq_ok hact

/-! ## The shipped targets -/

/-- The two zoned targets. -/
def ZnsTarget.Shipped (t : ZnsTarget) : Prop := t = znsPrototype ∨ t = wdZn540

/-- **The divisors of the handlers** besides the flush granularity. -/
structure ZnsConfig.DivisorsPos (c : ZnsConfig) : Prop where
  secsz : 0 < c.sp.secsz
  secsPerPg : 0 < c.sp.secsPerPg
  pgsz : 0 < c.sp.pgsz
  writeUnitSize : 0 < c.sp.writeUnitSize
  pgsPerOneshotpg : 0 < c.sp.pgsPerOneshotpg
  pgsPerFlashpg : 0 < c.sp.pgsPerFlashpg
  oneshotBytes : 0 < c.oneshotBytes
  ttLuns : 0 < c.sp.ttLuns
  nchs : 0 < c.sp.nchs
  diesPerZone : 0 < c.zp.diesPerZone
  zoneLbas : 0 < c.zoneLbas
  zonePgs : 0 < c.zonePgs
  cellMode : 0 < c.cellMode

/-- `NAND_CHANNEL_BANDWIDTH` and `PCIE_BANDWIDTH` of the two targets -/
def znsBandwidths : List UInt64 := [800, 3200, 450, 3050]

theorem znsPrototype_wf : (znsInitParams znsPrototype 0 0).Wf := by constructor <;> decide

section Shipped

variable {t : ZnsTarget} (ht : t.Shipped) (capacity uninit : Nat)
include ht

theorem ZnsTarget.Shipped.zrwaOff : (znsInitParams t capacity uninit).ZrwaOff := by
  rcases ht with rfl | rfl
  · exact ⟨znsPrototype_wf.any_size _ _, Nat.zero_div _, Nat.zero_div _, rfl⟩
  · exact ⟨wdZn540_wf.any_size _ _, Nat.zero_div _, Nat.zero_div _, rfl⟩

theorem ZnsTarget.Shipped.maxTransfer_le : znsMaxTransfer ≤ (znsInitParams t capacity uninit).wbSize := by
  rcases ht with rfl | rfl
  · exact (by decide : 2 ^ 6 * 4096 ≤ 8 * 16 * (64 * 2 ^ 10 * 2) * 2)
  · exact (by decide : 2 ^ 6 * 4096 ≤ 10 * (32 * 2 ^ 10 * 3))

theorem ZnsTarget.Shipped.noWrap : (znsInitParams t capacity uninit).NoWrap := by
  intro cmd hz hlen
  have hc := (ht.zrwaOff capacity uninit).toWf
  have hzones := hc.nrZones_lt
  have hlt := cmd.slba.toNat_lt
  simp only [lbaToByte, znsMaxTransfer] at hlen
  -- the last zone number of 32 bits is not one of the device
  have hsize : (znsInitParams t capacity uninit).zoneLbas = 65536 ∨
      (znsInitParams t capacity uninit).zoneLbas = 4194304 := by
    rw [hc.zoneLbas_eq]
    rcases ht with rfl | rfl
    · exact Or.inl (by decide : 32 * 2 ^ 20 / 512 = 65536)
    · exact Or.inr (by decide : 2 * 2 ^ 30 / 512 = 4194304)
  simp only [lbaToZone, u32] at hz
  rcases hsize with hsize | hsize
  all_goals
    rw [hsize] at hz
    omega

theorem ZnsTarget.Shipped.divisorsPos : (znsInitParams t capacity uninit).DivisorsPos := by
  have hc := (ht.zrwaOff capacity uninit).toWf
  have hpgsz : 0 < (znsInitParams t capacity uninit).sp.pgsz := by
    rw [hc.pgsz_eq]
    decide
  refine
    { secsz := by rw [hc.secsz_eq]; decide
      secsPerPg := by rw [hc.secsPerPg_eq]; decide
      pgsz := hpgsz
      writeUnitSize := ?_
      pgsPerOneshotpg := hc.pgsPerOneshotpg_pos
      pgsPerFlashpg := ?_
      oneshotBytes := Nat.mul_pos hc.pgsPerOneshotpg_pos hpgsz
      ttLuns := ?_
      nchs := ?_
      diesPerZone := ?_
      zoneLbas := hc.zoneLbas_pos
      zonePgs := hc.zonePgs_pos
      cellMode := ?_ }
  all_goals rcases ht with rfl | rfl
  · exact (by decide : 0 < 64 * 2 ^ 10 * 2)
  · exact (by decide : 0 < 512)
  · exact (by decide : 0 < 64 * 2 ^ 10 / (2 ^ 9 * (4096 / 2 ^ 9)))
  · exact (by decide : 0 < 32 * 2 ^ 10 / (2 ^ 9 * (4096 / 2 ^ 9)))
  · exact (by decide : 0 < 16 * (8 / 1))
  · exact (by decide : 0 < 4 * (8 / 1))
  · exact (by decide : 0 < 8 / 1)
  · exact (by decide : 0 < 8 / 1)
  · exact (by decide : 0 < 1)
  · exact (by decide : 0 < 8 * 4)
  · exact (by decide : 0 < 3)
  · exact (by decide : 0 < 3)

end Shipped

/-- The channels of the two targets divide by a number of credits that is not zero. -/
theorem znsBandwidths_credits {bandwidth : UInt64} (h : bandwidth ∈ znsBandwidths) :
    0 < bandwidthToMaxCredits bandwidth := by
  simp only [znsBandwidths, List.mem_cons, List.not_mem_nil, or_false] at h
  rcases h with rfl | rfl | rfl | rfl <;> decide

/-- **Traps of a zoned namespace.** On both shipped targets, of any size, after the host has submitted any commands
    inside the namespace: the next action returns exactly if it does not dispatch a write to the first zone or a flush
    of it while that zone is in ZRWA mode (a write: and not FULL), nor dispatch again an append to whose entry the
    module has written an address past the zone tables. No other divisor of the handlers is zero, and no call of the
    channel model on the way fails its assertion or divides by zero. -/
theorem zns_returns_iff {t : ZnsTarget} (ht : t.Shipped) (capacity uninit : Nat) {s : ZnsSys τ}
    (hr : ZnsRun (znsInitParams t capacity uninit) L (ZnsSys.InNamespace (znsInitParams t capacity uninit)) s)
    {a : ZnsAct} (hin : s.InNamespace (znsInitParams t capacity uninit) a) :
    ((∃ s', s.act (znsInitParams t capacity uninit) L a = .ok s') ↔
        ¬ s.Traps (znsInitParams t capacity uninit) a) ∧
      (znsInitParams t capacity uninit).DivisorsPos ∧
      ∀ bandwidth ∈ znsBandwidths, ∀ credits xferLat, ∀ calls : List ChannelCall,
        ∃ ch, calls.foldlM (fun ch call => do return (← chmodelRequest ch call).2)
          (channelBoot credits bandwidth xferLat) = .ok ch ∧ 0 < bandwidthToMaxCredits bandwidth := by
  have ho := ht.zrwaOff capacity uninit
  have hw := ht.noWrap capacity uninit
  have hwb := ht.maxTransfer_le capacity uninit
  have h := hr.sound ho hw hwb
  refine ⟨⟨?_, fun hno => ?_⟩, ht.divisorsPos capacity uninit, ?_⟩
  · rintro ⟨s', hok⟩ htrap
    rw [ZnsSys.act_traps ho hw hin h htrap] at hok
    cases hok
  · obtain ⟨s', hok, -⟩ := (ZnsSys.act_sound ho hw hwb hin h hno).exists_ok
    exact ⟨s', hok⟩
  · intro bandwidth hb credits xferLat calls
    have hboot : (channelBoot credits bandwidth xferLat).Bounded := ⟨(by decide : 0 < nrCreditEntries), Nat.zero_le _⟩
    have hcalls : Sat (fun _ => False) ChannelModel.Bounded
        (calls.foldlM (fun ch call => do return (← chmodelRequest ch call).2)
          (channelBoot credits bandwidth xferLat)) := by
      refine sat_foldlM_const calls ?_ hboot
      intro call _ ch hch
      exact (chmodelRequest_bounded hch call).bind fun _ hr => hr
    obtain ⟨ch, hok, -⟩ := hcalls.exists_ok
    exact ⟨ch, hok, znsBandwidths_credits hb⟩

/-- The first zone is in ZRWA mode and the second one written: an append to the second one, to whose entry the module
    has written the write pointer, is dispatched again. -/
theorem zns_returns_again :
    ∃ s : ZnsSys Unit, ((s.ftl.zoneDescs 0).zrwav, (s.slots 1).slba) = (true, 4194312) ∧
      ∃ s', s.act wdSmall .instant (.dispatch 1 1 0) = .ok s' := by
  obtain ⟨s, hrun, hobs⟩ := exists_znsRun wdSmall (fun s a => decide (s.InNamespace wdSmall a))
    (sendActs 0 (mgmtCmd 0 0x203) ++ sendActs 0 (znsCmd .write 4194304 8) ++ sendActs 1 (znsCmd .zoneAppend 4194304 8))
    (fun s => (((s.ftl.zoneDescs 0).zrwav, (s.slots 1).slba), (s.slots 1).opcode,
      decide (s.InNamespace wdSmall (.dispatch 1 1 0)))) ((true, 4194312), .zoneAppend, true) (by decide +kernel)
  simp only [Prod.mk.injEq, decide_eq_true_eq] at hobs
  obtain ⟨⟨hzr, hslba⟩, hop, hin⟩ := hobs
  have hr : ZnsRun wdSmall .instant (ZnsSys.InNamespace wdSmall) s := hrun.mono fun _ _ hg => of_decide_eq_true hg
  refine ⟨s, by rw [hzr, hslba], (zns_returns_iff (Or.inr rfl) (8 * 2 ^ 30) 0 hr hin).1.mpr ?_⟩
  have hzone : lbaToZone wdSmall (s.slots 1).slba.toNat = 1 := by
    rw [hslba]
    decide +kernel
  rintro (⟨-, ⟨-, h0, -⟩ | ⟨hmgmt, -⟩⟩ | ⟨-, hle⟩)
  · exact absurd (hzone.symm.trans h0) (by decide)
  · exact absurd (hop.symm.trans hmgmt) (by decide)
  · exact absurd hle (by rw [show lbaToZone (znsInitParams wdZn540 (8 * 2 ^ 30) 0) _ = 1 from hzone]; decide +kernel)

/-- The fault an action stops with. -/
def ZnsSys.fault (c : ZnsConfig) (s : ZnsSys Unit) (a : ZnsAct) : Option Fault :=
  match s.act c .instant a with
  | .error e => some e
  | .ok _ => none

theorem ZnsSys.act_of_fault {s : ZnsSys Unit} {a : ZnsAct} {e : Fault} (h : s.fault c a = some e) :
    s.act c .instant a = .error e := by
  unfold ZnsSys.fault at h
  split at h
  · rename_i hact
    rw [hact, Option.some.inj h]
  · cases h

/-- `ZNS_PROTOTYPE` with one zone. -/
def prototypeZone : ZnsConfig := znsInitParams znsPrototype (32 * 2 ^ 20) 0

/-- **Stopping the module**: the first zone opened with the option bit, and a write to it. And a device of one zone
    written to its end, and an append to that zone: the buffer is short, the append is dispatched again, and its
    address is now the end of the device. -/
theorem zns_write_traps :
    (∃ s : ZnsSys Unit, ZnsRun wdSmall .instant (ZnsSys.InNamespace wdSmall) s ∧
      s.InNamespace wdSmall (.dispatch 0 1 0) ∧
      s.act wdSmall .instant (.dispatch 0 1 0) = .error .bug) ∧
    ∃ s : ZnsSys Unit, ZnsRun prototypeZone .instant (ZnsSys.InNamespace prototypeZone) s ∧
      s.InNamespace prototypeZone (.dispatch 0 1 0) ∧ (s.slots 0).slba = 65536 ∧
      s.act prototypeZone .instant (.dispatch 0 1 0) = .error .bug := by
  constructor
  · obtain ⟨s, hrun, hobs⟩ := exists_znsRun wdSmall (fun s a => decide (s.InNamespace wdSmall a))
      (sendActs 0 (mgmtCmd 0 0x203) ++ [.submit 0 (znsCmd .write 0 8)])
      (fun s => (decide (s.InNamespace wdSmall (.dispatch 0 1 0)), s.fault wdSmall (.dispatch 0 1 0)))
      (true, some .bug) (by decide +kernel)
    obtain ⟨hin, htrap⟩ := Prod.mk.inj hobs
    exact ⟨s, hrun.mono fun _ _ hg => of_decide_eq_true hg, of_decide_eq_true hin, ZnsSys.act_of_fault htrap⟩
  · obtain ⟨s, hrun, hobs⟩ := exists_znsRun prototypeZone (fun s a => decide (s.InNamespace prototypeZone a))
      (((List.range 128).map fun i => sendActs 0 (znsCmd .write (UInt64.ofNat (512 * i)) 512)).flatten ++
        sendActs 0 (znsCmd .zoneAppend 0 256))
      (fun s => (decide (s.InNamespace prototypeZone (.dispatch 0 1 0)), (s.slots 0).slba,
        s.fault prototypeZone (.dispatch 0 1 0)))
      (true, 65536, some .bug) (by decide +kernel)
    simp only [Prod.mk.injEq, decide_eq_true_eq] at hobs
    obtain ⟨hin, hslba, htrap⟩ := hobs
    exact ⟨s, hrun.mono fun _ _ hg => of_decide_eq_true hg, hin, hslba, ZnsSys.act_of_fault htrap⟩

end NvmeVirt
