import NvmeVirt.Zns.Moves

/-!
# `Zns.Dispatch` — every command refines the zone state machine

Every handler takes the zone table along moves of the machine, of the kinds its command stands for
(`znsProcNvmeIoCmd_moves`). So the invariants of `Zns.Machine` hold after every command, also after one that
was refused or completed with an error.
-/

namespace NvmeVirt

open Outcome

variable {τ : Type} {c : ZnsConfig}

/-! ## Zone management -/

/-- The kinds of transitions an action stands for. -/
def ZoneSendAction.Drives (a : ZoneSendAction) (option : Bool) : ZoneKind → Prop
  | .manage => a = .closeZone ∨ a = .openZone
  | .finish => a = .finishZone
  | .openZrwa => a = .openZone ∧ option = true
  | .reset => a = .resetZone
  | .flush => a = .flushExplZrwa
  | .write => False

/-- What an action may do: moves of the kinds in `K`, and no write buffer of a zone touched. -/
def Managed (c : ZnsConfig) (K : Nat → ZoneKind → Prop) (s s' : ZnsFtl τ) : Prop :=
  ZoneMoves c K s.toZoneTable s'.toZoneTable ∧ s'.zoneWriteBuffer = s.zoneWriteBuffer

theorem Managed.refl {K : Nat → ZoneKind → Prop} {s : ZnsFtl τ} : Managed c K s s := ⟨.refl, rfl⟩

theorem Managed.trans {K : Nat → ZoneKind → Prop} {s s' s'' : ZnsFtl τ} (h : Managed c K s s')
    (h' : Managed c K s' s'') : Managed c K s s'' :=
  ⟨h.1.trans h'.1, h'.2.trans h.2⟩

section Actions

variable {s : ZnsFtl τ} (h : ZonesCounted c s.toZoneTable) (hc : c.Wf) {z : Nat} (hz : z < c.zp.nrZones)
include h hc hz

theorem zmgmtSendCloseZone_managed {K : Nat → ZoneKind → Prop} (hK : K z .manage) :
    Managed c K s (zmgmtSendCloseZone z s).2 := by
  have hclose : (s.zoneDescs z).state.Opened →
      Managed c K s (releaseZoneResource .openZone (changeZoneState z .closed s)) := by
    intro ho
    refine ⟨ZoneMove.moves hK (.of_counters hz (.closes ho) ?_ ?_ (weight_of_opened ho) (weight_of_closed rfl)
      ?_ ?_), rfl⟩
    · simp
    · intro r
      cases r <;> simp
    · simpa using h.release_open hc hz ho
    · simp
  unfold zmgmtSendCloseZone
  cases hd : (s.zoneDescs z).state with
  | openedImpl => exact hclose (Or.inl hd)
  | openedExpl => exact hclose (Or.inr hd)
  | empty | closed | readOnly | full | offline => exact .refl

end Actions

/-- The counters after zone `z` gave up what it holds. -/
inductive GaveUp (z : Nat) (s : ZnsFtl τ) : (ZoneResource → ZoneResourceInfo) → Prop where
  | opened (h : (s.zoneDescs z).state.Opened) :
      GaveUp z s (releaseActive z (releaseZoneResource .openZone s)).resInfos
  | closed (h : (s.zoneDescs z).state = .closed) : GaveUp z s (releaseActive z s).resInfos
  | idle (h : (s.zoneDescs z).state = .empty ∨ (s.zoneDescs z).state = .full) : GaveUp z s s.resInfos

theorem releaseActive_zoneDescs (s : ZnsFtl τ) (z : Nat) : (releaseActive z s).zoneDescs = s.zoneDescs := by
  unfold releaseActive
  split <;> rfl

theorem releaseActive_zoneWriteBuffer (s : ZnsFtl τ) (z : Nat) :
    (releaseActive z s).zoneWriteBuffer = s.zoneWriteBuffer := by
  unfold releaseActive
  split <;> rfl

theorem releaseActive_total (s : ZnsFtl τ) (z : Nat) (r : ZoneResource) :
    ((releaseActive z s).resInfos r).totalCnt = (s.resInfos r).totalCnt := by
  unfold releaseActive
  split <;> cases r <;> simp

theorem releaseActive_open (s : ZnsFtl τ) (z : Nat) :
    ((releaseActive z s).resInfos .openZone) = s.resInfos .openZone := by
  unfold releaseActive
  split <;> simp

theorem releaseActive_active (s : ZnsFtl τ) (z : Nat) :
    ((releaseActive z s).resInfos .activeZone).acquiredCnt = u32Dec (s.resInfos .activeZone).acquiredCnt := by
  unfold releaseActive
  split <;> simp

/-- What a finish can do: nothing, or the zone gives up what it holds and is FULL. -/
theorem zmgmtSendFinishZone_cases (z : Nat) (s : ZnsFtl τ) :
    (zmgmtSendFinishZone z s).2 = s ∨
      ((zmgmtSendFinishZone z s).2.zoneDescs = Function.update s.zoneDescs z { s.zoneDescs z with state := .full } ∧
        (zmgmtSendFinishZone z s).2.zoneWriteBuffer = s.zoneWriteBuffer ∧
        GaveUp z s (zmgmtSendFinishZone z s).2.resInfos) := by
  have hfull : ∀ s1 : ZnsFtl τ, s1.zoneDescs = s.zoneDescs →
      (changeZoneState z .full s1).zoneDescs =
        Function.update s.zoneDescs z { s.zoneDescs z with state := .full } := by
    intro s1 hdescs
    rw [changeZoneState_zoneDescs, hdescs]
  unfold zmgmtSendFinishZone
  cases hd : (s.zoneDescs z).state with
  | openedImpl =>
      exact Or.inr ⟨hfull _ (releaseActive_zoneDescs _ z), releaseActive_zoneWriteBuffer _ z, .opened (Or.inl hd)⟩
  | openedExpl =>
      exact Or.inr ⟨hfull _ (releaseActive_zoneDescs _ z), releaseActive_zoneWriteBuffer _ z, .opened (Or.inr hd)⟩
  | closed => exact Or.inr ⟨hfull _ (releaseActive_zoneDescs _ z), releaseActive_zoneWriteBuffer _ z, .closed hd⟩
  | empty => exact Or.inr ⟨hfull _ rfl, rfl, .idle (Or.inl hd)⟩
  | full | readOnly | offline => exact Or.inl rfl

/-- What a reset can do: nothing, or the zone gives up what it holds and is EMPTY. -/
theorem zmgmtSendResetZone_cases (c : ZnsConfig) (z : Nat) (s : ZnsFtl τ) :
    (zmgmtSendResetZone c z s).2 = s ∨
      ((zmgmtSendResetZone c z s).2.zoneDescs = Function.update s.zoneDescs z
          { s.zoneDescs z with state := .empty, wp := (s.zoneDescs z).zslba, zrwav := false } ∧
        (zmgmtSendResetZone c z s).2.zoneWriteBuffer = s.zoneWriteBuffer ∧
        GaveUp z s (zmgmtSendResetZone c z s).2.resInfos) := by
  have hempty : ∀ s1 : ZnsFtl τ, s1.zoneDescs = s.zoneDescs → s1.zoneWriteBuffer = s.zoneWriteBuffer →
      GaveUp z s s1.resInfos →
      (resetZone c z (changeZoneState z .empty s1)).zoneDescs = Function.update s.zoneDescs z
          { s.zoneDescs z with state := .empty, wp := (s.zoneDescs z).zslba, zrwav := false } ∧
        (resetZone c z (changeZoneState z .empty s1)).zoneWriteBuffer = s.zoneWriteBuffer ∧
        GaveUp z s (resetZone c z (changeZoneState z .empty s1)).resInfos := by
    intro s1 hdescs hbuf hres
    unfold resetZone
    split <;> exact ⟨by simp [ZnsFtl.setBuf, changeZoneState, ZnsFtl.setDesc, hdescs], hbuf, hres⟩
  unfold zmgmtSendResetZone
  cases hd : (s.zoneDescs z).state with
  | openedImpl =>
      exact Or.inr (hempty _ (releaseActive_zoneDescs _ z) (releaseActive_zoneWriteBuffer _ z) (.opened (Or.inl hd)))
  | openedExpl =>
      exact Or.inr (hempty _ (releaseActive_zoneDescs _ z) (releaseActive_zoneWriteBuffer _ z) (.opened (Or.inr hd)))
  | closed =>
      exact Or.inr (hempty _ (releaseActive_zoneDescs _ z) (releaseActive_zoneWriteBuffer _ z) (.closed hd))
  | empty => exact Or.inr (hempty _ rfl rfl (.idle (Or.inl hd)))
  | full => exact Or.inr (hempty _ rfl rfl (.idle (Or.inr hd)))
  | readOnly | offline => exact Or.inl rfl

section Actions

variable {s : ZnsFtl τ} (h : ZonesCounted c s.toZoneTable) (hc : c.Wf) {z : Nat} (hz : z < c.zp.nrZones)
include h hc hz

/-- **Finish and reset**: a zone that gave up what it holds and is EMPTY or FULL then. -/
theorem gaveUp_move {s' : ZoneTable} {k : ZoneKind} {d : ZoneDescriptor}
    (ht : ZoneTrans c z k (s.zoneDescs z) d) (hd : d.state = .empty ∨ d.state = .full)
    (hdescs : s'.zoneDescs = Function.update s.zoneDescs z d) (hres : GaveUp z s s'.resInfos) :
    ZoneMove c z k d s.toZoneTable s' := by
  obtain ⟨descs, infos⟩ := s'
  dsimp only at hdescs hres
  cases hres with
  | opened ho =>
      refine .of_counters hz ht hdescs ?_ (weight_of_opened ho) (weight_of_idle hd) ?_ ?_
      · intro r
        rw [releaseActive_total]
        cases r <;> simp
      · rw [releaseActive_open]
        simpa using h.release_open hc hz ho
      · rw [releaseActive_active]
        simpa using h.release_active hc hz (Or.inl ho)
  | closed hcl =>
      refine .of_counters hz ht hdescs (releaseActive_total s z) (weight_of_closed hcl) (weight_of_idle hd) ?_ ?_
      · rw [releaseActive_open]
      · rw [releaseActive_active]
        exact h.release_active hc hz (Or.inr hcl)
  | idle hi => exact .of_counters hz ht hdescs (fun _ => rfl) (weight_of_idle hi) (weight_of_idle hd) rfl rfl

theorem zmgmtSendFinishZone_managed {K : Nat → ZoneKind → Prop} (hK : K z .finish) :
    Managed c K s (zmgmtSendFinishZone z s).2 := by
  rcases zmgmtSendFinishZone_cases z s with heq | ⟨hdescs, hbuf, hres⟩
  · rw [heq]
    exact .refl
  · exact ⟨ZoneMove.moves hK (gaveUp_move h hc hz .finishes (Or.inr rfl) hdescs hres), hbuf⟩

theorem zmgmtSendResetZone_managed {K : Nat → ZoneKind → Prop} (hK : K z .reset) :
    Managed c K s (zmgmtSendResetZone c z s).2 := by
  rcases zmgmtSendResetZone_cases c z s with heq | ⟨hdescs, hbuf, hres⟩
  · rw [heq]
    exact .refl
  · exact ⟨ZoneMove.moves hK (gaveUp_move h hc hz .resets (Or.inl rfl) hdescs hres), hbuf⟩

omit hc in
theorem zmgmtSendOfflineZone_managed {K : Nat → ZoneKind → Prop} :
    Managed c K s (zmgmtSendOfflineZone z s).2 := by
  unfold zmgmtSendOfflineZone
  -- no zone is ever read-only
  cases hd : (s.zoneDescs z).state with
  | readOnly => exact absurd hd (h.alive z hz).1
  | empty | openedImpl | openedExpl | closed | full | offline => exact .refl

omit h hc in
/-- `case ZONE_STATE_CLOSED` of an open, reached from a closed zone. -/
theorem openClosedExpl_managed {K : Nat → ZoneKind → Prop} (hK : K z .manage)
    (hd : (s.zoneDescs z).state = .closed) : Managed c K s (openClosedExpl z s).2 := by
  unfold openClosedExpl
  by_cases hf : isZoneResourceAvail s .openZone
  · rw [acquireZoneResource_of_avail hf]
    exact ⟨(opens_closed hz (by decide) (Or.inr rfl) hd).moves hK, rfl⟩
  · rw [acquireZoneResource_of_not_avail hf]
    exact .refl

omit h hc in
/-- Opening an empty zone with ZRWA; whether the third counter still had room does not matter here. -/
theorem opensZrwa_managed {K : Nat → ZoneKind → Prop} (hK : K z .openZrwa) (hd : (s.zoneDescs z).state = .empty)
    (ha : isZoneResourceAvail s .activeZone) (ho : isZoneResourceAvail s .openZone) {s1 : ZnsFtl τ}
    (hs1 : s1 = (acquireZoneResource .zrwaZone s).2) :
    Managed c K s (openClosedExpl z
      (acquireZoneResource .activeZone (s1.setDesc z { s1.zoneDescs z with zrwav := true })).2).2 := by
  have hdescs : s1.zoneDescs = s.zoneDescs := by rw [hs1, acquireZoneResource_zoneDescs]
  have hne : ∀ r, r ≠ .zrwaZone → s1.resInfos r = s.resInfos r := by
    intro r hr
    rw [hs1]
    unfold acquireZoneResource
    split
    · exact Function.update_of_ne hr _ _
    · rfl
  have htotal : ∀ r, (s1.resInfos r).totalCnt = (s.resInfos r).totalCnt := by
    intro r
    rw [hs1]
    unfold acquireZoneResource
    split
    · cases r <;> rfl
    · rfl
  have hbuf : s1.zoneWriteBuffer = s.zoneWriteBuffer := by
    rw [hs1]
    unfold acquireZoneResource
    split <;> rfl
  have hopen := hne .openZone (by decide)
  have hactive := hne .activeZone (by decide)
  have ha1 : isZoneResourceAvail (s1.setDesc z { s1.zoneDescs z with zrwav := true }) .activeZone := by
    unfold isZoneResourceAvail
    rw [setDesc_resInfos, hactive]
    exact ha
  have ho1 : isZoneResourceAvail ((s1.setDesc z { s1.zoneDescs z with zrwav := true }).setAcquired .activeZone
      (((s1.setDesc z { s1.zoneDescs z with zrwav := true }).resInfos .activeZone).acquiredCnt + 1)) .openZone := by
    show (s1.resInfos .openZone).acquiredCnt < (s1.resInfos .openZone).totalCnt
    rw [hopen]
    exact ho
  rw [acquireZoneResource_of_avail ha1, openClosedExpl, acquireZoneResource_of_avail ho1]
  refine ⟨ZoneMove.moves hK (.of_counters hz (.opensZrwa hd) ?_ ?_ (weight_of_idle (Or.inl hd))
    (weight_of_opened (Or.inr rfl)) ?_ ?_), hbuf⟩
  · simp [hdescs]
  · intro r
    rw [← htotal r]
    cases r <;> simp
  · simp [hopen]
  · simp [hactive]

omit hc in
theorem zmgmtSendOpenZone_managed {K : Nat → ZoneKind → Prop} {zrwa : Bool} (hK : K z .manage)
    (hzrwa : zrwa = true → K z .openZrwa) : Managed c K s (zmgmtSendOpenZone z zrwa s).2 := by
  unfold zmgmtSendOpenZone
  cases hd : (s.zoneDescs z).state with
  | empty =>
      dsimp only
      split
      · exact .refl
      rename_i ha
      split
      · exact .refl
      rename_i ho
      have hactive := h.active_avail ha
      split
      · rename_i hzr
        split
        · exact .refl
        · exact opensZrwa_managed hz (hzrwa hzr) hd hactive (h.open_avail ho) rfl
      · have hopen : isZoneResourceAvail
            (s.setAcquired .activeZone ((s.resInfos .activeZone).acquiredCnt + 1)) .openZone := h.open_avail ho
        rw [acquireZoneResource_of_avail hactive, openClosedExpl, acquireZoneResource_of_avail hopen]
        exact ⟨(opens_empty hz (by decide) (Or.inr rfl) hd).moves hK, rfl⟩
  | closed => exact openClosedExpl_managed hz hK hd
  | openedImpl =>
      have ho : (s.zoneDescs z).state.Opened := Or.inl hd
      exact ⟨ZoneMove.moves hK (.of_counters hz (.opens (Or.inr (Or.inl ho)) (Or.inr rfl) (by decide)) rfl
        (fun _ => rfl) (weight_of_opened ho) (weight_of_opened (Or.inr rfl)) rfl rfl), rfl⟩
  | openedExpl | full | readOnly | offline => exact .refl

/-- An explicit flush behind `slba`. -/
theorem flushTo_managed {K : Nat → ZoneKind → Prop} {slba : Nat} (hK : K z .flush)
    (hadv : Advance c z (s.zoneDescs z) .flush (u64 (slba + 1))) : Managed c K s (flushTo c z slba s).2 := by
  unfold flushTo
  dsimp only
  have hmoved : (s.zoneDescs z).state.Active → u64 (slba + 1) ≠ zoneToSlba c z + (s.zoneDescs z).zoneCapacity →
      Managed c K s (s.setDesc z { s.zoneDescs z with wp := u64 (slba + 1) }) := by
    intro ha hne
    exact ⟨ZoneMove.moves hK
      { lt := hz, trans := .advances ha hadv hne, descs := rfl, total := fun _ => rfl, opened := rfl,
        active := rfl }, rfl⟩
  have hopened : (s.zoneDescs z).state.Opened → u64 (slba + 1) = zoneToSlba c z + (s.zoneDescs z).zoneCapacity →
      Managed c K s (changeZoneState z .full (releaseZoneResource .zrwaZone (releaseZoneResource .activeZone
        (releaseZoneResource .openZone (s.setDesc z { s.zoneDescs z with wp := u64 (slba + 1) }))))) := by
    intro ho heq
    refine ⟨ZoneMove.moves hK (.of_counters hz (.fills (Or.inl ho) hadv heq) ?_ ?_ (weight_of_opened ho)
      (weight_of_idle (Or.inr rfl)) ?_ ?_), rfl⟩
    · simp
    · intro r
      cases r <;> simp
    · simpa using h.release_open hc hz ho
    · simpa using h.release_active hc hz (Or.inl ho)
  split
  · rename_i hd
    split
    · exact hopened (Or.inr hd) (by assumption)
    · exact hmoved (Or.inl (Or.inr hd)) (by assumption)
  · rename_i hd
    split
    · exact hopened (Or.inl hd) (by assumption)
    · exact hmoved (Or.inl (Or.inl hd)) (by assumption)
  · rename_i hd
    split
    · rename_i heq
      refine ⟨ZoneMove.moves hK (.of_counters hz (.fills (Or.inr hd) hadv heq) ?_ ?_ (weight_of_closed hd)
        (weight_of_idle (Or.inr rfl)) ?_ ?_), rfl⟩
      · simp
      · intro r
        cases r <;> simp
      · simp
      · simpa using h.release_active hc hz (Or.inr hd)
    · exact hmoved (Or.inr hd) (by assumption)
  · exact .refl

end Actions

theorem zmgmtSendFlushExplicitZrwa_managed (hc : c.Wf) {s : ZnsFtl τ} (h : ZonesCounted c s.toZoneTable) {slba : Nat}
    (hslba : slba < 2 ^ 64) (hz : lbaToZone c slba < c.zp.nrZones) {K : Nat → ZoneKind → Prop}
    (hK : K (lbaToZone c slba) .flush) :
    Sat (fun _ => True) (fun r => Managed c K s r.2) (zmgmtSendFlushExplicitZrwa c slba s) := by
  unfold zmgmtSendFlushExplicitZrwa
  generalize lbaToZone c slba = z at hz hK ⊢
  dsimp only
  split
  · exact .refl
  rename_i hzr
  split
  · exact .refl
  rename_i hrange
  refine sat_nvmevAssert_bind trivial fun _ => ?_
  split
  · exact .refl
  refine flushTo_managed h hc hz hK (.flush (by simpa using hzr) (Nat.mod_lt _ (by decide)) ?_)
  intro hc2 _ hzlt hroom
  obtain ⟨h1, h2⟩ := not_not.mp hrange
  have h2 := Nat.le_trans h2 (Nat.min_le_right _ _)
  have hpos := hc.zoneLbas_pos
  have hend := hc2.zone_end_lt hzlt
  rw [hc2.zoneToSlba_eq (Nat.le_of_lt hzlt), hroom.cap_eq] at h2
  rw [hroom.zslba_eq, hroom.cap_eq]
  rw [Nat.succ_mul] at hend
  rw [u64_of_lt (by omega)]
  omega

/-- **Every action takes its zone along transitions of its kinds.** -/
theorem zmgmtSend_managed (hc : c.Wf) {s : ZnsFtl τ} (h : ZonesCounted c s.toZoneTable) {slba : Nat}
    (hslba : slba < 2 ^ 64) {action : ZoneSendAction} {option : Bool} {K : Nat → ZoneKind → Prop}
    (hK : ∀ k, action.Drives option k → K (lbaToZone c slba) k) :
    Sat (fun _ => True) (fun r => Managed c K s r.2) (zmgmtSend c slba action option s) := by
  cases action with
  | other => exact .refl
  | closeZone =>
      refine sat_nvmevAssert_bind trivial fun hz => ?_
      exact zmgmtSendCloseZone_managed h hc hz (hK .manage (Or.inl rfl))
  | finishZone =>
      refine sat_nvmevAssert_bind trivial fun hz => ?_
      exact zmgmtSendFinishZone_managed h hc hz (hK .finish rfl)
  | openZone =>
      refine sat_nvmevAssert_bind trivial fun hz => ?_
      exact zmgmtSendOpenZone_managed h hz (hK .manage (Or.inr rfl))
        (fun ho => hK .openZrwa ⟨rfl, ho⟩)
  | resetZone =>
      refine sat_nvmevAssert_bind trivial fun hz => ?_
      exact zmgmtSendResetZone_managed h hc hz (hK .reset rfl)
  | offlineZone =>
      refine sat_nvmevAssert_bind trivial fun hz => ?_
      exact zmgmtSendOfflineZone_managed h hz
  | flushExplZrwa =>
      refine sat_nvmevAssert_bind trivial fun hz => ?_
      exact zmgmtSendFlushExplicitZrwa_managed hc h hslba hz (hK .flush rfl)

theorem zoneToSlba_lt (z : Nat) : zoneToSlba c z < 2 ^ 64 :=
  Nat.lt_trans (Nat.mod_lt _ (by decide)) (by decide)

/-- The loop over all zones: each round is an action of its own. -/
theorem zmgmtSendAll_managed (hc : c.Wf) {s : ZnsFtl τ} (h : ZonesCounted c s.toZoneTable) {action : ZoneSendAction}
    {option : Bool} {K : Nat → ZoneKind → Prop} (hK : ∀ y k, action.Drives option k → K y k) :
    Sat (fun _ => True) (Managed c K s) (zmgmtSendAll c action option s) := by
  unfold zmgmtSendAll
  refine sat_foldlM_const (I := Managed c K s) _ ?_ .refl
  intro z _ s1 hs1
  refine (zmgmtSend_managed hc (h.moves hs1.1) (zoneToSlba_lt z) (hK _)).bind fun r hr => ?_
  exact hs1.trans hr

/-! ## Dispatch -/

/-- The zones and kinds of transitions a command stands for. -/
def NvmeCommand.Drives (c : ZnsConfig) (cmd : NvmeCommand) (z : Nat) (k : ZoneKind) : Prop :=
  match cmd.opcode with
  | .write | .zoneAppend => z = lbaToZone c cmd.slba.toNat ∧ (k = .write ∨ k = .flush)
  | .zoneMgmtSend => cmd.zsa.Drives cmd.zsaso k ∧ (cmd.selectAll = true ∨ z = lbaToZone c cmd.slba.toNat)
  | _ => False

theorem znsZmgmtSend_managed (hc : c.Wf) {s : ZnsFtl τ} (h : ZonesCounted c s.toZoneTable) (req : NvmevRequest)
    (hop : req.cmd.opcode = .zoneMgmtSend) :
    Sat (fun _ => True) (fun r => Managed c (req.cmd.Drives c) s r.2) (znsZmgmtSend c req s) := by
  have hdrives : ∀ y k, req.cmd.zsa.Drives req.cmd.zsaso k →
      (req.cmd.selectAll = true ∨ y = lbaToZone c req.cmd.slba.toNat) → req.cmd.Drives c y k := by
    intro y k hk hy
    unfold NvmeCommand.Drives
    rw [hop]
    exact ⟨hk, hy⟩
  unfold znsZmgmtSend
  dsimp only
  split
  · rename_i hall
    refine (zmgmtSendAll_managed hc h fun y k hk => hdrives y k hk (Or.inl hall)).bind fun s1 hs1 => ?_
    exact hs1
  · refine (zmgmtSend_managed hc h req.cmd.slba.toNat_lt fun k hk => hdrives _ k hk (Or.inr rfl)).bind ?_
    intro r hr
    exact hr

theorem znsProcNvmeIoCmd_write {L : ZnsLatency τ} {req : NvmevRequest} {s : ZnsFtl τ}
    (hop : req.cmd.opcode = .write ∨ req.cmd.opcode = .zoneAppend) :
    znsProcNvmeIoCmd c L req s = znsWrite c L req s := by
  unfold znsProcNvmeIoCmd
  rcases hop with hop | hop <;> simp only [hop]

/-- A write goes to one of the two functions by the ZRWA flag of its zone. -/
theorem znsWrite_eq (hc : c.Wf) (L : ZnsLatency τ) (req : NvmevRequest) (s : ZnsFtl τ) :
    znsWrite c L req s = nvmevAssert (lbaToZone c req.cmd.slba.toNat < c.zp.nrZones) >>= fun _ =>
      if (s.zoneDescs (lbaToZone c req.cmd.slba.toNat)).zrwav = false then znsWriteSeq c L req s
      else znsWriteZrwa c L req s := by
  unfold znsWrite
  rw [hc.lpnToZone_lbaToLpn]

theorem ZnsWriteOutcome.moves {L : ZnsLatency τ} {req : NvmevRequest} {s : ZnsFtl τ} {z : Nat}
    {r : ZnsReply × ZnsFtl τ} (h : ZnsWriteOutcome c L req s z r) :
    ZoneMoves c (fun y k => y = z ∧ k = .write) s.toZoneTable r.2.toZoneTable := by
  cases h with
  | refused _ => exact .refl
  | failed _ _ _ =>
      dsimp only
      rw [charged_toZoneTable]
      exact .refl
  | done _ _ _ _ _ _ hmoves => exact hmoves

theorem ZoneMoves.mono {K K' : Nat → ZoneKind → Prop} (hK : ∀ y k, K y k → K' y k) {s s' : ZoneTable}
    (h : ZoneMoves c K s s') : ZoneMoves c K' s s' := by
  induction h with
  | refl => exact .refl
  | tail _ hk hm ih => exact .tail ih (hK _ _ hk) hm

/-- **Refinement**: whatever a command does to the zones and the counters, the zone state machine can do, by
    transitions the command stands for. -/
theorem znsProcNvmeIoCmd_moves (hc : c.Wf) (L : ZnsLatency τ) (req : NvmevRequest) {s : ZnsFtl τ}
    (h : ZonesCounted c s.toZoneTable) :
    Sat (fun _ => True) (fun r => ZoneMoves c (req.cmd.Drives c) s.toZoneTable r.2.toZoneTable)
      (znsProcNvmeIoCmd c L req s) := by
  have hwrite : req.cmd.opcode = .write ∨ req.cmd.opcode = .zoneAppend →
      Sat (fun _ => True) (fun r => ZoneMoves c (req.cmd.Drives c) s.toZoneTable r.2.toZoneTable)
        (znsWrite c L req s) := by
    intro hop
    have hdrives : ∀ y k, y = lbaToZone c req.cmd.slba.toNat ∧ (k = .write ∨ k = .flush) →
        req.cmd.Drives c y k := by
      intro y k hk
      unfold NvmeCommand.Drives
      rcases hop with hop | hop <;> rw [hop] <;> exact hk
    rw [znsWrite_eq hc]
    refine sat_nvmevAssert_bind trivial fun _ => ?_
    split
    · rename_i hz
      refine (znsWriteSeq_outcome hc L req h hz).mono fun r hr => hr.2.moves.mono ?_
      intro y k hk
      exact hdrives y k ⟨hk.1, Or.inl hk.2⟩
    · rename_i hz
      refine (znsWriteZrwa_moves hc L req h (by simpa using hz)).mono fun r hr => hr.mono ?_
      intro y k hk
      exact hdrives y k ⟨hk.1, Or.inr hk.2⟩
  unfold znsProcNvmeIoCmd
  cases hop : req.cmd.opcode with
  | write => exact hwrite (Or.inl hop)
  | zoneAppend => exact hwrite (Or.inr hop)
  | read =>
      refine sat_nvmevAssert_bind trivial fun _ => ?_
      exact .refl
  | zoneMgmtSend => exact (znsZmgmtSend_managed hc h req hop).mono fun r hr => hr.1
  | flush | zoneMgmtRecv | other => exact .refl

end NvmeVirt
