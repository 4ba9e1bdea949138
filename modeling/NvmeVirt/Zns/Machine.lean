import NvmeVirt.Lib.Counting
import NvmeVirt.Zns.State

/-!
# `Zns.Machine` — the zone state machine

What the handlers can do to the zone descriptors and the resource counters, stated apart from how they do it:
a **move** takes one zone along one transition of `ZoneTrans` and changes the counters by what the zone's old
and new states weigh. Two invariants follow from that alone:

* `ZonesCounted` — the counters count the zones. It holds on every device.
* `Fits` — the write pointer lies in its zone, and at the end of it only in a FULL zone. It needs the start
  addresses of the zones to fit 32 bits (`Below2Tib`), and for a zone opened with ZRWA a flush granularity that
  is not larger than the ZRWA itself.
-/

namespace NvmeVirt

open Counting

/-! ## Transitions of one zone -/

/-- Implicitly or explicitly opened. -/
def ZoneState.Opened (st : ZoneState) : Prop := st = .openedImpl ∨ st = .openedExpl

/-- Opened or closed. -/
def ZoneState.Active (st : ZoneState) : Prop := st.Opened ∨ st = .closed

instance : DecidablePred ZoneState.Opened := fun st => inferInstanceAs (Decidable (st = _ ∨ st = _))

instance : DecidablePred ZoneState.Active := fun st => inferInstanceAs (Decidable (st.Opened ∨ st = _))

/-- What drives a zone: a write, a move of the write pointer by ZRWA, an open with ZRWA, a reset, a finish, or
    any other zone management action. -/
inductive ZoneKind where
  | write | flush | openZrwa | reset | finish | manage
deriving DecidableEq, Repr

variable (c : ZnsConfig)

/-- A zone that is where `__init_descriptor` put it, with its write pointer before the end. -/
structure ZoneDescriptor.Room (z : Nat) (d : ZoneDescriptor) : Prop where
  zslba_eq : d.zslba = z * c.zoneLbas
  cap_eq : d.zoneCapacity = c.zoneLbas
  le_wp : d.zslba ≤ d.wp
  wp_lt : d.wp < d.zslba + d.zoneCapacity

/-- `ZRWA` parameters under which an implicit flush stays behind the last written block. -/
def ZnsConfig.ZrwaSane : Prop := c.zp.lbasPerZrwafg ≤ c.zp.lbasPerZrwa

instance : Decidable c.ZrwaSane := inferInstanceAs (Decidable (_ ≤ _))

/-- Where the write pointer of zone `z` may go. -/
inductive Advance (z : Nat) (d : ZoneDescriptor) : ZoneKind → Nat → Prop where
  /-- A write of `nrLba` blocks that passed the boundary check. -/
  | write {nrLba : Nat} (hz : d.zrwav = false) (hpos : 0 < nrLba) (hle : nrLba ≤ 65536)
      (hb : lbaToZone c d.wp = lbaToZone c (u64 (d.wp + nrLba - 1))) : Advance z d .write (u64 (d.wp + nrLba))
  /-- A flush; with sane parameters it stays in a zone that has room. -/
  | flush {wp : Nat} (hz : d.zrwav = true) (hlt : wp < 2 ^ 64)
      (hin : c.Below2Tib → c.ZrwaSane → z < c.zp.nrZones → d.Room c z →
        d.wp ≤ wp ∧ wp ≤ d.zslba + d.zoneCapacity) : Advance z d .flush wp

/-- **The transitions of a zone.** -/
inductive ZoneTrans (z : Nat) : ZoneKind → ZoneDescriptor → ZoneDescriptor → Prop where
  | opens {d : ZoneDescriptor} {k : ZoneKind} {st : ZoneState} (hd : d.state = .empty ∨ d.state.Active)
      (hst : st.Opened) (hk : k ≠ .reset) : ZoneTrans z k d { d with state := st }
  | opensZrwa {d : ZoneDescriptor} (hd : d.state = .empty) :
      ZoneTrans z .openZrwa d { d with state := .openedExpl, zrwav := true }
  | closes {d : ZoneDescriptor} (hd : d.state.Opened) : ZoneTrans z .manage d { d with state := .closed }
  | finishes {d : ZoneDescriptor} : ZoneTrans z .finish d { d with state := .full }
  | resets {d : ZoneDescriptor} :
      ZoneTrans z .reset d { d with state := .empty, wp := d.zslba, zrwav := false }
  | advances {d : ZoneDescriptor} {k : ZoneKind} {wp : Nat} (hd : d.state.Active) (h : Advance c z d k wp)
      (hne : wp ≠ zoneToSlba c z + d.zoneCapacity) : ZoneTrans z k d { d with wp := wp }
  | fills {d : ZoneDescriptor} {k : ZoneKind} {wp : Nat} (hd : d.state.Active) (h : Advance c z d k wp)
      (heq : wp = zoneToSlba c z + d.zoneCapacity) : ZoneTrans z k d { d with wp := wp, state := .full }

/-- What a zone weighs in the counter of the zones in a state `P`. -/
def ZoneDescriptor.weight (P : ZoneState → Prop) [DecidablePred P] (d : ZoneDescriptor) : Nat :=
  if P d.state then 1 else 0

/-- **One move** of the table: zone `z` becomes `d`. -/
structure ZoneMove (z : Nat) (k : ZoneKind) (d : ZoneDescriptor) (s s' : ZoneTable) : Prop where
  lt : z < c.zp.nrZones
  trans : ZoneTrans c z k (s.zoneDescs z) d
  descs : s'.zoneDescs = Function.update s.zoneDescs z d
  total : ∀ r, (s'.resInfos r).totalCnt = (s.resInfos r).totalCnt
  opened : (s'.resInfos .openZone).acquiredCnt + (s.zoneDescs z).weight ZoneState.Opened =
    (s.resInfos .openZone).acquiredCnt + d.weight ZoneState.Opened
  active : (s'.resInfos .activeZone).acquiredCnt + (s.zoneDescs z).weight ZoneState.Active =
    (s.resInfos .activeZone).acquiredCnt + d.weight ZoneState.Active

/-- **Moves** of the kinds `K` admits, one after the other. -/
inductive ZoneMoves (K : Nat → ZoneKind → Prop) : ZoneTable → ZoneTable → Prop where
  | refl {s : ZoneTable} : ZoneMoves K s s
  | tail {s s' s'' : ZoneTable} {z : Nat} {k : ZoneKind} {d : ZoneDescriptor} (h : ZoneMoves K s s')
      (hk : K z k) (hm : ZoneMove c z k d s' s'') : ZoneMoves K s s''

variable {c} {K K' : Nat → ZoneKind → Prop} {s s' s'' : ZoneTable}

theorem ZoneMove.moves {z : Nat} {k : ZoneKind} {d : ZoneDescriptor} (hk : K z k) (hm : ZoneMove c z k d s s') :
    ZoneMoves c K s s' :=
  .tail .refl hk hm

theorem ZoneMoves.trans (h : ZoneMoves c K s s') (h' : ZoneMoves c K s' s'') : ZoneMoves c K s s'' := by
  induction h' with
  | refl => exact h
  | tail _ hk hm ih => exact .tail ih hk hm

/-- A property of the table that every admitted move keeps holds after any number of them. -/
theorem ZoneMoves.keeps {I : ZoneTable → Prop} (h : ZoneMoves c K s s') (h0 : I s)
    (hstep : ∀ {s s' z k d}, K z k → ZoneMove c z k d s s' → I s → I s') : I s' := by
  induction h with
  | refl => exact h0
  | tail _ hk hm ih => exact hstep hk hm ih

/-! ## The counters count -/

variable (c) in
/-- **The counters count the zones**, every zone is where it was put, no zone is read-only or offline, and an
    EMPTY zone has not been written. -/
structure ZonesCounted (s : ZoneTable) : Prop where
  total : ∀ r, (s.resInfos r).totalCnt = c.zp.nrZones
  opened : (s.resInfos .openZone).acquiredCnt = countBelow (fun d => d.state.Opened) s.zoneDescs c.zp.nrZones
  active : (s.resInfos .activeZone).acquiredCnt = countBelow (fun d => d.state.Active) s.zoneDescs c.zp.nrZones
  zslba : ∀ z, z < c.zp.nrZones → (s.zoneDescs z).zslba = z * c.zoneLbas
  cap : ∀ z, z < c.zp.nrZones → (s.zoneDescs z).zoneCapacity = c.zoneLbas
  alive : ∀ z, z < c.zp.nrZones → (s.zoneDescs z).state ≠ .readOnly ∧ (s.zoneDescs z).state ≠ .offline
  empty : ∀ z, z < c.zp.nrZones → (s.zoneDescs z).state = .empty →
    (s.zoneDescs z).wp = (s.zoneDescs z).zslba ∧ (s.zoneDescs z).zrwav = false

/-- No transition touches the start or the capacity of a zone. -/
theorem ZoneTrans.frame {z : Nat} {k : ZoneKind} {d d' : ZoneDescriptor} (h : ZoneTrans c z k d d') :
    d'.zslba = d.zslba ∧ d'.zoneCapacity = d.zoneCapacity := by
  cases h <;> exact ⟨rfl, rfl⟩

theorem ZoneState.Opened.alive {st : ZoneState} (h : st.Opened) :
    st ≠ .readOnly ∧ st ≠ .offline ∧ st ≠ .empty ∧ st ≠ .full := by
  rcases h with rfl | rfl <;> decide

theorem ZoneState.Active.alive {st : ZoneState} (h : st.Active) :
    st ≠ .readOnly ∧ st ≠ .offline ∧ st ≠ .empty ∧ st ≠ .full := by
  rcases h with h | rfl
  · exact h.alive
  · decide

/-- No transition leads to a read-only or offline zone. -/
theorem ZoneTrans.alive {z : Nat} {k : ZoneKind} {d d' : ZoneDescriptor} (h : ZoneTrans c z k d d') :
    d'.state ≠ .readOnly ∧ d'.state ≠ .offline := by
  cases h with
  | opens _ hst _ => exact ⟨hst.alive.1, hst.alive.2.1⟩
  | advances hd _ _ => exact ⟨hd.alive.1, hd.alive.2.1⟩
  | _ => simp

/-- Only a reset empties a zone. -/
theorem ZoneTrans.empty {z : Nat} {k : ZoneKind} {d d' : ZoneDescriptor} (h : ZoneTrans c z k d d')
    (he : d'.state = .empty) : k = .reset ∧ d'.wp = d'.zslba ∧ d'.zrwav = false := by
  cases h with
  | opens _ hst _ => exact absurd he hst.alive.2.2.1
  | advances hd _ _ => exact absurd he hd.alive.2.2.1
  | resets => exact ⟨rfl, rfl, rfl⟩
  | opensZrwa | closes | finishes | fills => exact absurd he (by simp)

/-- Replacing one zone moves a counter by what the two descriptors weigh. -/
theorem countBelow_weight {P : ZoneState → Prop} [DecidablePred P] {descs : Nat → ZoneDescriptor} {n z m m' : Nat}
    {d : ZoneDescriptor} (hz : z < n) (hm : m = countBelow (fun d => P d.state) descs n)
    (h : m' + (descs z).weight P = m + d.weight P) :
    m' = countBelow (fun d => P d.state) (Function.update descs z d) n := by
  have hu := countBelow_update (P := fun d : ZoneDescriptor => P d.state) (f := descs) hz d
  simp only [ZoneDescriptor.weight] at h
  omega

/-- A property of the zones one by one that the changed zone has again holds of all. -/
theorem ZoneMove.forall_zone {I : Nat → ZoneDescriptor → Prop} {z : Nat} {k : ZoneKind} {d : ZoneDescriptor}
    (hm : ZoneMove c z k d s s') (h : ∀ y, y < c.zp.nrZones → I y (s.zoneDescs y)) (hd : I z d) :
    ∀ y, y < c.zp.nrZones → I y (s'.zoneDescs y) := by
  intro y hy
  rw [hm.descs]
  by_cases hyz : y = z
  · subst hyz
    rw [Function.update_self]
    exact hd
  · rw [Function.update_of_ne hyz]
    exact h y hy

/-- **A move keeps the counters right.** -/
theorem ZonesCounted.move {z : Nat} {k : ZoneKind} {d : ZoneDescriptor} (h : ZonesCounted c s)
    (hm : ZoneMove c z k d s s') : ZonesCounted c s' := by
  have hframe := hm.trans.frame
  refine
    { total := fun r => (hm.total r).trans (h.total r)
      opened := ?_
      active := ?_
      zslba := ?_
      cap := ?_
      alive := ?_
      empty := ?_ }
  · rw [hm.descs]
    exact countBelow_weight hm.lt h.opened hm.opened
  · rw [hm.descs]
    exact countBelow_weight hm.lt h.active hm.active
  · exact hm.forall_zone (I := fun y d => d.zslba = y * c.zoneLbas) h.zslba
      (hframe.1.trans (h.zslba z hm.lt))
  · exact hm.forall_zone (I := fun _ d => d.zoneCapacity = c.zoneLbas) h.cap
      (hframe.2.trans (h.cap z hm.lt))
  · exact hm.forall_zone (I := fun _ d => d.state ≠ .readOnly ∧ d.state ≠ .offline) h.alive hm.trans.alive
  · exact hm.forall_zone (I := fun _ d => d.state = .empty → d.wp = d.zslba ∧ d.zrwav = false) h.empty
      (fun he => (hm.trans.empty he).2)

theorem ZonesCounted.moves (h : ZonesCounted c s) (hm : ZoneMoves c K s s') : ZonesCounted c s' :=
  hm.keeps h fun _ hm h => h.move hm

/-- No counter exceeds the number of zones. -/
theorem ZonesCounted.opened_le (h : ZonesCounted c s) : (s.resInfos .openZone).acquiredCnt ≤ c.zp.nrZones := by
  rw [h.opened]
  have hle := countBelow_add_le (P := fun d : ZoneDescriptor => d.state.Opened) (Q := fun _ => False)
    (f := s.zoneDescs) (n := c.zp.nrZones) (fun _ _ => id)
  omega

theorem ZonesCounted.active_le (h : ZonesCounted c s) : (s.resInfos .activeZone).acquiredCnt ≤ c.zp.nrZones := by
  rw [h.active]
  have hle := countBelow_add_le (P := fun d : ZoneDescriptor => d.state.Active) (Q := fun _ => False)
    (f := s.zoneDescs) (n := c.zp.nrZones) (fun _ _ => id)
  omega

/-- An opened zone holds an open resource. -/
theorem ZonesCounted.opened_pos (h : ZonesCounted c s) {z : Nat} (hz : z < c.zp.nrZones)
    (ho : (s.zoneDescs z).state.Opened) : 0 < (s.resInfos .openZone).acquiredCnt := by
  rw [h.opened]
  exact countBelow_pos hz ho

theorem ZonesCounted.active_pos (h : ZonesCounted c s) {z : Nat} (hz : z < c.zp.nrZones)
    (ha : (s.zoneDescs z).state.Active) : 0 < (s.resInfos .activeZone).acquiredCnt := by
  rw [h.active]
  exact countBelow_pos hz ha

/-! ## Write pointers stay in their zones -/

theorem Advance.lt {z : Nat} {d : ZoneDescriptor} {k : ZoneKind} {wp : Nat} (h : Advance c z d k wp) :
    wp < 2 ^ 64 := by
  cases h with
  | write => exact Nat.mod_lt _ (by decide)
  | flush _ hlt _ => exact hlt

/-- A write pointer is a 64-bit address. -/
theorem ZoneMoves.wp_lt (hc : c.Wf) (hm : ZoneMoves c K s s') (hcount : ZonesCounted c s)
    (h : ∀ z, z < c.zp.nrZones → (s.zoneDescs z).wp < 2 ^ 64) :
    ∀ z, z < c.zp.nrZones → (s'.zoneDescs z).wp < 2 ^ 64 := by
  refine (hm.keeps (I := fun s => ZonesCounted c s ∧ ∀ z, z < c.zp.nrZones → (s.zoneDescs z).wp < 2 ^ 64)
    ⟨hcount, h⟩ ?_).2
  rintro s s' z k d - hm ⟨hcount, h⟩
  refine ⟨hcount.move hm, hm.forall_zone (I := fun _ d => d.wp < 2 ^ 64) h ?_⟩
  have hwp := h z hm.lt
  have hzs := hcount.zslba z hm.lt
  have hlt := hc.zslba_lt hm.lt
  cases hm.trans with
  | resets =>
      show (s.zoneDescs z).zslba < 2 ^ 64
      omega
  | advances _ hadv _ => exact hadv.lt
  | fills _ hadv _ => exact hadv.lt
  | opens | opensZrwa | closes | finishes => exact hwp

/-- **The write pointer of a zone**: in the zone, at its end only if the zone is FULL, and with room before it
    in an opened or closed zone. -/
structure ZoneDescriptor.Fits (d : ZoneDescriptor) : Prop where
  le_wp : d.zslba ≤ d.wp
  wp_le : d.wp ≤ d.zslba + d.zoneCapacity
  empty : d.state = .empty → d.wp = d.zslba
  active : d.state.Active → d.wp < d.zslba + d.zoneCapacity
  full : d.wp = d.zslba + d.zoneCapacity → d.state = .full

theorem ZoneDescriptor.Fits.room {z : Nat} {d : ZoneDescriptor} (h : d.Fits)
    (hs : d.zslba = z * c.zoneLbas) (hc : d.zoneCapacity = c.zoneLbas) (ha : d.state.Active) : d.Room c z :=
  ⟨hs, hc, h.le_wp, h.active ha⟩

/-- An advance from a zone with room stays in the zone. -/
theorem Advance.in_zone (hc : c.Below2Tib) {z : Nat} (hz : z < c.zp.nrZones) {d : ZoneDescriptor} {k : ZoneKind}
    {wp : Nat} (hs : d.zrwav = true → c.ZrwaSane) (hr : d.Room c z) (h : Advance c z d k wp) :
    d.wp ≤ wp ∧ wp ≤ d.zslba + d.zoneCapacity := by
  cases h with
  | flush hzr _ hin => exact hin hc (hs hzr) hz hr
  | @write nrLba hzr hpos hle hb =>
      have hlt := hc.zone_end_lt hz
      have h1 := hr.le_wp
      have h2 := hr.wp_lt
      rw [hr.zslba_eq] at h1
      rw [hr.zslba_eq, hr.cap_eq] at h2 ⊢
      have hend : z * c.zoneLbas + c.zoneLbas = (z + 1) * c.zoneLbas := (Nat.succ_mul _ _).symm
      rw [hend] at h2 ⊢
      have hu : u64 (d.wp + nrLba) = d.wp + nrLba := u64_of_lt (by omega)
      have hu1 : u64 (d.wp + nrLba - 1) = d.wp + nrLba - 1 := u64_of_lt (by omega)
      -- the last block lies in the zone of the first
      have hzone : lbaToZone c (d.wp + nrLba - 1) = z := by
        rw [← hu1, ← hb]
        exact hc.lbaToZone_eq (Nat.le_of_lt hz) h1 h2
      have hrange := hc.lbaToZone_range (by omega) hzone
      rw [hu]
      omega

/-- **A transition keeps the write pointer in its zone.** -/
theorem ZoneTrans.fits (hc : c.Below2Tib) {z : Nat} (hz : z < c.zp.nrZones) {k : ZoneKind}
    {d d' : ZoneDescriptor} (hzs : d.zslba = z * c.zoneLbas) (hcap : d.zoneCapacity = c.zoneLbas)
    (hsane : d.zrwav = true → c.ZrwaSane) (h : ZoneTrans c z k d d') (hf : d.Fits) : d'.Fits := by
  have hpos := hc.zoneLbas_pos
  have hend : zoneToSlba c z + d.zoneCapacity = d.zslba + d.zoneCapacity := by
    rw [hc.zoneToSlba_eq (Nat.le_of_lt hz), hzs]
  cases h with
  | opens hd hst _ =>
      have hlt : d.wp < d.zslba + d.zoneCapacity := by
        rcases hd with he | ha
        · rw [hf.empty he, hcap]
          omega
        · exact hf.active ha
      exact ⟨hf.le_wp, hf.wp_le, fun he => absurd he hst.alive.2.2.1, fun _ => hlt,
        fun he => absurd he (Nat.ne_of_lt hlt)⟩
  | opensZrwa hd =>
      have hlt : d.wp < d.zslba + d.zoneCapacity := by
        rw [hf.empty hd, hcap]
        omega
      exact ⟨hf.le_wp, hf.wp_le, fun he => absurd he (by simp), fun _ => hlt,
        fun he => absurd he (Nat.ne_of_lt hlt)⟩
  | closes hd =>
      have hlt := hf.active (Or.inl hd)
      exact ⟨hf.le_wp, hf.wp_le, fun he => absurd he (by simp), fun _ => hlt,
        fun he => absurd he (Nat.ne_of_lt hlt)⟩
  | finishes =>
      exact ⟨hf.le_wp, hf.wp_le, fun he => absurd he (by simp), fun ha => absurd rfl ha.alive.2.2.2,
        fun _ => rfl⟩
  | resets =>
      refine ⟨Nat.le_refl _, Nat.le_add_right _ _, fun _ => rfl, fun ha => absurd rfl ha.alive.2.2.1, ?_⟩
      intro he
      have he : d.zslba = d.zslba + d.zoneCapacity := he
      omega
  | advances hd hadv hne =>
      have hin := hadv.in_zone hc hz hsane (hf.room hzs hcap hd)
      have hle := hf.le_wp
      rw [hend] at hne
      exact ⟨Nat.le_trans hle hin.1, hin.2, fun he => absurd he hd.alive.2.2.1,
        fun _ => Nat.lt_of_le_of_ne hin.2 hne, fun he => absurd he hne⟩
  | fills hd hadv heq =>
      have hin := hadv.in_zone hc hz hsane (hf.room hzs hcap hd)
      exact ⟨Nat.le_trans hf.le_wp hin.1, hin.2, fun he => absurd he (by simp),
        fun ha => absurd rfl ha.alive.2.2.2, fun _ => rfl⟩

/-- The ZRWA flag is set by an open with ZRWA, cleared by a reset, and kept by all else. -/
theorem ZoneTrans.zrwav {z : Nat} {k : ZoneKind} {d d' : ZoneDescriptor} (h : ZoneTrans c z k d d') :
    d'.zrwav = d.zrwav ∨ (k = .openZrwa ∧ d'.zrwav = true) ∨ (k = .reset ∧ d'.zrwav = false) := by
  cases h with
  | opensZrwa => exact Or.inr (Or.inl ⟨rfl, rfl⟩)
  | resets => exact Or.inr (Or.inr ⟨rfl, rfl⟩)
  | opens | closes | finishes | advances | fills => exact Or.inl rfl

variable (c) in
/-- The write pointers of the zones that follow the rules: all without ZRWA, and with sane parameters all. -/
def AllFit (s : ZoneTable) : Prop :=
  ∀ z, z < c.zp.nrZones → ((s.zoneDescs z).zrwav = true → c.ZrwaSane) → (s.zoneDescs z).Fits

theorem AllFit.move (hc : c.Below2Tib) (hcount : ZonesCounted c s) (hf : AllFit c s) {z : Nat} {k : ZoneKind}
    {d : ZoneDescriptor} (hm : ZoneMove c z k d s s') : AllFit c s' := by
  refine hm.forall_zone (I := fun _ d => (d.zrwav = true → c.ZrwaSane) → d.Fits) hf ?_
  intro hsane
  have hzs := hcount.zslba z hm.lt
  have hcap := hcount.cap z hm.lt
  by_cases hold : (s.zoneDescs z).zrwav = true → c.ZrwaSane
  · exact hm.trans.fits hc hm.lt hzs hcap hold (hf z hm.lt hold)
  · -- a zone with ZRWA and bad parameters comes back only by a reset, which forgets its write pointer
    have hpos := hc.zoneLbas_pos
    obtain ⟨hz, hbad⟩ := Classical.not_imp.mp hold
    rcases hm.trans.zrwav with hkeep | ⟨-, htrue⟩ | ⟨hk, hfalse⟩
    · exact absurd (fun h => hsane (hkeep.trans h)) hold
    · exact absurd (hsane htrue) hbad
    · have ht := hm.trans
      subst hk
      cases ht with
      | opens _ _ hk => exact absurd rfl hk
      | advances _ hadv _ => cases hadv
      | fills _ hadv _ => cases hadv
      | resets =>
          refine ⟨Nat.le_refl _, Nat.le_add_right _ _, fun _ => rfl, fun ha => absurd rfl ha.alive.2.2.1, ?_⟩
          intro he
          have he : (s.zoneDescs z).zslba = (s.zoneDescs z).zslba + (s.zoneDescs z).zoneCapacity := he
          omega

theorem AllFit.moves (hc : c.Below2Tib) (hcount : ZonesCounted c s) (hf : AllFit c s) (hm : ZoneMoves c K s s') :
    AllFit c s' :=
  (hm.keeps (I := fun s => ZonesCounted c s ∧ AllFit c s) ⟨hcount, hf⟩
    fun _ hm h => ⟨h.1.move hm, h.2.move hc h.1 hm⟩).2

/-- Without an open with bad ZRWA parameters every zone follows the rules. -/
theorem ZoneMoves.sane (hm : ZoneMoves c K s s') (hK : ∀ z, K z .openZrwa → c.ZrwaSane)
    (h : ∀ z, z < c.zp.nrZones → (s.zoneDescs z).zrwav = true → c.ZrwaSane) :
    ∀ z, z < c.zp.nrZones → (s'.zoneDescs z).zrwav = true → c.ZrwaSane := by
  refine hm.keeps (I := fun s => ∀ z, z < c.zp.nrZones → (s.zoneDescs z).zrwav = true → c.ZrwaSane) h ?_
  intro s s' z k d hk hm h
  refine hm.forall_zone (I := fun _ d => d.zrwav = true → c.ZrwaSane) h ?_
  intro hd
  rcases hm.trans.zrwav with hkeep | ⟨rfl, -⟩ | ⟨-, hfalse⟩
  · exact h z hm.lt (hkeep.symm.trans hd)
  · exact hK z hk
  · exact absurd (hfalse.symm.trans hd) (by decide)

end NvmeVirt
