import NvmeVirt.Zns.Atomicity

/-!
# `Zns.Tiling` — the addresses of writes and appends

The write pointer hands out addresses: a successful write starts at it, an append is told it, and both advance
it by their length. The rewritten submission entry carries the address to the data copy. So the commands
accepted since a zone was last empty tile the written part of the zone, whatever was refused and dispatched
again in between.

The pointer is advanced in 64-bit arithmetic. Below 2 TiB that never wraps, and the tiling is one of numbers.
-/

namespace NvmeVirt

open Outcome

variable {τ : Type} {c : ZnsConfig}

/-! ## Tilings -/

/-- The ranges, in order, tile what lies between `lo` and `hi`, each starting where the one before ends;
    `add` is the arithmetic of the addresses. -/
def Tiles (add : Nat → Nat → Nat) : Nat → Nat → List (Nat × Nat) → Prop
  | lo, hi, [] => lo = hi
  | lo, hi, (a, n) :: ranges => a = lo ∧ Tiles add (add lo n) hi ranges

theorem Tiles.snoc {add : Nat → Nat → Nat} {lo hi n : Nat} {ranges : List (Nat × Nat)}
    (h : Tiles add lo hi ranges) : Tiles add lo (add hi n) (ranges ++ [(hi, n)]) := by
  induction ranges generalizing lo with
  | nil =>
      cases h
      exact ⟨rfl, rfl⟩
  | cons r ranges ih => exact ⟨h.1, ih h.2⟩

/-- `uint64_t` addition -/
def add64 (a n : Nat) : Nat := u64 (a + n)

/-- The blocks of an accepted command. -/
def ZnsAccepted.range (e : ZnsAccepted) : Nat × Nat := (e.first, e.cmd.nrLba)

/-- The address the host knows the command by: its own for a write, the completion value for an append. -/
def ZnsAccepted.known (e : ZnsAccepted) : Nat :=
  if e.cmd.opcode = .zoneAppend then e.result1 * 2 ^ 32 + e.result0 else e.cmd.slba.toNat

/-! ## One dispatch -/

/-- Management other than a reset moves no write pointer of a zone without ZRWA. -/
theorem ZoneTrans.keeps_wp {z : Nat} {k : ZoneKind} {d d' : ZoneDescriptor} (h : ZoneTrans c z k d d')
    (hw : k ≠ .write) (hr : k ≠ .reset) (hz : d'.zrwav = false) : d.zrwav = false ∧ d'.wp = d.wp := by
  cases h with
  | opens | closes | finishes => exact ⟨hz, rfl⟩
  | opensZrwa => cases hz
  | resets => exact absurd rfl hr
  | advances _ hadv _ =>
      cases hadv with
      | write => exact absurd rfl hw
      | flush hzr _ _ => exact absurd (hz.symm.trans hzr) (by decide)
  | fills _ hadv _ =>
      cases hadv with
      | write => exact absurd rfl hw
      | flush hzr _ _ => exact absurd (hz.symm.trans hzr) (by decide)

/-- The zone is EMPTY, or it is where it was. -/
def Quiet (z : Nat) (s s' : ZoneTable) : Prop :=
  (s'.zoneDescs z).zrwav = false → (s'.zoneDescs z).state ≠ .empty →
    (s.zoneDescs z).zrwav = false ∧ (s'.zoneDescs z).wp = (s.zoneDescs z).wp

theorem Quiet.of_eq {z : Nat} {s s' : ZoneTable} (h : s'.zoneDescs z = s.zoneDescs z) : Quiet z s s' := by
  intro hz _
  rw [h] at hz ⊢
  exact ⟨hz, rfl⟩

/-- Moves of other zones are not seen. -/
theorem ZoneMoves.off_zone {K : Nat → ZoneKind → Prop} {s s' : ZoneTable} (h : ZoneMoves c K s s') {z : Nat}
    (hK : ∀ k, ¬ K z k) : s'.zoneDescs z = s.zoneDescs z := by
  refine h.keeps (I := fun s' => s'.zoneDescs z = s.zoneDescs z) rfl ?_
  intro s1 s2 y k d hk hm ih
  have hne : z ≠ y := by
    rintro rfl
    exact hK k hk
  rw [hm.descs, Function.update_of_ne hne, ih]

/-- Moves that are neither writes nor resets are quiet. -/
theorem ZoneMoves.quiet {K : Nat → ZoneKind → Prop} {s s' : ZoneTable} (h : ZoneMoves c K s s') {z : Nat}
    (hw : ¬ K z .write) (hr : ¬ K z .reset) : Quiet z s s' := by
  have hkeep : (s'.zoneDescs z).zrwav = false →
      (s.zoneDescs z).zrwav = false ∧ (s'.zoneDescs z).wp = (s.zoneDescs z).wp := by
    refine h.keeps (I := fun s' => (s'.zoneDescs z).zrwav = false →
      (s.zoneDescs z).zrwav = false ∧ (s'.zoneDescs z).wp = (s.zoneDescs z).wp) (fun hz => ⟨hz, rfl⟩) ?_
    intro s1 s2 y k d hk hm ih hz
    rw [hm.descs] at hz ⊢
    by_cases hyz : z = y
    · subst hyz
      rw [Function.update_self] at hz ⊢
      obtain ⟨hz1, hwp⟩ := hm.trans.keeps_wp (fun he => hw (he ▸ hk)) (fun he => hr (he ▸ hk)) hz
      exact ⟨(ih hz1).1, hwp.trans (ih hz1).2⟩
    · rw [Function.update_of_ne hyz] at hz ⊢
      exact ih hz
  exact fun hz _ => hkeep hz

/-- Moves of which all are resets are quiet. -/
theorem ZoneMoves.quiet_of_resets {K : Nat → ZoneKind → Prop} {s s' : ZoneTable} (h : ZoneMoves c K s s') {z : Nat}
    (hK : ∀ k, K z k → k = .reset) : Quiet z s s' := by
  have hkeep : (s'.zoneDescs z).state = .empty ∨ s'.zoneDescs z = s.zoneDescs z := by
    refine h.keeps (I := fun s' => (s'.zoneDescs z).state = .empty ∨ s'.zoneDescs z = s.zoneDescs z) (Or.inr rfl) ?_
    intro s1 s2 y k d hk hm ih
    rw [hm.descs]
    by_cases hyz : z = y
    · subst hyz
      have ht := hm.trans
      rw [hK k hk] at ht
      rw [Function.update_self]
      cases ht with
      | opens _ _ hk => exact absurd rfl hk
      | resets => exact Or.inl rfl
      | advances _ hadv _ => cases hadv
      | fills _ hadv _ => cases hadv
    · rw [Function.update_of_ne hyz]
      exact ih
  rcases hkeep with he | heq
  · exact fun _ hne => absurd he hne
  · exact .of_eq heq

/-- A command that is not a write is quiet in every zone. -/
theorem quiet_of_not_write {cmd : NvmeCommand} (hop : ¬ (cmd.opcode = .write ∨ cmd.opcode = .zoneAppend))
    {s s' : ZoneTable} (h : ZoneMoves c (cmd.Drives c) s s') (z : Nat) : Quiet z s s' := by
  by_cases hmgmt : cmd.opcode = .zoneMgmtSend
  · by_cases hreset : cmd.zsa = .resetZone
    · refine h.quiet_of_resets fun k hk => ?_
      simp only [NvmeCommand.Drives, hmgmt] at hk
      have hk := hk.1
      cases k <;> simp_all [ZoneSendAction.Drives]
    · refine h.quiet ?_ ?_
      · intro hk
        simp only [NvmeCommand.Drives, hmgmt] at hk
        exact hk.1
      · intro hk
        simp only [NvmeCommand.Drives, hmgmt] at hk
        exact hreset hk.1
  · refine .of_eq (h.off_zone fun k hk => ?_)
    unfold NvmeCommand.Drives at hk
    split at hk <;> simp_all

/-- **What a dispatch does** to write pointers and records: nothing is accepted and every zone is quiet, or one
    command is accepted at the write pointer of its zone and advances it. -/
inductive DispatchEffect (c : ZnsConfig) (s : ZnsSys τ) (slot : Nat) (reply : ZnsReply) (ftl : ZnsFtl τ) : Prop where
  | quiet (hacc : s.accepted c slot reply = []) (hq : ∀ z, Quiet z s.ftl.toZoneTable ftl.toZoneTable)
  | wrote {e : ZnsAccepted} (hacc : s.accepted c slot reply = [e]) (hslot : e.slot = slot)
      (hknown : e.known = e.first) (hcopy : reply.cmd.slba.toNat = e.first)
      (hfirst : e.first = (s.ftl.zoneDescs (lbaToZone c (s.slots slot).slba.toNat)).wp)
      (hz : (s.ftl.zoneDescs (lbaToZone c (s.slots slot).slba.toNat)).zrwav = false)
      (hoff : ∀ z, z ≠ lbaToZone c (s.slots slot).slba.toNat → ftl.zoneDescs z = s.ftl.zoneDescs z)
      (hwp : (ftl.zoneDescs (lbaToZone c (s.slots slot).slba.toNat)).wp = add64 e.first e.cmd.nrLba)

theorem advanced_wp (z : Nat) (d : ZoneDescriptor) (wp : Nat) : (d.advanced c z wp).wp = wp := by
  unfold ZoneDescriptor.advanced
  split <;> rfl

/-- The completion value carries a 64-bit address. -/
theorem halves {x : Nat} (hx : x < 2 ^ 64) : u32 (x / 2 ^ 32) * 2 ^ 32 + u32 x = x := by
  unfold u32
  omega

/-- A write to a zone without ZRWA. -/
theorem ZnsWriteOutcome.effect {L : ZnsLatency τ} {s : ZnsSys τ} {slot sqId now z : Nat}
    (hz : lbaToZone c (s.slots slot).slba.toNat = z) (hwp : (s.ftl.zoneDescs z).wp < 2 ^ 64)
    (hzr : (s.ftl.zoneDescs z).zrwav = false)
    (hop : (s.slots slot).opcode = .write ∨ (s.slots slot).opcode = .zoneAppend) {r : ZnsReply × ZnsFtl τ}
    (h : ZnsWriteOutcome c L ⟨s.slots slot, sqId, now⟩ s.ftl z r) : DispatchEffect c s slot r.1 r.2 := by
  cases h with
  | refused _ => exact .quiet rfl fun _ => .of_eq rfl
  | failed hs _ _ =>
      refine .quiet (if_neg fun h => hs h.2.1) fun _ => .of_eq ?_
      dsimp only
      rw [charged_toZoneTable]
  | @done target ops s' st _ hok _ _ _ hdescs _ =>
      have hslba := hok.at_wp
      refine .wrote (e := ⟨slot, s.slots slot, (s.ftl.zoneDescs z).wp,
        u32 (appendResult s.ftl z (s.slots slot)), u32 (appendResult s.ftl z (s.slots slot) / 2 ^ 32)⟩)
        ?_ rfl ?_ hslba ?_ ?_ ?_ ?_
      · unfold ZnsSys.accepted
        dsimp only
        rw [hz, if_pos ⟨hop, rfl, hzr⟩]
      · -- an append is told the pointer, a write had to know it
        rw [appended_slba hwp] at hslba
        unfold ZnsAccepted.known appendResult
        dsimp only at hslba ⊢
        split
        · exact halves hwp
        · rename_i hna
          rw [if_neg hna] at hslba
          exact hslba
      · rw [hz]
      · rw [hz]
        exact hzr
      · intro y hy
        rw [hz] at hy
        dsimp only
        rw [hdescs, Function.update_of_ne hy]
      · rw [hz]
        dsimp only
        rw [hdescs, Function.update_self, advanced_wp]
        rfl

theorem znsProcNvmeIoCmd_effect (hc : c.Wf) (L : ZnsLatency τ) {s : ZnsSys τ} (slot sqId now : Nat)
    (hcount : ZonesCounted c s.ftl.toZoneTable)
    (hwp : ∀ z, z < c.zp.nrZones → (s.ftl.zoneDescs z).wp < 2 ^ 64) :
    Sat (fun _ => True) (fun r => DispatchEffect c s slot r.1 r.2)
      (znsProcNvmeIoCmd c L ⟨s.slots slot, sqId, now⟩ s.ftl) := by
  by_cases hop : (s.slots slot).opcode = .write ∨ (s.slots slot).opcode = .zoneAppend
  · rw [znsProcNvmeIoCmd_write hop, znsWrite_eq hc]
    refine sat_nvmevAssert_bind trivial fun hlt => ?_
    split
    · rename_i hzr
      refine (znsWriteSeq_outcome hc L ⟨s.slots slot, sqId, now⟩ hcount hzr).mono fun r hr => ?_
      exact hr.2.effect rfl (hwp _ hlt) hzr hop
    · rename_i hzr
      refine (znsWriteZrwa_moves hc L ⟨s.slots slot, sqId, now⟩ hcount (by simpa using hzr)).mono fun r hr => ?_
      refine .quiet ?_ fun z => hr.quiet (fun h => by cases h.2) (fun h => by cases h.2)
      unfold ZnsSys.accepted
      split
      · exact if_neg fun h => hzr h.2.2
      · rfl
  · refine (znsProcNvmeIoCmd_moves hc L ⟨s.slots slot, sqId, now⟩ hcount).mono fun r hr => ?_
    refine .quiet ?_ (quiet_of_not_write hop hr)
    unfold ZnsSys.accepted
    split
    · exact if_neg fun h => hop h.1
    · rfl

/-! ## Whole runs -/

variable {L : ZnsLatency τ} {G : ZnsSys τ → ZnsAct → Prop} {s s' : ZnsSys τ}

/-- The records of zone `z` tile what lies between its start and its write pointer. -/
def ZoneTiled (add : Nat → Nat → Nat) (s : ZnsSys τ) (z : Nat) : Prop :=
  (s.ftl.zoneDescs z).zrwav = false →
    Tiles add (s.ftl.zoneDescs z).zslba (s.ftl.zoneDescs z).wp ((s.log z).map ZnsAccepted.range)

/-- A dispatch keeps the tiling, in an arithmetic that agrees with the code's at the write pointer. -/
theorem DispatchEffect.tiled {slot : Nat} {reply : ZnsReply} {ftl : ZnsFtl τ}
    (h : DispatchEffect c s slot reply ftl) (hcount : ZonesCounted c ftl.toZoneTable) {z : Nat} (hz : z < c.zp.nrZones)
    (hzs : (ftl.zoneDescs z).zslba = (s.ftl.zoneDescs z).zslba) {add : Nat → Nat → Nat}
    (hadd : ∀ n, n ≤ 65536 → (s.ftl.zoneDescs z).zrwav = false →
      add (s.ftl.zoneDescs z).wp n = add64 (s.ftl.zoneDescs z).wp n)
    (ih : ZoneTiled add s z) : ZoneTiled add (s.dispatched c slot reply ftl) z := by
  intro (hzr : (ftl.zoneDescs z).zrwav = false)
  show Tiles add (ftl.zoneDescs z).zslba (ftl.zoneDescs z).wp (List.map ZnsAccepted.range
    (if (ftl.zoneDescs z).state = .empty then [] else if z = lbaToZone c (s.slots slot).slba.toNat then
      s.log z ++ s.accepted c slot reply else s.log z))
  by_cases hempty : (ftl.zoneDescs z).state = .empty
  · rw [if_pos hempty]
    exact (hcount.empty z hz hempty).1.symm
  · rw [if_neg hempty, hzs]
    cases h with
    | quiet hacc hq =>
        obtain ⟨hz0, hwp⟩ := hq z hzr hempty
        rw [hacc, List.append_nil, ite_self, hwp]
        exact ih hz0
    | @wrote e hacc _ _ _ hfirst hz0 hoff hwp =>
        by_cases hzz : z = lbaToZone c (s.slots slot).slba.toNat
        · subst hzz
          rw [if_pos rfl, hacc, List.map_append, hwp, hfirst, ← hadd _ e.cmd.nrLba_le hz0]
          have hsnoc := (ih hz0).snoc (n := e.cmd.nrLba)
          rw [← hfirst] at hsnoc ⊢
          exact hsnoc
        · rw [if_neg hzz, hoff z hzz]
          rw [hoff z hzz] at hzr
          exact ih hzr

theorem ZnsSys.act_dispatch {slot sqId now : Nat} (h : s.act c L (.dispatch slot sqId now) = .ok s') :
    ∃ r, znsProcNvmeIoCmd c L ⟨s.slots slot, sqId, now⟩ s.ftl = .ok r ∧ s' = s.dispatched c slot r.1 r.2 := by
  unfold ZnsSys.act at h
  cases hres : znsProcNvmeIoCmd c L ⟨s.slots slot, sqId, now⟩ s.ftl with
  | error e =>
      simp only [hres, error_bind] at h
      cases h
  | ok r =>
      simp only [hres, ok_bind, pure_eq_ok] at h
      cases h
      exact ⟨r, rfl, rfl⟩

/-- A dispatch runs the handler; any other action keeps zones and records. -/
theorem ZnsSys.act_quiet {a : ZnsAct} (h : s.act c L a = .ok s') :
    (∃ slot sqId now r, a = .dispatch slot sqId now ∧
        znsProcNvmeIoCmd c L ⟨s.slots slot, sqId, now⟩ s.ftl = .ok r ∧ s' = s.dispatched c slot r.1 r.2) ∨
      (s'.ftl.toZoneTable = s.ftl.toZoneTable ∧ s'.log = s.log) := by
  cases a with
  | submit slot cmd =>
      cases h
      exact Or.inr ⟨rfl, rfl⟩
  | dispatch slot sqId now =>
      obtain ⟨r, hres, heq⟩ := ZnsSys.act_dispatch h
      exact Or.inl ⟨slot, sqId, now, r, rfl, hres, heq⟩
  | copy i =>
      unfold ZnsSys.act at h
      dsimp only at h
      split at h <;> cases h <;> exact Or.inr ⟨rfl, rfl⟩
  | release i =>
      unfold ZnsSys.act at h
      dsimp only at h
      split at h <;> cases h
      · exact Or.inr ⟨rfl, rfl⟩
      · exact Or.inr ⟨ZnsFtl.setBuf_toZoneTable _ _ _, rfl⟩

/-- **In every run the accepted commands tile their zones**, in every arithmetic that agrees with the code's at
    the write pointers of the run. -/
theorem ZnsRun.tiled (hc : c.Wf) {add : Nat → Nat → Nat}
    (hadd : ∀ {s : ZnsSys τ}, ZnsRun c L G s → ∀ z, z < c.zp.nrZones → (s.ftl.zoneDescs z).zrwav = false →
      ∀ n, n ≤ 65536 → add (s.ftl.zoneDescs z).wp n = add64 (s.ftl.zoneDescs z).wp n)
    (hr : ZnsRun c L G s) : ∀ z, z < c.zp.nrZones → ZoneTiled add s z := by
  induction hr with
  | boot tm slots => intro z _ _; rfl
  | @step s s' a hr hg h ih =>
      intro z hz
      have hcount := hr.counted hc
      rcases ZnsSys.act_quiet h with ⟨slot, sqId, now, r, rfl, hres, rfl⟩ | ⟨htable, hlog⟩
      · have hcount' := (ZnsRun.step hr hg h).counted hc
        have heffect := (znsProcNvmeIoCmd_effect hc L slot sqId now hcount (hr.wp_lt hc)).of_eq_ok hres
        refine heffect.tiled hcount' hz ?_ (fun n hn hzr => hadd hr z hz hzr n hn) (ih z hz)
        exact (hcount'.zslba z hz).trans (hcount.zslba z hz).symm
      · intro hzr
        have hdesc : s'.ftl.zoneDescs z = s.ftl.zoneDescs z :=
          congrFun (congrArg ZoneTable.zoneDescs htable) z
        rw [hdesc] at hzr ⊢
        rw [hlog]
        exact ih z hz hzr

theorem DispatchEffect.of_accepted {slot : Nat} {reply : ZnsReply} {ftl : ZnsFtl τ}
    (h : DispatchEffect c s slot reply ftl) {e : ZnsAccepted} (he : e ∈ s.accepted c slot reply) :
    e.slot = slot ∧ e.known = e.first ∧ reply.cmd.slba.toNat = e.first := by
  cases h with
  | quiet hacc _ =>
      rw [hacc] at he
      cases he
  | wrote hacc hslot hknown hcopy _ _ _ _ =>
      rw [hacc, List.mem_singleton] at he
      subst he
      exact ⟨hslot, hknown, hcopy⟩

/-- **In every run** the address an accepted command is known by is the one it was accepted at. -/
theorem ZnsRun.known (hc : c.Wf) (hr : ZnsRun c L G s) : ∀ z, ∀ e ∈ s.log z, e.known = e.first := by
  induction hr with
  | boot tm slots => exact nofun
  | @step s s' a hr _ h ih =>
      intro z e he
      rcases ZnsSys.act_quiet h with ⟨slot, sqId, now, r, rfl, hres, rfl⟩ | ⟨-, hlog⟩
      · have heffect := (znsProcNvmeIoCmd_effect hc L slot sqId now (hr.counted hc) (hr.wp_lt hc)).of_eq_ok hres
        change e ∈ (if _ then [] else if _ then s.log z ++ s.accepted c slot r.1 else s.log z) at he
        split at he
        · cases he
        · split at he
          · rcases List.mem_append.mp he with he | he
            · exact ih z e he
            · exact (heffect.of_accepted he).2.1
          · exact ih z e he
      · rw [hlog] at he
        exact ih z e he

/-- An entry is neither refilled nor dispatched again before its data has been copied. -/
def ZnsSys.SparesHeld (s : ZnsSys τ) : ZnsAct → Prop
  | .submit slot _ | .dispatch slot _ _ => ∀ e ∈ s.uncopied, e.slot ≠ slot
  | .copy _ | .release _ => True

/-- The address in the entry of an accepted command, and the one its data was copied to, is the one it was
    accepted at. -/
structure ZnsHeld (s : ZnsSys τ) : Prop where
  held : ∀ e ∈ s.uncopied, (s.slots e.slot).slba.toNat = e.first
  copied : ∀ p ∈ s.copies, p.2 = p.1.first

theorem DispatchEffect.held {slot : Nat} {reply : ZnsReply} {ftl : ZnsFtl τ}
    (h : DispatchEffect c s slot reply ftl) (hfree : ∀ e ∈ s.uncopied, e.slot ≠ slot) (ih : ZnsHeld s) :
    ZnsHeld (s.dispatched c slot reply ftl) := by
  refine ⟨fun e he => ?_, ih.copied⟩
  show (Function.update s.slots slot reply.cmd e.slot).slba.toNat = e.first
  rcases List.mem_append.mp he with he | he
  · rw [Function.update_of_ne (hfree e he)]
    exact ih.held e he
  · obtain ⟨hslot, -, hcopy⟩ := h.of_accepted he
    rw [hslot, Function.update_self]
    exact hcopy

theorem ZnsRun.held (hc : c.Wf) (hG : ∀ s a, G s a → s.SparesHeld a) (hr : ZnsRun c L G s) : ZnsHeld s := by
  induction hr with
  | boot tm slots => exact ⟨nofun, nofun⟩
  | @step s s' a hr hg h ih =>
      have ha := hG s a hg
      cases a with
      | submit slot cmd =>
          cases h
          refine ⟨fun e he => ?_, ih.copied⟩
          show (Function.update s.slots slot cmd e.slot).slba.toNat = e.first
          rw [Function.update_of_ne (ha e he)]
          exact ih.held e he
      | dispatch slot sqId now =>
          obtain ⟨r, hres, rfl⟩ := ZnsSys.act_dispatch h
          have heffect := (znsProcNvmeIoCmd_effect hc L slot sqId now (hr.counted hc) (hr.wp_lt hc)).of_eq_ok hres
          exact heffect.held ha ih
      | copy i =>
          unfold ZnsSys.act at h
          dsimp only at h
          split at h <;> cases h
          · exact ih
          · rename_i e he
            refine ⟨fun e' he' => ih.held e' (List.mem_of_mem_eraseIdx he'), fun p hp => ?_⟩
            rcases List.mem_append.mp hp with hp | hp
            · exact ih.copied p hp
            · rw [List.mem_singleton.mp hp]
              exact ih.held e (List.mem_of_getElem? he)
      | release i =>
          unfold ZnsSys.act at h
          dsimp only at h
          split at h <;> cases h
          · exact ih
          · exact ⟨ih.held, ih.copied⟩

/-- **Zone append tiling.** In every run, for every zone that is used without ZRWA: the ranges of the commands
    accepted since it was last EMPTY tile what lies between its start and its write pointer, in the order of
    dispatch; the completion value of an append is the first block of its own range, and a write starts at its
    own address. If moreover no entry is refilled or dispatched again before the data of the command accepted from it
    has been copied, the address in the entry of every command still to be copied, and the address every copy was
    made with, is the first block of that command's range. -/
theorem zone_append_tiling (hc : c.Wf) (hr : ZnsRun c L G s) :
    (∀ z, z < c.zp.nrZones → (s.ftl.zoneDescs z).zrwav = false →
      Tiles add64 (s.ftl.zoneDescs z).zslba (s.ftl.zoneDescs z).wp ((s.log z).map ZnsAccepted.range) ∧
      (c.Below2Tib →
        Tiles (· + ·) (s.ftl.zoneDescs z).zslba (s.ftl.zoneDescs z).wp ((s.log z).map ZnsAccepted.range)) ∧
      ∀ e ∈ s.log z,
        (e.cmd.opcode = .zoneAppend → e.result1 * 2 ^ 32 + e.result0 = e.first) ∧
        (e.cmd.opcode ≠ .zoneAppend → e.cmd.slba.toNat = e.first)) ∧
    ((∀ s a, G s a → s.SparesHeld a) →
      (∀ e ∈ s.uncopied, (s.slots e.slot).slba.toNat = e.first) ∧ ∀ p ∈ s.copies, p.2 = p.1.first) := by
  refine ⟨?_, fun hG => ⟨(hr.held hc hG).held, (hr.held hc hG).copied⟩⟩
  intro z hz hzr
  refine ⟨hr.tiled hc (fun _ _ _ _ _ _ => rfl) z hz hzr, ?_, ?_⟩
  · intro hc2
    refine hr.tiled hc ?_ z hz hzr
    -- below 2 TiB no write pointer comes near the end of the 64-bit addresses
    intro s hr z hz hzr n hn
    have hfit := (hr.allFit hc2 z hz fun h => absurd (hzr.symm.trans h) (by decide)).wp_le
    rw [(hr.counted hc).zslba z hz, (hr.counted hc).cap z hz] at hfit
    have hend := hc2.zone_end_lt hz
    rw [Nat.succ_mul] at hend
    exact (u64_of_lt (by omega)).symm
  · intro e he
    have hknown := hr.known hc z e he
    unfold ZnsAccepted.known at hknown
    constructor
    · intro hop
      rwa [if_pos hop] at hknown
    · intro hop
      rwa [if_neg hop] at hknown

instance (s : ZnsSys τ) : (a : ZnsAct) → Decidable (s.SparesHeld a)
  | .submit slot _ | .dispatch slot _ _ => inferInstanceAs (Decidable (∀ e ∈ s.uncopied, e.slot ≠ slot))
  | .copy _ | .release _ => inferInstanceAs (Decidable True)

/-- Two appends around a write, the second of them submitted before the first was dispatched; the data of the first
    is copied. -/
theorem zone_append_tiling_wd :
    ∃ s : ZnsSys Unit, (s.log 0).map ZnsAccepted.range = [(0, 8), (8, 16), (24, 8)] ∧
      s.uncopied.map (·.slot) = [2, 1] ∧
      Tiles (· + ·) (s.ftl.zoneDescs 0).zslba (s.ftl.zoneDescs 0).wp [(0, 8), (8, 16), (24, 8)] ∧
      s.copies.length = 1 ∧ ∀ p ∈ s.copies, p.2 = p.1.first := by
  obtain ⟨s, hrun, hobs⟩ := exists_znsRun wdSmall (fun s a => decide (s.SparesHeld a))
    [.submit 0 (znsCmd .zoneAppend 0 8), .submit 1 (znsCmd .zoneAppend 0 8), .dispatch 0 1 0,
      .submit 2 (znsCmd .write 8 16), .dispatch 2 2 0, .dispatch 1 1 0, .copy 0]
    (fun s => ((s.log 0).map ZnsAccepted.range, s.uncopied.map (·.slot), (s.ftl.zoneDescs 0).zrwav,
      s.copies.length)) ([(0, 8), (8, 16), (24, 8)], [2, 1], false, 1) (by decide +kernel)
  simp only [Prod.mk.injEq] at hobs
  obtain ⟨hlog, hun, hzr, hlen⟩ := hobs
  obtain ⟨htile, hheld⟩ := zone_append_tiling wdSmall_below2Tib.toWf hrun
  have htile := (htile 0 (by decide +kernel) hzr).2.1 wdSmall_below2Tib
  rw [hlog] at htile
  exact ⟨s, hlog, hun, htile, hlen, (hheld fun _ _ hg => of_decide_eq_true hg).2⟩

/-- **Data of an append copied into another zone.** The host refills the entry of the append when a later flush has
    been completed, before the data of the append is copied: the append was completed with block 0, and its copy uses
    the block of the command that is in the entry now. -/
theorem append_copied_elsewhere :
    ∃ s : ZnsSys Unit, ZnsRun wdSmall .instant (fun _ _ => True) s ∧
      s.copies.map (fun p => (p.1.cmd.opcode, p.1.first, p.1.known, p.2)) = [(.zoneAppend, 0, 0, 4194304)] := by
  obtain ⟨s, hrun, hobs⟩ := exists_znsRun wdSmall (fun _ _ => true)
    (sendActs 0 (znsCmd .zoneAppend 0 8) ++ sendActs 1 (znsCmd .flush 0 1) ++
      [.submit 0 (znsCmd .write 4194304 8), .copy 0])
    (fun s => s.copies.map (fun p => (p.1.cmd.opcode, p.1.first, p.1.known, p.2)))
    [(.zoneAppend, 0, 0, 4194304)] (by decide +kernel)
  exact ⟨s, hrun.mono fun _ _ _ => trivial, hobs⟩

end NvmeVirt
