import NvmeVirt.Zns.Run

/-!
# `Zns.Atomicity` — what an unsuccessful write leaves behind

`__zns_write` charges the buffer and rewrites the address of an append before it looks at anything else. Every
error exit keeps the charge, so no completion with an error is atomic. A refusal for lack of buffer space
charges nothing; but an append that is refused on a zone whose write pointer has reached the end comes back
with an address in the next zone.
-/

namespace NvmeVirt

open Outcome

variable {τ : Type} {c : ZnsConfig}

/-- The handler completed the command with an error, or returned `false`. -/
def ZnsReply.Unsuccessful (r : ZnsReply) : Prop := ∀ h, r.handled = some h → h.ret.status ≠ scSuccess

/-- **Error atomicity** of one call: an unsuccessful command leaves zones, counters and buffers as they were,
    and a refused one still names the zone it named. -/
def AtomicWrite (c : ZnsConfig) (req : NvmevRequest) (s : ZnsFtl τ) (r : ZnsReply × ZnsFtl τ) : Prop :=
  (r.1.Unsuccessful → r.2.zoneDescs = s.zoneDescs ∧ r.2.resInfos = s.resInfos ∧ r.2.buf = s.buf) ∧
    (r.1.handled = none → lbaToZone c r.1.cmd.slba.toNat = lbaToZone c req.cmd.slba.toNat)

/-- A charge shows. -/
theorem charged_buf_ne {s : ZnsFtl τ} {z n : Nat} (hn : 0 < n)
    (hroom : n ≤ (s.buf (writeBufferOf c z)).remaining) : (s.charged c z n).buf ≠ s.buf := by
  intro heq
  have hz := congrArg Buffer.remaining (congrFun heq (writeBufferOf c z))
  rw [ZnsFtl.charged, ZnsFtl.buf_setBuf_self] at hz
  dsimp only at hz
  omega

/-- The address an append comes back with. -/
theorem appended_slba {s : ZnsFtl τ} {z : Nat} (hwp : (s.zoneDescs z).wp < 2 ^ 64) (cmd : NvmeCommand) :
    (appended s z cmd).slba.toNat =
      if cmd.opcode = .zoneAppend then (s.zoneDescs z).wp else cmd.slba.toNat := by
  unfold appended
  split
  · exact UInt64.toNat_ofNat_of_lt' hwp
  · rfl

variable {L : ZnsLatency τ} {G : ZnsSys τ → ZnsAct → Prop} {s : ZnsSys τ}

/-- **When an unsuccessful write is atomic.** In every reachable state `__zns_write` is atomic exactly for the
    commands that it refuses for lack of buffer space, an append only while the write pointer of its zone lies
    in the zone, and for those that pass all checks and succeed. -/
theorem zns_write_atomic_iff (hc : c.Wf) (hr : ZnsRun c L G s) {req : NvmevRequest} {z : Nat}
    (hz : lbaToZone c req.cmd.slba.toNat = z) (hzr : (s.ftl.zoneDescs z).zrwav = false)
    {r : ZnsReply × ZnsFtl τ} (h : znsWriteSeq c L req s.ftl = .ok r) :
    AtomicWrite c req s.ftl r ↔
      ((s.ftl.buf (writeBufferOf c z)).remaining < lbaToByte req.cmd.nrLba ∧
          (req.cmd.opcode = .zoneAppend → lbaToZone c (s.ftl.zoneDescs z).wp = z)) ∨
        (lbaToByte req.cmd.nrLba ≤ (s.ftl.buf (writeBufferOf c z)).remaining ∧
          Admissible c s.ftl z
            (if req.cmd.opcode = .zoneAppend then (s.ftl.zoneDescs z).wp else req.cmd.slba.toNat)
            req.cmd.nrLba) := by
  subst hz
  obtain ⟨hlt, hout⟩ := (znsWriteSeq_outcome hc L req (hr.counted hc) hzr).of_eq_ok h
  have hslba := appended_slba (s := s.ftl) (hr.wp_lt hc _ hlt) req.cmd
  have hbytes : 0 < lbaToByte req.cmd.nrLba := Nat.mul_pos req.cmd.nrLba_pos (by decide)
  rw [← hslba]
  cases hout with
  | refused hshort =>
      have hatomic : AtomicWrite c req s.ftl
            (⟨appended s.ftl (lbaToZone c req.cmd.slba.toNat) req.cmd, none⟩, s.ftl) ↔
          lbaToZone c (appended s.ftl (lbaToZone c req.cmd.slba.toNat) req.cmd).slba.toNat =
            lbaToZone c req.cmd.slba.toNat :=
        ⟨fun ha => ha.2 rfl, fun ha => ⟨fun _ => ⟨rfl, rfl, rfl⟩, fun _ => ha⟩⟩
      rw [hatomic, hslba]
      constructor
      · intro ha
        refine Or.inl ⟨hshort, fun hop => ?_⟩
        rw [if_pos hop] at ha
        exact ha
      · rintro (⟨-, hin⟩ | ⟨hroom, -⟩)
        · split
          · rename_i hop
            exact hin hop
          · rfl
        · exact absurd hshort (Nat.not_lt.mpr hroom)
  | failed hs hroom hbad =>
      constructor
      · intro ha
        have hbuf := (ha.1 (fun h he => by cases he; exact hs)).2.2
        exact absurd hbuf (charged_buf_ne hbytes hroom)
      · rintro (⟨hshort, -⟩ | ⟨-, hok⟩)
        · exact absurd hshort (Nat.not_lt.mpr hroom)
        · exact absurd hok hbad
  | done hroom hok _ _ _ _ _ =>
      constructor
      · intro _
        exact Or.inr ⟨hroom, hok⟩
      · intro _
        exact ⟨fun hu => absurd rfl (hu _ rfl), fun hn => by cases hn⟩

/-- A write that finds the buffer of its zone full. -/
theorem zns_write_atomic_refused :
    ∃ s : ZnsSys Unit, (s.ftl.zoneDescs 0).wp = 1920 ∧
      ∃ r, znsWriteSeq wdSmall .instant ⟨znsCmd .write 1920 8, 1, 0⟩ s.ftl = .ok r ∧ r.1.handled = none ∧
        AtomicWrite wdSmall ⟨znsCmd .write 1920 8, 1, 0⟩ s.ftl r := by
  obtain ⟨s, hrun, hobs⟩ := exists_znsRun wdSmall (fun _ _ => true) (sendActs 0 (znsCmd .write 0 1920))
    (fun s => ((s.ftl.zoneDescs 0).wp, (s.ftl.zoneDescs 0).zrwav, (s.ftl.buf (.zone 0)).remaining,
      (znsWriteSeq wdSmall .instant ⟨znsCmd .write 1920 8, 1, 0⟩ s.ftl).toOption.map (·.1.handled)))
    (1920, false, 0, some none) (by decide +kernel)
  obtain ⟨hwp, hobs⟩ := Prod.mk.inj hobs
  obtain ⟨hzr, hobs⟩ := Prod.mk.inj hobs
  obtain ⟨hrem, hobs⟩ := Prod.mk.inj hobs
  obtain ⟨r, hres, hnone⟩ := exists_ok_of_observed hobs
  refine ⟨s, hwp, r, hres, hnone, ?_⟩
  refine (zns_write_atomic_iff wdSmall_below2Tib.toWf hrun (z := 0) (by decide +kernel) hzr hres).mpr
    (Or.inl ⟨?_, fun hop => absurd hop (by decide)⟩)
  have hbuf : writeBufferOf wdSmall 0 = .zone 0 := by decide +kernel
  rw [hbuf, hrem]
  decide +kernel

/-- An error whose charge shows is not atomic. -/
theorem not_atomic_of_remaining {req : NvmevRequest} {s : ZnsFtl τ} {r : ZnsReply × ZnsFtl τ} {h : ZnsHandled}
    {b : BufferId} (hh : r.1.handled = some h) (hs : h.ret.status ≠ scSuccess)
    (hbuf : (r.2.buf b).remaining ≠ (s.buf b).remaining) : ¬ AtomicWrite c req s r := by
  intro ha
  have heq := (ha.1 (fun h' he => by rw [hh] at he; cases he; exact hs)).2.2
  exact hbuf (by rw [heq])

/-- **Unsuccessful writes that leave something behind.** On a fresh device a write that does not start at the
    write pointer is completed with an error, and the buffer of its zone is short by its length. And an append
    to a zone that one write has filled, refused because the buffer is still charged, comes back with an
    address in the next zone. -/
theorem zns_write_not_atomic :
    (∃ s : ZnsSys Unit, ZnsRun wdSmall .instant (fun _ _ => True) s ∧
      ∃ r, znsWriteSeq wdSmall .instant ⟨znsCmd .write 8 8, 1, 0⟩ s.ftl = .ok r ∧
        ¬ AtomicWrite wdSmall ⟨znsCmd .write 8 8, 1, 0⟩ s.ftl r) ∧
    ∃ s : ZnsSys Unit, ZnsRun (znsInitParams znsPrototype (2 ^ 30) 0) .instant (fun _ _ => True) s ∧
      ∃ r, znsWriteSeq (znsInitParams znsPrototype (2 ^ 30) 0) .instant ⟨znsCmd .zoneAppend 0 256, 1, 0⟩ s.ftl =
          .ok r ∧
        ¬ AtomicWrite (znsInitParams znsPrototype (2 ^ 30) 0) ⟨znsCmd .zoneAppend 0 256, 1, 0⟩ s.ftl r := by
  constructor
  · refine ⟨.booted wdSmall, .boot _ _, ?_⟩
    have hobs : (znsWriteSeq wdSmall .instant ⟨znsCmd .write 8 8, 1, 0⟩ (ZnsSys.booted wdSmall).ftl).toOption.map
        (fun r => (r.1.handled.map (·.ret.status), (r.2.buf (.zone 0)).remaining)) =
          some (some scZnsInvalidWrite, 983040 - 4096) := by
      decide +kernel
    obtain ⟨r, hres, hobs⟩ := exists_ok_of_observed hobs
    obtain ⟨hstatus, hrem⟩ := Prod.mk.inj hobs
    obtain ⟨h, hh, hs⟩ := Option.map_eq_some_iff.mp hstatus
    refine ⟨r, hres, not_atomic_of_remaining (b := .zone 0) hh ?_ ?_⟩
    · rw [hs]
      decide
    · rw [hrem]
      decide +kernel
  · obtain ⟨s, hrun, hobs⟩ := exists_znsRun (znsInitParams znsPrototype (2 ^ 30) 0) (fun _ _ => true)
      (sendActs 0 (znsCmd .write 0 65536))
      (fun s => (znsWriteSeq (znsInitParams znsPrototype (2 ^ 30) 0) .instant ⟨znsCmd .zoneAppend 0 256, 1, 0⟩
        s.ftl).toOption.map (fun r => (r.1.handled, lbaToZone (znsInitParams znsPrototype (2 ^ 30) 0)
          r.1.cmd.slba.toNat)))
      (some (none, 1)) (by decide +kernel)
    obtain ⟨r, hres, hobs⟩ := exists_ok_of_observed hobs
    obtain ⟨hnone, hzone⟩ := Prod.mk.inj hobs
    refine ⟨s, hrun.mono fun _ _ _ => trivial, r, hres, fun ha => ?_⟩
    have hsame := ha.2 hnone
    rw [hzone] at hsame
    exact absurd hsame (by decide +kernel)

end NvmeVirt
