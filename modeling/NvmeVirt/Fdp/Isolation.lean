import NvmeVirt.Ftl.Log
import NvmeVirt.Fdp.Run

/-!
# `Fdp.Isolation` — reclaim unit handles do not share lines

A line is labelled with the handle it was opened for. `Isolated` relates the label to the history: every
page programmed since its last erase was programmed by the writer the label names. The history itself is
tied to the commands by `io_log`: what a request adds to it was programmed through the handle the request is
routed to, or by garbage collection.
-/

namespace NvmeVirt

open Outcome

variable {τ : Type} {cfg : FtlConfig} {c : NsConfig} {L : Nat → Latency τ} {ns ns' : FdpNs τ}

/-! ## Routing -/

/-- The handle a write is routed to; non-placement writes use handle 0. -/
def routedRuh (cmd : NvmeCommand) : Nat := if cmd.dtype = directivePlacement then cmd.dspec else 0

/-- Routing picks the handle the directive names and leaves the byte counters alone. -/
theorem fdpRoute_spec {nrRuh now : Nat} {cmd : NvmeCommand} {ctx ctx' : FdpCtx} {ruh : Option Nat}
    (h : fdpRoute nrRuh cmd now ctx = (ruh, ctx')) :
    (∀ r, ruh = some r → r = routedRuh cmd) ∧
      ctx'.hbmw = ctx.hbmw ∧ ctx'.mbmw = ctx.mbmw ∧ ctx'.mbe = ctx.mbe := by
  unfold fdpRoute at h
  unfold routedRuh
  by_cases hd : cmd.dtype = directivePlacement
  · rw [if_pos hd] at h ⊢
    split at h
    · obtain ⟨rfl, rfl⟩ := Prod.mk.inj h
      exact ⟨nofun, fdpEmitEvent_hbmw .., fdpEmitEvent_mbmw .., fdpEmitEvent_mbe ..⟩
    · obtain ⟨rfl, rfl⟩ := Prod.mk.inj h
      exact ⟨fun r hr => (Option.some.inj hr).symm, rfl, rfl, rfl⟩
  · rw [if_neg hd] at h ⊢
    split at h
    all_goals
      obtain ⟨rfl, rfl⟩ := Prod.mk.inj h
      exact ⟨fun r hr => (Option.some.inj hr).symm, rfl, rfl, rfl⟩

/-! ## The history of a request -/

/-- One round of the write loop in the log: a page write on one partition, nothing elsewhere. -/
theorem writeLoopBody_log (stime ruh lpn : Nat) (st : WriteLoop τ) :
    Sat (fun _ => True)
      (fun st' => WriteLogged c.ftl ruh (st.ns.part (lpn % c.nrParts)) (st'.ns.part (lpn % c.nrParts)) ∧
        (∀ i, i ≠ lpn % c.nrParts → st'.ns.ftls i = st.ns.ftls i) ∧ st'.ns.wbuf = st.ns.wbuf)
      (writeLoopBody c L stime ruh st lpn) := by
  unfold writeLoopBody
  refine (writePage_log stime ruh (lpn / c.nrParts) (st.ns.part (lpn % c.nrParts))).bind ?_
  rintro ⟨t, s⟩ hlog
  have hset : WriteLogged c.ftl ruh (st.ns.part (lpn % c.nrParts))
      ((st.ns.setPart (lpn % c.nrParts) s).part (lpn % c.nrParts)) := by
    rw [part_setPart_self]
    exact hlog
  cases t with
  | none => exact ⟨hset, fun i hi => ftls_setPart_of_ne _ _ hi, rfl⟩
  | some t => exact ⟨hset, fun i hi => ftls_setPart_of_ne _ _ hi, rfl⟩

/-- `h'` extends the history `h` by programs of `ruh` and of garbage collection, and erases. -/
def ExtendedBy (ruh : Nat) (h h' : List FlashOp) : Prop :=
  ∃ ops : List FlashOp, h' = ops ++ h ∧ ∀ w p, .program w p ∈ ops → w = .host ruh ∨ w = .gc

theorem ExtendedBy.rfl {ruh : Nat} {h : List FlashOp} : ExtendedBy ruh h h := ⟨[], Eq.refl _, nofun⟩

theorem ExtendedBy.trans {ruh : Nat} {h h₁ h₂ : List FlashOp} (h01 : ExtendedBy ruh h h₁)
    (h12 : ExtendedBy ruh h₁ h₂) : ExtendedBy ruh h h₂ := by
  obtain ⟨ops, rfl, hops⟩ := h01
  obtain ⟨ops', rfl, hops'⟩ := h12
  refine ⟨ops' ++ ops, (List.append_assoc ..).symm, ?_⟩
  intro w p hmem
  exact (List.mem_append.mp hmem).elim (hops' w p) (hops w p)

theorem writeLoop_extended {k : Hooks} {req : NvmevRequest} {ruh : Nat} {ctx : FdpCtx} {st : WriteLoop τ}
    (h : writeLoop c k L req ns ruh ctx = .ok st) (i : Nat) :
    ExtendedBy ruh (ns.ftls i).hist (st.ns.ftls i).hist := by
  refine (sat_foldlM_const (E := fun _ => True)
    (I := fun st : WriteLoop τ => ExtendedBy ruh (ns.ftls i).hist (st.ns.ftls i).hist) _ ?_ .rfl).of_eq_ok h
  intro lpn _ st₁ hst₁
  refine (writeLoopBody_log _ ruh lpn st₁).mono ?_
  rintro st₂ ⟨⟨ops, hops, _, hl⟩, hframe, _⟩
  by_cases hi : i = lpn % c.nrParts
  · subst hi
    exact hst₁.trans ⟨ops, hl.hist_eq, hops⟩
  · rw [hframe i hi]
    exact hst₁

/-- **What a request adds to the history of a partition** was programmed through the handle it is routed to,
    or by garbage collection. -/
theorem io_log (hlba : c.lbaBits ≤ 15) {req : NvmevRequest} {out : Option Handled}
    (h : fdpProcNvmeIoCmd c L req ns = .ok (out, ns')) (i : Nat) :
    ExtendedBy (routedRuh req.cmd) (ns.ftls i).hist (ns'.ftls i).hist := by
  obtain ⟨_, hw⟩ | ⟨_, ⟨tm, rfl⟩, _⟩ := procNvmeIoCmd_cases hlba h
  · cases hw with
    | outOfRange _ => exact .rfl
    | rejected _ _ => exact .rfl
    | refused _ _ _ => exact .rfl
    | written _ hr _ hloop _ =>
        rw [← (fdpRoute_spec hr).1 _ rfl]
        exact writeLoop_extended hloop i
  · exact .rfl

/-! ## Labels and pages -/

/-- **Isolation** in one partition. -/
structure Isolated (cfg : FtlConfig) (s : FdpFtl) : Prop where
  /-- the history knows which pages are programmed -/
  programmed_iff : ∀ p, validPpa cfg.sp p → (lastWriter s.hist p ≠ none ↔ s.flash.status p ≠ .free)
  host_pages : ∀ p w, validPpa cfg.sp p → lastWriter s.hist p = some w → 0 ≤ (s.lines p.blk).ruh →
    w = .host (s.lines p.blk).ruh.toNat
  gc_pages : ∀ p w, validPpa cfg.sp p → lastWriter s.hist p = some w → (s.lines p.blk).ruh = -1 → w = .gc
  ruh_range : ∀ l, l < cfg.sp.ttLines →
    (s.lines l).ruh = -1 ∨ ∃ r, r < cfg.nrRuh ∧ (s.lines l).ruh = (r : Int)
  open_lines : ∀ r r', r < cfg.nrRuh → r' < cfg.nrRuh →
    (s.wpRuh r).curline = (s.wpRuh r').curline → r = r'

theorem Sound.isolated {s : FdpFtl} (h : Sound cfg s) : Isolated cfg s := by
  obtain ⟨g, hq, hinv⟩ := h
  have hwriter : ∀ p w, validPpa cfg.sp p → lastWriter s.hist p = some w →
      w = writerOfLabel (s.lines p.blk).ruh := by
    intro p w hp hw
    have hst : s.flash.status p ≠ .free := by
      intro hfree
      rw [hinv.labelled.of_free p hp hfree] at hw
      exact absurd hw nofun
    exact Option.some.inj (hw.symm.trans (hinv.labelled.of_programmed p hp hst))
  refine ⟨?_, ?_, ?_, ?_, ?_⟩
  · intro p hp
    constructor
    · intro hne hfree
      exact hne (hinv.labelled.of_free p hp hfree)
    · intro hst
      rw [hinv.labelled.of_programmed p hp hst]
      exact nofun
  · intro p w hp hw hpos
    rw [hwriter p w hp hw, writerOfLabel, if_pos hpos]
  · intro p w hp hw hneg
    rw [hwriter p w hp hw, writerOfLabel, if_neg (by omega)]
  · intro l hl
    obtain ⟨w, hw, hruh⟩ := hinv.labelled.ruh_range l hl
    cases w with
    | host r => exact Or.inr ⟨r, hw, hruh⟩
    | gc => exact Or.inl hruh
  · intro r r' hr hr' he
    have h₁ := hinv.pointed.place_curline (.host r) hr
    have h₂ := hinv.pointed.place_curline (.host r') hr'
    have hsame : (Place.opened (.host r)) = .opened (.host r') := by
      rw [← h₁, ← h₂]
      exact congrArg g.place he
    exact Writer.host.inj (Place.opened.inj hsame)

/-! ## Events of garbage collection -/

/-- What `do_gc` emits for the victim `v` it selected: for a line of a handle, an event whose PID is the
    handle through which the host wrote every page of the line; for a GC line, nothing. -/
def EventSound (cfg : FtlConfig) (L : Latency τ) (v : Nat) (s : Part τ) : Prop :=
  (∃ pid, pid < cfg.nrRuh ∧
    gcEmit L v s =
      { s with ctx := fdpEmitEvent evtImplicitModifiedRu eventFPiv pid 0 (L.localClock s.tm) s.ctx } ∧
    ∀ p, validPpa cfg.sp p → p.blk = v → lastWriter s.hist p = some (.host pid)) ∨
  gcEmit L v s = s ∧ ∀ p, validPpa cfg.sp p → p.blk = v → lastWriter s.hist p = some .gc

theorem Sound.event {s s₁ : Part τ} {v : Nat} (hg : Geometry cfg.sp) (h : Sound cfg s.toFdpFtl)
    (Li : Latency τ) (hsel : selectVictimLine cfg true s = some (v, s₁)) : EventSound cfg Li v s₁ := by
  obtain ⟨g, hq, hinv⟩ := h
  have hspec := selectVictimLine_spec hinv hq
  rw [hsel] at hspec
  obtain ⟨_, hselected⟩ := hspec
  have hruh : (s₁.lines v).ruh = (s.lines v).ruh := by rw [hselected.lines_eq v]
  have hhist : s₁.hist = s.hist := by rw [hselected.frame]
  -- a victim is programmed to its end
  have hpages : ∀ p, validPpa cfg.sp p → p.blk = v →
      lastWriter s₁.hist p = some (writerOfLabel (s₁.lines v).ruh) := by
    intro p hp hblk
    have hst : s.flash.status p ≠ .free := by
      intro hfree
      rcases (hinv.counted.status_free p hp).mp hfree with herased | hfill
      · exact hq.not_erased _ herased
      · rw [hblk, hinv.settled.victim_fill v hselected.victim_lt hselected.was_victim] at hfill
        exact absurd (seqIdx_lt hg.grid hp.1 hp.2.1 hp.2.2.2.2) (Nat.not_lt.mpr hfill)
    rw [hhist, hruh, ← hblk]
    exact hinv.labelled.of_programmed p hp hst
  obtain ⟨w, hw, hlabel⟩ := hinv.labelled.ruh_range v hselected.victim_lt
  rw [← hruh] at hlabel
  cases w with
  | host r =>
      left
      have hr : (s₁.lines v).ruh = (r : Int) := hlabel
      refine ⟨r, hw, ?_, ?_⟩
      · unfold gcEmit
        rw [hr, if_pos (Int.natCast_nonneg r), Int.toNat_natCast]
      · intro p hp hblk
        rw [hpages p hp hblk, hlabel]
        exact congrArg _ (writerOfLabel_label (.host r))
  | gc =>
      right
      refine ⟨?_, ?_⟩
      · unfold gcEmit
        rw [hlabel]
        exact if_neg (by decide)
      · intro p hp hblk
        rw [hpages p hp hblk, hlabel]
        exact congrArg _ (writerOfLabel_label .gc)

/-- **Reclaim unit handles are isolated.** In every state of a run each partition is isolated; the history
    the isolation speaks about grows with each request only by programs through the request's handle and by
    garbage collection; and wherever a page write of a partition calls `do_gc`, the event emitted for the
    victim names the handle through which all of its pages were written. (Devices of 4 bytes to 512 GiB.) -/
theorem ruh_isolation (hc : c.Wf) {log : List NvmeCommand} (h : NsRun c (fdpHooks c) L log ns) :
    (∀ i, Isolated c.ftl (ns.ftls i)) ∧
    (∀ req out ns', fdpProcNvmeIoCmd c L req ns = .ok (out, ns') →
      ∀ i, ExtendedBy (routedRuh req.cmd) (ns.ftls i).hist (ns'.ftls i).hist) ∧
    (∀ i s, Reach c.ftl (L i) s → ∀ stime ruh lpn t s₁, ruh < c.ftl.nrRuh → lpn < c.ftl.sp.ttPgs →
      putPage c.ftl (L i) stime ruh lpn s = .ok (t, s₁) →
      ∀ v s₂, selectVictimLine c.ftl true s₁ = some (v, s₂) → EventSound c.ftl (L i) v s₂) := by
  have hreach := h.reach hc.lbaBits_le (fdpHooks_valid hc.nrRuh_pos)
  refine ⟨?_, ?_, ?_⟩
  · intro i
    exact ((hreach i).sound hc.geometry hc.lines_enough).isolated
  · intro req out ns' hio i
    exact io_log hc.lbaBits_le hio i
  · intro i s hs stime ruh lpn t s₁ hr hlpn hput v s₂ hsel
    have hs₀ := hs.sound hc.geometry hc.lines_enough
    have hs₁ := ((putPage_spec (L i) hc.geometry hs₀ stime hr hlpn).of_eq_ok hput).sound
    exact hs₁.event hc.geometry (L i) hsel

/-- A write through handle 3 and one without a directive, on the same partition: two lines, labelled with
    handles 3 and 0. -/
theorem ruh_isolation_two_handles :
    ∃ log, ∃ ns : FdpNs Unit,
      NsRun (fdpNsConfig 67108864) (fdpHooks (fdpNsConfig 67108864)) (fun _ => Latency.instant) log ns ∧
      (ns.ftls 0).maptbl 0 = some ⟨0, 3, 0, 0, 0⟩ ∧ (ns.ftls 0).maptbl 1 = some ⟨0, 0, 0, 0, 0⟩ ∧
      ((ns.ftls 0).lines 3).ruh = 3 ∧ ∀ i, Isolated (fdpFtlConfig 67108864) (ns.ftls i) := by
  obtain ⟨log, ns, hrun, hobs⟩ := exists_nsRun (fdpNsConfig 67108864) (fdpHooks (fdpNsConfig 67108864))
    (fun _ => Latency.instant) 0 () [writeReq 0 7 (some 3), writeReq 32 7 none]
    (fun r => ((r.2.ftls 0).maptbl 0, (r.2.ftls 0).maptbl 1, ((r.2.ftls 0).lines 3).ruh))
    (a := (some ⟨0, 3, 0, 0, 0⟩, some ⟨0, 0, 0, 0, 0⟩, 3)) (by decide +kernel)
  obtain ⟨h0, hrest⟩ := Prod.mk.inj hobs
  obtain ⟨h1, hlabel⟩ := Prod.mk.inj hrest
  exact ⟨log, ns, hrun, h0, h1, hlabel, (ruh_isolation (fdpNsConfig_wf (by decide) (by decide))
    hrun).1⟩

end NvmeVirt
