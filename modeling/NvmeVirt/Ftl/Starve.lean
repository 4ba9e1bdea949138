import NvmeVirt.Ftl.Credits

/-!
# `Ftl.Starve` — a workload that uses up the free lines

Write as many different LPNs through one handle as the free lines of a fresh partition have pages. No page
is ever invalidated, so all closed lines are full, the victim queue stays empty, and each collection that
the exhausted credits ask for finds nothing; the credits are refilled all the same. The handle is then at
the start of the last line, and the page that fills it finds the free list empty.

`Fresh n` and `Late m` describe the partition in the two phases; neither depends on the latency model.
-/

namespace NvmeVirt

open Counting Outcome

variable {τ : Type} {cfg : FtlConfig} {L : Latency τ} {s s₁ : Part τ}

/-! ## What a page of one handle leaves alone -/

/-- A pointer moves alone. -/
theorem PointerMoved.wp_eq {io : IoType} {ruh : Nat} (h : PointerMoved cfg io ruh s s₁) {v : Writer}
    (hv : v ≠ writerOf io ruh) : s₁.wp v = s.wp v := by
  cases h
  rw [wp_setWp_of_ne _ _ _ _ hv]
  cases v <;> rfl

/-- An allocation programs one page and maps one LPN. -/
theorem PageTaken.pointers {io : IoType} {ruh lpn : Nat} {p : Ppa} (h : PageTaken cfg io ruh lpn s (p, s₁)) :
    (∀ q, s₁.flash.status q = .invalid → s.flash.status q = .invalid) ∧
      (∀ x, x ≠ lpn → s₁.maptbl x = s.maptbl x) ∧ ∀ v, v ≠ writerOf io ruh → s₁.wp v = s.wp v := by
  obtain ⟨_, hmoved⟩ := h
  refine ⟨fun q hq => ?_, fun x hx => ?_, fun v hv => (hmoved.wp_eq hv).trans (by cases v <;> rfl)⟩
  · have hst : s₁.flash.status q = if q = p then .valid else s.flash.status q := by
      cases hmoved
      cases io <;> exact Flash.status_update rfl q
    rw [hst] at hq
    split at hq
    · cases hq
    · exact hq
  · cases hmoved
    cases io <;> exact Function.update_of_ne hx _ _

theorem OldInvalidated.pointers {lpn : Nat} (h : OldInvalidated lpn s s₁) :
    s₁.maptbl = s.maptbl ∧ s₁.wp = s.wp ∧ (s.maptbl lpn = none → s₁ = s) := by
  cases h with
  | unmapped => exact ⟨rfl, rfl, fun _ => rfl⟩
  | mapped hsome =>
      refine ⟨rfl, funext fun v => by cases v <;> rfl, fun hnone => ?_⟩
      rw [hsome] at hnone
      cases hnone

/-- What a host page of handle `ruh` leaves alone; on an unmapped LPN it invalidates nothing. -/
structure PutFrame (ruh lpn : Nat) (s s' : Part τ) : Prop where
  invalid : s.maptbl lpn = none → ∀ q, s'.flash.status q = .invalid → s.flash.status q = .invalid
  maptbl_eq : ∀ x, x ≠ lpn → s'.maptbl x = s.maptbl x
  wp_eq : ∀ v, v ≠ .host ruh → s'.wp v = s.wp v

theorem PutFrame.setCredits {ruh lpn : Nat} (h : PutFrame ruh lpn s s₁) (n : Nat) :
    PutFrame ruh lpn s { s₁ with writeCredits := n } where
  invalid := h.invalid
  maptbl_eq := h.maptbl_eq
  wp_eq := fun v hv => (by cases v <;> rfl : _ = s₁.wp v).trans (h.wp_eq v hv)

theorem PagePut.frame {stime ruh lpn : Nat} {t : Option Nat} (h : PagePut cfg L stime ruh lpn s (t, s₁)) :
    PutFrame ruh lpn s s₁ := by
  obtain ⟨hold, htaken, _, _⟩ := h
  obtain ⟨hmap, hwp, hsame⟩ := hold.pointers
  obtain ⟨hinv, hmap', hwp'⟩ := htaken.pointers
  refine ⟨fun hnone q hq => ?_, fun x hx => (hmap' x hx).trans (congrFun hmap x), fun v hv => ?_⟩
  · rw [← hsame hnone]
    exact hinv q hq
  · rw [← hwp, ← hwp' v hv]
    cases v <;> rfl

/-! ## Room of a partition that only handle 0 writes -/

/-- Only the pointer of handle 0 has left the start of its line. -/
def Untouched (cfg : FtlConfig) (s : FdpFtl) : Prop :=
  ∀ w : Writer, w.Valid cfg.nrRuh → w ≠ .host 0 → wpIdx cfg.sp (s.wp w) = 0

theorem Untouched.room_eq {s : FdpFtl} (h : Untouched cfg s) (hruh : 0 < cfg.nrRuh) :
    room cfg s = s.freeLineList.length * cfg.sp.pgsPerLine + cfg.nrRuh * cfg.sp.pgsPerLine +
      (cfg.sp.pgsPerLine - wpIdx cfg.sp (s.wpRuh 0)) := by
  have hgc : wpIdx cfg.sp s.gcWp = 0 := h .gc trivial nofun
  have hsum := sum_add_of_eq_off (f := fun _ => cfg.sp.pgsPerLine)
    (g := fun r => cfg.sp.pgsPerLine - wpIdx cfg.sp (s.wpRuh r)) (Finset.mem_range.mpr hruh) ?_
  · rw [Finset.sum_const_nat (m := cfg.sp.pgsPerLine) (fun _ _ => rfl), Finset.card_range] at hsum
    rw [room, hgc]
    omega
  · intro r hr hr0
    have hidx : wpIdx cfg.sp (s.wpRuh r) = 0 :=
      h (.host r) (Finset.mem_range.mp hr) fun he => hr0 (Writer.host.inj he)
    simp only [hidx, Nat.sub_zero]

/-- A pointer is never past its line, so a page of its line is always left. -/
theorem Untouched.room_gt {s : FdpFtl} (hg : Geometry cfg.sp) (hs : Sound cfg s) (h : Untouched cfg s)
    (hruh : 0 < cfg.nrRuh) : cfg.nrRuh * cfg.sp.pgsPerLine < room cfg s := by
  obtain ⟨g, _, hinv⟩ := hs
  have hlt : wpIdx cfg.sp (s.wpRuh 0) < cfg.sp.pgsPerLine := wpIdx_lt hg (hinv.pointed.wf (.host 0) hruh)
  rw [h.room_eq hruh]
  omega

theorem Untouched.of_frame {lpn : Nat} (h : Untouched cfg s.toFdpFtl) (hp : PutFrame 0 lpn s s₁) :
    Untouched cfg s₁.toFdpFtl := by
  intro w hw hne
  rw [hp.wp_eq w hne]
  exact h w hw hne

/-! ## First phase: every LPN once -/

/-- Without invalid pages there is nothing to collect. -/
theorem Sound.peek_eq_none {s : FdpFtl} (h : Sound cfg s) (hno : ∀ q, s.flash.status q ≠ .invalid) :
    s.victimLinePq.peek = none := by
  obtain ⟨g, hq, hinv⟩ := h
  cases hpeek : s.victimLinePq.peek with
  | none => rfl
  | some v =>
      obtain ⟨hmem, _⟩ := Pqueue.mem_of_peek hinv.placed.pq_wf hpeek
      obtain ⟨hlt, hvic⟩ := (hinv.placed.mem_pq v).mp hmem
      have hpos := hinv.settled.victim_ipc v hlt hvic
      rw [hinv.counted.line_ipc v hlt (hq.place_ne v)] at hpos
      refine absurd (Finset.sum_eq_zero ?_) (Nat.ne_of_gt hpos)
      intro x _
      show (s.flash ⟨x.1, x.2, 0, v⟩).ipc = 0
      rw [hinv.counted.blk_ipc]
      refine countBelow_eq_zero ?_
      intro i _
      exact hno ⟨i, v, 0, x.2, x.1⟩

/-- After the LPNs below `n` have been written, in order, through handle 0. -/
structure Fresh (cfg : FtlConfig) (n : Nat) (s : FdpFtl) : Prop where
  sound : Sound cfg s
  untouched : Untouched cfg s
  room_eq : room cfg s + n = cfg.sp.ttLines * cfg.sp.pgsPerLine
  unmapped : ∀ lpn, n ≤ lpn → s.maptbl lpn = none
  no_invalid : ∀ q, s.flash.status q ≠ .invalid
  refill_eq : s.creditsToRefill = cfg.sp.pgsPerLine
  credits_eq : s.writeCredits + n % cfg.sp.pgsPerLine = cfg.sp.pgsPerLine

theorem fresh_initialised (ctx : FdpCtx) (tm : τ) (hf : cfg.Flow) :
    Fresh cfg 0 (initialised cfg ctx tm).toFdpFtl := by
  have hlines : cfg.nrRuh + 1 ≤ cfg.sp.ttLines := Nat.le_of_succ_le hf.lines_enough
  refine ⟨(stocked_initialised ctx tm hf).sound, ?_, ?_, fun _ _ => rfl, fun _ => nofun, ?_, ?_⟩
  · intro w hw _
    cases w with
    | host r =>
        have hr : r < cfg.nrRuh := hw
        have hwp : (initialised cfg ctx tm).wp (.host r) = .start r := by
          simp [FdpFtl.wp, initialised, preparedUsers, hr]
        rw [hwp, wpIdx_start]
    | gc => exact wpIdx_start ..
  · exact room_initialised ctx tm hlines
  · exact u32_of_lt hf.pgsPerLine_lt
  · rw [Nat.zero_mod]
    exact u32_of_lt hf.pgsPerLine_lt

/-- **First phase, one page.** A line's worth of room per pointer is left, so the page goes through; if it
    uses up the credits they are refilled, collection or not. -/
theorem Fresh.step (L : Latency τ) (hf : cfg.Flow) (hruh : 0 < cfg.nrRuh) {n : Nat}
    (h : Fresh cfg n s.toFdpFtl)
    (hn : n + (cfg.nrRuh + 1) * cfg.sp.pgsPerLine < cfg.sp.ttLines * cfg.sp.pgsPerLine)
    (hlpn : n < cfg.sp.ttPgs) (stime : Nat) :
    Sat (fun _ => False) (fun r => Fresh cfg (n + 1) r.2.toFdpFtl) (writePage cfg L stime 0 n s) := by
  have hS := hf.geometry.pgsPerLine_pos
  have hmod := Nat.mod_lt n hS
  have hroom := h.room_eq
  have hcred := h.credits_eq
  rw [Nat.add_mul, Nat.one_mul] at hn
  refine sat_writePage hf.geometry h.sound hruh hlpn (by omega) fun t s₁ hput hcases => ?_
  show Sat _ (fun s₂ : Part τ => Fresh cfg (n + 1) s₂.toFdpFtl) _
  have hframe := PagePut.frame hcases
  obtain ⟨hs₁, hroom₁, hcred₁, hrefill₁⟩ := hput
  have hlt : s.writeCredits < 2 ^ 32 := by
    have := hf.pgsPerLine_lt
    omega
  rw [u32Dec_of_pos (by omega) hlt] at hcred₁
  have hno : ∀ q, s₁.flash.status q ≠ .invalid := fun q hq =>
    h.no_invalid q (hframe.invalid (h.unmapped n (Nat.le_refl n)) q hq)
  have hunmapped : ∀ lpn, n + 1 ≤ lpn → s₁.maptbl lpn = none := by
    intro lpn hle
    rw [hframe.maptbl_eq lpn (by omega)]
    exact h.unmapped lpn (by omega)
  have hnext : (n + 1) % cfg.sp.pgsPerLine = (n % cfg.sp.pgsPerLine + 1) % cfg.sp.pgsPerLine :=
    (Nat.mod_add_mod n cfg.sp.pgsPerLine 1).symm
  refine ((checkAndRefill_spec L hf.geometry hs₁).mono_error ?_).mono ?_
  · rintro e ⟨_, _, _, v, hv, _⟩
    rw [hs₁.peek_eq_none hno] at hv
    exact absurd hv nofun
  · intro s₂ hr
    cases hr with
    | enough hne =>
        refine ⟨hs₁, h.untouched.of_frame hframe, by omega, hunmapped, hno,
          hrefill₁.trans h.refill_eq, ?_⟩
        rw [hnext, Nat.mod_eq_of_lt (by omega)]
        omega
    | refill hzero _ =>
        have hnew : u32 (s₁.writeCredits + s₁.creditsToRefill) = cfg.sp.pgsPerLine := by
          rw [hzero, hrefill₁, h.refill_eq]
          exact u32_refill hf (Nat.le_refl _)
        rw [hnew]
        refine ⟨hs₁.setCredits _ s₁.creditsToRefill, h.untouched.of_frame (hframe.setCredits _), ?_,
          hunmapped, hno, hrefill₁.trans h.refill_eq, ?_⟩
        · have hsame := room_setCredits cfg s₁.toFdpFtl cfg.sp.pgsPerLine s₁.creditsToRefill
          have hgoal : room cfg s₁.toFdpFtl + (n + 1) = cfg.sp.ttLines * cfg.sp.pgsPerLine := by omega
          rw [← hgoal]
          exact congrArg (· + (n + 1)) hsame
        · have hwrap : n % cfg.sp.pgsPerLine + 1 = cfg.sp.pgsPerLine := by omega
          rw [hnext, hwrap, Nat.mod_self]
          rfl
    | gc _ _ hv _ =>
        rw [hs₁.peek_eq_none hno] at hv
        exact absurd hv nofun

/-! ## Second phase: the last line -/

/-- Handle 0 is on the last line, `m` pages in, and its credits last exactly to the end of the line. -/
structure Late (cfg : FtlConfig) (m : Nat) (s : FdpFtl) : Prop where
  sound : Sound cfg s
  untouched : Untouched cfg s
  room_eq : room cfg s + m = (cfg.nrRuh + 1) * cfg.sp.pgsPerLine
  credits_eq : s.writeCredits + m = cfg.sp.pgsPerLine

/-- The first phase ends where the second begins. -/
theorem Fresh.late {s : FdpFtl} {lines : Nat} (hlines : cfg.sp.ttLines = lines + (cfg.nrRuh + 1))
    (h : Fresh cfg (lines * cfg.sp.pgsPerLine) s) : Late cfg 0 s := by
  refine ⟨h.sound, h.untouched, ?_, ?_⟩
  · have hroom := h.room_eq
    rw [hlines, Nat.add_mul lines] at hroom
    omega
  · have hcred := h.credits_eq
    rw [Nat.mul_mod_left] at hcred
    exact hcred

/-- **Second phase, one page**, whatever the LPN: the credits are not checked before the line is full. -/
theorem Late.step (L : Latency τ) (hf : cfg.Flow) (hruh : 0 < cfg.nrRuh) {m lpn : Nat}
    (h : Late cfg m s.toFdpFtl) (hm : m + 1 < cfg.sp.pgsPerLine) (hlpn : lpn < cfg.sp.ttPgs) (stime : Nat) :
    Sat (fun _ => False) (fun r => Late cfg (m + 1) r.2.toFdpFtl) (writePage cfg L stime 0 lpn s) := by
  have hroom := h.room_eq
  have hcred := h.credits_eq
  rw [Nat.add_mul, Nat.one_mul] at hroom
  refine sat_writePage hf.geometry h.sound hruh hlpn (by omega) fun t s₁ hput hcases => ?_
  obtain ⟨hs₁, hroom₁, hcred₁, _⟩ := hput
  have hlt : s.writeCredits < 2 ^ 32 := by
    have := hf.pgsPerLine_lt
    omega
  rw [u32Dec_of_pos (by omega) hlt] at hcred₁
  have hne : s₁.writeCredits ≠ 0 := by omega
  have hno : checkAndRefillWriteCredit cfg L s₁ = .ok s₁ := if_neg hne
  rw [hno]
  show Late cfg (m + 1) s₁.toFdpFtl
  refine ⟨hs₁, h.untouched.of_frame hcases.frame, ?_, by omega⟩
  rw [Nat.add_mul, Nat.one_mul]
  omega

/-- **The last page of the last line** finds the free list empty. -/
theorem Late.starve (L : Latency τ) (hf : cfg.Flow) (hruh : 0 < cfg.nrRuh) {m lpn : Nat}
    (h : Late cfg m s.toFdpFtl) (hm : m + 1 = cfg.sp.pgsPerLine) (hlpn : lpn < cfg.sp.ttPgs) (stime : Nat) :
    writePage cfg L stime 0 lpn s = .error .nullLine := by
  have hroom := h.room_eq
  rw [Nat.add_mul, Nat.one_mul] at hroom
  have hput := (putPage_spec L hf.geometry h.sound stime hruh hlpn).and (putPage_cases cfg L stime 0 lpn s)
  unfold writePage
  cases hres : putPage cfg L stime 0 lpn s with
  | error e =>
      rw [hres] at hput
      rw [show e = .nullLine from hput.1]
      rfl
  | ok r =>
      -- the other pointers' lines alone would be all the room that is left
      obtain ⟨t, s₁⟩ := r
      rw [hres] at hput
      obtain ⟨hdone, hcases⟩ : Put cfg 0 lpn s s₁ ∧ PagePut cfg L stime 0 lpn s (t, s₁) := hput
      have hgt := (h.untouched.of_frame hcases.frame).room_gt hf.geometry hdone.sound hruh
      have hroom₁ := hdone.room_eq
      omega

end NvmeVirt
