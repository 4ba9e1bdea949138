import NvmeVirt.Ftl.Alloc

/-!
# `Ftl.Reclaim` — garbage collection reclaims one line

The three steps of `do_gc` on its victim `v`, each of which keeps the invariant with `v` in the place
`cleaning`: a valid page is **moved** (copied through the GC pointer, the old page is now `cleaned`), a block
whose pages are all cleaned is **erased**, and the line, all of whose blocks are erased, is **released** to
the free list.
-/

namespace NvmeVirt

open Counting Outcome

variable {τ : Type} {cfg : FtlConfig} {g : Ghost} {s : Part τ} {v : Nat}

/-! ## Changes the invariant does not see -/

/-- The invariant does not read the write credits. -/
theorem Inv.setCredits {s : FdpFtl} (h : Inv cfg g s) (a b : Nat) :
    Inv cfg g { s with writeCredits := a, creditsToRefill := b } where
  confined := h.confined
  counted := h.counted.congr rfl rfl rfl rfl rfl
  placed := h.placed.congr rfl (fun _ => rfl) (fun _ => rfl) (fun _ _ => rfl) rfl rfl rfl rfl rfl rfl
  pointed := h.pointed.congr rfl rfl rfl (fun _ _ => Iff.rfl)
  settled := h.settled.congr rfl rfl rfl
  mapped := ⟨h.mapped.of_maptbl, h.mapped.of_valid⟩
  labelled := h.labelled.congr (fun _ => rfl) rfl (fun _ _ hx => hx) (fun _ hx => hx)
    (fun _ _ => Iff.rfl)
  balanced := h.balanced

/-- `v` is the victim of the garbage collection in progress, which is between two page copies. -/
structure Reclaiming (cfg : FtlConfig) (v : Nat) (g : Ghost) (s : FdpFtl) : Prop where
  inv : Inv cfg g s
  victim_lt : v < cfg.sp.ttLines
  ahead_eq : ∀ w, g.ahead w = 0
  not_stale : ∀ x, ¬ g.stale x
  cleaning_iff : ∀ x, g.place x = .cleaning ↔ x = v

/-! ## Moving a page -/

/-- The ghost with more pages counted as cleaned. -/
def Ghost.clean (g : Ghost) (D : Ppa → Prop) : Ghost := { g with cleaned := fun p => g.cleaned p ∨ D p }

/-- Pages of the victim that hold no data need no copy. -/
theorem Reclaiming.skip {s : FdpFtl} (h : Reclaiming cfg v g s) {D : Ppa → Prop}
    (hD : ∀ p, D p → p.blk = v ∧ (validPpa cfg.sp p → s.flash.status p ≠ .valid)) :
    Reclaiming cfg v (g.clean D) s := by
  refine ⟨h.inv.retag rfl rfl rfl rfl ⟨?_, h.inv.confined.of_erased⟩ ⟨?_, ?_⟩, h.victim_lt, h.ahead_eq,
    h.not_stale, h.cleaning_iff⟩
  · rintro p (hp | hp)
    · exact h.inv.confined.of_cleaned p hp
    · exact (h.cleaning_iff p.blk).mpr (hD p hp).1
  · intro x p hx hns
    obtain ⟨hlt, hp, hst, hr, hcl⟩ := h.inv.mapped.of_maptbl x p hx hns
    refine ⟨hlt, hp, hst, hr, ?_⟩
    rintro (hc | hc)
    · exact hcl hc
    · exact (hD p hc).2 hp hst
  · intro p hp hst hcl
    exact h.inv.mapped.of_valid p hp hst (fun hc => hcl (Or.inl hc))

/-- The ghost between the decision to move page `old` of `lpn` and its copy. -/
def Ghost.moving (g : Ghost) (old : Ppa) (lpn : Nat) : Ghost := (g.clean (· = old)).staleAt lpn

/-- A valid page of the victim that is about to be copied is the page of its reverse-map entry. -/
theorem Reclaiming.moving {s : FdpFtl} (h : Reclaiming cfg v g s) {old : Ppa}
    (hold : validPpa cfg.sp old) (hblk : old.blk = v) (hst : s.flash.status old = .valid)
    (hcl : ¬ g.cleaned old) :
    s.rmap (pgidx cfg.sp old) < cfg.sp.ttPgs ∧
      Inv cfg (g.moving old (s.rmap (pgidx cfg.sp old))) s := by
  obtain ⟨hback, _⟩ := h.inv.mapped.of_valid old hold hst hcl
  obtain ⟨hlt, _⟩ := h.inv.mapped.of_maptbl _ old hback (h.not_stale _)
  refine ⟨hlt, h.inv.retag rfl rfl rfl rfl ⟨?_, h.inv.confined.of_erased⟩ ⟨?_, ?_⟩⟩
  · rintro p (hp | rfl)
    · exact h.inv.confined.of_cleaned p hp
    · exact (h.cleaning_iff p.blk).mpr hblk
  · intro x p hx hns
    obtain ⟨hlt', hp, hst', hr, hcl'⟩ := h.inv.mapped.of_maptbl x p hx (h.not_stale x)
    refine ⟨hlt', hp, hst', hr, ?_⟩
    rintro (hc | rfl)
    · exact hcl' hc
    · exact hns hr.symm
  · intro p hp hst' hcl'
    obtain ⟨hback', _⟩ := h.inv.mapped.of_valid p hp hst' (fun hc => hcl' (Or.inl hc))
    refine ⟨hback', ?_⟩
    intro hstale
    have hsame : s.rmap (pgidx cfg.sp p) = s.rmap (pgidx cfg.sp old) := hstale
    rw [hsame, hback] at hback'
    exact hcl' (Or.inr (Option.some.inj hback').symm)

/-- Page `p` was handed out by the GC pointer between `s` and `s'`: it was programmed as garbage collection,
    on the line the pointer was on or on one that was free. -/
structure GcTook (s s' : FdpFtl) (p : Ppa) : Prop where
  programmed : ∃ ops, s'.hist = ops ++ s.hist ∧ .program .gc p ∈ ops
  line : p.blk = s.gcWp.curline ∨ p.blk ∈ s.freeLineList

/-- **What garbage collection of line `v` does to the rest of the partition**: an LPN keeps its page, unless
    that page was on the victim and the LPN now has one the GC pointer handed out; the host's pointers stay,
    and the GC pointer only ever takes lines off the free list. -/
structure Relocated (v : Nat) (s s' : FdpFtl) : Prop where
  maptbl : ∀ lpn, s'.maptbl lpn = s.maptbl lpn ∨
    ∃ p p', s.maptbl lpn = some p ∧ p.blk = v ∧ s'.maptbl lpn = some p' ∧ p'.blk ≠ v ∧ GcTook s s' p'
  hist : s.hist <:+ s'.hist
  wp_ruh : s'.wpRuh = s.wpRuh
  free_suffix : s'.freeLineList <:+ s.freeLineList
  curline : s'.gcWp.curline = s.gcWp.curline ∨ s'.gcWp.curline ∈ s.freeLineList

/-- Nothing was moved. -/
theorem Relocated.refl {s s' : FdpFtl} (hmap : s'.maptbl = s.maptbl) (hhist : s.hist <:+ s'.hist)
    (hwp : s'.wp = s.wp) (hfree : s'.freeLineList = s.freeLineList) : Relocated v s s' where
  maptbl := fun lpn => Or.inl (by rw [hmap])
  hist := hhist
  wp_ruh := funext fun r => congrFun hwp (.host r)
  free_suffix := by rw [hfree]
  curline := Or.inl (congrArg WritePointer.curline (congrFun hwp .gc))

theorem Relocated.trans {s s₁ s₂ : FdpFtl} (h : Relocated v s s₁) (h' : Relocated v s₁ s₂) :
    Relocated v s s₂ where
  maptbl := by
    intro lpn
    rcases h.maptbl lpn with hkept | ⟨p, p', hp, hpv, hp', hpv', htook⟩
    · rcases h'.maptbl lpn with hkept' | ⟨p, p', hp, hpv, hp', hpv', htook⟩
      · exact Or.inl (hkept'.trans hkept)
      · refine Or.inr ⟨p, p', hkept.symm.trans hp, hpv, hp', hpv', ?_, ?_⟩
        · obtain ⟨ops, hops, hin⟩ := htook.programmed
          obtain ⟨ops₀, hops₀⟩ := h.hist
          exact ⟨ops ++ ops₀, by rw [hops, ← hops₀, List.append_assoc], List.mem_append_left _ hin⟩
        · rcases htook.line with hline | hline
          · rw [hline]
            exact h.curline
          · exact Or.inr (h.free_suffix.subset hline)
    · -- a page that was moved off the victim is not moved again
      have hkept' : s₂.maptbl lpn = s₁.maptbl lpn := by
        refine (h'.maptbl lpn).resolve_right ?_
        rintro ⟨q, _, hq, hqv, _⟩
        rw [hp', Option.some.injEq] at hq
        exact hpv' (hq ▸ hqv)
      refine Or.inr ⟨p, p', hp, hpv, hkept'.trans hp', hpv', ?_, htook.line⟩
      obtain ⟨ops, hops, hin⟩ := htook.programmed
      obtain ⟨ops', hops'⟩ := h'.hist
      exact ⟨ops' ++ ops, by rw [← hops', hops, List.append_assoc], List.mem_append_right _ hin⟩
  hist := h.hist.trans h'.hist
  wp_ruh := h'.wp_ruh.trans h.wp_ruh
  free_suffix := h'.free_suffix.trans h.free_suffix
  curline := by
    rcases h'.curline with hsame | hnew
    · rw [hsame]
      exact h.curline
    · exact Or.inr (h.free_suffix.subset hnew)

/-- What one or more page copies do, besides keeping the invariant: the victim's pages keep their status, no
    block is erased, and `n` pages are programmed and taken from the room. -/
structure Copied (cfg : FtlConfig) (v n : Nat) (g g' : Ghost) (s s' : Part τ) : Prop where
  reclaiming : Reclaiming cfg v g' s'.toFdpFtl
  relocated : Relocated v s.toFdpFtl s'.toFdpFtl
  erased_eq : g'.erased = g.erased
  status_eq : ∀ p, p.blk = v → s'.flash.status p = s.flash.status p
  erase_cnt : ∀ b, (s'.flash b).eraseCnt = (s.flash b).eraseCnt
  programs : nrPrograms s'.hist = nrPrograms s.hist + n
  credits_eq : s'.writeCredits = s.writeCredits
  refill_eq : s'.creditsToRefill = s.creditsToRefill
  room_eq : room cfg s'.toFdpFtl + n = room cfg s.toFdpFtl

theorem Copied.trans {n m : Nat} {g' g'' : Ghost} {s' s'' : Part τ} (h : Copied cfg v n g g' s s')
    (h' : Copied cfg v m g' g'' s' s'') : Copied cfg v (n + m) g g'' s s'' where
  reclaiming := h'.reclaiming
  relocated := h.relocated.trans h'.relocated
  erased_eq := h'.erased_eq.trans h.erased_eq
  status_eq := fun p hp => (h'.status_eq p hp).trans (h.status_eq p hp)
  erase_cnt := fun b => (h'.erase_cnt b).trans (h.erase_cnt b)
  programs := by rw [h'.programs, h.programs, Nat.add_assoc]
  credits_eq := h'.credits_eq.trans h.credits_eq
  refill_eq := h'.refill_eq.trans h.refill_eq
  room_eq := by rw [← h.room_eq, ← h'.room_eq, Nat.add_right_comm, Nat.add_assoc]

/-- One page allocation for garbage collection moves one LPN off the victim. -/
theorem Allocated.relocated {g' : Ghost} {lpn : Nat} {old new : Ppa} {s' : Part τ}
    (ha : Allocated cfg .gc lpn g g' s new s') (hold : s.maptbl lpn = some old) (hblk : old.blk = v)
    (hnew : new.blk ≠ v) (hline : new.blk = s.gcWp.curline) : Relocated v s.toFdpFtl s'.toFdpFtl where
  maptbl := by
    intro x
    rw [ha.maptbl_eq]
    by_cases hx : x = lpn
    · subst hx
      refine Or.inr ⟨old, new, hold, hblk, Function.update_self .., hnew, ?_, Or.inl hline⟩
      exact ⟨[.program .gc new], ha.hist_eq, List.mem_singleton_self _⟩
    · exact Or.inl (Function.update_of_ne hx _ _)
  hist := by
    rw [ha.hist_eq]
    exact List.suffix_cons ..
  wp_ruh := funext fun r => ha.wp_other (.host r) nofun
  free_suffix := ha.free_suffix
  curline := ha.curline

/-- **`gc_write_page`** moves one valid page of the victim. -/
theorem gcWritePage_spec (L : Latency τ) (hg : Geometry cfg.sp) (h : Reclaiming cfg v g s.toFdpFtl)
    {old : Ppa} (hold : validPpa cfg.sp old) (hblk : old.blk = v) (hst : s.flash.status old = .valid)
    (hcl : ¬ g.cleaned old) :
    Sat (fun e => e = .nullLine ∧ room cfg s.toFdpFtl ≤ cfg.nrRuh * cfg.sp.pgsPerLine + 1)
      (fun s' => ∃ g', Copied cfg v 1 g g' s s' ∧ g'.cleaned = (g.clean (· = old)).cleaned)
      (gcWritePage cfg L old s) := by
  obtain ⟨hlpn, hinv⟩ := h.moving hold hblk hst hcl
  have halloc := allocPage_spec .gc 0 hg hinv trivial h.ahead_eq (fun _ => Iff.rfl) hlpn
  simp only [gcWritePage, getRmapEnt, ppa2pgidx, nvmevAssert_of (pgidx_lt hg hold), ok_bind, pure_eq_ok,
    nvmevAssert_of hlpn]
  refine halloc.bind ?_
  rintro ⟨new, s'⟩ ⟨g', ha⟩
  -- the new page lies on the line of the GC pointer, not on the victim
  have hline : new.blk = s.gcWp.curline := by
    rw [show new = (s.wp .gc).ppa from ha.ppa_eq]
    exact (h.inv.pointed.wf .gc trivial).blk_eq
  have hnewv : new.blk ≠ v := by
    intro he
    have hopen := h.inv.pointed.place_curline .gc trivial
    rw [show (s.wp .gc).curline = new.blk from hline.symm, he, (h.cleaning_iff v).mpr rfl] at hopen
    cases hopen
  -- the copy and its latency touch neither the victim nor the counters of the flow control
  have hcopied : ∀ s'' : Part τ, s''.toFdpFtl = s'.toFdpFtl →
      ∃ g', Copied cfg v 1 g g' s s'' ∧ g'.cleaned = (g.clean (· = old)).cleaned := by
    intro s'' hs''
    refine ⟨g', ⟨⟨?_, h.victim_lt, ha.ahead_eq, ha.not_stale, ?_⟩, ?_, ha.erased_eq, ?_, ?_, ?_, ?_, ?_, ?_⟩,
      ha.cleaned_eq⟩
    · rw [hs'']
      exact ha.inv
    · intro x
      exact (ha.cleaning_iff x).trans (h.cleaning_iff x)
    · rw [hs'']
      exact ha.relocated (h.inv.mapped.of_valid old hold hst hcl).1 hblk hnewv hline
    · intro p hp
      rw [hs'', ha.status, if_neg]
      intro (hpn : p = new)
      exact hnewv (hpn ▸ hp)
    · intro b
      rw [hs'', ha.flash_eq]
      by_cases hb : b = new.blkAddr
      · rw [hb, Function.update_self]
        rfl
      · rw [Function.update_of_ne hb]
    · rw [hs'', ha.hist_eq]
      rfl
    · rw [hs'']
      exact ha.credits_eq
    · rw [hs'']
      exact ha.refill_eq
    · rw [hs'']
      exact ha.room_eq
  split
  · exact hcopied _ rfl
  · exact hcopied _ rfl

/-! ## One flash page -/

/-- Page `i` of flash page `it = (flashpg, ch, lun)` of line `v`. -/
def pageAt (spp : SsdParams) (v : Nat) (it : Nat × Nat × Nat) (i : Nat) : Ppa :=
  { pg := it.1 * spp.pgsPerFlashpg + i, blk := v, pl := 0, lun := it.2.2, ch := it.2.1 }

/-- `it` is an iteration of the loops of `do_gc`. -/
def InSchedule (spp : SsdParams) (it : Nat × Nat × Nat) : Prop :=
  it.1 < spp.flashpgsPerBlk ∧ it.2.1 < spp.nchs ∧ it.2.2 < spp.lunsPerCh

theorem pageAt_valid (hg : Geometry cfg.sp) (hv : v < cfg.sp.ttLines) {it : Nat × Nat × Nat}
    (hit : InSchedule cfg.sp it) {i : Nat} (hi : i < cfg.sp.pgsPerFlashpg) :
    validPpa cfg.sp (pageAt cfg.sp v it i) := by
  refine ⟨hit.2.1, hit.2.2, ?_, ?_, ?_⟩
  · show 0 < cfg.sp.plsPerLun
    rw [hg.plsPerLun_eq]
    exact Nat.one_pos
  · rw [← hg.ttLines_eq]
    exact hv
  · show it.1 * cfg.sp.pgsPerFlashpg + i < cfg.sp.pgsPerBlk
    rw [hg.pgsPerBlk_eq']
    exact radix_lt hit.1 hi

/-- The address `do_gc` builds, after `i` increments of its page field, is page `i` of the flash page. -/
theorem gcPpa_nthPg (hg : Geometry cfg.sp) (hv : v < cfg.sp.ttLines) {it : Nat × Nat × Nat}
    (hit : InSchedule cfg.sp it) {i : Nat} (hi : i < cfg.sp.pgsPerFlashpg) :
    (gcPpa cfg.sp v it).nthPg i = pageAt cfg.sp v it i := by
  have hpg : it.1 * cfg.sp.pgsPerFlashpg + i < 2 ^ pageBits :=
    Nat.lt_of_lt_of_le (pageAt_valid hg hv hit hi).2.2.2.2 hg.pgsPerBlk_le
  have hpg0 : it.1 * cfg.sp.pgsPerFlashpg < 2 ^ pageBits := by omega
  have hblk : v < 2 ^ blkBits := by
    rw [hg.ttLines_eq] at hv
    exact Nat.lt_of_lt_of_le hv hg.blksPerPl_le
  have hch := Nat.lt_of_lt_of_le hit.2.1 hg.nchs_le
  have hlun := Nat.lt_of_lt_of_le hit.2.2 hg.lunsPerCh_le
  simp only [gcPpa, Ppa.nthPg, pageAt, Nat.mod_eq_of_lt hpg0, Nat.mod_eq_of_lt hpg,
    Nat.mod_eq_of_lt hblk, Nat.mod_eq_of_lt hch, Nat.mod_eq_of_lt hlun]

/-- Number of valid pages among the first `k` of a flash page. -/
def validIn (spp : SsdParams) (v : Nat) (it : Nat × Nat × Nat) (f : Flash) (k : Nat) : Nat :=
  countBelow (· = .valid) (fun i => f.status (pageAt spp v it i)) k

/-- First loop of `clean_one_flashpg`. -/
theorem countValid_eq (hg : Geometry cfg.sp) (hv : v < cfg.sp.ttLines) {it : Nat × Nat × Nat}
    (hit : InSchedule cfg.sp it)
    (hne : ∀ i, i < cfg.sp.pgsPerFlashpg → s.flash.status (pageAt cfg.sp v it i) ≠ .free) :
    countValid cfg (gcPpa cfg.sp v it) s = .ok (validIn cfg.sp v it s.flash cfg.sp.pgsPerFlashpg) := by
  refine Sat.eq_ok ?_
  refine sat_foldlM_range (fun k cnt => cnt = validIn cfg.sp v it s.flash k) _ ?_ rfl
  rintro k hk cnt rfl
  simp only [gcPpa_nthPg hg hv hit hk, nvmevAssert_of (hne k hk), ok_bind, pure_eq_ok, sat_ok, validIn,
    countBelow_succ]
  split <;> rfl

/-- The first `k` pages of a flash page are cleaned: the valid ones among them have been copied. -/
def CleanedTo (cfg : FtlConfig) (v : Nat) (it : Nat × Nat × Nat) (g : Ghost) (s : Part τ) (k : Nat) (s' : Part τ) :
    Prop :=
  ∃ g', Copied cfg v (validIn cfg.sp v it s.flash k) g g' s s' ∧
    ∀ p, g'.cleaned p ↔ g.cleaned p ∨ ∃ i, i < k ∧ p = pageAt cfg.sp v it i

/-- Second loop of `clean_one_flashpg`: every valid page of the flash page is moved. -/
theorem moveValid_spec (L : Latency τ) (hg : Geometry cfg.sp) (h : Reclaiming cfg v g s.toFdpFtl)
    {it : Nat × Nat × Nat} (hit : InSchedule cfg.sp it)
    (hcl : ∀ i, i < cfg.sp.pgsPerFlashpg → ¬ g.cleaned (pageAt cfg.sp v it i)) :
    Sat (fun e => e = .nullLine ∧ room cfg s.toFdpFtl ≤ cfg.nrRuh * cfg.sp.pgsPerLine +
        validIn cfg.sp v it s.flash cfg.sp.pgsPerFlashpg)
      (CleanedTo cfg v it g s cfg.sp.pgsPerFlashpg)
      (moveValid cfg L (gcPpa cfg.sp v it) s) := by
  refine sat_foldlM_range (CleanedTo cfg v it g s) _ ?_ ?_
  · rintro k hk s' ⟨g', hcop, hclean⟩
    have hvalid := pageAt_valid hg h.victim_lt hit hk
    have hsucc := countBelow_succ (· = PgStatus.valid)
      (fun i => s.flash.status (pageAt cfg.sp v it i)) k
    -- the pages visited so far are those before page `k`
    have hext : ∀ p, (g'.cleaned p ∨ p = pageAt cfg.sp v it k) ↔
        g.cleaned p ∨ ∃ i, i < k + 1 ∧ p = pageAt cfg.sp v it i := by
      intro p
      rw [hclean]
      constructor
      · rintro ((hp | ⟨i, hi, rfl⟩) | rfl)
        · exact Or.inl hp
        · exact Or.inr ⟨i, by omega, rfl⟩
        · exact Or.inr ⟨k, by omega, rfl⟩
      · rintro (hp | ⟨i, hi, rfl⟩)
        · exact Or.inl (Or.inl hp)
        · by_cases hik : i = k
          · exact Or.inr (by rw [hik])
          · exact Or.inl (Or.inr ⟨i, by omega, rfl⟩)
    simp only [gcPpa_nthPg hg h.victim_lt hit hk]
    split
    · -- a valid page: copy it
      rename_i hst
      have hst₀ : s.flash.status (pageAt cfg.sp v it k) = .valid := by
        rw [← hcop.status_eq _ rfl]
        exact hst
      rw [if_pos hst₀] at hsucc
      have hnot : ¬ g'.cleaned (pageAt cfg.sp v it k) := by
        rw [hclean]
        rintro (hp | ⟨i, hi, he⟩)
        · exact hcl k hk hp
        · have := congrArg Ppa.pg he
          simp only [pageAt] at this
          omega
      have hstep := gcWritePage_spec L hg hcop.reclaiming hvalid rfl hst hnot
      refine (hstep.mono_error ?_).mono ?_
      · rintro e ⟨rfl, hroom⟩
        refine ⟨rfl, ?_⟩
        have hmono : validIn cfg.sp v it s.flash (k + 1) ≤
            validIn cfg.sp v it s.flash cfg.sp.pgsPerFlashpg := countBelow_mono hk
        have := hcop.room_eq
        unfold validIn at this hmono ⊢
        omega
      · rintro s'' ⟨g'', hcop', hclean'⟩
        refine ⟨g'', ?_, hclean' ▸ hext⟩
        rw [validIn, hsucc]
        exact hcop.trans hcop'
    · -- nothing to copy
      rename_i hst
      have hst₀ : s.flash.status (pageAt cfg.sp v it k) ≠ .valid := by
        rw [← hcop.status_eq _ rfl]
        exact hst
      rw [if_neg hst₀, Nat.add_zero] at hsucc
      refine ⟨g'.clean (· = pageAt cfg.sp v it k), ?_, hext⟩
      rw [validIn, hsucc]
      refine { hcop with reclaiming := hcop.reclaiming.skip ?_ }
      rintro p rfl
      exact ⟨rfl, fun _ => hst⟩
  · refine ⟨g, ⟨h, .refl rfl (List.suffix_refl _) rfl rfl, rfl, fun _ _ => rfl, fun _ => rfl, rfl, rfl, rfl,
      rfl⟩, ?_⟩
    intro p
    simp

/-- **`clean_one_flashpg`**: the flash page holds no data that is not elsewhere. -/
theorem cleanOneFlashpg_spec (L : Latency τ) (hg : Geometry cfg.sp) (h : Reclaiming cfg v g s.toFdpFtl)
    {it : Nat × Nat × Nat} (hit : InSchedule cfg.sp it)
    (hcl : ∀ i, i < cfg.sp.pgsPerFlashpg → ¬ g.cleaned (pageAt cfg.sp v it i))
    (hne : ∀ i, i < cfg.sp.pgsPerFlashpg → s.flash.status (pageAt cfg.sp v it i) ≠ .free) :
    Sat (fun e => e = .nullLine ∧ room cfg s.toFdpFtl ≤ cfg.nrRuh * cfg.sp.pgsPerLine +
        validIn cfg.sp v it s.flash cfg.sp.pgsPerFlashpg)
      (CleanedTo cfg v it g s cfg.sp.pgsPerFlashpg)
      (cleanOneFlashpg cfg L (gcPpa cfg.sp v it) s) := by
  simp only [cleanOneFlashpg, countValid_eq hg h.victim_lt hit hne, ok_bind]
  split
  · -- no valid page: nothing is read or written
    rename_i hzero
    refine ⟨g.clean (fun p => ∃ i, i < cfg.sp.pgsPerFlashpg ∧ p = pageAt cfg.sp v it i),
      ⟨h.skip ?_, .refl rfl (List.suffix_refl _) rfl rfl, rfl, fun _ _ => rfl, fun _ => rfl, by rw [hzero]; rfl,
        rfl, rfl, by rw [hzero]; rfl⟩, fun _ => Iff.rfl⟩
    rintro p ⟨i, hi, rfl⟩
    refine ⟨rfl, fun _ hst => ?_⟩
    have := countBelow_pos (P := (· = PgStatus.valid))
      (f := fun i => s.flash.status (pageAt cfg.sp v it i)) hi hst
    unfold validIn at hzero
    omega
  · split
    · have hs : Reclaiming cfg v g (issueNand L
          { type := .gc
            cmd := .read
            xferSize := cfg.sp.pgsz * validIn cfg.sp v it s.flash cfg.sp.pgsPerFlashpg
            stime := 0
            interleavePciDma := false
            ppa := gcPpa cfg.sp v it } s).toFdpFtl := h
      refine (moveValid_spec L hg hs hit hcl).mono ?_
      rintro s' ⟨g', hcop, hclean⟩
      exact ⟨g', ⟨hcop.reclaiming, hcop.relocated, hcop.erased_eq, hcop.status_eq, hcop.erase_cnt,
        hcop.programs, hcop.credits_eq, hcop.refill_eq, hcop.room_eq⟩, hclean⟩
    · exact moveValid_spec L hg h hit hcl

/-! ## Erasing a block -/

/-- The ghost after block `b` of the victim was erased. -/
def Ghost.erase (g : Ghost) (b : BlkAddr) : Ghost := { g with erased := fun x => g.erased x ∨ x = b }

/-- A block of the victim. -/
structure VictimBlock (spp : SsdParams) (v : Nat) (b : BlkAddr) : Prop where
  ch_lt : b.ch < spp.nchs
  lun_lt : b.lun < spp.lunsPerCh
  pl_eq : b.pl = 0
  blk_eq : b.blk = v

/-- Until it is erased, every page of the victim is programmed. -/
theorem Reclaiming.status_ne_free {s : FdpFtl} (hg : Geometry cfg.sp) (h : Reclaiming cfg v g s) {p : Ppa}
    (hp : validPpa cfg.sp p) (hblk : p.blk = v) (he : ¬ g.erased p.blkAddr) :
    s.flash.status p ≠ .free := by
  intro hst
  have hfill := h.inv.settled.cleaning_fill v h.victim_lt ((h.cleaning_iff v).mpr rfl)
  have hlt := seqIdx_lt hg.grid hp.1 hp.2.1 hp.2.2.2.2
  rcases (h.inv.counted.status_free p hp).mp hst with hc | hc
  · exact he hc
  · rw [hblk, hfill] at hc
    omega

section erase

variable {s : Part τ} {p : Ppa}

theorem markBlockFree_status (cfg : FtlConfig) (p : Ppa) (s : Part τ) {q : Ppa}
    (hq : validPpa cfg.sp q) :
    (markBlockFree cfg p s).flash.status q =
      if q.blkAddr = p.blkAddr then .free else s.flash.status q := by
  show (Function.update s.flash p.blkAddr _ q.blkAddr).pg q.pg = _
  by_cases hb : q.blkAddr = p.blkAddr
  · rw [hb, Function.update_self, if_pos rfl]
    exact if_pos hq.2.2.2.2
  · rw [Function.update_of_ne hb, if_neg hb]
    rfl

theorem Counted.erase (h : Reclaiming cfg v g s.toFdpFtl) (hb : VictimBlock cfg.sp v p.blkAddr) :
    Counted cfg.sp (g.erase p.blkAddr) (markBlockFree cfg p s).toFdpFtl := by
  have hc := h.inv.counted
  have hfree : ∀ st : PgStatus, st ≠ .free →
      countBelow (· = st) ((s.flash p.blkAddr).erase cfg.sp.pgsPerBlk).pg cfg.sp.pgsPerBlk = 0 := by
    intro st hst
    refine countBelow_eq_zero ?_
    intro i hi
    simp only [NandBlock.erase, if_pos hi]
    exact Ne.symm hst
  have hother : ∀ {l}, g.place l ≠ .cleaning → p.blkAddr.blk ≠ l := by
    rintro l hl rfl
    exact hl ((h.cleaning_iff _).mpr hb.blk_eq)
  refine
    { status_free := ?_
      blk_vpc := ?_
      blk_ipc := ?_
      line_vpc := ?_
      line_ipc := ?_
      line_fill := hc.line_fill }
  · intro q hq
    rw [markBlockFree_status cfg p s hq]
    by_cases hqb : q.blkAddr = p.blkAddr
    · simp [hqb, Ghost.erase]
    · simpa [hqb, Ghost.erase] using hc.status_free q hq
  · intro b
    show (Function.update s.flash p.blkAddr _ b).vpc = countBelow _ (Function.update s.flash _ _ b).pg _
    by_cases hbb : b = p.blkAddr
    · rw [hbb, Function.update_self, hfree .valid (by decide)]
      rfl
    · rw [Function.update_of_ne hbb]
      exact hc.blk_vpc b
  · intro b
    show (Function.update s.flash p.blkAddr _ b).ipc = countBelow _ (Function.update s.flash _ _ b).pg _
    by_cases hbb : b = p.blkAddr
    · rw [hbb, Function.update_self, hfree .invalid (by decide)]
      rfl
    · rw [Function.update_of_ne hbb]
      exact hc.blk_ipc b
  · intro l hl hpl
    refine (hc.line_vpc l hl hpl).trans ?_
    exact (lineSum_update_of_ne NandBlock.vpc (hother hpl)).symm
  · intro l hl hpl
    refine (hc.line_ipc l hl hpl).trans ?_
    exact (lineSum_update_of_ne NandBlock.ipc (hother hpl)).symm

theorem Mapped.erase (h : Mapped cfg.sp g s.toFdpFtl)
    (hcl : ∀ q, validPpa cfg.sp q → q.blkAddr = p.blkAddr → g.cleaned q) :
    Mapped cfg.sp (g.erase p.blkAddr) (markBlockFree cfg p s).toFdpFtl := by
  refine ⟨?_, ?_⟩
  · intro x q hx hns
    obtain ⟨hlt, hq, hst, hr, hc⟩ := h.of_maptbl x q hx hns
    -- no page of the block is mapped any more
    have hqb : q.blkAddr ≠ p.blkAddr := fun he => hc (hcl q hq he)
    refine ⟨hlt, hq, ?_, hr, hc⟩
    rw [markBlockFree_status cfg p s hq, if_neg hqb]
    exact hst
  · intro q hq hst hc
    rw [markBlockFree_status cfg p s hq] at hst
    split at hst
    · cases hst
    · exact h.of_valid q hq hst hc

theorem Labelled.erase (h : Labelled cfg.sp cfg.nrRuh g s.toFdpFtl) :
    Labelled cfg.sp cfg.nrRuh (g.erase p.blkAddr) (markBlockFree cfg p s).toFdpFtl := by
  have hhist : ∀ q : Ppa, lastWriter (markBlockFree cfg p s).hist q =
      if q.blkAddr = p.blkAddr then none else lastWriter s.hist q := fun _ => rfl
  refine
    { opened_ruh := h.opened_ruh
      free_ruh := h.free_ruh
      ruh_range := h.ruh_range
      of_free := ?_
      of_programmed := ?_ }
  · intro q hq hst
    rw [markBlockFree_status cfg p s hq] at hst
    rw [hhist]
    split
    · rfl
    · rename_i hqb
      rw [if_neg hqb] at hst
      exact h.of_free q hq hst
  · intro q hq hst
    rw [markBlockFree_status cfg p s hq] at hst
    rw [hhist]
    split
    · rename_i hqb
      rw [if_pos hqb] at hst
      exact absurd rfl hst
    · rename_i hqb
      rw [if_neg hqb] at hst
      exact h.of_programmed q hq hst

theorem Balanced.erase (hg : Geometry cfg.sp) (h : Reclaiming cfg v g s.toFdpFtl)
    (hb : VictimBlock cfg.sp v p.blkAddr) (he : ¬ g.erased p.blkAddr) :
    Balanced cfg.sp (markBlockFree cfg p s).toFdpFtl := by
  have hblk : p.blkAddr.blk < cfg.sp.blksPerPl := by
    rw [hb.blk_eq, ← hg.ttLines_eq]
    exact h.victim_lt
  -- all pages of the block were programmed, none is now
  have hbefore : (s.flash p.blkAddr).programmed cfg.sp = cfg.sp.pgsPerBlk := by
    refine countBelow_eq_self ?_
    intro i hi
    exact h.status_ne_free hg (p := { p with pg := i })
      ⟨hb.ch_lt, hb.lun_lt, by
        show p.blkAddr.pl < _
        rw [hb.pl_eq, hg.plsPerLun_eq]
        exact Nat.one_pos, hblk, hi⟩ hb.blk_eq he
  have hafter : ((s.flash p.blkAddr).erase cfg.sp.pgsPerBlk).programmed cfg.sp = 0 := by
    refine countBelow_eq_zero ?_
    intro i hi
    simp [NandBlock.erase, hi]
  have hsum := programmedPages_update (f := s.flash)
    (b := (s.flash p.blkAddr).erase cfg.sp.pgsPerBlk) hb.ch_lt hb.lun_lt hb.pl_eq hblk
  have hold := h.inv.balanced
  unfold Balanced at hold ⊢
  show nrPrograms s.hist = programmedPages cfg.sp (Function.update s.flash p.blkAddr _) +
    cfg.sp.pgsPerBlk * (nrErases s.hist + 1)
  rw [Nat.mul_add, Nat.mul_one]
  omega

/-- **`mark_block_free`** on a block of the victim whose pages have all been cleaned. -/
theorem Reclaiming.erase (hg : Geometry cfg.sp) (h : Reclaiming cfg v g s.toFdpFtl)
    (hb : VictimBlock cfg.sp v p.blkAddr) (he : ¬ g.erased p.blkAddr)
    (hcl : ∀ q, validPpa cfg.sp q → q.blkAddr = p.blkAddr → g.cleaned q) :
    Reclaiming cfg v (g.erase p.blkAddr) (markBlockFree cfg p s).toFdpFtl where
  inv :=
    { confined := by
        refine ⟨h.inv.confined.of_cleaned, ?_⟩
        rintro b (hc | rfl)
        · exact h.inv.confined.of_erased b hc
        · exact (h.cleaning_iff _).mpr hb.blk_eq
      counted := Counted.erase h hb
      placed := h.inv.placed.congr rfl (fun _ => rfl) (fun _ => rfl) (fun _ _ => rfl) rfl rfl rfl rfl rfl rfl
      pointed := h.inv.pointed.congr rfl rfl rfl (fun _ _ => Iff.rfl)
      settled := h.inv.settled.congr rfl rfl rfl
      mapped := h.inv.mapped.erase hcl
      labelled := h.inv.labelled.erase
      balanced := Balanced.erase hg h hb he }
  victim_lt := h.victim_lt
  ahead_eq := h.ahead_eq
  not_stale := h.not_stale
  cleaning_iff := h.cleaning_iff

end erase

end NvmeVirt
