import NvmeVirt.Ftl.Invariant

/-!
# `Ftl.Containers` — a line moves from one container to another

One lemma for each way a line changes its place: taken from or put on the free list, put on or removed from
the full list, inserted into or popped from the victim queue, and re-prioritised inside it. In between a
line may be nowhere, which the ghost records as `cleaning`.
-/

namespace NvmeVirt

/-- Line `l` is now at `pl`. -/
def Ghost.move (g : Ghost) (l : Nat) (pl : Place) : Ghost :=
  { g with place := Function.update g.place l pl }

@[simp] theorem Ghost.move_place_self (g : Ghost) (l : Nat) (pl : Place) : (g.move l pl).place l = pl := by
  simp [Ghost.move]

theorem Ghost.move_place_of_ne (g : Ghost) {l x : Nat} (pl : Place) (h : x ≠ l) :
    (g.move l pl).place x = g.place x := by
  simp [Ghost.move, h]

/-- A line is where it was, or it is the one that was moved there. -/
theorem Ghost.of_move_place {g : Ghost} {l x : Nat} {pl q : Place} (h : (g.move l pl).place x = q) :
    (x = l ∧ pl = q) ∨ g.place x = q := by
  by_cases hx : x = l
  · rw [hx, Ghost.move_place_self] at h
    exact Or.inl ⟨hx, h⟩
  · rw [Ghost.move_place_of_ne g pl hx] at h
    exact Or.inr h

/-- Membership in a container other than the two a line moves between is unaffected. -/
theorem Ghost.move_place_eq_iff {g : Ghost} {l x : Nat} {pl q : Place} (hfrom : g.place l ≠ q)
    (hto : pl ≠ q) : (g.move l pl).place x = q ↔ g.place x = q := by
  by_cases hx : x = l
  · subst hx
    rw [Ghost.move_place_self]
    exact ⟨fun h => absurd h hto, fun h => absurd h hfrom⟩
  · rw [Ghost.move_place_of_ne g pl hx]

/-- Membership in the container a line enters. -/
theorem Ghost.move_place_eq_to {g : Ghost} {l x : Nat} {pl : Place} :
    (g.move l pl).place x = pl ↔ x = l ∨ g.place x = pl := by
  by_cases hx : x = l
  · subst hx
    simp
  · simp [Ghost.move_place_of_ne g pl hx, hx]

/-- Membership in the container a line leaves. -/
theorem Ghost.move_place_eq_from {g : Ghost} {l x : Nat} {pl q : Place} (hto : pl ≠ q) :
    (g.move l pl).place x = q ↔ x ≠ l ∧ g.place x = q := by
  by_cases hx : x = l
  · subst hx
    simp [hto]
  · simp [Ghost.move_place_of_ne g pl hx, hx]

section placed

theorem victimLineCmpPri_iff (next curr : Nat) : victimLineCmpPri next curr = true ↔ curr < next := by
  simp [victimLineCmpPri]

variable {τ : Type} {spp : SsdParams} {g : Ghost} {l : Nat}

/-- The containers do not depend on the lines' labels, nor on the counters of a line that is not queued. -/
theorem Placed.congr {s s' : FdpFtl} (h : Placed spp g s) {g' : Ghost} (hg : g'.place = g.place)
    (hid : ∀ x, (s'.lines x).id = (s.lines x).id) (hpos : ∀ x, (s'.lines x).pos = (s.lines x).pos)
    (hvpc : ∀ x, g.place x = .victim → (s'.lines x).vpc = (s.lines x).vpc)
    (hfree : s'.freeLineList = s.freeLineList) (hfreec : s'.freeLineCnt = s.freeLineCnt)
    (hfull : s'.fullLineList = s.fullLineList) (hfullc : s'.fullLineCnt = s.fullLineCnt)
    (hpq : s'.victimLinePq = s.victimLinePq) (hpqc : s'.victimLineCnt = s.victimLineCnt) :
    Placed spp g' s' where
  id_eq := fun x => (hid x).trans (h.id_eq x)
  mem_free := by rw [hfree, hg]; exact h.mem_free
  free_nodup := by rw [hfree]; exact h.free_nodup
  free_cnt := by rw [hfree, hfreec]; exact h.free_cnt
  mem_full := by rw [hfull, hg]; exact h.mem_full
  full_nodup := by rw [hfull]; exact h.full_nodup
  full_cnt := by rw [hfull, hfullc]; exact h.full_cnt
  pq_wf := by
    have hfun : victimLineGetPos s'.lines = victimLineGetPos s.lines := funext hpos
    rw [hpq, hfun]
    exact h.pq_wf
  pq_ordered := by
    rw [hpq]
    refine HeapOrdered.congr h.pq_ordered fun j hj hj' => hvpc _ ?_
    exact ((h.mem_pq _).mp ⟨j, hj, hj', rfl⟩).2
  mem_pq := by rw [hpq, hg]; exact h.mem_pq
  victim_cnt := by rw [hpq, hpqc]; exact h.victim_cnt
  pos_eq := by
    intro x hx hpl
    rw [hpos x]
    exact h.pos_eq x hx (by rw [← hg]; exact hpl)

variable {s : Part τ}

/-- `list_first_entry` and `list_del_init` on the free list. -/
theorem Placed.takeFree {rest : List Nat} (h : Placed spp g s.toFdpFtl)
    (hl : s.freeLineList = l :: rest) {pl : Place} (h1 : pl ≠ .free) (h2 : pl ≠ .full)
    (h3 : pl ≠ .victim) :
    Placed spp (g.move l pl)
      ({ s with freeLineList := rest, freeLineCnt := s.freeLineCnt - 1 } : Part τ).toFdpFtl := by
  have hnd := h.free_nodup
  rw [hl] at hnd
  obtain ⟨hnotin, hnd'⟩ := List.nodup_cons.mp hnd
  have hfree : g.place l = .free := ((h.mem_free l).mp (by rw [hl]; exact List.mem_cons_self ..)).2
  refine
    { id_eq := h.id_eq
      mem_free := ?_
      free_nodup := hnd'
      free_cnt := ?_
      mem_full := ?_
      full_nodup := h.full_nodup
      full_cnt := h.full_cnt
      pq_wf := h.pq_wf
      pq_ordered := h.pq_ordered
      mem_pq := ?_
      victim_cnt := h.victim_cnt
      pos_eq := ?_ }
  · intro x
    show x ∈ rest ↔ _
    rw [Ghost.move_place_eq_from h1]
    have hx := h.mem_free x
    rw [hl, List.mem_cons] at hx
    constructor
    · intro hin
      have hne : x ≠ l := fun he => hnotin (he ▸ hin)
      exact ⟨(hx.mp (Or.inr hin)).1, hne, (hx.mp (Or.inr hin)).2⟩
    · rintro ⟨hlt, hne, hf⟩
      exact (hx.mpr ⟨hlt, hf⟩).resolve_left hne
  · show s.freeLineCnt - 1 = rest.length
    rw [h.free_cnt, hl, List.length_cons]
    omega
  · intro x
    rw [Ghost.move_place_eq_iff (by rw [hfree]; decide) h2]
    exact h.mem_full x
  · intro x
    rw [Ghost.move_place_eq_iff (by rw [hfree]; decide) h3]
    exact h.mem_pq x
  · intro x hx hpl
    rw [ne_eq, Ghost.move_place_eq_iff (by rw [hfree]; decide) h3] at hpl
    exact h.pos_eq x hx hpl

/-- `list_add_tail` to the free list. -/
theorem Placed.addFree (h : Placed spp g s.toFdpFtl) (hl : l < spp.ttLines)
    (hpl : g.place l = .cleaning) :
    Placed spp (g.move l .free)
      ({ s with freeLineList := s.freeLineList ++ [l], freeLineCnt := s.freeLineCnt + 1 } :
        Part τ).toFdpFtl := by
  refine
    { id_eq := h.id_eq
      mem_free := ?_
      free_nodup := ?_
      free_cnt := ?_
      mem_full := ?_
      full_nodup := h.full_nodup
      full_cnt := h.full_cnt
      pq_wf := h.pq_wf
      pq_ordered := h.pq_ordered
      mem_pq := ?_
      victim_cnt := h.victim_cnt
      pos_eq := ?_ }
  · intro x
    show x ∈ s.freeLineList ++ [l] ↔ _
    rw [Ghost.move_place_eq_to, List.mem_append, List.mem_singleton, h.mem_free x]
    constructor
    · rintro (⟨hlt, hf⟩ | rfl)
      · exact ⟨hlt, Or.inr hf⟩
      · exact ⟨hl, Or.inl rfl⟩
    · rintro ⟨hlt, rfl | hf⟩
      · exact Or.inr rfl
      · exact Or.inl ⟨hlt, hf⟩
  · refine List.Nodup.append h.free_nodup (List.nodup_singleton l) ?_
    rw [List.disjoint_singleton]
    intro hin
    have := ((h.mem_free l).mp hin).2
    rw [hpl] at this
    cases this
  · show s.freeLineCnt + 1 = (s.freeLineList ++ [l]).length
    rw [h.free_cnt, List.length_append, List.length_singleton]
  · intro x
    rw [Ghost.move_place_eq_iff (by rw [hpl]; decide) (by decide)]
    exact h.mem_full x
  · intro x
    rw [Ghost.move_place_eq_iff (by rw [hpl]; decide) (by decide)]
    exact h.mem_pq x
  · intro x hx hne
    rw [ne_eq, Ghost.move_place_eq_iff (by rw [hpl]; decide) (by decide)] at hne
    exact h.pos_eq x hx hne

/-- `list_add_tail` to the full list. -/
theorem Placed.addFull (h : Placed spp g s.toFdpFtl) (hl : l < spp.ttLines) {w : Writer}
    (hpl : g.place l = .opened w) :
    Placed spp (g.move l .full)
      ({ s with fullLineList := s.fullLineList ++ [l], fullLineCnt := s.fullLineCnt + 1 } :
        Part τ).toFdpFtl := by
  refine
    { id_eq := h.id_eq
      mem_free := ?_
      free_nodup := h.free_nodup
      free_cnt := h.free_cnt
      mem_full := ?_
      full_nodup := ?_
      full_cnt := ?_
      pq_wf := h.pq_wf
      pq_ordered := h.pq_ordered
      mem_pq := ?_
      victim_cnt := h.victim_cnt
      pos_eq := ?_ }
  · intro x
    rw [Ghost.move_place_eq_iff (by simp [hpl]) (by decide)]
    exact h.mem_free x
  · intro x
    show x ∈ s.fullLineList ++ [l] ↔ _
    rw [Ghost.move_place_eq_to, List.mem_append, List.mem_singleton, h.mem_full x]
    constructor
    · rintro (⟨hlt, hf⟩ | rfl)
      · exact ⟨hlt, Or.inr hf⟩
      · exact ⟨hl, Or.inl rfl⟩
    · rintro ⟨hlt, rfl | hf⟩
      · exact Or.inr rfl
      · exact Or.inl ⟨hlt, hf⟩
  · refine List.Nodup.append h.full_nodup (List.nodup_singleton l) ?_
    rw [List.disjoint_singleton]
    intro hin
    have := ((h.mem_full l).mp hin).2
    rw [hpl] at this
    cases this
  · show s.fullLineCnt + 1 = (s.fullLineList ++ [l]).length
    rw [h.full_cnt, List.length_append, List.length_singleton]
  · intro x
    rw [Ghost.move_place_eq_iff (by simp [hpl]) (by decide)]
    exact h.mem_pq x
  · intro x hx hne
    rw [ne_eq, Ghost.move_place_eq_iff (by simp [hpl]) (by decide)] at hne
    exact h.pos_eq x hx hne

/-- `list_del_init` on the full list. -/
theorem Placed.removeFull (h : Placed spp g s.toFdpFtl) (hl : l < spp.ttLines)
    (hpl : g.place l = .full) :
    Placed spp (g.move l .cleaning)
      ({ s with fullLineList := s.fullLineList.erase l, fullLineCnt := s.fullLineCnt - 1 } :
        Part τ).toFdpFtl := by
  have hin : l ∈ s.fullLineList := (h.mem_full l).mpr ⟨hl, hpl⟩
  refine
    { id_eq := h.id_eq
      mem_free := ?_
      free_nodup := h.free_nodup
      free_cnt := h.free_cnt
      mem_full := ?_
      full_nodup := h.full_nodup.erase l
      full_cnt := ?_
      pq_wf := h.pq_wf
      pq_ordered := h.pq_ordered
      mem_pq := ?_
      victim_cnt := h.victim_cnt
      pos_eq := ?_ }
  · intro x
    rw [Ghost.move_place_eq_iff (by rw [hpl]; decide) (by decide)]
    exact h.mem_free x
  · intro x
    show x ∈ s.fullLineList.erase l ↔ _
    rw [Ghost.move_place_eq_from (by decide), h.full_nodup.mem_erase_iff, h.mem_full x]
    exact and_left_comm
  · show s.fullLineCnt - 1 = (s.fullLineList.erase l).length
    rw [h.full_cnt, List.length_erase_of_mem hin]
  · intro x
    rw [Ghost.move_place_eq_iff (by rw [hpl]; decide) (by decide)]
    exact h.mem_pq x
  · intro x hx hne
    rw [ne_eq, Ghost.move_place_eq_iff (by rw [hpl]; decide) (by decide)] at hne
    exact h.pos_eq x hx hne

/-- `pqueue_insert` of a line that is in no container. -/
theorem Placed.insertVictim (h : Placed spp g s.toFdpFtl) (hl : l < spp.ttLines)
    (h1 : g.place l ≠ .free) (h2 : g.place l ≠ .full) (h3 : g.place l ≠ .victim) :
    Placed spp (g.move l .victim)
      ({ pqueueInsert l s with victimLineCnt := s.victimLineCnt + 1 } : Part τ).toFdpFtl := by
  have hnot : ¬ s.victimLinePq.Mem l := fun hm => h3 ((h.mem_pq l).mp hm).2
  obtain ⟨hsize, hwf, hmem, hframe⟩ := Pqueue.insert_spec victimLineCmpPri
    (victimLineGetPri s.lines) h.pq_wf hnot
  refine
    { id_eq := h.id_eq
      mem_free := ?_
      free_nodup := h.free_nodup
      free_cnt := h.free_cnt
      mem_full := ?_
      full_nodup := h.full_nodup
      full_cnt := h.full_cnt
      pq_wf := hwf
      pq_ordered := Pqueue.insert_ordered victimLineCmpPri_iff h.pq_wf h.pq_ordered l
      mem_pq := ?_
      victim_cnt := ?_
      pos_eq := ?_ }
  · intro x
    rw [Ghost.move_place_eq_iff h1 (by decide)]
    exact h.mem_free x
  · intro x
    rw [Ghost.move_place_eq_iff h2 (by decide)]
    exact h.mem_full x
  · intro x
    rw [Ghost.move_place_eq_to]
    refine (hmem x).trans ?_
    rw [h.mem_pq x]
    constructor
    · rintro (rfl | ⟨hlt, hv⟩)
      · exact ⟨hl, Or.inl rfl⟩
      · exact ⟨hlt, Or.inr hv⟩
    · rintro ⟨hlt, rfl | hv⟩
      · exact Or.inl rfl
      · exact Or.inr ⟨hlt, hv⟩
  · have := h.victim_cnt
    show s.victimLineCnt + 1 + 1 = _
    exact (congrArg (· + 1) this).trans hsize.symm
  · intro x hx hne
    rw [ne_eq, Ghost.move_place_eq_to, not_or] at hne
    have hpos := hframe x hne.1 (fun hm => hne.2 ((h.mem_pq x).mp hm).2)
    exact hpos.trans (h.pos_eq x hx hne.2)

/-- `pqueue_change_priority` of a queued line keeps the containers. -/
theorem Placed.changePriority (h : Placed spp g s.toFdpFtl) (hl : l < spp.ttLines)
    (hpl : g.place l = .victim) (pri : Nat) :
    Placed spp g (pqueueChangePriority pri l s).toFdpFtl := by
  have hin : s.victimLinePq.Mem l := (h.mem_pq l).mpr ⟨hl, hpl⟩
  have hpos : victimLineGetPos (Function.update s.lines l { s.lines l with vpc := pri }) =
      victimLineGetPos s.lines := by
    funext x
    by_cases hx : x = l
    · subst hx
      simp [victimLineGetPos]
    · simp [victimLineGetPos, hx]
  have hwf0 := h.pq_wf
  rw [← hpos] at hwf0
  obtain ⟨hsize, hwf, hmem, hframe⟩ := Pqueue.changePriority_spec victimLineCmpPri
    (victimLineGetPri (Function.update s.lines l { s.lines l with vpc := pri })) hwf0 hin
    (s.lines l).vpc
  have hordered := Pqueue.changePriority_ordered
    (victimLineGetPri (Function.update s.lines l { s.lines l with vpc := pri })) victimLineCmpPri_iff hwf0
    h.pq_ordered hin fun x hx => by simp [victimLineGetPri, hx]
  refine
    { id_eq := ?_
      mem_free := h.mem_free
      free_nodup := h.free_nodup
      free_cnt := h.free_cnt
      mem_full := h.mem_full
      full_nodup := h.full_nodup
      full_cnt := h.full_cnt
      pq_wf := hwf
      pq_ordered := hordered
      mem_pq := fun x => (hmem x).trans (h.mem_pq x)
      victim_cnt := h.victim_cnt.trans hsize.symm
      pos_eq := ?_ }
  · intro x
    by_cases hx : x = l
    · subst hx
      simpa [pqueueChangePriority, victimLineSetPos] using h.id_eq x
    · simpa [pqueueChangePriority, victimLineSetPos, hx] using h.id_eq x
  · intro x hx hne
    have hp := hframe x (fun hm => hne ((h.mem_pq x).mp hm).2)
    refine hp.trans ?_
    rw [hpos]
    exact h.pos_eq x hx hne

/-- The state after `select_victim_line` took line `l`: the queue without its head, the line's position cleared. -/
def popped (l : Nat) (s : Part τ) : Part τ :=
  { pqueuePop s with
    lines := Function.update (pqueuePop s).lines l { (pqueuePop s).lines l with pos := 0 }
    victimLineCnt := s.victimLineCnt - 1 }

theorem popped_lines (l x : Nat) (s : Part τ) :
    (popped l s).lines x = { s.lines x with pos := ((popped l s).lines x).pos } := by
  by_cases hx : x = l
  · subst hx
    simp [popped, pqueuePop, victimLineSetPos]
  · simp [popped, pqueuePop, victimLineSetPos, hx]

/-- `select_victim_line`: the head leaves the queue. -/
theorem Placed.popVictim (h : Placed spp g s.toFdpFtl) (hl : s.victimLinePq.peek = some l) :
    l < spp.ttLines ∧ g.place l = .victim ∧ Placed spp (g.move l .cleaning) (popped l s).toFdpFtl := by
  obtain ⟨hin, hhead, hlt⟩ := Pqueue.mem_of_peek h.pq_wf hl
  obtain ⟨hl', hpl⟩ := (h.mem_pq l).mp hin
  obtain ⟨hsize, hidx, hmem, hframe⟩ := Pqueue.pop_spec victimLineCmpPri
    (victimLineGetPri s.lines) h.pq_wf hlt
  refine ⟨hl', hpl, ?_⟩
  have hpos : ∀ x, x ≠ l → victimLineGetPos (popped l s).lines x =
      (Pqueue.pop victimLineCmpPri (victimLineGetPri s.lines) s.victimLinePq (victimLineGetPos s.lines)).2 x := by
    intro x hx
    simp [victimLineGetPos, popped, pqueuePop, victimLineSetPos, hx]
  have hpri : ∀ x, victimLineGetPri (popped l s).lines x = victimLineGetPri s.lines x := by
    intro x
    unfold victimLineGetPri
    rw [popped_lines]
  refine
    { id_eq := fun x => by rw [popped_lines]; exact h.id_eq x
      mem_free := ?_
      free_nodup := h.free_nodup
      free_cnt := h.free_cnt
      mem_full := ?_
      full_nodup := h.full_nodup
      full_cnt := h.full_cnt
      pq_wf := ⟨?_, ?_⟩
      pq_ordered := ?_
      mem_pq := ?_
      victim_cnt := ?_
      pos_eq := ?_ }
  · intro x
    rw [Ghost.move_place_eq_iff (by rw [hpl]; decide) (by decide)]
    exact h.mem_free x
  · intro x
    rw [Ghost.move_place_eq_iff (by rw [hpl]; decide) (by decide)]
    exact h.mem_full x
  · show 1 ≤ s.victimLinePq.size - 1
    omega
  · -- the slots still in use hold lines other than the head, whose positions the pop wrote
    intro j hj hj'
    have hj'' : j < s.victimLinePq.size - 1 := hj'
    have hmj := (hmem _).mp ⟨j, hj, hj', rfl⟩
    have hne : (pqueuePop s).victimLinePq.d j ≠ l := by
      rw [hhead] at hmj
      exact hmj.2
    exact (hpos _ hne).trans (hidx j hj hj'')
  · refine HeapOrdered.congr (Pqueue.pop_ordered victimLineCmpPri_iff h.pq_ordered) fun j _ _ => hpri _
  · intro x
    refine (hmem x).trans ?_
    rw [Ghost.move_place_eq_from (by decide), h.mem_pq x, hhead]
    constructor
    · rintro ⟨⟨hlt', hv⟩, hne⟩
      exact ⟨hlt', hne, hv⟩
    · rintro ⟨hlt', hne, hv⟩
      exact ⟨⟨hlt', hv⟩, hne⟩
  · have hcnt := h.victim_cnt
    show s.victimLineCnt - 1 + 1 = s.victimLinePq.size - 1
    omega
  · intro x hx hne
    by_cases hxl : x = l
    · subst hxl
      simp [popped]
    · rw [ne_eq, Ghost.move_place_eq_from (by decide), not_and] at hne
      have hnm : ¬ s.victimLinePq.Mem x := fun hm => hne hxl ((h.mem_pq x).mp hm).2
      have hp := hframe x (by rw [hhead]; exact hxl) hnm
      exact ((hpos x hxl).trans hp).trans (h.pos_eq x hx (hne hxl))

end placed

/-- Changing only which LPNs are stale and which pages are cleaned. -/
theorem Inv.retag {cfg : FtlConfig} {g g' : Ghost} {s : FdpFtl} (h : Inv cfg g s)
    (hplace : g'.place = g.place) (hfill : g'.fill = g.fill) (hahead : g'.ahead = g.ahead)
    (herased : g'.erased = g.erased) (hconf : g'.Confined) (hm : Mapped cfg.sp g' s) : Inv cfg g' s where
  confined := hconf
  counted := h.counted.congr rfl rfl hplace hfill herased
  placed := h.placed.congr hplace (fun _ => rfl) (fun _ => rfl) (fun _ _ => rfl) rfl rfl rfl rfl rfl rfl
  pointed := h.pointed.congr rfl hfill hahead (fun _ _ => by rw [hplace])
  settled := h.settled.congr rfl hplace hfill
  mapped := hm
  labelled := h.labelled.congr (fun _ => rfl) rfl (fun x w hx => by rw [← hplace]; exact hx)
    (fun x hx => by rw [← hplace]; exact hx) (fun _ _ => Iff.rfl)
  balanced := h.balanced

end NvmeVirt
