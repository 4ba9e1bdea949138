import NvmeVirt.Nvme.DataPath

/-!
# `Nvme.PrpWalk` — the bytes a command designates and the bytes `__do_perform_io` moves

NVMe gives every byte of a transfer one byte of host memory: on the page of PRP1 as far as it goes, then on the page
of PRP2, or, if more than a page is left, on the pages that the words at PRP2 list. `PrpPair.hostByte` is that function
and `Moved` the exchange it stands for. `moved_copyAll` shows that a walk over chunks moves exactly the bytes of its
own walk; what is left is to compare addresses.

They differ where a frame is not `pfn_valid`: `memremap` returns a pointer to the address itself, to which the page
offset is added once more, in bytes for a data page and in entries of 8 bytes for the list. And the loop reads a PRP of
the list when it needs it, after a read may have overwritten it. `prp_walk_exact_iff` says that nothing else goes wrong:
a walk over a list that is read where it is, is the one of the DMA path (`movesDesignated_iff_dma`), and a list that is
read elsewhere is missed in some memory (`misread_differs`).
-/

namespace NvmeVirt

/-! ## What a command designates -/

namespace PrpPair

/-- Bytes on the page of PRP1. -/
def firstBytes (p : PrpPair) (length : Nat) : Nat := min length (pageSize - p.prp1.toNat % pageSize)

/-- An entry of the PRP list. -/
def listEntry (p : PrpPair) (host : HostMem) (i : Nat) : Nat := host.u64At (p.prp2.toNat + 8 * i)

/-- **The host byte that stands for byte `k` of a transfer.** -/
def hostByte (p : PrpPair) (length : Nat) (host : HostMem) (k : Nat) : Nat :=
  if k < p.firstBytes length then p.prp1.toNat + k
  else if pageSize < length - p.firstBytes length then
    p.listEntry host ((k - p.firstBytes length) / pageSize) + (k - p.firstBytes length) % pageSize
  else p.prp2.toNat + (k - p.firstBytes length)

/-- The bytes of the PRP list. -/
def InList (p : PrpPair) (length x : Nat) : Prop :=
  p.prp2.toNat ≤ x ∧ x < p.prp2.toNat + 8 * p.listLen length

instance (p : PrpPair) (length x : Nat) : Decidable (p.InList length x) := inferInstanceAs (Decidable (_ ∧ _))

/-- The entries of the PRP list have no page offset. -/
def ListPages (p : PrpPair) (length : Nat) (host : HostMem) : Prop :=
  ∀ i, i < p.listLen length → p.listEntry host i % pageSize = 0

instance (p : PrpPair) (length : Nat) (host : HostMem) : Decidable (p.ListPages length host) :=
  inferInstanceAs (Decidable (∀ i, i < _ → _))

/-- PRP2 has no page offset or its page is mapped with `kmap_atomic_pfn`, if it points to a list. -/
def ListPlain (p : PrpPair) (length : Nat) : Prop :=
  pageSize < p.rest length → p.prp2.toNat % pageSize = 0 ∨ p.pfnValid (p.prp2.toNat / pageSize) = true

end PrpPair

/-- **An exchange of `n` bytes**: byte `k` of the storage range with the host byte at `addr k`, and no other byte. Host
    bytes that stand for several bytes of the range keep the last one. -/
def Moved (dir : IoDir) (offset n : Nat) (addr : Nat → Nat) (m m' : IoMem) : Prop :=
  match dir with
  | .toStorage =>
      m'.host = m.host ∧ (∀ k, k < n → m'.storage (offset + k) = m.host (addr k)) ∧
        ∀ x, ¬ (offset ≤ x ∧ x < offset + n) → m'.storage x = m.storage x
  | .toHost =>
      m'.storage = m.storage ∧
        (∀ k, k < n → (∀ j, k < j → j < n → addr j ≠ addr k) → m'.host (addr k) = m.storage (offset + k)) ∧
        ∀ x, (∀ k, k < n → addr k ≠ x) → m'.host x = m.host x
  | .none => m' = m

section Moved

variable {dir : IoDir} {offset n : Nat} {addr : Nat → Nat} {m m₁ m₂ : IoMem}

theorem Moved.zero (dir : IoDir) (offset : Nat) (addr : Nat → Nat) (m : IoMem) : Moved dir offset 0 addr m m := by
  cases dir with
  | toStorage => exact ⟨rfl, fun k hk => absurd hk (Nat.not_lt_zero k), fun _ _ => rfl⟩
  | toHost => exact ⟨rfl, fun k hk => absurd hk (Nat.not_lt_zero k), fun _ _ => rfl⟩
  | none => rfl

/-- **One more chunk.** -/
theorem Moved.chunk (h : Moved dir offset n addr m m₁) (a size : Nat) (ha : ∀ i, i < size → addr (n + i) = a + i) :
    Moved dir offset (n + size) addr m (dir.copy offset m₁ a n size) := by
  cases dir with
  | none => exact h
  | toStorage =>
      obtain ⟨hhost, hbytes, hframe⟩ := h
      refine ⟨hhost, fun k hk => ?_, fun x hx => ?_⟩
      · by_cases hold : k < n
        · exact (memcpy_of_not (by omega)).trans (hbytes k hold)
        · obtain ⟨i, rfl⟩ := Nat.exists_eq_add_of_le (Nat.le_of_not_lt hold)
          refine (memcpy_of_mem (by omega)).trans ?_
          rw [hhost, ha i (by omega)]
          congr 1
          omega
      · exact (memcpy_of_not (by omega)).trans (hframe x (by omega))
  | toHost =>
      obtain ⟨hstorage, hbytes, hframe⟩ := h
      refine ⟨hstorage, fun k hk hlast => ?_, fun x hx => ?_⟩
      · by_cases hold : k < n
        · -- a later chunk is somewhere else
          have hout : ¬ (a ≤ addr k ∧ addr k < a + size) := by
            intro hin
            refine hlast (n + (addr k - a)) (by omega) (by omega) ?_
            rw [ha _ (by omega)]
            omega
          exact (memcpy_of_not hout).trans (hbytes k hold fun j hkj hj => hlast j hkj (by omega))
        · obtain ⟨i, rfl⟩ := Nat.exists_eq_add_of_le (Nat.le_of_not_lt hold)
          rw [ha i (by omega)]
          refine (memcpy_of_mem (by omega)).trans ?_
          rw [hstorage]
          congr 1
          omega
      · have hout : ¬ (a ≤ x ∧ x < a + size) := by
          intro hin
          refine hx (n + (x - a)) (by omega) ?_
          rw [ha _ (by omega)]
          omega
        exact (memcpy_of_not hout).trans (hframe x fun k hk => hx k (by omega))

/-- Of the bytes that stand at one address there is a last one. -/
theorem exists_last {x : Nat} (h : ∃ k, k < n ∧ addr k = x) :
    ∃ k, k < n ∧ addr k = x ∧ ∀ j, k < j → j < n → addr j ≠ addr k := by
  induction n with
  | zero =>
      obtain ⟨k, hk, -⟩ := h
      exact absurd hk (Nat.not_lt_zero k)
  | succ n ih =>
      by_cases hn : addr n = x
      · exact ⟨n, Nat.lt_succ_self n, hn, fun j hj hlt => by omega⟩
      · obtain ⟨k, hk, hx⟩ := h
        have hkn : k ≠ n := fun heq => hn (heq ▸ hx)
        obtain ⟨l, hl, hlx, hlast⟩ := ih ⟨k, by omega, hx⟩
        refine ⟨l, by omega, hlx, fun j hj hlt => ?_⟩
        by_cases hjn : j = n
        · rw [hjn, hlx]
          exact hn
        · exact hlast j hj (by omega)

/-- **The exchange determines the memory.** -/
theorem Moved.unique (h₁ : Moved dir offset n addr m m₁) (h₂ : Moved dir offset n addr m m₂) : m₁ = m₂ := by
  cases m₁ with
  | mk host₁ storage₁ =>
  cases m₂ with
  | mk host₂ storage₂ =>
  cases dir with
  | none => exact h₁.trans h₂.symm
  | toStorage =>
      obtain ⟨hhost₁, hbytes₁, hframe₁⟩ := h₁
      obtain ⟨hhost₂, hbytes₂, hframe₂⟩ := h₂
      congr 1
      · exact hhost₁.trans hhost₂.symm
      · funext x
        by_cases hx : offset ≤ x ∧ x < offset + n
        · obtain ⟨k, rfl⟩ := Nat.exists_eq_add_of_le hx.1
          exact (hbytes₁ k (by omega)).trans (hbytes₂ k (by omega)).symm
        · exact (hframe₁ x hx).trans (hframe₂ x hx).symm
  | toHost =>
      obtain ⟨hstorage₁, hbytes₁, hframe₁⟩ := h₁
      obtain ⟨hstorage₂, hbytes₂, hframe₂⟩ := h₂
      congr 1
      · funext x
        by_cases hx : ∃ k, k < n ∧ addr k = x
        · obtain ⟨k, hk, rfl, hlast⟩ := exists_last hx
          exact (hbytes₁ k hk hlast).trans (hbytes₂ k hk hlast).symm
        · have hnot : ∀ k, k < n → addr k ≠ x := fun k hk heq => hx ⟨k, hk, heq⟩
          exact (hframe₁ x hnot).trans (hframe₂ x hnot).symm
      · exact hstorage₁.trans hstorage₂.symm

end Moved

/-! ## What a walk moves -/

section Walk

variable {p : PrpPair} {dir : IoDir} {offset length : Nat} {host : HostMem} {m : IoMem}

theorem ioSize_prp1 (p : PrpPair) (length : Nat) : ioSize length p.prp1.toNat = p.firstBytes length := by
  have hlt : p.prp1.toNat % pageSize < pageSize := Nat.mod_lt _ (by decide)
  unfold PrpPair.firstBytes ioSize pageSize at *
  split <;> omega

theorem rest_eq (p : PrpPair) (length : Nat) : p.rest length = length - p.firstBytes length := by
  rw [PrpPair.rest, ioSize_prp1]

/-- Where a walk over the PRPs finds byte `k`. -/
def PrpPair.walkByte (p : PrpPair) (length : Nat) (host : HostMem) (k : Nat) : Nat :=
  if k < p.firstBytes length then p.prp1.toNat + k
  else (p.tail length host).getD ((k - p.firstBytes length) / pageSize) 0 + (k - p.firstBytes length) % pageSize

/-- Whole pages, one after the other. -/
theorem moved_pages {addr : Nat → Nat} {as : List Nat} {remaining pos : Nat} {m₁ : IoMem} (hall : AllPages as)
    (hlen : as.length = pagesFor remaining)
    (haddr : ∀ j, j < remaining → addr (pos + j) = as.getD (j / pageSize) 0 + j % pageSize)
    (h : Moved dir offset pos addr m m₁) :
    Moved dir offset (pos + remaining) addr m (copyAll id dir offset (chunks as remaining pos) m₁) := by
  induction as generalizing remaining pos m₁ with
  | nil =>
      have h0 : remaining = 0 := by
        by_contra h0
        rw [pagesFor_pos h0] at hlen
        exact absurd hlen (by simp)
      rw [h0, Nat.add_zero]
      exact h
  | cons a as ih =>
      have hne : remaining ≠ 0 := by
        intro h0
        rw [h0, pagesFor_zero] at hlen
        exact absurd hlen (by simp)
      have hpage : 0 < pageSize := by decide
      have hsize := ioSize_of_aligned remaining (hall a List.mem_cons_self).1
      rw [pagesFor_pos hne, List.length_cons, Nat.add_right_cancel_iff] at hlen
      have hchunk := h.chunk a (min remaining pageSize) fun i hi => by
        have hi' : i < pageSize := by omega
        rw [haddr i (by omega), Nat.div_eq_of_lt hi', Nat.mod_eq_of_lt hi']
        rfl
      have hrest := ih (fun b hb => hall b (List.mem_cons_of_mem a hb)) hlen (fun j hj => ?_) hchunk
      · rw [chunks, hsize, copyAll, List.foldl_cons, ← copyAll]
        rwa [Nat.add_assoc, Nat.add_sub_cancel' (Nat.min_le_left _ _)] at hrest
      · -- behind a whole page the index into the list is one less
        have hfull : min remaining pageSize = pageSize := by omega
        rw [hfull] at hj ⊢
        rw [Nat.add_assoc, haddr (pageSize + j) (by omega), Nat.add_div_left _ hpage, Nat.add_mod_left]
        rfl

/-- **A walk over the chunks moves the bytes of the walk.** -/
theorem moved_copyAll (dir : IoDir) (offset : Nat) (m : IoMem)
    (hall : AllPages (p.tail length host)) (hlen : (p.tail length host).length = pagesFor (p.rest length)) :
    Moved dir offset length (p.walkByte length host) m (copyAll id dir offset (p.chunksOf length host) m) := by
  have hle : p.firstBytes length ≤ length := Nat.min_le_left _ _
  have hfirst := (Moved.zero dir offset (p.walkByte length host) m).chunk p.prp1.toNat (p.firstBytes length) fun i hi => by
    rw [Nat.zero_add, PrpPair.walkByte, if_pos hi]
  have hrest := moved_pages hall hlen (fun j _ => ?_) hfirst
  · rw [PrpPair.chunksOf, chunks, copyAll, List.foldl_cons, ← copyAll, ← PrpPair.rest, ioSize_prp1, Nat.zero_add]
    rwa [rest_eq, Nat.zero_add, Nat.add_sub_cancel' hle, ← rest_eq] at hrest
  · rw [PrpPair.walkByte, if_neg (by omega), Nat.zero_add, Nat.add_sub_cancel_left]

/-- The PRPs of a command as NVMe reads them, whatever the frames. -/
def PrpPair.designated (p : PrpPair) : PrpPair := { p with pfnValid := fun _ => true }

theorem designated_list (p : PrpPair) : p.designated.list = p.prp2.toNat := by
  rw [PrpPair.list, PrpPair.listAddr]
  exact if_pos rfl

theorem designated_wf (hwf : WellFormedPrps p length) : WellFormedPrps p.designated length := ⟨hwf.pos, hwf.le, hwf.page2⟩

theorem designated_entry (p : PrpPair) (host : HostMem) (i : Nat) : p.designated.entry host i = p.listEntry host i := by
  rw [PrpPair.entry, designated_list]
  rfl

theorem designated_pages (hlist : p.ListPages length host) : PagesOnList p.designated length host := by
  intro i hi
  rw [designated_entry]
  exact hlist i hi

theorem getD_tail_of_list (hlong : pageSize < p.rest length) {i : Nat} (hi : i < pagesFor (p.rest length)) :
    (p.tail length host).getD i 0 = p.entry host i := by
  rw [PrpPair.tail, if_pos hlong, List.getD_eq_getElem?_getD]
  simp [hi]

theorem div_lt_pagesFor {k n : Nat} (h : k < n) : k / pageSize < pagesFor n := by
  unfold pagesFor pageSize
  omega

/-- The walk over the designated PRPs is the one NVMe describes. -/
theorem designated_walkByte {k : Nat} (hk : k < length) :
    p.designated.walkByte length host k = p.hostByte length host k := by
  have hfirst : p.designated.firstBytes length = p.firstBytes length := rfl
  have hrest : p.designated.rest length = p.rest length := rfl
  unfold PrpPair.walkByte PrpPair.hostByte
  rw [hfirst]
  by_cases hk1 : k < p.firstBytes length
  · rw [if_pos hk1, if_pos hk1]
    rfl
  · rw [if_neg hk1, if_neg hk1, ← rest_eq]
    have hlt : k - p.firstBytes length < p.rest length := by
      rw [rest_eq]
      omega
    by_cases hlong : pageSize < p.rest length
    · rw [if_pos hlong, getD_tail_of_list (hrest ▸ hlong) (hrest ▸ div_lt_pagesFor hlt), designated_entry]
    · have hsmall : k - p.firstBytes length < pageSize := by omega
      rw [if_neg hlong, PrpPair.tail, hrest, if_neg hlong, if_neg (by omega), Nat.div_eq_of_lt hsmall,
        Nat.mod_eq_of_lt hsmall]
      rfl

/-- `Moved` asks only for the addresses of the bytes that are moved. -/
theorem Moved.congr {n : Nat} {addr addr' : Nat → Nat} {m' : IoMem} (h : Moved dir offset n addr m m')
    (heq : ∀ k, k < n → addr k = addr' k) : Moved dir offset n addr' m m' := by
  cases dir with
  | none => exact h
  | toStorage => exact ⟨h.1, fun k hk => (h.2.1 k hk).trans (by rw [heq k hk]), h.2.2⟩
  | toHost =>
      refine ⟨h.1, fun k hk hlast => ?_, fun x hx => h.2.2 x fun k hk => heq k hk ▸ hx k hk⟩
      rw [← heq k hk]
      refine h.2.1 k hk fun j hj hjn => ?_
      rw [heq j hjn, heq k hk]
      exact hlast j hj hjn

/-- **The memory a transfer has to leave**: the designated chunks, copied in order. -/
theorem moved_designated (offset : Nat) (dir : IoDir) (hwf : WellFormedPrps p length)
    (hlist : p.ListPages length m.host) :
    Moved dir offset length (p.hostByte length m.host) m
      (copyAll id dir offset (p.designated.chunksOf length m.host) m) := by
  obtain ⟨hall, hlen⟩ := tail_pages (designated_wf hwf) (designated_pages hlist)
  exact (moved_copyAll dir offset m hall hlen).congr fun k hk => designated_walkByte hk

/-- The transfer terminates and moves exactly the designated bytes. -/
def MovesDesignated (p : PrpPair) (dir : IoDir) (offset length : Nat) (m : IoMem) : Prop :=
  ∃ m', transfer p dir offset length m = some m' ∧ Moved dir offset length (p.hostByte length m.host) m m'

theorem movesDesignated_iff (hwf : WellFormedPrps p length) (hlist : p.ListPages length m.host) :
    MovesDesignated p dir offset length m ↔
      transfer p dir offset length m = some (copyAll id dir offset (p.designated.chunksOf length m.host) m) := by
  have hmoved := moved_designated offset dir hwf hlist
  constructor
  · rintro ⟨m', htrans, hm'⟩
    rw [htrans, hm'.unique hmoved]
  · exact fun htrans => ⟨_, htrans, hmoved⟩

/-! ## Plain addresses are enough -/

theorem list_of_plain (hplain : p.ListPlain length) (hlong : pageSize < p.rest length) : p.list = p.prp2.toNat := by
  rw [PrpPair.list, PrpPair.listAddr]
  rcases hplain hlong with hpage | hvalid
  · rw [hpage, Nat.mul_zero, Nat.add_zero, ite_self]
  · exact if_pos hvalid

theorem entry_of_plain (hplain : p.ListPlain length) (hlong : pageSize < p.rest length) :
    p.entry host = p.designated.entry host := by
  funext i
  rw [designated_entry, PrpPair.entry, list_of_plain hplain hlong]
  rfl

theorem chunksOf_of_plain (hplain : p.ListPlain length) : p.chunksOf length host = p.designated.chunksOf length host := by
  have hrest : p.designated.rest length = p.rest length := rfl
  have htail : p.tail length host = p.designated.tail length host := by
    unfold PrpPair.tail
    rw [hrest]
    by_cases hlong : pageSize < p.rest length
    · rw [if_pos hlong, if_pos hlong, entry_of_plain hplain hlong]
    · rw [if_neg hlong, if_neg hlong]
      rfl
  rw [PrpPair.chunksOf, PrpPair.chunksOf, htail]
  rfl

theorem listLen_pos (h : 0 < p.listLen length) : pageSize < p.rest length := by
  unfold PrpPair.listLen at h
  split at h
  · assumption
  · omega

theorem pagesOnList_of_plain (hplain : p.ListPlain length) (hlist : p.ListPages length host) :
    PagesOnList p length host := by
  intro i hi
  rw [entry_of_plain hplain (listLen_pos (by omega)), designated_entry]
  exact hlist i hi

/-- With a list that is read where it is, the designated chunks are those of the DMA path. -/
theorem movesDesignated_iff_dma (hwf : WellFormedPrps p length) (hplain : p.ListPlain length)
    (hlist : p.ListPages length m.host) :
    MovesDesignated p dir offset length m ↔
      dmaTransfer p dir offset length m = transfer p dir offset length m := by
  rw [movesDesignated_iff hwf hlist, ← chunksOf_of_plain hplain,
    dmaTransfer_eq_copyAll hwf (pagesOnList_of_plain hplain hlist)]
  exact eq_comm

/-! ## Memories with the same list -/

/-- The memories with the PRP list of `host`. -/
def PrpPair.SameList (p : PrpPair) (length : Nat) (host host' : HostMem) : Prop :=
  ∀ x, p.InList length x → host' x = host x

theorem PrpPair.SameList.listEntry {host' : HostMem} (h : p.SameList length host host') {i : Nat}
    (hi : i < p.listLen length) : p.listEntry host' i = p.listEntry host i :=
  u64At_congr fun k hk => h _ ⟨by omega, by omega⟩

theorem PrpPair.SameList.pages {host' : HostMem} (h : p.SameList length host host')
    (hlist : p.ListPages length host) : p.ListPages length host' := fun i hi => h.listEntry hi ▸ hlist i hi

theorem PrpPair.SameList.chunksOf {host' : HostMem} (h : p.SameList length host host') :
    p.designated.chunksOf length host' = p.designated.chunksOf length host := by
  unfold PrpPair.chunksOf PrpPair.tail
  by_cases hlong : pageSize < p.designated.rest length
  · have hlen : p.listLen length = pagesFor (p.designated.rest length) := if_pos hlong
    rw [if_pos hlong, if_pos hlong, List.map_congr_left fun i hi => ?_]
    rw [List.mem_range'_1] at hi
    rw [designated_entry, designated_entry, h.listEntry (by omega)]
  · rw [if_neg hlong, if_neg hlong]

/-- The first chunk is longer than a list: if its bytes are taken an offset further on, they differ in some memory with
    the same list. -/
theorem exists_first_differs (host : HostMem) (hwf : WellFormedPrps p length) (hplain : ¬ Prp1Plain p) :
    ∃ host', p.SameList length host host' ∧ ∃ i, i < ioSize length p.prp1.toNat ∧
      host' (p.dataAddr p.prp1.toNat + i) ≠ host' (p.prp1.toNat + i) := by
  obtain ⟨hoff, haddr⟩ := dataAddr_of_not_plain hplain
  have hpos := ioSize_pos p.prp1.toNat hwf.pos
  have hmany := pagesFor_rest_le hwf
  rw [haddr]
  obtain ⟨i, hi, y, y', hy, hne, hout⟩ : ∃ i, i < ioSize length p.prp1.toNat ∧ ∃ y y',
      (y = p.prp1.toNat + i ∧ y' = p.prp1.toNat + p.prp1.toNat % pageSize + i ∨
        y' = p.prp1.toNat + i ∧ y = p.prp1.toNat + p.prp1.toNat % pageSize + i) ∧ y ≠ y' ∧ ¬ p.InList length y := by
    by_cases h₁ : p.InList length p.prp1.toNat
    · by_cases h₂ : p.InList length (p.prp1.toNat + p.prp1.toNat % pageSize)
      · -- the offset is less than the size of the list, and the chunk is the rest of the page
        obtain ⟨h₁, h₁'⟩ := h₁
        obtain ⟨h₂, h₂'⟩ := h₂
        have hlong : pageSize < p.rest length := listLen_pos (by omega)
        have hlen := p.listLen_of_long hlong
        have hsize : p.prp1.toNat % pageSize + ioSize length p.prp1.toNat = pageSize := by
          unfold PrpPair.rest ioSize pageSize at *
          split at hlong <;> split <;> omega
        refine ⟨512, by unfold pageSize at *; omega, _, _, Or.inl ⟨rfl, rfl⟩, by omega, fun h => ?_⟩
        have := h.2
        omega
      · exact ⟨0, hpos, _, _, Or.inr ⟨rfl, rfl⟩, by omega, h₂⟩
    · exact ⟨0, hpos, _, _, Or.inl ⟨rfl, rfl⟩, by omega, h₁⟩
  have hother := byte_add_one_ne (host y')
  refine ⟨Function.update host y (host y' + 1), fun x hx => ?_, i, hi, ?_⟩
  · rw [Function.update_of_ne]
    rintro rfl
    exact hout hx
  · rcases hy with ⟨rfl, rfl⟩ | ⟨rfl, rfl⟩
    · rw [Function.update_self, Function.update_of_ne hne.symm]
      exact hother.symm
    · rw [Function.update_self, Function.update_of_ne hne.symm]
      exact hother

/-! ## A list that is read elsewhere -/

/-- The last chunk is that of the last entry, behind all others. -/
theorem chunksOf_last (hlist : PagesOnList p length host) (hlong : pageSize < p.rest length) :
    ∃ init, p.chunksOf length host = init ++ [⟨p.entry host (p.listLen length - 1),
        ioSize length p.prp1.toNat + pageSize * (p.listLen length - 1),
        p.rest length - pageSize * (p.listLen length - 1)⟩] ∧
      ∀ c, c ∈ init → c.pos + c.size ≤ ioSize length p.prp1.toNat + pageSize * (p.listLen length - 1) := by
  have hlen := p.listLen_of_long hlong
  obtain ⟨n, hn⟩ : ∃ n, p.listLen length = n + 1 :=
    Nat.exists_eq_succ_of_ne_zero (by unfold pagesFor pageSize at *; omega)
  have hrest : pageSize * n < p.rest length ∧ p.rest length ≤ pageSize * n + pageSize := by
    unfold pagesFor pageSize at *
    omega
  rw [chunksOf_list hlist hlong, hn, List.range_succ, List.map_append, ← List.cons_append, Nat.add_sub_cancel,
    List.map_singleton, Nat.min_eq_right (by omega), Nat.min_eq_left (by omega)]
  refine ⟨_, rfl, ?_⟩
  intro c hc
  rcases List.mem_cons.mp hc with rfl | hc
  · simp only [Nat.zero_add]
    omega
  · obtain ⟨i, hi, rfl⟩ := List.mem_map.mp hc
    rw [List.mem_range] at hi
    simp only
    unfold pageSize at *
    omega

theorem copyAll_last_storage {addr : Nat → Nat} {init : List Chunk} {a pos size : Nat} (hsize : 0 < size) :
    (copyAll addr .toStorage offset (init ++ [⟨a, pos, size⟩]) m).storage (offset + pos) = m.host (addr a) := by
  rw [copyAll_append]
  refine (memcpy_of_mem (by simp only; omega)).trans ?_
  rw [Nat.sub_self, Nat.add_zero]
  exact copyAll_of_not_covered fun h => absurd h (by decide)

theorem copyAll_last_host (addr : Nat → Nat) {init : List Chunk} {a pos size : Nat} (hsize : 0 < size) :
    (copyAll addr .toHost offset (init ++ [⟨a, pos, size⟩]) m).host (addr a) = m.storage (offset + pos) := by
  rw [copyAll_append]
  refine (memcpy_of_mem (by simp only; omega)).trans ?_
  rw [Nat.sub_self, Nat.add_zero, copyAll_storage]

/-- A byte that is only overwritten with itself. -/
theorem copyAll_keeps {addr : Nat → Nat} {cs : List Chunk} {x : Nat}
    (h : ∀ c, c ∈ cs → ∀ i, i < c.size → addr c.paddr + i = x → m.storage (offset + c.pos + i) = m.host x) :
    (copyAll addr .toHost offset cs m).host x = m.host x := by
  unfold copyAll
  induction cs generalizing m with
  | nil => rfl
  | cons c cs ih =>
      have hkeep : (IoDir.toHost.copy offset m (addr c.paddr) c.pos c.size).host x = m.host x := by
        by_cases hx : addr c.paddr ≤ x ∧ x < addr c.paddr + c.size
        · exact (memcpy_of_mem hx).trans (h c List.mem_cons_self _ (by omega) (by omega))
        · exact memcpy_of_not hx
      rw [List.foldl_cons, ih fun c' hc' i hi hx => ?_, hkeep]
      rw [hkeep]
      exact h c' (List.mem_cons_of_mem c hc') i hi hx

/-- A PRP with a single byte set. -/
theorem u64At_second {a : Nat} (h : ∀ k, k < 8 → k ≠ 1 → host (a + k) = 0) :
    host.u64At a = 256 * (host (a + 1)).toNat := by
  have hz : (0 : UInt8).toNat = 0 := rfl
  simp only [HostMem.u64At, List.range, List.range.loop, List.foldr]
  rw [h 0 (by decide) (by decide), h 2 (by decide) (by decide), h 3 (by decide) (by decide),
    h 4 (by decide) (by decide), h 5 (by decide) (by decide), h 6 (by decide) (by decide),
    h 7 (by decide) (by decide), hz]
  omega

/-- **Two walks that end on different bytes** leave different memories, with some contents of the storage. -/
theorem last_differs {addr : Nat → Nat} {init : List Chunk} {a a' pos size size' : Nat} (host : HostMem)
    (init' : List Chunk) (offset : Nat)
    (hdir : dir ≠ .none) (hbefore : ∀ c, c ∈ init → c.pos + c.size ≤ pos) (hsize : 0 < size) (hsize' : 0 < size')
    (hne : addr a ≠ a') (hhost : host (addr a) ≠ host a') :
    ∃ storage, copyAll addr dir offset (init ++ [⟨a, pos, size⟩]) ⟨host, storage⟩ ≠
      copyAll id dir offset (init' ++ [⟨a', pos, size'⟩]) ⟨host, storage⟩ := by
  cases dir with
  | none => exact absurd rfl hdir
  | toStorage =>
      refine ⟨fun _ => 0, fun heq => hhost ?_⟩
      have hbyte := congrArg (·.storage (offset + pos)) heq
      rwa [copyAll_last_storage hsize, copyAll_last_storage hsize'] at hbyte
  | toHost =>
      let storage : Nat → UInt8 := fun y => if y = offset + pos then host a' + 1 else host a'
      refine ⟨storage, fun heq => byte_add_one_ne (host a') ?_⟩
      have hlast : (copyAll id .toHost offset (init' ++ [⟨a', pos, size'⟩]) ⟨host, storage⟩).host a' = host a' + 1 :=
        (copyAll_last_host id hsize').trans (if_pos rfl)
      have hwalk : (copyAll addr .toHost offset (init ++ [⟨a, pos, size⟩]) ⟨host, storage⟩).host a' = host a' := by
        refine copyAll_keeps fun c hc i hi hx => if_neg ?_
        rcases List.mem_append.mp hc with hc | hc
        · have := hbefore c hc
          omega
        · obtain rfl := List.mem_singleton.mp hc
          simp only at hx ⊢
          omega
      rw [← hlast, ← heq, hwalk]

/-- Page `v` stands where the loop reads the list and NVMe does not, and begins with a byte of its own. -/
def misreadHost (p : PrpPair) (length v : Nat) (host : HostMem) : HostMem :=
  let other : HostMem := fun x =>
    if p.InList length x then host x
    else if p.OnList length x ∧ (x - p.list) % 8 = 1 then UInt8.ofNat (16 * v) else 0
  Function.update other (v * pageSize) (other (p.listEntry host (p.listLen length - 1)) + 1)

theorem sameList_misreadHost (host : HostMem) {v : Nat} (hin : ¬ p.InList length (v * pageSize)) :
    p.SameList length host (misreadHost p length v host) := by
  intro x hx
  unfold misreadHost
  rw [Function.update_of_ne, if_pos hx]
  rintro rfl
  exact hin hx

/-- The entries the loop finds there. -/
theorem entry_misreadHost (host : HostMem) {v i : Nat} (hv : v < 4) (hi : i < p.listLen length) (h8 : p.prp2.toNat % 8 = 0)
    (hlistAddr : p.list = p.prp2.toNat + 8 * (p.prp2.toNat % pageSize)) (hin : ¬ p.InList length (v * pageSize))
    (hon : ¬ p.OnList length (v * pageSize)) :
    p.entry (misreadHost p length v host) i =
      if p.prp2.toNat % pageSize + i < p.listLen length then p.listEntry host (p.prp2.toNat % pageSize + i)
      else v * pageSize := by
  have haddr : p.list + 8 * i = p.prp2.toNat + 8 * (p.prp2.toNat % pageSize + i) := by omega
  split
  · next hlt =>
      rw [PrpPair.entry, haddr]
      exact (sameList_misreadHost host hin).listEntry hlt
  · next hge =>
      have hbyte : ∀ k, k < 8 → misreadHost p length v host (p.list + 8 * i + k) =
          if k = 1 then UInt8.ofNat (16 * v) else 0 := by
        intro k hk
        have hbyteOn : p.OnList length (p.list + 8 * i + k) := ⟨by omega, by omega⟩
        unfold misreadHost
        rw [Function.update_of_ne (fun heq => hon (by rwa [heq] at hbyteOn)), if_neg fun h => by have := h.2; omega]
        by_cases h1 : k = 1
        · rw [if_pos h1, if_pos ⟨hbyteOn, by omega⟩]
        · rw [if_neg h1, if_neg fun h => by omega]
      rw [PrpPair.entry, u64At_second fun k hk hk1 => (hbyte k hk).trans (if_neg hk1), hbyte 1 (by decide), if_pos rfl,
        UInt8.toNat_ofNat_of_lt' (show 16 * v < 256 by omega)]
      unfold pageSize
      omega

/-- A page that is neither the last one designated nor begins on one of the lists. -/
theorem exists_page (p : PrpPair) (length last : Nat) (hmany : p.listLen length ≤ 64) :
    ∃ v, v < 4 ∧ ¬ p.InList length (v * pageSize) ∧ ¬ p.OnList length (v * pageSize) ∧ v * pageSize ≠ last := by
  by_contra hno
  have hall : ∀ v, v < 4 → p.InList length (v * pageSize) ∨ p.OnList length (v * pageSize) ∨ v * pageSize = last := by
    intro v hv
    by_contra h
    obtain ⟨h₁, h⟩ := not_or.mp h
    obtain ⟨h₂, h₃⟩ := not_or.mp h
    exact hno ⟨v, hv, h₁, h₂, h₃⟩
  have h0 := hall 0 (by decide)
  have h1 := hall 1 (by decide)
  have h2 := hall 2 (by decide)
  have h3 := hall 3 (by decide)
  unfold PrpPair.InList PrpPair.OnList pageSize at *
  omega

/-- **A list that is read elsewhere.** In some memory with the same list the last page comes from, or goes to, a page that
    is not the one listed. -/
theorem misread_differs (offset : Nat) (hwf : WellFormedPrps p length) (hdir : dir ≠ .none)
    (h8 : pageSize < p.rest length → p.prp2.toNat % 8 = 0) (h4 : dir = .toHost → DwordPrps p length)
    (hlist : p.ListPages length host) (hplain : ¬ p.ListPlain length) :
    ∃ m : IoMem, p.SameList length host m.host ∧ ¬ MovesDesignated p dir offset length m := by
  obtain ⟨hlong, hbad⟩ := Classical.not_imp.mp hplain
  obtain ⟨hoff, hinvalid⟩ := not_or.mp hbad
  replace h8 := h8 hlong
  have hlistAddr : p.list = p.prp2.toNat + 8 * (p.prp2.toNat % pageSize) := if_neg hinvalid
  have hlen := p.listLen_of_long hlong
  have hmany := pagesFor_rest_le hwf
  obtain ⟨v, hv, hin, hon, hlast⟩ := exists_page p length (p.listEntry host (p.listLen length - 1)) (by omega)
  have hsame := sameList_misreadHost host hin
  have hentry : ∀ i, i < p.listLen length → _ := fun i hi => entry_misreadHost host hv hi h8 hlistAddr hin hon
  have hpages : PagesOnList p length (misreadHost p length v host) := by
    intro i hi
    rw [hentry i hi]
    split
    · exact hlist _ (by assumption)
    · exact Nat.mul_mod_left _ _
  have hfirst : misreadHost p length v host (v * pageSize) =
      misreadHost p length v host (p.listEntry host (p.listLen length - 1)) + 1 := by
    unfold misreadHost
    rw [Function.update_self, Function.update_of_ne hlast.symm]
  have hlists := hsame.pages hlist
  generalize misreadHost p length v host = host' at hsame hentry hpages hfirst hlists
  -- both walks end with a chunk of their own last entry
  have hn : p.listLen length - 1 < p.listLen length := by
    unfold pagesFor pageSize at *
    omega
  obtain ⟨init, hcode, hbefore⟩ := chunksOf_last hpages hlong
  obtain ⟨init', hdes, -⟩ := chunksOf_last (designated_pages hlists) hlong
  rw [hentry _ hn, if_neg (by omega)] at hcode
  change p.designated.chunksOf length host' = init' ++ [⟨p.designated.entry host' (p.listLen length - 1),
    ioSize length p.prp1.toNat + pageSize * (p.listLen length - 1),
    p.rest length - pageSize * (p.listLen length - 1)⟩] at hdes
  rw [designated_entry, hsame.listEntry hn] at hdes
  have hsize : 0 < p.rest length - pageSize * (p.listLen length - 1) := by
    unfold pagesFor pageSize at *
    omega
  have hpage : p.dataAddr (v * pageSize) = v * pageSize := dataAddr_of_page (Nat.mul_mod_left _ _)
  by_cases hkept : dir = .toHost → p.ListKept length host'
  · obtain ⟨storage, hne⟩ := last_differs host' init' offset hdir hbefore hsize hsize
      (hpage.trans_ne hlast) (by rw [hpage, hfirst]; exact byte_add_one_ne _)
    refine ⟨⟨host', storage⟩, hsame, ?_⟩
    rw [movesDesignated_iff (m := ⟨host', storage⟩) hwf hlists,
      transfer_eq_copyAll (m := ⟨host', storage⟩) hwf hpages hkept, hcode, hdes]
    exact fun heq => hne (Option.some.inj heq)
  · -- the loop overwrites the list it reads
    obtain ⟨rfl, hover⟩ := Classical.not_imp.mp hkept
    obtain ⟨storage, x, hx, hstray⟩ := exists_stray offset hwf (h4 rfl) hpages hover
      (length_chunksOf_lt (designated_wf hwf) (designated_pages hlists)) fun c hc => chunk_in_page hc
    refine ⟨⟨host', storage⟩, hsame, ?_⟩
    rw [movesDesignated_iff (m := ⟨host', storage⟩) hwf hlists]
    exact fun heq => hstray _ heq (copyAll_of_not_covered fun _ => hx)

/-! ## Exactly when the walk is right -/

/-- **When the walk is right** for a list of PRPs. The list is read where it is. A write takes its first chunk from where it
    is; a read does not overwrite a PRP before it is fetched, and puts its first chunk where it belongs, or where nothing
    is left of it in the end. -/
def PrpPair.WalkExact (p : PrpPair) (dir : IoDir) (length : Nat) (host : HostMem) : Prop :=
  p.ListPlain length ∧ match dir with
    | .toStorage => Prp1Plain p
    | .toHost => p.ListKept length host ∧ (Prp1Plain p ∨ p.FirstMasked length host)
    | .none => True

theorem moves_designated_iff (offset : Nat) (hwf : WellFormedPrps p length) (hdir : dir ≠ .none)
    (h8 : pageSize < p.rest length → p.prp2.toNat % 8 = 0) (h4 : dir = .toHost → DwordPrps p length)
    (hlist : p.ListPages length host) :
    (∀ m : IoMem, p.SameList length host m.host → MovesDesignated p dir offset length m) ↔
      p.WalkExact dir length host := by
  by_cases hplain : p.ListPlain length
  swap
  · refine iff_of_false (fun hall => ?_) fun h => hplain h.1
    obtain ⟨m, hsame, hne⟩ := misread_differs offset hwf hdir h8 h4 hlist hplain
    exact hne (hall m hsame)
  -- memory by memory, it is the comparison with the DMA path
  have hiff : ∀ host', p.SameList length host host' →
      ((∀ storage, MovesDesignated p dir offset length ⟨host', storage⟩) ↔ PathsAgree p dir length host') := by
    intro host' hsame
    have hlist' := hsame.pages hlist
    rw [← dma_matches offset hwf (pagesOnList_of_plain hplain hlist') h4]
    exact forall_congr' fun storage => movesDesignated_iff_dma (m := ⟨host', storage⟩) hwf hplain hlist'
  have hall : (∀ m : IoMem, p.SameList length host m.host → MovesDesignated p dir offset length m) ↔
      ∀ host', p.SameList length host host' → PathsAgree p dir length host' :=
    ⟨fun h host' hsame => (hiff host' hsame).mp fun storage => h ⟨host', storage⟩ hsame,
      fun h m hsame => (hiff m.host hsame).mpr (h m.host hsame) m.storage⟩
  rw [hall]
  unfold PrpPair.WalkExact
  rw [and_iff_right hplain]
  cases dir with
  | none => exact absurd rfl hdir
  | toStorage =>
      refine ⟨fun h => ?_, fun h host' _ i _ => by rw [dataAddr_of_plain h]⟩
      by_contra hprp1
      obtain ⟨host', hsame, i, hi, hne⟩ := exists_first_differs host hwf hprp1
      exact hne (h host' hsame i hi)
  | toHost =>
      refine ⟨fun h => h host fun _ _ => rfl, fun h host' hsame => ?_⟩
      have hchunks : p.chunksOf length host' = p.chunksOf length host := by
        rw [chunksOf_of_plain hplain, hsame.chunksOf, ← chunksOf_of_plain hplain]
      unfold PathsAgree PrpPair.ListKept PrpPair.FirstMasked at *
      rw [hchunks]
      exact h

end Walk

/-! ## Commands -/

/-- A well-formed read, write or zone append whose PRP list, if it has one, is aligned to its entries. -/
structure WellFormedPrpIo (pfnValid : Nat → Bool) (cmd : NvmeCommand) : Prop extends WellFormedIo pfnValid cmd where
  list8 : pageSize < (cmd.prps pfnValid).rest (cmdIoSize lbaBits cmd) → cmd.prp2.toNat % 8 = 0

/-- `__do_perform_io` returns and has exchanged, for each byte of the transfer, the byte of the storage range with the
    host byte NVMe designates, and touched no other byte. -/
def PerformsIo (pfnValid : Nat → Bool) (cmd : NvmeCommand) (m : IoMem) : Prop :=
  ∃ m', doPerformIo pfnValid cmd m = some m' ∧
    Moved cmd.opcode.dir (cmdIoOffset lbaBits cmd) (cmdIoSize lbaBits cmd)
      ((cmd.prps pfnValid).hostByte (cmdIoSize lbaBits cmd) m.host) m m'

/-- A write of three pages with a PRP list in the middle of a page. -/
def listedWrite : NvmeCommand := { readOverList with opcode := .write, prp2 := 0x2100 }

/-- Host memory with page 3 on the list at 0x2100, and a byte set on that page. -/
def listedMemory : IoMem := ⟨fun x => if x = 0x2101 then 0x30 else if x = 0x3000 then 1 else 0, fun _ => 0⟩

end NvmeVirt
