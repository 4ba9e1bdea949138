import Mathlib.Data.Finset.Card
import NvmeVirt.Nvme.Command
import NvmeVirt.Nvme.Prp

/-!
# `Nvme.DataPath` — the two data paths of a block command (`io.c`)

`__do_perform_io` copies a command page by page; `__do_perform_io_using_dma` first collects the PRPs, then copies runs
of physically contiguous pages with one DMA request each. Both are folds over the same list of chunks:

* `transfer_eq_copyAll` — the page loop, as long as no chunk is copied over a PRP that is fetched after it;
* `dmaTransfer_eq_copyAll` — the DMA path, whatever it merges.

The folds differ in one address: for a page that is not `pfn_valid` the page loop adds the page offset twice, the DMA
path does not, and only PRP1 has an offset. The paths differ in the time of a fetch: the page loop fetches a PRP of the list
when it needs it, and a read may have overwritten it by then. `dma_matches` says that this is all, for a given host
memory; `exists_stray` is the converse of the second part: from an entry that was overwritten, with the right contents
of the storage, the page loop writes to a page that the command does not name.
-/

namespace NvmeVirt

/-- `LBA_BITS` of every build. -/
def lbaBits : Nat := 9

/-- What the data path does for an opcode. -/
def Opcode.dir : Opcode → IoDir
  | .write | .zoneAppend => .toStorage
  | .read => .toHost
  | _ => .none

def NvmeCommand.prps (pfnValid : Nat → Bool) (cmd : NvmeCommand) : PrpPair := ⟨cmd.prp1, cmd.prp2, pfnValid⟩

/-- `__do_perform_io`, with the storage of the command's namespace. -/
def doPerformIo (pfnValid : Nat → Bool) (cmd : NvmeCommand) (m : IoMem) : Option IoMem :=
  transfer (cmd.prps pfnValid) cmd.opcode.dir (cmdIoOffset lbaBits cmd) (cmdIoSize lbaBits cmd) m

/-! ## The DMA path -/

/-- The first loop: the PRPs of the command, in order. `none` is the access through the `NULL` list pointer, or past
    the last entry of `paddr_list[513]`. -/
def collectPrps (p : PrpPair) (host : HostMem) : Nat → PrpCursor → Nat → Option (List Nat)
  | 0, _, _ => some []
  | fuel + 1, cur, remaining =>
      if remaining = 0 then some []
      else
        match cur.next p host remaining with
        | none => none
        | some (paddr, cur') =>
            if 512 < cur'.prpOffs then none
            else (collectPrps p host fuel cur' (remaining - ioSize remaining paddr)).map (paddr :: ·)

/-- The inner `for` loop: how many entries go on where the one before them ends, on `u64`, and the entries after
    them. -/
def mergeRun : Nat → List Nat → Nat × List Nat
  | _, [] => (0, [])
  | prev, a :: as =>
      if a = (prev + pageSize) % 2 ^ 64 then ((mergeRun a as).1 + 1, (mergeRun a as).2) else (0, a :: as)

/-- `ioat_dma_submit`: `n` bytes between the physical address `paddr` and the storage. Addresses have 64 bits. -/
def dmaSubmit (dir : IoDir) (offset : Nat) (m : IoMem) (paddr pos n : Nat) : IoMem :=
  match dir with
  | .toStorage =>
      { m with storage := fun x =>
          if offset + pos ≤ x ∧ x < offset + pos + n then m.host ((paddr + (x - (offset + pos))) % 2 ^ 64)
          else m.storage x }
  | .toHost =>
      { m with host := fun y =>
          if y < 2 ^ 64 ∧ (y + 2 ^ 64 - paddr) % 2 ^ 64 < n then
            m.storage (offset + pos + (y + 2 ^ 64 - paddr) % 2 ^ 64)
          else m.host y }
  | .none => m

/-- The second loop, over the entries that are left. Behind the last one `paddr_list` holds zeros. -/
def dmaLoop (dir : IoDir) (offset : Nat) : Nat → List Nat → Nat → Nat → IoMem → IoMem
  | 0, _, _, _, m => m
  | fuel + 1, prps, remaining, pos, m =>
      if remaining = 0 then m
      else
        let paddr := prps.headD 0
        let run := mergeRun paddr prps.tail
        let io := min remaining (ioSize remaining paddr + pageSize * run.1)
        dmaLoop dir offset fuel run.2 (remaining - io) (pos + io) (dmaSubmit dir offset m paddr pos io)

/-- `__do_perform_io_using_dma` on the PRPs, the offset and the length of a command. -/
def dmaTransfer (p : PrpPair) (dir : IoDir) (offset length : Nat) (m : IoMem) : Option IoMem :=
  (collectPrps p m.host length .start length).map fun prps => dmaLoop dir offset length prps length 0 m

/-- `__do_perform_io_using_dma`; the storage of the first namespace begins at `storage_start`. -/
def doPerformIoUsingDma (pfnValid : Nat → Bool) (cmd : NvmeCommand) (m : IoMem) : Option IoMem :=
  dmaTransfer (cmd.prps pfnValid) cmd.opcode.dir (cmdIoOffset lbaBits cmd) (cmdIoSize lbaBits cmd) m

/-! ## Chunks -/

/-- A piece of a transfer: its physical address, the bytes before it, and its size. -/
structure Chunk where
  paddr : Nat
  pos : Nat
  size : Nat
deriving DecidableEq, Repr

/-- The pieces of `remaining` bytes over the given PRPs. -/
def chunks : List Nat → Nat → Nat → List Chunk
  | [], _, _ => []
  | a :: as, remaining, pos =>
      ⟨a, pos, ioSize remaining a⟩ :: chunks as (remaining - ioSize remaining a) (pos + ioSize remaining a)

/-- The pages that so many bytes take. -/
def pagesFor (n : Nat) : Nat := (n + pageSize - 1) / pageSize

theorem pagesFor_zero : pagesFor 0 = 0 := by decide

theorem pagesFor_pos {n : Nat} (h : n ≠ 0) : pagesFor n = pagesFor (n - min n pageSize) + 1 := by
  unfold pagesFor pageSize
  omega

theorem ioSize_of_aligned (remaining : Nat) {paddr : Nat} (hp : paddr % pageSize = 0) :
    ioSize remaining paddr = min remaining pageSize := by
  unfold ioSize pageSize at *
  split <;> omega

/-- A chunk stays in its page. -/
theorem offset_add_ioSize_le (remaining paddr : Nat) : paddr % pageSize + ioSize remaining paddr ≤ pageSize := by
  unfold ioSize pageSize
  split <;> omega

/-- So it does not run over the end of the address space. -/
theorem add_ioSize_le {remaining paddr : Nat} (hp : paddr < 2 ^ 64) : paddr + ioSize remaining paddr ≤ 2 ^ 64 := by
  have h := offset_add_ioSize_le remaining paddr
  unfold pageSize at h
  omega

/-! ## Merging -/

section Merge

variable (dir : IoDir) (offset : Nat)

/-- **Two requests in a row are one.** -/
theorem dmaSubmit_append (m : IoMem) {a n₁ n₂ : Nat} (pos : Nat) (ha : a < 2 ^ 64) (hn : n₁ + n₂ ≤ 2 ^ 64) :
    dmaSubmit dir offset (dmaSubmit dir offset m a pos n₁) ((a + n₁) % 2 ^ 64) (pos + n₁) n₂ =
      dmaSubmit dir offset m a pos (n₁ + n₂) := by
  cases dir with
  | none => rfl
  | toStorage =>
      simp only [dmaSubmit, IoMem.mk.injEq, true_and]
      funext x
      by_cases h₂ : offset + (pos + n₁) ≤ x ∧ x < offset + (pos + n₁) + n₂
      · rw [if_pos h₂, if_pos (by omega), Nat.mod_add_mod]
        congr 2
        omega
      · rw [if_neg h₂]
        by_cases h₁ : offset + pos ≤ x ∧ x < offset + pos + n₁
        · rw [if_pos h₁, if_pos (by omega)]
        · rw [if_neg h₁, if_neg (by omega)]
  | toHost =>
      simp only [dmaSubmit, IoMem.mk.injEq, and_true]
      funext y
      by_cases h₂ : y < 2 ^ 64 ∧ (y + 2 ^ 64 - (a + n₁) % 2 ^ 64) % 2 ^ 64 < n₂
      · rw [if_pos h₂, if_pos (by omega)]
        congr 1
        omega
      · rw [if_neg h₂]
        by_cases h₁ : y < 2 ^ 64 ∧ (y + 2 ^ 64 - a) % 2 ^ 64 < n₁
        · rw [if_pos h₁, if_pos (by omega)]
        · rw [if_neg h₁, if_neg (by omega)]

/-- The DMA requests of the chunks, one each. -/
def submitAll (cs : List Chunk) (m : IoMem) : IoMem :=
  cs.foldl (fun m c => dmaSubmit dir offset m c.paddr c.pos c.size) m

theorem submitAll_cons (a : Nat) (as : List Nat) (remaining pos : Nat) (m : IoMem) :
    submitAll dir offset (chunks (a :: as) remaining pos) m =
      submitAll dir offset (chunks as (remaining - ioSize remaining a) (pos + ioSize remaining a))
        (dmaSubmit dir offset m a pos (ioSize remaining a)) := rfl

/-- The pages of the PRP list that follow PRP1. -/
def AllPages (as : List Nat) : Prop := ∀ a, a ∈ as → a % pageSize = 0 ∧ a < 2 ^ 64

variable {dir offset}

/-- The size of a run one page longer. -/
theorem min_run {page remaining : Nat} (k : Nat) (h : page ≤ remaining) :
    min remaining (page + page * (k + 1)) = page + min (remaining - page) (page + page * k) := by
  rw [Nat.mul_succ]
  omega

/-- **A merged run.** The entries that follow a page and are contiguous to it are copied with it. -/
theorem submitAll_mergeRun (dir : IoDir) (offset pos : Nat) (m : IoMem) {as : List Nat} {a remaining : Nat}
    (hall : AllPages (a :: as))
    (hlen : (a :: as).length = pagesFor remaining) (hrem : remaining ≤ 2 ^ 64) :
    ∃ io, io = min remaining (pageSize + pageSize * (mergeRun a as).1) ∧
      submitAll dir offset (chunks (a :: as) remaining pos) m =
        submitAll dir offset (chunks (mergeRun a as).2 (remaining - io) (pos + io))
          (dmaSubmit dir offset m a pos io) ∧
      (mergeRun a as).2.length = pagesFor (remaining - io) ∧ AllPages (mergeRun a as).2 := by
  refine ⟨_, rfl, ?_⟩
  have ha := hall a List.mem_cons_self
  have hsize := ioSize_of_aligned remaining ha.1
  have hne : remaining ≠ 0 := by
    intro h
    rw [h, pagesFor_zero] at hlen
    exact absurd hlen (by simp)
  rw [pagesFor_pos hne, List.length_cons, Nat.add_right_cancel_iff] at hlen
  induction as generalizing a remaining pos m with
  | nil =>
      simp only [mergeRun, chunks, hsize, Nat.mul_zero, Nat.add_zero]
      exact ⟨rfl, hlen, fun b hb => absurd hb (by simp)⟩
  | cons b as ih =>
      have hall' : AllPages (b :: as) := fun x hx => hall x (List.mem_cons_of_mem a hx)
      by_cases hb : b = (a + pageSize) % 2 ^ 64
      · -- the head is a whole page, the run of the tail goes on where it ends
        have hb' := hall' b List.mem_cons_self
        have hne' : remaining - min remaining pageSize ≠ 0 := by
          intro h
          rw [h, pagesFor_zero] at hlen
          exact absurd hlen (by simp)
        have hmin : min remaining pageSize = pageSize := by omega
        rw [hmin] at hlen hsize hne'
        have hlen' := hlen
        rw [pagesFor_pos hne', List.length_cons, Nat.add_right_cancel_iff] at hlen'
        obtain ⟨heq, hrest, hpages⟩ := ih (pos + pageSize) (dmaSubmit dir offset m a pos pageSize) hall'
          hlen' (by omega) hb' (ioSize_of_aligned _ hb'.1) hne'
        simp only [mergeRun, if_pos hb]
        have hio := min_run (mergeRun b as).1 (show pageSize ≤ remaining by omega)
        have hfit : pageSize + min (remaining - pageSize) (pageSize + pageSize * (mergeRun b as).1) ≤ 2 ^ 64 :=
          hio ▸ Nat.le_trans (Nat.min_le_left _ _) hrem
        rw [hio, ← dmaSubmit_append dir offset m pos ha.2 hfit, ← hb, ← Nat.sub_sub, ← Nat.add_assoc]
        refine ⟨?_, hrest, hpages⟩
        rw [← heq, submitAll_cons, hsize]
      · simp only [mergeRun, if_neg hb, Nat.mul_zero, Nat.add_zero]
        exact ⟨by rw [submitAll_cons, hsize], hlen, hall'⟩

/-- Behind PRP1 the second loop copies the chunks. -/
theorem dmaLoop_pages {fuel remaining pos : Nat} {prps : List Nat} {m : IoMem} (hall : AllPages prps)
    (hlen : prps.length = pagesFor remaining) (hrem : remaining ≤ 2 ^ 64) (hfuel : remaining ≤ fuel) :
    dmaLoop dir offset fuel prps remaining pos m = submitAll dir offset (chunks prps remaining pos) m := by
  induction fuel generalizing prps remaining pos m with
  | zero =>
      have h0 : remaining = 0 := by omega
      rw [h0, pagesFor_zero] at hlen
      rw [List.eq_nil_of_length_eq_zero hlen]
      rfl
  | succ fuel ih =>
      by_cases h0 : remaining = 0
      · rw [h0, pagesFor_zero] at hlen
        rw [List.eq_nil_of_length_eq_zero hlen, dmaLoop, if_pos h0]
        rfl
      · match prps, hall, hlen with
        | [], _, hlen =>
            rw [pagesFor_pos h0] at hlen
            exact absurd hlen (by simp)
        | a :: as, hall, hlen =>
            obtain ⟨io, hio, heq, hlen', hall'⟩ :=
              submitAll_mergeRun dir offset pos m hall hlen hrem
            have hsize := ioSize_of_aligned remaining (hall a List.mem_cons_self).1
            have hio' : min remaining (ioSize remaining a + pageSize * (mergeRun a as).1) = io := by
              rw [hio, hsize]
              omega
            have hpos : 0 < io := by
              unfold pageSize at hio
              omega
            simp only [dmaLoop, if_neg h0, List.headD_cons, List.tail_cons, hio']
            rw [heq]
            exact ih hall' hlen' (by omega) (by omega)

/-- **The second loop copies the chunks**, whatever it merges. Only the first PRP may have a page offset, and a page
    never continues it. -/
theorem dmaLoop_eq_submitAll {a length : Nat} {as : List Nat} {m : IoMem} (ha : a < 2 ^ 64) (hall : AllPages as)
    (hlen : as.length = pagesFor (length - ioSize length a)) (h0 : length ≠ 0) (hle : length ≤ 2 ^ 64) :
    dmaLoop dir offset length (a :: as) length 0 m = submitAll dir offset (chunks (a :: as) length 0) m := by
  by_cases hpage : a % pageSize = 0
  · apply dmaLoop_pages _ _ hle (Nat.le_refl length)
    · intro b hb
      rcases List.mem_cons.mp hb with rfl | hb
      · exact ⟨hpage, ha⟩
      · exact hall b hb
    · rw [List.length_cons, hlen, ioSize_of_aligned _ hpage, ← pagesFor_pos h0]
  · have hrun : mergeRun a as = (0, as) := by
      match as, hall with
      | [], _ => rfl
      | b :: as, hall =>
          have hb := (hall b List.mem_cons_self).1
          rw [mergeRun, if_neg]
          unfold pageSize at *
          omega
    have hpos := ioSize_pos a h0
    have hio := ioSize_le length a
    obtain ⟨fuel, rfl⟩ := Nat.exists_eq_succ_of_ne_zero h0
    rw [dmaLoop, if_neg h0]
    simp only [List.headD_cons, List.tail_cons, hrun, Nat.mul_zero, Nat.add_zero, Nat.min_eq_right hio]
    rw [dmaLoop_pages hall hlen (by omega) (by omega)]
    rfl

end Merge

/-! ## The PRPs of a command -/

namespace PrpPair

/-- The bytes behind the first chunk. -/
def rest (p : PrpPair) (length : Nat) : Nat := length - ioSize length p.prp1.toNat

/-- How many entries the PRP list has, if there is one. -/
def listLen (p : PrpPair) (length : Nat) : Nat := if pageSize < p.rest length then pagesFor (p.rest length) else 0

theorem listLen_of_long (p : PrpPair) {length : Nat} (h : pageSize < p.rest length) :
    p.listLen length = pagesFor (p.rest length) := if_pos h

/-- The address of the PRP list. -/
def list (p : PrpPair) : Nat := p.listAddr p.prp2.toNat

/-- An entry of the PRP list. -/
def entry (p : PrpPair) (host : HostMem) (i : Nat) : Nat := host.u64At (p.list + 8 * i)

/-- The bytes of the PRP list. -/
def OnList (p : PrpPair) (length x : Nat) : Prop := p.list ≤ x ∧ x < p.list + 8 * p.listLen length

instance (p : PrpPair) (length x : Nat) : Decidable (p.OnList length x) := inferInstanceAs (Decidable (_ ∧ _))

/-- The PRPs behind PRP1: the list, or PRP2, or nothing. -/
def tail (p : PrpPair) (length : Nat) (host : HostMem) : List Nat :=
  if pageSize < p.rest length then (List.range' 0 (pagesFor (p.rest length))).map (p.entry host)
  else if p.rest length = 0 then [] else [p.prp2.toNat]

/-- The chunks of the command. -/
def chunksOf (p : PrpPair) (length : Nat) (host : HostMem) : List Chunk :=
  chunks (p.prp1.toNat :: p.tail length host) length 0

end PrpPair

/-- The chunks copied one by one, each at the address `addr` makes of its PRP. -/
def copyAll (addr : Nat → Nat) (dir : IoDir) (offset : Nat) (cs : List Chunk) (m : IoMem) : IoMem :=
  cs.foldl (fun m c => dir.copy offset m (addr c.paddr) c.pos c.size) m

/-- `MDTS` is 5 or 6, in units of 4 KiB. -/
def maxTransfer : Nat := 2 ^ 6 * pageSize

/-- A well-formed transfer: within the limit, and PRP2, if it is a data page, has no page offset. -/
structure WellFormedPrps (p : PrpPair) (length : Nat) : Prop where
  pos : length ≠ 0
  le : length ≤ maxTransfer
  page2 : p.rest length ≠ 0 → p.rest length ≤ pageSize → p.prp2.toNat % pageSize = 0

/-- Nor do the pages on the PRP list. -/
def PagesOnList (p : PrpPair) (length : Nat) (host : HostMem) : Prop :=
  ∀ i, i < p.listLen length → p.entry host i % pageSize = 0

instance (p : PrpPair) (length : Nat) (host : HostMem) : Decidable (PagesOnList p length host) :=
  inferInstanceAs (Decidable (∀ i, i < _ → _))

section Prps

variable {p : PrpPair} {dir : IoDir} {offset length : Nat} {host : HostMem}

theorem u64At_lt (host : HostMem) (a : Nat) : host.u64At a < 2 ^ 64 := by
  have hfold : ∀ l : List Nat, l.foldr (fun i acc => (host (a + i)).toNat + 256 * acc) 0 < 256 ^ l.length := by
    intro l
    induction l with
    | nil => exact Nat.one_pos
    | cons i l ih =>
        have hb := (host (a + i)).toNat_lt
        rw [List.foldr_cons, List.length_cons, Nat.pow_succ]
        omega
  exact hfold (List.range 8)

theorem u64At_congr {host' : HostMem} {a : Nat} (h : ∀ i, i < 8 → host (a + i) = host' (a + i)) :
    host.u64At a = host'.u64At a := by
  simp only [HostMem.u64At, List.range, List.range.loop, List.foldr]
  rw [h 0 (by decide), h 1 (by decide), h 2 (by decide), h 3 (by decide), h 4 (by decide), h 5 (by decide),
    h 6 (by decide), h 7 (by decide)]

/-- **The chunks behind PRP1 are whole pages** and cover what is left. -/
theorem tail_pages (hwf : WellFormedPrps p length) (hlist : PagesOnList p length host) :
    AllPages (p.tail length host) ∧ (p.tail length host).length = pagesFor (p.rest length) := by
  unfold PrpPair.tail
  by_cases hlong : pageSize < p.rest length
  · rw [if_pos hlong]
    refine ⟨?_, by simp⟩
    intro a ha
    obtain ⟨i, hi, rfl⟩ := List.mem_map.mp ha
    rw [List.mem_range'_1] at hi
    have hlen := p.listLen_of_long hlong
    exact ⟨hlist i (by omega), u64At_lt host _⟩
  · rw [if_neg hlong]
    by_cases h0 : p.rest length = 0
    · rw [if_pos h0, h0]
      exact ⟨fun a ha => absurd ha (by simp), rfl⟩
    · rw [if_neg h0]
      refine ⟨?_, ?_⟩
      · intro a ha
        rw [List.mem_singleton.mp ha]
        exact ⟨hwf.page2 h0 (by omega), p.prp2.toNat_lt⟩
      · rw [pagesFor_pos h0, Nat.min_eq_left (by omega), Nat.sub_self, pagesFor_zero, List.length_singleton]

theorem pagesFor_rest_le (hwf : WellFormedPrps p length) : pagesFor (p.rest length) ≤ 64 := by
  have h := hwf.le
  unfold PrpPair.rest pagesFor maxTransfer pageSize at *
  omega

/-! ## The first loop collects them -/

/-- On the list. -/
theorem collectPrps_list {fuel k j remaining : Nat} (hlist : PagesOnList p length host)
    (hj : j + pagesFor remaining = p.listLen length) (hk : k + 2 + pagesFor remaining ≤ 512)
    (hfuel : remaining ≤ fuel) :
    collectPrps p host fuel ⟨k + 2, j, some p.list⟩ remaining =
      some ((List.range' j (pagesFor remaining)).map (p.entry host)) := by
  induction fuel generalizing k j remaining with
  | zero =>
      have h0 : remaining = 0 := by omega
      rw [h0, pagesFor_zero]
      rfl
  | succ fuel ih =>
      by_cases h0 : remaining = 0
      · rw [h0, pagesFor_zero]
        rfl
      · have hpages := pagesFor_pos h0
        have hsize := ioSize_of_aligned remaining (hlist j (by omega))
        have hpos : 0 < min remaining pageSize := Nat.lt_min.mpr ⟨by omega, by decide⟩
        simp only [collectPrps, if_neg h0, PrpCursor.next, Option.map_some]
        rw [if_neg (by omega), hpages, List.range'_succ, List.map_cons, ← PrpPair.entry, hsize,
          ih (by omega) (by omega) (by omega), Option.map_some]

/-- Behind PRP1. -/
theorem collectPrps_tail {fuel : Nat} (hwf : WellFormedPrps p length) (hlist : PagesOnList p length host)
    (hfuel : p.rest length ≤ fuel) :
    collectPrps p host fuel ⟨1, 0, none⟩ (p.rest length) = some (p.tail length host) := by
  by_cases h0 : p.rest length = 0
  · rw [PrpPair.tail, if_neg (by omega), if_pos h0, h0]
    cases fuel <;> rfl
  · match fuel, hfuel with
    | 0, hfuel => exact absurd (Nat.le_zero.mp hfuel) h0
    | fuel + 1, hfuel =>
        by_cases hlong : pageSize < p.rest length
        · have hlen := p.listLen_of_long hlong
          have hpages := pagesFor_pos h0
          have hbound := pagesFor_rest_le hwf
          have hsize := ioSize_of_aligned (p.rest length) (hlist 0 (by omega))
          have hp : 0 < pageSize := by decide
          simp only [collectPrps, if_neg h0, PrpCursor.next, if_pos hlong, PrpPair.tail]
          rw [if_neg (by omega), hpages, List.range'_succ, List.map_cons, ← PrpPair.list, ← PrpPair.entry, hsize,
            collectPrps_list hlist (by omega) (by omega) (by omega), Option.map_some]
        · have hsize := ioSize_aligned (hwf.page2 h0 (by omega)) (Nat.le_of_not_lt hlong)
          simp only [collectPrps, if_neg h0, PrpCursor.next, if_neg hlong, PrpPair.tail, hsize, Nat.sub_self]
          rw [if_neg (by omega)]
          cases fuel <;> rfl

theorem collectPrps_eq {fuel : Nat} (hwf : WellFormedPrps p length) (hlist : PagesOnList p length host)
    (hfuel : length ≤ fuel) :
    collectPrps p host fuel .start length = some (p.prp1.toNat :: p.tail length host) := by
  have h0 := hwf.pos
  have hpos := ioSize_pos p.prp1.toNat h0
  match fuel, hfuel with
  | 0, hfuel => exact absurd (Nat.le_zero.mp hfuel) h0
  | fuel + 1, hfuel =>
      simp only [collectPrps, PrpCursor.start, PrpCursor.next, if_neg h0]
      rw [if_neg (by omega), ← PrpPair.rest, collectPrps_tail hwf hlist (by unfold PrpPair.rest; omega)]
      rfl

/-! ## The page loop copies them -/

theorem copyAll_append (addr : Nat → Nat) (cs cs' : List Chunk) (m : IoMem) :
    copyAll addr dir offset (cs ++ cs') m = copyAll addr dir offset cs' (copyAll addr dir offset cs m) :=
  List.foldl_append

/-- The bytes that the chunks lie on. -/
def Covered (addr : Nat → Nat) (cs : List Chunk) (x : Nat) : Prop :=
  ∃ c, c ∈ cs ∧ addr c.paddr ≤ x ∧ x < addr c.paddr + c.size

instance (addr : Nat → Nat) (cs : List Chunk) (x : Nat) : Decidable (Covered addr cs x) :=
  inferInstanceAs (Decidable (∃ c, c ∈ cs ∧ _))

theorem copyAll_of_not_covered {addr : Nat → Nat} {cs : List Chunk} {m : IoMem} {x : Nat}
    (hx : dir = .toHost → ¬ Covered addr cs x) : (copyAll addr dir offset cs m).host x = m.host x := by
  unfold copyAll
  induction cs generalizing m with
  | nil => rfl
  | cons c cs ih =>
      rw [List.foldl_cons, ih fun hd ⟨c', hc', hrange⟩ => hx hd ⟨c', List.mem_cons_of_mem c hc', hrange⟩]
      cases dir with
      | toStorage => rfl
      | toHost => exact memcpy_of_not fun h => hx rfl ⟨c, List.mem_cons_self, h⟩
      | none => rfl

/-- **No chunk lies on a PRP that is fetched after it.** The page loop fetches entry `j` of the list behind the chunk of
    PRP1 and those of the `j` entries before. -/
def PrpPair.ListKept (p : PrpPair) (length : Nat) (host : HostMem) : Prop :=
  ∀ j, j < p.listLen length → ∀ i, i < 8 →
    ¬ Covered p.dataAddr ((p.chunksOf length host).take (j + 1)) (p.list + 8 * j + i)

instance (p : PrpPair) (length : Nat) (host : HostMem) : Decidable (p.ListKept length host) :=
  inferInstanceAs (Decidable (∀ j, j < _ → ∀ i, i < 8 → ¬ _))

/-- Pages are cut off one by one. -/
theorem chunks_pages {n remaining pos : Nat} {f : Nat → Nat} (hf : ∀ i, i < n → f i % pageSize = 0) :
    chunks ((List.range n).map f) remaining pos = (List.range n).map fun i =>
      ⟨f i, pos + min remaining (pageSize * i), min (remaining - pageSize * i) pageSize⟩ := by
  induction n generalizing f remaining pos with
  | zero => rfl
  | succ n ih =>
      simp only [List.range_succ_eq_map, List.map_cons, List.map_map, chunks,
        ioSize_of_aligned remaining (hf 0 (Nat.succ_pos n))]
      rw [ih (f := f ∘ Nat.succ) fun i hi => hf (i + 1) (Nat.succ_lt_succ hi), Nat.mul_zero, Nat.min_zero, Nat.add_zero,
        Nat.sub_zero, List.cons_inj_right]
      refine List.map_congr_left fun i _ => ?_
      simp only [Function.comp_apply, Chunk.mk.injEq, Nat.succ_eq_add_one, true_and]
      unfold pageSize
      omega

/-- **The chunks of a command with a PRP list.** -/
theorem chunksOf_list (hlist : PagesOnList p length host) (hlong : pageSize < p.rest length) :
    p.chunksOf length host = ⟨p.prp1.toNat, 0, ioSize length p.prp1.toNat⟩ ::
      (List.range (p.listLen length)).map fun i => ⟨p.entry host i,
        ioSize length p.prp1.toNat + min (p.rest length) (pageSize * i),
        min (p.rest length - pageSize * i) pageSize⟩ := by
  have hlen := p.listLen_of_long hlong
  rw [PrpPair.chunksOf, PrpPair.tail, if_pos hlong, ← hlen, ← List.range_eq_range', chunks, ← PrpPair.rest,
    chunks_pages hlist, Nat.zero_add]

/-- The cursor of the loop when it is about to fetch entry `j`. -/
def PrpPair.cursorAt (p : PrpPair) (j : Nat) : PrpCursor :=
  if j = 0 then ⟨1, 0, none⟩ else ⟨j + 1, j, some p.list⟩

theorem next_cursorAt {j remaining : Nat} (h : j = 0 → pageSize < remaining) :
    (p.cursorAt j).next p host remaining = some (host.u64At (p.list + 8 * j), p.cursorAt (j + 1)) := by
  cases j with
  | zero =>
      simp only [PrpPair.cursorAt, if_pos, PrpCursor.next, if_pos (h rfl)]
      rfl
  | succ j => rfl

/-- **The first chunk.** -/
theorem transfer_first (dir : IoDir) (offset : Nat) (m : IoMem) (h0 : length ≠ 0) :
    ∃ fuel, p.rest length ≤ fuel ∧ transfer p dir offset length m =
      prpLoop p IoMem.host (dir.copy offset) fuel ⟨1, 0, none⟩ (p.rest length) (ioSize length p.prp1.toNat)
        (dir.copy offset m (p.dataAddr p.prp1.toNat) 0 (ioSize length p.prp1.toNat)) := by
  have hpos := ioSize_pos p.prp1.toNat h0
  have hle := ioSize_le length p.prp1.toNat
  obtain ⟨fuel, hfuel⟩ := Nat.exists_eq_succ_of_ne_zero h0
  refine ⟨fuel, by unfold PrpPair.rest; omega, ?_⟩
  have hstep : ∀ n, n = length → prpLoop p IoMem.host (dir.copy offset) (fuel + 1) .start n 0 m =
      prpLoop p IoMem.host (dir.copy offset) fuel ⟨1, 0, none⟩ (n - ioSize n p.prp1.toNat)
        (0 + ioSize n p.prp1.toNat) (dir.copy offset m (p.dataAddr p.prp1.toNat) 0 (ioSize n p.prp1.toNat)) := by
    intro n hn
    simp only [prpLoop, PrpCursor.start, PrpCursor.next, if_neg (hn ▸ h0)]
  have h := hstep length rfl
  rwa [← Nat.succ_eq_add_one, ← hfuel, Nat.zero_add] at h

/-- **The loop up to entry `j`**, if no chunk before lies on an entry before. -/
theorem transfer_upto (dir : IoDir) (offset : Nat) (m : IoMem) {j : Nat} (hwf : WellFormedPrps p length)
    (hlist : PagesOnList p length m.host)
    (hlong : pageSize < p.rest length) (hj : j ≤ p.listLen length)
    (hkept : dir = .toHost → ∀ k, k < j → ∀ i, i < 8 →
      ¬ Covered p.dataAddr ((p.chunksOf length m.host).take (k + 1)) (p.list + 8 * k + i)) :
    ∃ fuel, p.rest length - pageSize * j ≤ fuel ∧
      transfer p dir offset length m = prpLoop p IoMem.host (dir.copy offset) fuel (p.cursorAt j)
        (p.rest length - pageSize * j) (ioSize length p.prp1.toNat + min (p.rest length) (pageSize * j))
        (copyAll p.dataAddr dir offset ((p.chunksOf length m.host).take (j + 1)) m) := by
  have hlen := p.listLen_of_long hlong
  induction j with
  | zero =>
      rw [Nat.mul_zero, Nat.min_zero, Nat.add_zero, Nat.sub_zero]
      exact transfer_first dir offset m hwf.pos
  | succ j ih =>
      obtain ⟨fuel, hfuel, heq⟩ := ih (by omega) fun hd k hk => hkept hd k (by omega)
      have hrem : p.rest length - pageSize * j ≠ 0 := by
        unfold pagesFor pageSize at *
        omega
      obtain ⟨fuel, rfl⟩ := Nat.exists_eq_succ_of_ne_zero (show fuel ≠ 0 by omega)
      have hentry : (copyAll p.dataAddr dir offset ((p.chunksOf length m.host).take (j + 1)) m).host.u64At
          (p.list + 8 * j) = p.entry m.host j :=
        u64At_congr fun i hi => copyAll_of_not_covered fun hd => hkept hd j (Nat.lt_succ_self j) i hi
      have hchunk : (p.chunksOf length m.host).take (j + 1 + 1) = (p.chunksOf length m.host).take (j + 1) ++
          [⟨p.entry m.host j, ioSize length p.prp1.toNat + min (p.rest length) (pageSize * j),
            min (p.rest length - pageSize * j) pageSize⟩] := by
        rw [List.take_add_one, chunksOf_list hlist hlong]
        simp [show j < p.listLen length by omega]
      refine ⟨fuel, by unfold pageSize at *; omega, ?_⟩
      rw [heq, Nat.succ_eq_add_one, prpLoop, if_neg hrem, next_cursorAt (fun h => by rw [h]; exact hlong), hentry,
        hchunk, copyAll_append]
      simp only [ioSize_of_aligned _ (hlist j (by omega)), copyAll, List.foldl_cons, List.foldl_nil]
      rw [show p.rest length - pageSize * j - min (p.rest length - pageSize * j) pageSize =
        p.rest length - pageSize * (j + 1) by rw [Nat.mul_succ]; omega, Nat.add_assoc,
        show min (p.rest length) (pageSize * j) + min (p.rest length - pageSize * j) pageSize =
        min (p.rest length) (pageSize * (j + 1)) by rw [Nat.mul_succ]; omega]

/-- **The page loop copies the chunks** if none lies on a PRP that is fetched after it. -/
theorem transfer_eq_copyAll {m : IoMem} (hwf : WellFormedPrps p length) (hlist : PagesOnList p length m.host)
    (hkept : dir = .toHost → p.ListKept length m.host) :
    transfer p dir offset length m = some (copyAll p.dataAddr dir offset (p.chunksOf length m.host) m) := by
  by_cases hlong : pageSize < p.rest length
  · have hlen := p.listLen_of_long hlong
    obtain ⟨fuel, -, heq⟩ := transfer_upto dir offset _ hwf hlist hlong (Nat.le_refl _) hkept
    have hrem : p.rest length - pageSize * p.listLen length = 0 := by
      rw [hlen]
      unfold pagesFor pageSize
      omega
    rw [heq, hrem, prpLoop_zero, List.take_of_length_le]
    rw [chunksOf_list hlist hlong]
    simp
  · obtain ⟨fuel, hfuel, heq⟩ := transfer_first (p := p) dir offset m hwf.pos
    rw [heq, PrpPair.chunksOf, chunks, ← PrpPair.rest, PrpPair.tail, if_neg hlong, Nat.zero_add]
    by_cases hrest : p.rest length = 0
    · rw [hrest, prpLoop_zero, if_pos rfl]
      rfl
    · obtain ⟨fuel, rfl⟩ := Nat.exists_eq_succ_of_ne_zero (show fuel ≠ 0 by omega)
      have hsize := ioSize_aligned (hwf.page2 hrest (by omega)) (Nat.le_of_not_lt hlong)
      simp only [prpLoop, if_neg hrest, PrpCursor.next, if_neg hlong, chunks, hsize, Nat.sub_self,
        prpLoop_zero]
      rfl

theorem mem_chunks {as : List Nat} {remaining pos : Nat} {c : Chunk} (h : c ∈ chunks as remaining pos) :
    c.paddr ∈ as ∧ pos ≤ c.pos ∧ ∃ r, c.size = ioSize r c.paddr := by
  induction as generalizing remaining pos with
  | nil => exact absurd h (by simp [chunks])
  | cons a as ih =>
      rcases List.mem_cons.mp h with rfl | h
      · exact ⟨List.mem_cons_self, Nat.le_refl pos, remaining, rfl⟩
      · obtain ⟨hmem, hpos, hsize⟩ := ih h
        exact ⟨List.mem_cons_of_mem a hmem, by omega, hsize⟩

/-- A request that ends within the address space is a copy. -/
theorem dmaSubmit_eq_copy (dir : IoDir) (offset : Nat) (m : IoMem) {a n : Nat} (pos : Nat) (h : a + n ≤ 2 ^ 64) :
    dmaSubmit dir offset m a pos n = dir.copy offset m a pos n := by
  cases dir with
  | none => rfl
  | toStorage =>
      simp only [dmaSubmit, IoDir.copy, IoMem.mk.injEq, true_and]
      funext x
      by_cases hx : offset + pos ≤ x ∧ x < offset + pos + n
      · rw [if_pos hx, memcpy_of_mem hx, Nat.mod_eq_of_lt (by omega)]
      · rw [if_neg hx, memcpy_of_not hx]
  | toHost =>
      simp only [dmaSubmit, IoDir.copy, IoMem.mk.injEq, and_true]
      funext y
      by_cases hy : a ≤ y ∧ y < a + n
      · rw [memcpy_of_mem hy, if_pos (by omega)]
        congr 1
        omega
      · rw [memcpy_of_not hy, if_neg (by omega)]

theorem submitAll_eq_copyAll {cs : List Chunk} {m : IoMem} (h : ∀ c, c ∈ cs → c.paddr + c.size ≤ 2 ^ 64) :
    submitAll dir offset cs m = copyAll id dir offset cs m := by
  unfold submitAll copyAll
  induction cs generalizing m with
  | nil => rfl
  | cons c cs ih =>
      rw [List.foldl_cons, List.foldl_cons, dmaSubmit_eq_copy dir offset m c.pos (h c List.mem_cons_self)]
      exact ih fun c' hc' => h c' (List.mem_cons_of_mem c hc')

/-- **So does the DMA path**, at the addresses as they are. -/
theorem dmaTransfer_eq_copyAll {m : IoMem} (hwf : WellFormedPrps p length) (hlist : PagesOnList p length m.host) :
    dmaTransfer p dir offset length m = some (copyAll id dir offset (p.chunksOf length m.host) m) := by
  obtain ⟨hall, hlen⟩ := tail_pages hwf hlist
  have hle : length ≤ 2 ^ 64 := Nat.le_trans hwf.le (by decide)
  rw [dmaTransfer, collectPrps_eq hwf hlist (Nat.le_refl length), Option.map_some,
    dmaLoop_eq_submitAll p.prp1.toNat_lt hall hlen hwf.pos hle, PrpPair.chunksOf, submitAll_eq_copyAll]
  intro c hc
  obtain ⟨hmem, -, r, hsize⟩ := mem_chunks hc
  rw [hsize]
  rcases List.mem_cons.mp hmem with heq | hmem
  · rw [heq]
    exact add_ioSize_le p.prp1.toNat_lt
  · exact add_ioSize_le (hall _ hmem).2

/-! ## When the paths agree -/

/-- PRP1 has no page offset, or its page is mapped with `kmap_atomic_pfn`. -/
def Prp1Plain (p : PrpPair) : Prop :=
  p.prp1.toNat % pageSize = 0 ∨ p.pfnValid (p.prp1.toNat / pageSize) = true

instance (p : PrpPair) : Decidable (Prp1Plain p) := inferInstanceAs (Decidable (_ ∨ _))

theorem dataAddr_of_page {a : Nat} (h : a % pageSize = 0) : p.dataAddr a = a := by
  unfold PrpPair.dataAddr
  rw [h, Nat.add_zero, ite_self]

theorem dataAddr_of_not_plain (h : ¬ Prp1Plain p) :
    p.prp1.toNat % pageSize ≠ 0 ∧ p.dataAddr p.prp1.toNat = p.prp1.toNat + p.prp1.toNat % pageSize := by
  obtain ⟨hoff, hvalid⟩ := not_or.mp h
  exact ⟨hoff, if_neg hvalid⟩

theorem copyAll_congr {f g : Nat → Nat} {cs : List Chunk} {m : IoMem} (h : ∀ c, c ∈ cs → f c.paddr = g c.paddr) :
    copyAll f dir offset cs m = copyAll g dir offset cs m := by
  unfold copyAll
  induction cs generalizing m with
  | nil => rfl
  | cons c cs ih =>
      rw [List.foldl_cons, List.foldl_cons, h c List.mem_cons_self]
      exact ih fun c' hc' => h c' (List.mem_cons_of_mem c hc')

theorem dataAddr_of_plain (h : Prp1Plain p) : p.dataAddr p.prp1.toNat = p.prp1.toNat := by
  rcases h with hpage | hvalid
  · exact dataAddr_of_page hpage
  · exact if_pos hvalid

/-- The bytes of the first chunk, wherever a path puts it, are overwritten by later chunks. -/
def PrpPair.FirstMasked (p : PrpPair) (length : Nat) (host : HostMem) : Prop :=
  ∀ i, i < ioSize length p.prp1.toNat → Covered id (p.chunksOf length host).tail (p.prp1.toNat + i) ∧
    Covered id (p.chunksOf length host).tail (p.dataAddr p.prp1.toNat + i)

/-- **When the paths agree** on a host memory. A write takes its first chunk from the same bytes, at one address or at
    two. A read does not overwrite a PRP before it is fetched, and puts its first chunk at one address, or where nothing
    is left of it in the end. -/
def PathsAgree (p : PrpPair) (dir : IoDir) (length : Nat) (host : HostMem) : Prop :=
  match dir with
  | .toStorage => ∀ i, i < ioSize length p.prp1.toNat →
      host (p.dataAddr p.prp1.toNat + i) = host (p.prp1.toNat + i)
  | .toHost => p.ListKept length host ∧ (Prp1Plain p ∨ p.FirstMasked length host)
  | .none => True

/-- The paths differ in the first chunk. -/
theorem paths_eq_iff (storage : Nat → UInt8) (hwf : WellFormedPrps p length) (hlist : PagesOnList p length host)
    (hkept : dir = .toHost → p.ListKept length host) :
    dmaTransfer p dir offset length ⟨host, storage⟩ = transfer p dir offset length ⟨host, storage⟩ ↔
      copyAll id dir offset (p.chunksOf length host).tail
          (dir.copy offset ⟨host, storage⟩ p.prp1.toNat 0 (ioSize length p.prp1.toNat)) =
        copyAll id dir offset (p.chunksOf length host).tail
          (dir.copy offset ⟨host, storage⟩ (p.dataAddr p.prp1.toNat) 0 (ioSize length p.prp1.toNat)) := by
  have htail : ∀ m, copyAll p.dataAddr dir offset (p.chunksOf length host).tail m =
      copyAll id dir offset (p.chunksOf length host).tail m := fun m => copyAll_congr fun c hc =>
    dataAddr_of_page ((tail_pages hwf hlist).1 _ (mem_chunks hc).1).1
  rw [dmaTransfer_eq_copyAll (m := ⟨host, storage⟩) hwf hlist,
    transfer_eq_copyAll (m := ⟨host, storage⟩) hwf hlist hkept, Option.some.injEq,
    ← htail (dir.copy offset ⟨host, storage⟩ (p.dataAddr p.prp1.toNat) 0 (ioSize length p.prp1.toNat))]
  rfl

/-! ### Writes -/

theorem copyAll_storage_below {addr : Nat → Nat} {cs : List Chunk} {m : IoMem} {q x : Nat}
    (h : ∀ c, c ∈ cs → q ≤ c.pos) (hx : x < offset + q) :
    (copyAll addr dir offset cs m).storage x = m.storage x := by
  unfold copyAll
  induction cs generalizing m with
  | nil => rfl
  | cons c cs ih =>
      rw [List.foldl_cons, ih fun c' hc' => h c' (List.mem_cons_of_mem c hc')]
      have hc := h c List.mem_cons_self
      cases dir with
      | toStorage => exact memcpy_of_not (by omega)
      | toHost => rfl
      | none => rfl

theorem write_agrees (offset : Nat) (hwf : WellFormedPrps p length) (hlist : PagesOnList p length host) :
    (∀ storage, dmaTransfer p .toStorage offset length ⟨host, storage⟩ =
      transfer p .toStorage offset length ⟨host, storage⟩) ↔ PathsAgree p .toStorage length host := by
  constructor
  · intro hall i hi
    have heq := (paths_eq_iff _ hwf hlist fun h => absurd h (by decide)).mp (hall fun _ => 0)
    have hbelow : ∀ c, c ∈ (p.chunksOf length host).tail → ioSize length p.prp1.toNat ≤ c.pos := fun c hc =>
      (Nat.zero_add _).symm.trans_le (mem_chunks hc).2.1
    have hbyte := congrArg (·.storage (offset + i)) heq
    simp only [copyAll_storage_below hbelow (Nat.add_lt_add_left hi offset)] at hbyte
    simpa [IoDir.copy, memcpy, hi] using hbyte.symm
  · intro hsame storage
    refine (paths_eq_iff storage hwf hlist fun h => absurd h (by decide)).mpr (congrArg _ ?_)
    simp only [IoDir.copy, IoMem.mk.injEq, true_and]
    funext x
    unfold memcpy
    split
    · next hx => exact ((hsame (x - (offset + 0)) (by omega)).symm)
    · rfl

/-! ### Reads of an intact list -/

theorem copyAll_storage {addr : Nat → Nat} {cs : List Chunk} {m : IoMem} :
    (copyAll addr .toHost offset cs m).storage = m.storage := by
  unfold copyAll
  induction cs generalizing m with
  | nil => rfl
  | cons c cs ih => exact ih

/-- What is overwritten does not depend on what was there. -/
theorem copyAll_host_congr {addr : Nat → Nat} {cs : List Chunk} {m m' : IoMem} {x : Nat}
    (hs : m.storage = m'.storage) (hx : Covered addr cs x ∨ m.host x = m'.host x) :
    (copyAll addr .toHost offset cs m).host x = (copyAll addr .toHost offset cs m').host x := by
  unfold copyAll
  induction cs generalizing m m' with
  | nil => exact hx.resolve_left fun ⟨c, hc, _⟩ => absurd hc (by simp)
  | cons c cs ih =>
      refine ih hs ?_
      by_cases hc : addr c.paddr ≤ x ∧ x < addr c.paddr + c.size
      · refine Or.inr ((memcpy_of_mem hc).trans ?_)
        rw [hs]
        exact (memcpy_of_mem hc).symm
      · rcases hx with ⟨c', hc', hrange⟩ | heq
        · rcases List.mem_cons.mp hc' with rfl | hmem
          · exact absurd hrange hc
          · exact Or.inl ⟨c', hmem, hrange⟩
        · exact Or.inr ((memcpy_of_not hc).trans (heq.trans (memcpy_of_not hc).symm))

theorem byte_add_one_ne (v : UInt8) : v + 1 ≠ v := fun h => by
  have hv : (v.toNat + 1) % 256 = v.toNat := congrArg UInt8.toNat h
  have hlt := v.toNat_lt
  omega

/-- A byte that only one of two copies of the same bytes reaches, or both with different bytes of theirs. -/
theorem memcpy_ne (dst : HostMem) {a a' n i : Nat} (b : Nat) (hi : i < n) (hne : a ≠ a') :
    ∃ src : Nat → UInt8, memcpy dst a src b n (a + i) ≠ memcpy dst a' src b n (a + i) := by
  refine ⟨fun y => if y = b + i then dst (a + i) + 1 else dst (a + i), ?_⟩
  rw [memcpy_of_mem (by omega), if_pos (by omega)]
  unfold memcpy
  split
  · dsimp only
    rw [if_neg (by omega)]
    exact byte_add_one_ne _
  · exact byte_add_one_ne _

theorem kept_read_agrees (offset : Nat) (hwf : WellFormedPrps p length) (hlist : PagesOnList p length host)
    (hkept : p.ListKept length host) :
    (∀ storage, dmaTransfer p .toHost offset length ⟨host, storage⟩ =
      transfer p .toHost offset length ⟨host, storage⟩) ↔ Prp1Plain p ∨ p.FirstMasked length host := by
  constructor
  · intro hall
    by_contra hnot
    obtain ⟨hplain, hmask⟩ := not_or.mp hnot
    obtain ⟨hoff, haddr⟩ := dataAddr_of_not_plain hplain
    obtain ⟨i, hmask⟩ := not_forall.mp hmask
    obtain ⟨hi, hmask⟩ := Classical.not_imp.mp hmask
    have hne : p.prp1.toNat ≠ p.dataAddr p.prp1.toNat := by omega
    -- a byte of the first chunk that stays
    have hstays : ∀ x storage, ¬ Covered id (p.chunksOf length host).tail x →
        memcpy host p.prp1.toNat storage (offset + 0) (ioSize length p.prp1.toNat) x =
          memcpy host (p.dataAddr p.prp1.toNat) storage (offset + 0) (ioSize length p.prp1.toNat) x := by
      intro x storage hx
      have h := congrArg (·.host x) ((paths_eq_iff storage hwf hlist fun _ => hkept).mp (hall storage))
      simp only [copyAll_of_not_covered fun _ => hx] at h
      exact h
    rcases not_and_or.mp hmask with hout | hout
    · obtain ⟨storage, hdiff⟩ := memcpy_ne host (offset + 0) hi hne
      exact hdiff (hstays _ storage hout)
    · obtain ⟨storage, hdiff⟩ := memcpy_ne host (offset + 0) hi hne.symm
      exact hdiff (hstays _ storage hout).symm
  · intro hfirst storage
    refine (paths_eq_iff storage hwf hlist fun _ => hkept).mpr ?_
    rcases hfirst with hplain | hmask
    · rw [dataAddr_of_plain hplain]
    · refine IoMem.ext (funext fun x => copyAll_host_congr rfl ?_) (by rw [copyAll_storage, copyAll_storage]; rfl)
      by_cases h₁ : p.prp1.toNat ≤ x ∧ x < p.prp1.toNat + ioSize length p.prp1.toNat
      · have h := (hmask (x - p.prp1.toNat) (by omega)).1
        rw [Nat.add_sub_cancel' h₁.1] at h
        exact Or.inl h
      · by_cases h₂ : p.dataAddr p.prp1.toNat ≤ x ∧ x < p.dataAddr p.prp1.toNat + ioSize length p.prp1.toNat
        · have h := (hmask (x - p.dataAddr p.prp1.toNat) (by omega)).2
          rw [Nat.add_sub_cancel' h₂.1] at h
          exact Or.inl h
        · exact Or.inr ((memcpy_of_not h₁).trans (memcpy_of_not h₂).symm)

/-! ### Reads that overwrite their list -/

/-- A word of which some bytes are filled with `b` is linear in `b`, and steep if one of its upper bytes is. -/
theorem u64At_fill (host : HostMem) (S : Nat → Prop) [DecidablePred S] (a : Nat) :
    ∃ base weight, (∀ b : UInt8, HostMem.u64At (fun y => if S y then b else host y) a = base + b.toNat * weight) ∧
      ∀ k, 3 ≤ k → k < 8 → S (a + k) → 2 ^ 24 ≤ weight := by
  have hlin : ∀ (b : UInt8) (l : List Nat),
      l.foldr (fun i acc => (if S (a + i) then b else host (a + i)).toNat + 256 * acc) 0 =
        l.foldr (fun i acc => (if S (a + i) then 0 else (host (a + i)).toNat) + 256 * acc) 0 +
          b.toNat * l.foldr (fun i acc => (if S (a + i) then 1 else 0) + 256 * acc) 0 := by
    intro b l
    induction l with
    | nil => rfl
    | cons i l ih =>
        simp only [List.foldr_cons, ih, Nat.mul_add, Nat.mul_left_comm b.toNat 256]
        split <;> omega
  refine ⟨_, _, fun b => hlin b _, fun k h3 h8 hk => ?_⟩
  simp only [List.range, List.range.loop, List.foldr]
  rcases (show k = 3 ∨ k = 4 ∨ k = 5 ∨ k = 6 ∨ k = 7 by omega) with rfl | rfl | rfl | rfl | rfl <;>
    (rw [if_pos hk]; omega)

/-- Where a chunk of an address starts. -/
theorem dataAddr_bounds (p : PrpPair) (a : Nat) : a ≤ p.dataAddr a ∧ p.dataAddr a < a + pageSize := by
  have hlt : a % pageSize < pageSize := Nat.mod_lt _ (by decide)
  unfold PrpPair.dataAddr
  split <;> omega

/-- Of 256 addresses far apart, one is on none of a few pages. -/
theorem exists_not_covered {x : UInt8 → Nat} {base weight : Nat} {cs : List Chunk} (hweight : 2 ^ 24 ≤ weight)
    (hx : ∀ b, base + b.toNat * weight ≤ x b ∧ x b < base + b.toNat * weight + pageSize) (hlen : cs.length < 256)
    (hpage : ∀ c, c ∈ cs → c.paddr % pageSize + c.size ≤ pageSize) : ∃ b, ¬ Covered id cs (x b) := by
  by_contra hall
  have hcov : ∀ b, ∃ c, c ∈ cs ∧ c.paddr / pageSize = x b / pageSize := by
    intro b
    obtain ⟨c, hc, hle, hlt⟩ := not_not.mp (not_exists.mp hall b)
    have h := hpage c hc
    refine ⟨c, hc, ?_⟩
    simp only [id] at hle hlt
    unfold pageSize at *
    omega
  have hinj : Function.Injective fun b => x b / pageSize := by
    intro b b' heq
    change x b / pageSize = x b' / pageSize at heq
    have h := hx b
    have h' := hx b'
    have hmul : ∀ {m n : Nat}, m < n → m * weight + 2 ^ 24 ≤ n * weight := fun {m n} hmn =>
      (Nat.add_le_add_left hweight _).trans ((Nat.succ_mul m weight).symm.trans_le (Nat.mul_le_mul_right _ hmn))
    rcases Nat.lt_trichotomy b.toNat b'.toNat with hlt | heq' | hlt
    · have := hmul hlt
      unfold pageSize at *
      omega
    · exact UInt8.toNat_inj.mp heq'
    · have := hmul hlt
      unfold pageSize at *
      omega
  have hsub : ((Finset.range 256).image fun n => x (.ofNat n) / pageSize) ⊆
      (cs.map fun c => c.paddr / pageSize).toFinset := by
    intro q hq
    obtain ⟨n, -, rfl⟩ := Finset.mem_image.mp hq
    obtain ⟨c, hc, heq⟩ := hcov (.ofNat n)
    exact List.mem_toFinset.mpr (List.mem_map.mpr ⟨c, hc, heq⟩)
  have hcard := Finset.card_le_card hsub
  rw [Finset.card_image_of_injOn, Finset.card_range] at hcard
  swap
  · intro n hn n' hn' h
    have hbyte := congrArg UInt8.toNat (hinj h)
    rwa [UInt8.toNat_ofNat_of_lt' (Finset.mem_range.mp hn), UInt8.toNat_ofNat_of_lt' (Finset.mem_range.mp hn')] at hbyte
  have hle := List.toFinset_card_le (cs.map fun c => c.paddr / pageSize)
  rw [List.length_map] at hle
  omega

/-- The bytes of chunks that are filled with one value. -/
theorem copyAll_of_covered {addr : Nat → Nat} {cs : List Chunk} {storage : Nat → UInt8} {v : UInt8} {x : Nat}
    (hv : ∀ c, c ∈ cs → ∀ i, i < c.size → storage (offset + c.pos + i) = v) (hx : Covered addr cs x) :
    (copyAll addr .toHost offset cs ⟨host, storage⟩).host x = v := by
  induction cs generalizing host with
  | nil =>
      obtain ⟨c, hc, -⟩ := hx
      exact absurd hc (by simp)
  | cons c cs ih =>
      rw [copyAll, List.foldl_cons, ← copyAll]
      by_cases hcs : Covered addr cs x
      · exact ih (fun c' hc' => hv c' (List.mem_cons_of_mem c hc')) hcs
      · obtain ⟨c', hc', hrange⟩ := hx
        rcases List.mem_cons.mp hc' with rfl | hmem
        · rw [copyAll_of_not_covered fun _ => hcs]
          exact (memcpy_of_mem hrange).trans (hv c' List.mem_cons_self _ (by omega))
        · exact absurd ⟨c', hmem, hrange⟩ hcs

/-- PRPs aligned to dwords. An offset that is added once leaves the end of the first chunk at the end of its page. -/
structure DwordPrps (p : PrpPair) (length : Nat) : Prop where
  list : pageSize < p.rest length → p.prp2.toNat % 4 = 0
  first : pageSize < p.rest length → Prp1Plain p ∨ p.prp1.toNat % 4 = 0

theorem DwordPrps.list_mod (h : DwordPrps p length) (hlong : pageSize < p.rest length) : p.list % 4 = 0 := by
  have := h.list hlong
  unfold PrpPair.list PrpPair.listAddr
  split <;> omega

/-- A chunk before a fetch of the loop ends at a dword, and before the bytes that are left. -/
theorem chunk_before {j : Nat} {c : Chunk} (h4 : DwordPrps p length) (hlist : PagesOnList p length host)
    (hlong : pageSize < p.rest length) (hj : j < p.listLen length)
    (hc : c ∈ (p.chunksOf length host).take (j + 1)) :
    (p.dataAddr c.paddr + c.size) % 4 = 0 ∧
      c.pos + c.size ≤ ioSize length p.prp1.toNat + min (p.rest length) (pageSize * j) := by
  have hlen := p.listLen_of_long hlong
  rw [chunksOf_list hlist hlong, List.take_succ_cons, ← List.map_take, List.take_range] at hc
  rcases List.mem_cons.mp hc with rfl | hc
  · refine ⟨?_, by simp only; omega⟩
    show (p.dataAddr p.prp1.toNat + ioSize length p.prp1.toNat) % 4 = 0
    have hsize : p.prp1.toNat % pageSize + ioSize length p.prp1.toNat = pageSize := by
      unfold PrpPair.rest ioSize pageSize at *
      split at hlong <;> split <;> omega
    by_cases hplain : Prp1Plain p
    · rw [dataAddr_of_plain hplain]
      unfold pageSize at *
      omega
    · have h1 := (h4.first hlong).resolve_left hplain
      rw [(dataAddr_of_not_plain hplain).2]
      unfold pageSize at *
      omega
  · obtain ⟨i, hi, rfl⟩ := List.mem_map.mp hc
    have hi' := List.mem_range.mp hi
    have hpage := hlist i (by omega)
    simp only [dataAddr_of_page hpage]
    unfold pagesFor pageSize at *
    omega

/-- What is behind `pos` in the storage is `v`: so is a byte that was read from there, to the end. -/
theorem prpLoop_marks {fuel remaining pos x : Nat} {cur : PrpCursor} {m m' : IoMem} {v : UInt8}
    (hv : ∀ y, offset + pos ≤ y → m.storage y = v) (hx : m.host x = v) (hfuel : remaining ≤ fuel)
    (hm' : prpLoop p IoMem.host (IoDir.toHost.copy offset) fuel cur remaining pos m = some m') : m'.host x = v := by
  refine (prpLoop_inv (R := fun k m₁ => pos ≤ k ∧ m₁.storage = m.storage ∧ m₁.host x = v) ?_ hfuel rfl
    ⟨Nat.le_refl pos, rfl, hx⟩ hm').2.2
  rintro k m₁ a n ⟨hk, hs, hhost⟩ - -
  refine ⟨by omega, hs, ?_⟩
  by_cases hxa : a ≤ x ∧ x < a + n
  · refine (memcpy_of_mem hxa).trans ?_
    rw [hs]
    exact hv _ (by omega)
  · exact (memcpy_of_not hxa).trans hhost

/-- The first PRP that is overwritten before it is fetched. -/
theorem exists_overwritten (hnot : ¬ p.ListKept length host) :
    ∃ j i, j < p.listLen length ∧ i < 8 ∧
      Covered p.dataAddr ((p.chunksOf length host).take (j + 1)) (p.list + 8 * j + i) ∧
      ∀ k, k < j → ∀ i, i < 8 →
        ¬ Covered p.dataAddr ((p.chunksOf length host).take (k + 1)) (p.list + 8 * k + i) := by
  have hover : ∃ j, j < p.listLen length ∧
      ∃ i, i < 8 ∧ Covered p.dataAddr ((p.chunksOf length host).take (j + 1)) (p.list + 8 * j + i) := by
    unfold PrpPair.ListKept at hnot
    push Not at hnot
    exact hnot
  obtain ⟨hj, i, hi, hcov⟩ := Nat.find_spec hover
  exact ⟨Nat.find hover, i, hj, hi, hcov, fun k hk i hi hc => Nat.find_min hover hk ⟨by omega, i, hi, hc⟩⟩

/-- **A read that overwrites a PRP goes astray**: with some contents of the storage it writes to a byte that is on none
    of a few pages. -/
theorem exists_stray (offset : Nat) (hwf : WellFormedPrps p length) (h4 : DwordPrps p length)
    (hlist : PagesOnList p length host) (hnot : ¬ p.ListKept length host) {cs : List Chunk} (hlen : cs.length < 256)
    (hpage : ∀ c, c ∈ cs → c.paddr % pageSize + c.size ≤ pageSize) :
    ∃ storage x, ¬ Covered id cs x ∧
      ∀ m', transfer p .toHost offset length ⟨host, storage⟩ = some m' → m'.host x ≠ host x := by
  obtain ⟨j, i, hj, hi, hcov, hmin⟩ := exists_overwritten hnot
  have hlong : pageSize < p.rest length := by
    unfold PrpPair.listLen at hj
    split at hj
    · assumption
    · omega
  have hlenList := p.listLen_of_long hlong
  have hword := h4.list_mod hlong
  obtain ⟨base, weight, hlin, hsteep⟩ := u64At_fill host
    (Covered p.dataAddr ((p.chunksOf length host).take (j + 1))) (p.list + 8 * j)
  have hweight : 2 ^ 24 ≤ weight := by
    obtain ⟨c, hc, hle, hlt⟩ := hcov
    have hend := (chunk_before h4 hlist hlong hj hc).1
    refine hsteep (max i 3) (by omega) (by omega) ⟨c, hc, by omega, ?_⟩
    by_cases h3 : 3 ≤ i <;> omega
  obtain ⟨b, hb⟩ := exists_not_covered (x := fun b => p.dataAddr (base + b.toNat * weight)) hweight
    (fun b => dataAddr_bounds p _) hlen hpage
  generalize hx : p.dataAddr (base + b.toNat * weight) = x at hb
  -- the bytes before the fetch are `b`, those behind it are not what is at `x`
  generalize hpos : ioSize length p.prp1.toNat + min (p.rest length) (pageSize * j) = pos
  let storage : Nat → UInt8 := fun y => if y < offset + pos then b else host x + 1
  refine ⟨storage, x, hb, fun m' hm' => ?_⟩
  obtain ⟨fuel, hfuel, heq⟩ := transfer_upto .toHost offset ⟨host, storage⟩ hwf hlist hlong
    (Nat.le_of_lt hj) fun _ => hmin
  rw [hpos] at heq
  have hfetch : (copyAll p.dataAddr .toHost offset ((p.chunksOf length host).take (j + 1))
      ⟨host, storage⟩).host.u64At (p.list + 8 * j) = base + b.toNat * weight := by
    rw [← hlin b]
    refine u64At_congr fun i _ => ?_
    by_cases hc : Covered p.dataAddr ((p.chunksOf length host).take (j + 1)) (p.list + 8 * j + i)
    · rw [if_pos hc]
      refine copyAll_of_covered (fun c hc i hi => if_pos ?_) hc
      have := (chunk_before h4 hlist hlong hj hc).2
      omega
    · rw [if_neg hc]
      exact copyAll_of_not_covered fun _ => hc
  have hrem : p.rest length - pageSize * j ≠ 0 := by
    unfold pagesFor pageSize at *
    omega
  obtain ⟨fuel, rfl⟩ := Nat.exists_eq_succ_of_ne_zero (show fuel ≠ 0 by omega)
  rw [heq, Nat.succ_eq_add_one, prpLoop, if_neg hrem, next_cursorAt (fun h => by rw [h]; exact hlong), hfetch] at hm'
  simp only [hx] at hm'
  generalize hsize : ioSize (p.rest length - pageSize * j) (base + b.toNat * weight) = size at hm'
  have hsize0 : 0 < size := hsize ▸ ioSize_pos _ hrem
  have hsizeLe : size ≤ p.rest length - pageSize * j := hsize ▸ ioSize_le _ _
  have hbehind : ∀ y, offset + pos ≤ y → storage y = host x + 1 := fun y hy => if_neg (by omega)
  rw [prpLoop_marks (v := host x + 1) ?_ ?_ (by omega) hm']
  · exact byte_add_one_ne _
  · intro y hy
    rw [IoDir.copy, copyAll_storage]
    exact hbehind y (by omega)
  · refine (memcpy_of_mem (by omega)).trans ?_
    rw [copyAll_storage]
    exact hbehind _ (by omega)

theorem length_chunks (as : List Nat) (remaining pos : Nat) : (chunks as remaining pos).length = as.length := by
  induction as generalizing remaining pos with
  | nil => rfl
  | cons a as ih => rw [chunks, List.length_cons, ih, List.length_cons]

theorem length_chunksOf_lt (hwf : WellFormedPrps p length) (hlist : PagesOnList p length host) :
    (p.chunksOf length host).length < 256 := by
  have := pagesFor_rest_le hwf
  rw [PrpPair.chunksOf, length_chunks, List.length_cons, (tail_pages hwf hlist).2]
  omega

theorem chunk_in_page {c : Chunk} (hc : c ∈ p.chunksOf length host) : c.paddr % pageSize + c.size ≤ pageSize := by
  obtain ⟨-, -, r, hsize⟩ := mem_chunks hc
  rw [hsize]
  exact offset_add_ioSize_le r c.paddr

/-- **Exactly when the paths agree**, for a host memory. -/
theorem dma_matches (offset : Nat) (hwf : WellFormedPrps p length) (hlist : PagesOnList p length host)
    (h4 : dir = .toHost → DwordPrps p length) :
    (∀ storage, dmaTransfer p dir offset length ⟨host, storage⟩ = transfer p dir offset length ⟨host, storage⟩) ↔
      PathsAgree p dir length host := by
  cases dir with
  | none =>
      refine iff_of_true (fun storage => ?_) trivial
      exact (paths_eq_iff storage hwf hlist fun h => absurd h (by decide)).mpr rfl
  | toStorage => exact write_agrees offset hwf hlist
  | toHost =>
      by_cases hkept : p.ListKept length host
      · rw [kept_read_agrees offset hwf hlist hkept]
        exact ⟨fun h => ⟨hkept, h⟩, fun h => h.2⟩
      · refine iff_of_false (fun hall => ?_) fun h => hkept h.1
        obtain ⟨storage, x, hx, hstray⟩ := exists_stray offset hwf (h4 rfl) hlist hkept
          (length_chunksOf_lt hwf hlist) fun c hc => chunk_in_page hc
        have h := hall storage
        rw [dmaTransfer_eq_copyAll (m := ⟨host, storage⟩) hwf hlist] at h
        exact hstray _ h.symm (copyAll_of_not_covered fun _ => hx)

end Prps

/-! ## Commands -/

/-- A well-formed read, write or zone append; the PRPs of a read are aligned to dwords, as NVMe asks, if it has a list. -/
structure WellFormedIo (pfnValid : Nat → Bool) (cmd : NvmeCommand) : Prop where
  opcode : cmd.opcode = .read ∨ cmd.opcode = .write ∨ cmd.opcode = .zoneAppend
  mdts : cmdIoSize lbaBits cmd ≤ maxTransfer
  page2 : (cmd.prps pfnValid).rest (cmdIoSize lbaBits cmd) ≠ 0 →
    (cmd.prps pfnValid).rest (cmdIoSize lbaBits cmd) ≤ pageSize → cmd.prp2.toNat % pageSize = 0
  dword : cmd.opcode.dir = .toHost → DwordPrps (cmd.prps pfnValid) (cmdIoSize lbaBits cmd)

theorem WellFormedIo.prps {pfnValid : Nat → Bool} {cmd : NvmeCommand} (h : WellFormedIo pfnValid cmd) :
    WellFormedPrps (cmd.prps pfnValid) (cmdIoSize lbaBits cmd) where
  pos := by
    unfold cmdIoSize lbaBits
    omega
  le := h.mdts
  page2 := h.page2

theorem WellFormedIo.dir_ne {pfnValid : Nat → Bool} {cmd : NvmeCommand} (h : WellFormedIo pfnValid cmd) :
    cmd.opcode.dir ≠ .none := by
  rcases h.opcode with h | h | h <;> rw [h] <;> decide

/-- A read of three pages, with its PRP list at 0x2000. -/
def readOverList : NvmeCommand where
  opcode := .read
  commandId := 0
  nsid := 1
  prp1 := 0x5000
  prp2 := 0x2000
  slba := 0
  length := 23
  control := 0
  dsmgmt := 0

theorem readOverList_wf : WellFormedIo (fun _ => true) readOverList where
  opcode := Or.inl rfl
  mdts := by decide
  page2 := fun _ h => absurd h (by decide)
  dword := fun _ => ⟨fun _ => by decide, fun _ => Or.inl (by decide)⟩

/-- A write of one block from the middle of a page. -/
def unalignedWrite : NvmeCommand := { readOverList with opcode := .write, prp1 := 0x1200, prp2 := 0, length := 0 }

end NvmeVirt
