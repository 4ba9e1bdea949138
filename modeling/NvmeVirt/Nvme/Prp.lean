import Mathlib.Data.List.Basic
import Mathlib.Logic.Function.Basic

/-!
# `Nvme.Prp` — moving data between host memory and storage (`io.c`, `kv_ftl.c`)

The block path (`__do_perform_io`) and the key-value path (`__do_perform_kv_io`) move data with the same loop: the
first chunk is at PRP1; PRP2 is the second chunk, or points to a list of them if more than a page is left; a chunk
ends at the end of its page. `prpLoop` is that loop, over any state that has a host memory in it, and
`prpLoop_sim` is the rule all reasoning goes through: two loops that see the same host memory visit the same
chunks.

The two paths differ in one respect. The block path maps a page that is not `pfn_valid` with `memremap`, which
starts at the address itself and not at the page; the page offset is then added once more. The key-value path maps
every page as a valid one.

* `gather`, `scatter` — what the loop is for: the bytes at the chunks in order, and bytes put there.
* `transfer_toStorage`, `transfer_toHost` — the loop is a `gather` into the storage, or a `scatter` out of it.
-/

namespace NvmeVirt

/-- Physical memory of the host, by byte address. -/
abbrev HostMem := Nat → UInt8

/-- `PAGE_SIZE` -/
def pageSize : Nat := 4096

/-- The `u64` at an address, least significant byte first. -/
def HostMem.u64At (host : HostMem) (a : Nat) : Nat :=
  (List.range 8).foldr (fun i acc => (host (a + i)).toNat + 256 * acc) 0

/-- `memcpy`: `n` bytes of `src` at `b` go to `dst` at `a`. -/
def memcpy (dst : Nat → UInt8) (a : Nat) (src : Nat → UInt8) (b n : Nat) : Nat → UInt8 :=
  fun x => if a ≤ x ∧ x < a + n then src (b + (x - a)) else dst x

/-! ## The loop -/

/-- The PRP fields of a command, and which page frames are `pfn_valid`. -/
structure PrpPair where
  prp1 : UInt64
  prp2 : UInt64
  pfnValid : Nat → Bool

/-- `prp_offs`, `prp2_offs` and `paddr_list` (`none` is `NULL`). -/
structure PrpCursor where
  prpOffs : Nat
  prp2Offs : Nat
  paddrList : Option Nat
deriving DecidableEq, Repr

def PrpCursor.start : PrpCursor := ⟨0, 0, none⟩

/-- Where the PRP list starts. After `memremap` the page offset is added to a pointer to 8-byte entries. -/
def PrpPair.listAddr (p : PrpPair) (paddr : Nat) : Nat :=
  if p.pfnValid (paddr / pageSize) then paddr else paddr + 8 * (paddr % pageSize)

/-- Where the data of a chunk starts, `vaddr + mem_offs`. -/
def PrpPair.dataAddr (p : PrpPair) (paddr : Nat) : Nat :=
  if p.pfnValid (paddr / pageSize) then paddr else paddr + paddr % pageSize

/-- The `paddr` of the next chunk; `none` is the access through the `NULL` list pointer. -/
def PrpCursor.next (p : PrpPair) (host : HostMem) (remaining : Nat) (cur : PrpCursor) : Option (Nat × PrpCursor) :=
  match cur.prpOffs with
  | 0 => some (p.prp1.toNat, { cur with prpOffs := 1 })
  | 1 =>
      if remaining > pageSize then
        let list := p.listAddr p.prp2.toNat
        some (host.u64At (list + 8 * cur.prp2Offs), ⟨2, cur.prp2Offs + 1, some list⟩)
      else some (p.prp2.toNat, { cur with prpOffs := 2 })
  | k + 2 =>
      cur.paddrList.map fun list => (host.u64At (list + 8 * cur.prp2Offs), ⟨k + 3, cur.prp2Offs + 1, cur.paddrList⟩)

/-- `io_size` -/
def ioSize (remaining paddr : Nat) : Nat :=
  if min remaining pageSize + paddr % pageSize > pageSize then pageSize - paddr % pageSize else min remaining pageSize

/-- The loop: `copy` gets the address of a chunk, how many bytes were moved before it, and its size. Every chunk has a
    byte, so the length is fuel enough. -/
def prpLoop {σ : Type} (p : PrpPair) (host : σ → HostMem) (copy : σ → Nat → Nat → Nat → σ) :
    Nat → PrpCursor → Nat → Nat → σ → Option σ
  | 0, _, _, _, s => some s
  | fuel + 1, cur, remaining, pos, s =>
      if remaining = 0 then some s
      else
        match cur.next p (host s) remaining with
        | none => none
        | some (paddr, cur') =>
            prpLoop p host copy fuel cur' (remaining - ioSize remaining paddr) (pos + ioSize remaining paddr)
              (copy s (p.dataAddr paddr) pos (ioSize remaining paddr))

/-- Host memory and the storage of the namespace. -/
@[ext]
structure IoMem where
  host : HostMem
  storage : Nat → UInt8

/-- What the opcode makes of a chunk. -/
inductive IoDir where
  | toStorage | toHost | none
deriving DecidableEq, Repr

/-- The `memcpy` of one chunk; `offset` is where the transfer starts in the storage. -/
def IoDir.copy (dir : IoDir) (offset : Nat) (m : IoMem) (a pos n : Nat) : IoMem :=
  match dir with
  | .toStorage => { m with storage := memcpy m.storage (offset + pos) m.host a n }
  | .toHost => { m with host := memcpy m.host a m.storage (offset + pos) n }
  | .none => m

/-- The transfer of `length` bytes at `offset`. -/
def transfer (p : PrpPair) (dir : IoDir) (offset length : Nat) (m : IoMem) : Option IoMem :=
  prpLoop p IoMem.host (dir.copy offset) length .start length 0 m

/-! ## Rules for the loop -/

section Loop

variable {σ τ : Type} {p : PrpPair}

theorem ioSize_pos {remaining : Nat} (paddr : Nat) (h : remaining ≠ 0) : 0 < ioSize remaining paddr := by
  have hlt : paddr % pageSize < pageSize := Nat.mod_lt _ (by decide)
  unfold ioSize pageSize at *
  split <;> omega

theorem ioSize_le (remaining paddr : Nat) : ioSize remaining paddr ≤ remaining := by
  have hlt : paddr % pageSize < pageSize := Nat.mod_lt _ (by decide)
  unfold ioSize pageSize at *
  split <;> omega

/-- An aligned chunk takes all that is left of at most a page. -/
theorem ioSize_aligned {remaining paddr : Nat} (hp : paddr % pageSize = 0) (h : remaining ≤ pageSize) :
    ioSize remaining paddr = remaining := by
  unfold ioSize pageSize at *
  split <;> omega

/-- **Two loops side by side.** Loops that see the same host memory visit the same chunks, so a relation that every
    chunk keeps holds at the end, or both run into the `NULL` pointer. `R k` relates the states after `k` bytes. -/
theorem prpLoop_sim {f : σ → HostMem} {g : τ → HostMem} {c : σ → Nat → Nat → Nat → σ}
    {d : τ → Nat → Nat → Nat → τ} {R : Nat → σ → τ → Prop} {total : Nat}
    (hhost : ∀ k s t, R k s t → f s = g t)
    (hcopy : ∀ k s t a n, R k s t → 0 < n → k + n ≤ total → R (k + n) (c s a k n) (d t a k n))
    {fuel remaining pos : Nat} (cur : PrpCursor) {s : σ} {t : τ} (hfuel : remaining ≤ fuel)
    (htotal : pos + remaining = total) (h : R pos s t) :
    (prpLoop p f c fuel cur remaining pos s = none ∧
      prpLoop p g d fuel cur remaining pos t = none) ∨
    ∃ s' t', prpLoop p f c fuel cur remaining pos s = some s' ∧
      prpLoop p g d fuel cur remaining pos t = some t' ∧ R total s' t' := by
  induction fuel generalizing cur remaining pos s t with
  | zero =>
      have hrem : remaining = 0 := by omega
      subst hrem
      exact Or.inr ⟨s, t, rfl, rfl, htotal ▸ h⟩
  | succ fuel ih =>
      by_cases hrem : remaining = 0
      · refine Or.inr ⟨s, t, ?_, ?_, ?_⟩
        · rw [prpLoop, if_pos hrem]
        · rw [prpLoop, if_pos hrem]
        · subst hrem
          exact htotal ▸ h
      · simp only [prpLoop, if_neg hrem, hhost pos s t h]
        cases cur.next p (g t) remaining with
        | none => exact Or.inl ⟨rfl, rfl⟩
        | some chunk =>
            obtain ⟨paddr, cur'⟩ := chunk
            have hpos := ioSize_pos paddr hrem
            have hle := ioSize_le remaining paddr
            exact ih cur' (by omega) (by omega) (hcopy pos s t _ _ h hpos (by omega))

/-- **One loop.** -/
theorem prpLoop_inv {host : σ → HostMem} {copy : σ → Nat → Nat → Nat → σ} {R : Nat → σ → Prop} {total : Nat}
    (hcopy : ∀ k s a n, R k s → 0 < n → k + n ≤ total → R (k + n) (copy s a k n))
    {fuel remaining pos : Nat} {cur : PrpCursor} {s s' : σ} (hfuel : remaining ≤ fuel)
    (htotal : pos + remaining = total) (h : R pos s) (hs : prpLoop p host copy fuel cur remaining pos s = some s') :
    R total s' := by
  rcases prpLoop_sim (p := p) (f := host) (g := host) (c := copy) (d := copy)
    (R := fun k s t => s = t ∧ R k s) (fun _ _ _ h => by rw [h.1])
    (fun k s t a n h hn hk => ⟨by rw [h.1], hcopy k s a n h.2 hn hk⟩) cur hfuel htotal
    ⟨rfl, h⟩ with ⟨hnone, _⟩ | ⟨s1, _, h1, _, hR⟩
  · rw [hnone] at hs
    cases hs
  · rw [h1] at hs
    cases hs
    exact hR.2

theorem prpLoop_zero {host : σ → HostMem} {copy : σ → Nat → Nat → Nat → σ} (fuel : Nat) (cur : PrpCursor) (pos : Nat)
    (s : σ) : prpLoop p host copy fuel cur 0 pos s = some s := by
  cases fuel <;> rfl

/-- **No `NULL` access** when PRP2 is a page, or nothing is left after PRP1. -/
theorem prpLoop_ne_none {host : σ → HostMem} {copy : σ → Nat → Nat → Nat → σ} (hp : p.prp2.toNat % pageSize = 0)
    {fuel remaining pos : Nat} {cur : PrpCursor} {s : σ}
    (hcur : cur.prpOffs ≤ 1 ∨ cur.paddrList.isSome = true ∨ remaining = 0) :
    prpLoop p host copy fuel cur remaining pos s ≠ none := by
  induction fuel generalizing cur remaining pos s with
  | zero => simp [prpLoop]
  | succ fuel ih =>
      rw [prpLoop]
      by_cases hrem : remaining = 0
      · simp [hrem]
      · rw [if_neg hrem]
        obtain ⟨offs, offs2, list⟩ := cur
        match offs with
        | 0 =>
            simp only [PrpCursor.next]
            exact ih (Or.inl (Nat.le_refl 1))
        | 1 =>
            by_cases hle : remaining > pageSize
            · simp only [PrpCursor.next, if_pos hle]
              exact ih (Or.inr (Or.inl rfl))
            · -- the second chunk is the last one
              simp only [PrpCursor.next, if_neg hle]
              rw [ioSize_aligned hp (by omega), Nat.sub_self]
              exact ih (Or.inr (Or.inr rfl))
        | k + 2 =>
            have hlist : list.isSome = true := by
              rcases hcur with h | h | h
              · exact absurd h (by simp)
              · exact h
              · exact absurd h hrem
            obtain ⟨l, rfl⟩ := Option.isSome_iff_exists.mp hlist
            simp only [PrpCursor.next, Option.map_some]
            exact ih (Or.inr (Or.inl rfl))

end Loop

/-! ## What the loop is for -/

/-- `n` bytes of a memory from an address on. -/
def bytesAt (mem : Nat → UInt8) (a n : Nat) : List UInt8 := (List.range n).map fun i => mem (a + i)

@[simp] theorem length_bytesAt (mem : Nat → UInt8) (a n : Nat) : (bytesAt mem a n).length = n := by
  simp [bytesAt]

theorem bytesAt_add (mem : Nat → UInt8) (a m n : Nat) :
    bytesAt mem a (m + n) = bytesAt mem a m ++ bytesAt mem (a + m) n := by
  simp [bytesAt, List.range_add, Nat.add_assoc]

theorem bytesAt_congr {mem mem' : Nat → UInt8} {a b n : Nat} (h : ∀ i, i < n → mem (a + i) = mem' (b + i)) :
    bytesAt mem a n = bytesAt mem' b n := by
  apply List.map_congr_left
  intro i hi
  exact h i (List.mem_range.mp hi)

theorem bytesAt_getD (bytes : List UInt8) : bytesAt (fun i => bytes.getD i 0) 0 bytes.length = bytes := by
  apply List.ext_getElem
  · exact length_bytesAt _ _ _
  · intro i h₁ h₂
    simp [bytesAt, h₂]

theorem bytesAt_eq_iff {mem mem' : Nat → UInt8} {a b n : Nat} :
    bytesAt mem a n = bytesAt mem' b n ↔ ∀ i, i < n → mem (a + i) = mem' (b + i) := by
  simp [bytesAt]

theorem bytesAt_memcpy (dst src : Nat → UInt8) (a b n : Nat) :
    bytesAt (memcpy dst a src b n) a n = bytesAt src b n := by
  apply bytesAt_congr
  intro i hi
  simp [memcpy, hi]

theorem memcpy_of_mem {dst src : Nat → UInt8} {a b n x : Nat} (h : a ≤ x ∧ x < a + n) :
    memcpy dst a src b n x = src (b + (x - a)) := if_pos h

/-- A `memcpy` of other bytes. -/
theorem memcpy_of_not {dst src : Nat → UInt8} {a b n x : Nat} (h : ¬ (a ≤ x ∧ x < a + n)) :
    memcpy dst a src b n x = dst x := if_neg h

/-- **The bytes a command designates** in host memory, in order. -/
def gather (p : PrpPair) (length : Nat) (host : HostMem) : Option (List UInt8) :=
  prpLoop p (fun _ => host) (fun acc a _ n => acc ++ bytesAt host a n) length .start length 0 []

/-- **Bytes put where a command designates**, in order. -/
def scatter (p : PrpPair) (bytes : List UInt8) (host : HostMem) : Option HostMem :=
  prpLoop p id (fun h a pos n => memcpy h a (fun i => bytes.getD i 0) pos n) bytes.length .start bytes.length 0 host

variable {p : PrpPair} {offset length : Nat} {m m' : IoMem}

/-- A buffer within the page of PRP1. -/
theorem gather_page {host : HostMem} (hpage : p.prp1.toNat % pageSize = 0) (hle : length ≤ pageSize) :
    gather p length host = some (bytesAt host p.prp1.toNat length) := by
  have haddr : p.dataAddr p.prp1.toNat = p.prp1.toNat := by
    rw [PrpPair.dataAddr, hpage, Nat.add_zero, ite_self]
  unfold gather
  cases length with
  | zero => rfl
  | succ n =>
      simp only [prpLoop, PrpCursor.start, PrpCursor.next, if_neg (Nat.succ_ne_zero n), haddr,
        ioSize_aligned hpage hle, Nat.sub_self, prpLoop_zero, List.nil_append]

/-- **Host to storage.** The designated bytes stand at the offset, and nothing else changes. -/
structure Wrote (offset : Nat) (bytes : List UInt8) (m m' : IoMem) : Prop where
  host_eq : m'.host = m.host
  bytes_eq : bytesAt m'.storage offset bytes.length = bytes
  frame : ∀ x, ¬ (offset ≤ x ∧ x < offset + bytes.length) → m'.storage x = m.storage x

theorem Wrote.chunk {acc : List UInt8} (h : Wrote offset acc m m') (a n : Nat) :
    Wrote offset (acc ++ bytesAt m.host a n) m (IoDir.toStorage.copy offset m' a acc.length n) where
  host_eq := h.host_eq
  bytes_eq := by
    simp only [IoDir.copy, List.length_append, length_bytesAt, bytesAt_add, bytesAt_memcpy, h.host_eq]
    congr 1
    -- the bytes moved before are in front of the chunk
    rw [← h.bytes_eq]
    simp only [length_bytesAt]
    apply bytesAt_congr
    intro i hi
    exact memcpy_of_not (by omega)
  frame := by
    intro x hx
    simp only [List.length_append, length_bytesAt] at hx
    simp only [IoDir.copy]
    rw [memcpy_of_not (by omega)]
    exact h.frame x (by omega)

theorem transfer_toStorage (p : PrpPair) (offset length : Nat) (m : IoMem) :
    (gather p length m.host = none ∧ transfer p .toStorage offset length m = none) ∨
    ∃ bytes m', gather p length m.host = some bytes ∧ transfer p .toStorage offset length m = some m' ∧
      bytes.length = length ∧ Wrote offset bytes m m' := by
  have hsim := prpLoop_sim (p := p) (f := fun _ => m.host) (g := IoMem.host)
    (c := fun acc a _ n => acc ++ bytesAt m.host a n) (d := IoDir.toStorage.copy offset)
    (R := fun k acc m' => acc.length = k ∧ Wrote offset acc m m')
    (fun k acc m' h => h.2.host_eq.symm)
    (fun k acc m' a n h _ _ => ⟨by simp [h.1], by rw [← h.1]; exact h.2.chunk a n⟩)
    .start (Nat.le_refl length) (Nat.zero_add length) (s := []) (t := m)
    ⟨rfl, { host_eq := rfl, bytes_eq := by simp [bytesAt], frame := fun _ _ => rfl }⟩
  rcases hsim with h | ⟨acc, m', h1, h2, hlen, hw⟩
  · exact Or.inl h
  · exact Or.inr ⟨acc, m', h1, h2, hlen, hw⟩

/-- **Storage to host.** The bytes at the offset go where the command designates. -/
theorem transfer_toHost (p : PrpPair) (offset length : Nat) (m : IoMem) :
    transfer p .toHost offset length m =
      (scatter p (bytesAt m.storage offset length) m.host).map fun host => { m with host := host } := by
  have hsim := prpLoop_sim (p := p) (f := IoMem.host) (g := id) (c := IoDir.toHost.copy offset)
    (d := fun h a pos n => memcpy h a (fun i => (bytesAt m.storage offset length).getD i 0) pos n)
    (R := fun _ m' h => m' = { m with host := h })
    (fun _ m' h heq => by rw [heq]; rfl)
    (fun k m' h a n heq _ hk => by
      subst heq
      simp only [IoDir.copy, IoMem.mk.injEq, and_true]
      funext x
      unfold memcpy
      split
      · next hx =>
          -- a byte of the chunk, within the transfer
          have hlt : k + (x - a) < length := by omega
          simp [bytesAt, List.getD, hlt, Nat.add_assoc]
      · rfl)
    .start (Nat.le_refl length) (Nat.zero_add length) (s := m) (t := m.host) rfl
  unfold transfer scatter
  rw [length_bytesAt]
  rcases hsim with ⟨h1, h2⟩ | ⟨m', h, h1, h2, heq⟩
  · rw [h1, h2]
    rfl
  · rw [h1, h2, heq]
    rfl

/-- Other opcodes walk the PRPs and move nothing. -/
theorem transfer_none (h : transfer p .none offset length m = some m') : m' = m :=
  prpLoop_inv (R := fun _ s => s = m) (fun _ _ _ _ h _ _ => h) (Nat.le_refl length) (Nat.zero_add length) rfl h

end NvmeVirt
