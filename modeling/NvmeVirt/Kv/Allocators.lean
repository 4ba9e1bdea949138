import Mathlib.Algebra.BigOperators.Group.List.Basic
import NvmeVirt.Kv.Batch
import NvmeVirt.Lib.Outcome
import NvmeVirt.Ssd.Params

/-!
# `Kv.Allocators` — the allocators of the key-value namespace (`bitmap.c`, `append_only.c`)

A store of a new key asks an allocator for an offset. The append-only allocator counts up; the bitmap allocator keeps
one bitmap for values up to `SMALL_LENGTH`, in the lower half of the device, and one for longer values, in the upper
half. Neither looks at the end of the device: the search of a full bitmap returns the bit after the next one, which is
taken for a place, and the counter is compared with the device size only to print a message.

* `SizeClass.take_spec` — the `k`-th search of a bitmap finds bit `k`, and behind the last bit always the same one.
* `bitmap_placed` — so the offsets of a run are known (`placed`), unless it leaves one of the arrays.
* `kv_allocators_iff` — for which requests the extents lie on the device and apart from each other.
-/

namespace NvmeVirt

open Outcome

/-! ## The source -/

/-- `LARGE_LENGTH` -/
def largeLength : Nat := 4096

/-- The bits of `small_bitmap`. -/
def smallBitmapBits : Nat := 600000 * 64

/-- The bits of `large_bitmap`. -/
def largeBitmapBits : Nat := 300000 * 64

/-- An access outside a bitmap's array. -/
inductive AllocatorFault where
  | outOfArray
deriving DecidableEq, Repr

/-- Linux's `find_next_zero_bit` from bit `i` on, where `left` bits are left to look at. -/
def findNextZeroBit (arrayBits : Nat) (map : Nat → Bool) (size : Nat) : Nat → Nat → Except AllocatorFault Nat
  | 0, _ => .ok size
  | left + 1, i =>
      if arrayBits ≤ i then .error .outOfArray
      else if map i then findNextZeroBit arrayBits map size left (i + 1)
      else .ok i

/-- Linux's `bitmap_find_next_zero_area` for an area of one bit without alignment. A zero bit is such an area, so the
    search is not repeated; where there is none the end of the area is returned. -/
def bitmapFindNextZeroArea (arrayBits : Nat) (map : Nat → Bool) (size start : Nat) : Except AllocatorFault Nat := do
  let index ← findNextZeroBit arrayBits map size (size - start) start
  return if index + 1 > size then index + 1 else index

/-- Linux's `bitmap_set` of one bit; its `start` is an `unsigned int`. -/
def bitmapSet (arrayBits : Nat) (map : Nat → Bool) (start : Nat) : Except AllocatorFault (Nat → Bool) :=
  if arrayBits ≤ u32 start then .error .outOfArray else .ok (Function.update map (u32 start) true)

/-- Linux's `bitmap_zero`, by whole words; its `nbits` is an `unsigned int`. -/
def bitmapZero (arrayBits : Nat) (map : Nat → Bool) (nbits : Nat) : Except AllocatorFault (Nat → Bool) :=
  if arrayBits < u32 nbits then .error .outOfArray
  else .ok fun i => if i < (u32 nbits + 63) / 64 * 64 then false else map i

/-- A bitmap with its size and its cursor: `small_nbits`, `small_bitmap` and `small_last_pos`, or those of the large
    values. -/
structure SizeClass where
  arrayBits : Nat
  nbits : Nat
  bitmap : Nat → Bool
  lastPos : Nat

/-- The two branches of `bitmap_allocate` find a bit alike. -/
def SizeClass.take (c : SizeClass) : Except AllocatorFault (Nat × SizeClass) := do
  let off ← bitmapFindNextZeroArea c.arrayBits c.bitmap c.nbits c.lastPos
  let bitmap ← bitmapSet c.arrayBits c.bitmap off
  return (off, { c with bitmap := bitmap, lastPos := if off + 1 > c.nbits then 0 else off + 1 })

/-- The variables of `bitmap.c`. -/
structure BitmapAllocator where
  devSize : UInt64
  small : SizeClass
  large : SizeClass

/-- `small_nbits` -/
def smallNbits (size : UInt64) : Nat := size.toNat / 2 / smallLength

/-- `large_nbits` -/
def largeNbits (size : UInt64) : Nat := size.toNat / 2 / largeLength

/-- `bitmap_allocator_init`; the arrays are zero when the module is loaded. -/
def bitmapAllocatorInit (size : UInt64) : Except AllocatorFault BitmapAllocator := do
  let small ← bitmapZero smallBitmapBits (fun _ => false) (smallNbits size)
  let large ← bitmapZero largeBitmapBits (fun _ => false) (largeNbits size)
  return ⟨size, ⟨smallBitmapBits, smallNbits size, small, 0⟩, ⟨largeBitmapBits, largeNbits size, large, 0⟩⟩

/-- `bitmap_allocate`; a length above `LARGE_LENGTH` is only logged. -/
def bitmapAllocate (a : BitmapAllocator) (length : Nat) : Except AllocatorFault (Nat × BitmapAllocator) :=
  if length > smallLength then do
    let (off, large) ← a.large.take
    return (u64 (a.devSize.toNat / 2 + off * largeLength), { a with large := large })
  else do
    let (off, small) ← a.small.take
    return (u64 (off * smallLength), { a with small := small })

/-- `struct allocator_ops` -/
structure AllocatorOps (σ : Type) where
  init : UInt64 → Except AllocatorFault σ
  allocate : σ → Nat → Except AllocatorFault (Nat × σ)

/-- `bitmap_ops` -/
def bitmapOps : AllocatorOps BitmapAllocator := ⟨bitmapAllocatorInit, bitmapAllocate⟩

/-- `append_only_ops`, with `latest` as the state. -/
def appendOnlyOps : AllocatorOps Nat := ⟨fun _ => .ok 0, fun latest length => .ok (latest, u64 (latest + length))⟩

/-- The allocator of the namespace. -/
theorem appendOnlyOps_allocate (s : KvNs) (length : Nat) : appendOnlyOps.allocate s.latest length =
    .ok ((appendOnlyAllocate s length).1, (appendOnlyAllocate s length).2.latest) := rfl

/-- What `allocate_mem_offset` and `allocate_mem_offset_by_length` make of what the allocator returned. -/
def memOffset (returned : Nat) : Nat := if returned = noOffset then 0 else returned

theorem allocateMemOffset_fst (s : KvNs) (cmd : KvCommand) :
    (allocateMemOffset s cmd).1 = memOffset (appendOnlyAllocate s cmd.valueLength).1 := rfl

theorem allocateMemOffsetByLength_fst (s : KvNs) (valLen : Nat) :
    (allocateMemOffsetByLength s valLen).1 = memOffset (appendOnlyAllocate s valLen).1 := rfl

/-! ## What is asked of an allocator -/

/-- What an allocator returned, with the length it was asked for. -/
structure Extent where
  offset : Nat
  length : Nat
deriving DecidableEq, Repr

namespace Extent

def Inside (e : Extent) (size : UInt64) : Prop := e.offset + e.length ≤ size.toNat

def Apart (e f : Extent) : Prop := e.offset + e.length ≤ f.offset ∨ f.offset + f.length ≤ e.offset

/-- The allocator has failed, and its caller goes on with an offset at which nothing can be stored. -/
def Refused (e : Extent) (size : UInt64) : Prop := e.offset = noOffset ∧ size.toNat ≤ memOffset e.offset

end Extent

/-- **Extents that may be handed out**, newest first. -/
def Allotted (size : UInt64) : List Extent → Prop
  | [] => True
  | e :: before => Allotted size before ∧ ((e.Inside size ∧ ∀ f ∈ before, e.Apart f) ∨ e.Refused size)

/-- The allocator on a device of this size under requests of these lengths; requests and extents newest first. -/
def AllocatorOps.run {σ : Type} (ops : AllocatorOps σ) (size : UInt64) : List Nat → Except AllocatorFault (List Extent × σ)
  | [] => do return ([], ← ops.init size)
  | length :: before => do
      let (extents, s) ← ops.run size before
      let (offset, s) ← ops.allocate s length
      return (⟨offset, length⟩ :: extents, s)

/-- **The allocator does its work**: it stays inside its arrays, and hands out extents on the device that are apart. -/
def AllocatorOps.Serves {σ : Type} (ops : AllocatorOps σ) (size : UInt64) (lengths : List Nat) : Prop :=
  ∃ extents s, ops.run size lengths = .ok (extents, s) ∧ Allotted size extents

/-! ## A bitmap -/

/-- The bit that the search after `k` others finds. -/
def bitFor (nbits k : Nat) : Nat := if k < nbits then k else nbits + 1

/-- A bitmap after `k` searches. -/
structure SizeClass.Taken (c : SizeClass) (k : Nat) : Prop where
  bits : ∀ i, i < c.nbits → (c.bitmap i = true ↔ i < k)
  lastPos_eq : c.lastPos = if k ≤ c.nbits then k else 0
  inArray : min k c.nbits ≤ c.arrayBits
  small : c.arrayBits + 1 < 2 ^ 32

/-- Whether the next search stays inside the array. -/
def BitFits (arrayBits nbits k : Nat) : Prop := if k < nbits then k < arrayBits else nbits + 1 < arrayBits

theorem findNextZeroBit_full {A : Nat} {map : Nat → Bool} {size : Nat} (hsize : size ≤ A)
    (hfull : ∀ i < size, map i = true) (left : Nat) {i : Nat} (hi : i + left = size) :
    findNextZeroBit A map size left i = .ok size := by
  induction left generalizing i with
  | zero => rfl
  | succ left ih =>
      unfold findNextZeroBit
      rw [if_neg (by omega), if_pos (hfull i (by omega))]
      exact ih (by omega)

theorem bitmapFindNextZeroArea_zero {A : Nat} {map : Nat → Bool} {size start : Nat} (hlt : start < size)
    (hA : start < A) (hzero : map start = false) : bitmapFindNextZeroArea A map size start = .ok start := by
  obtain ⟨left, hleft⟩ : ∃ left, size - start = left + 1 := ⟨size - start - 1, by omega⟩
  unfold bitmapFindNextZeroArea
  rw [hleft, findNextZeroBit, if_neg (by omega), if_neg (by simp [hzero]), ok_bind, if_neg (by omega)]
  rfl

theorem bitmapFindNextZeroArea_full {A : Nat} {map : Nat → Bool} {size start : Nat} (hsize : size ≤ A)
    (hstart : start ≤ size) (hfull : ∀ i < size, map i = true) :
    bitmapFindNextZeroArea A map size start = .ok (size + 1) := by
  unfold bitmapFindNextZeroArea
  rw [findNextZeroBit_full hsize hfull _ (by omega), ok_bind, if_pos (by omega)]
  rfl

theorem bitmapFindNextZeroArea_outside {A : Nat} {map : Nat → Bool} {size start : Nat} (hlt : start < size)
    (hA : A ≤ start) : bitmapFindNextZeroArea A map size start = .error .outOfArray := by
  obtain ⟨left, hleft⟩ : ∃ left, size - start = left + 1 := ⟨size - start - 1, by omega⟩
  unfold bitmapFindNextZeroArea
  rw [hleft, findNextZeroBit, if_pos hA]
  rfl

/-- **One search.** -/
theorem SizeClass.take_spec {c : SizeClass} {k : Nat} (h : c.Taken k) :
    (BitFits c.arrayBits c.nbits k → ∃ c', c.take = .ok (bitFor c.nbits k, c') ∧ c'.Taken (k + 1) ∧
      c'.arrayBits = c.arrayBits ∧ c'.nbits = c.nbits) ∧
    (¬ BitFits c.arrayBits c.nbits k → c.take = .error .outOfArray) := by
  have hsmall := h.small
  have hin := h.inArray
  unfold SizeClass.take BitFits bitFor
  by_cases hk : k < c.nbits
  · -- the cursor is at bit `k`, which is zero
    have hpos : c.lastPos = k := by rw [h.lastPos_eq, if_pos (Nat.le_of_lt hk)]
    simp only [if_pos hk, hpos]
    refine ⟨fun hfits => ?_, fun hfits => ?_⟩
    · have hzero : c.bitmap k = false := by
        rw [← Bool.not_eq_true, h.bits k hk]
        exact Nat.lt_irrefl k
      have hu32 : u32 k = k := u32_of_lt (by omega)
      rw [bitmapFindNextZeroArea_zero hk hfits hzero, ok_bind, bitmapSet, hu32, if_neg (by omega), ok_bind]
      refine ⟨_, rfl, ⟨fun i hi => ?_, ?_, ?_, hsmall⟩, rfl, rfl⟩
      · dsimp only at hi ⊢
        by_cases hik : i = k
        · subst hik
          simp
        · rw [Function.update_of_ne hik, h.bits i hi]
          omega
      · dsimp only
        rw [if_neg (by omega), if_pos (by omega)]
      · dsimp only
        omega
    · rw [bitmapFindNextZeroArea_outside hk (Nat.not_lt.mp hfits)]
      rfl
  · -- every bit is set
    have hfull : ∀ i < c.nbits, c.bitmap i = true := fun i hi => (h.bits i hi).mpr (by omega)
    have hstart : c.lastPos ≤ c.nbits := by
      rw [h.lastPos_eq]
      split <;> omega
    have hu32 : u32 (c.nbits + 1) = c.nbits + 1 := u32_of_lt (by omega)
    rw [bitmapFindNextZeroArea_full (by omega) hstart hfull, ok_bind, bitmapSet, hu32]
    simp only [if_neg hk]
    refine ⟨fun hfits => ?_, fun hfits => ?_⟩
    · rw [if_neg (by omega), ok_bind]
      refine ⟨_, rfl, ⟨fun i hi => ?_, ?_, ?_, hsmall⟩, rfl, rfl⟩
      · dsimp only at hi ⊢
        rw [Function.update_of_ne (by omega), h.bits i hi]
        omega
      · dsimp only
        rw [if_pos (by omega), if_neg (by omega)]
      · dsimp only
        omega
    · rw [if_pos (by omega)]
      rfl

/-! ## The bitmap allocator -/

/-- The requests that go to the small bitmap. -/
def smallCount (lengths : List Nat) : Nat := lengths.countP fun length => length ≤ smallLength

/-- The requests that go to the large bitmap. -/
def largeCount (lengths : List Nat) : Nat := lengths.countP fun length => smallLength < length

section Counts

variable {length : Nat} {before : List Nat}

theorem smallCount_small (h : length ≤ smallLength) : smallCount (length :: before) = smallCount before + 1 :=
  List.countP_cons_of_pos (by simpa using h)

theorem smallCount_large (h : smallLength < length) : smallCount (length :: before) = smallCount before :=
  List.countP_cons_of_neg (by simpa using h)

theorem largeCount_large (h : smallLength < length) : largeCount (length :: before) = largeCount before + 1 :=
  List.countP_cons_of_pos (by simpa using h)

theorem largeCount_small (h : length ≤ smallLength) : largeCount (length :: before) = largeCount before :=
  List.countP_cons_of_neg (by simpa using h)

end Counts

/-- Where the small extent after `k` others lies. -/
def smallOffset (size : UInt64) (k : Nat) : Nat := bitFor (smallNbits size) k * smallLength

/-- Where the large extent after `k` others lies. -/
def largeOffset (size : UInt64) (k : Nat) : Nat := size.toNat / 2 + bitFor (largeNbits size) k * largeLength

/-- **The extents of a run**, newest first. -/
def placed (size : UInt64) : List Nat → List Extent
  | [] => []
  | length :: before =>
      ⟨if length > smallLength then largeOffset size (largeCount before) else smallOffset size (smallCount before),
        length⟩ :: placed size before

/-- No access of the run is outside an array. -/
structure InArrays (size : UInt64) (lengths : List Nat) : Prop where
  small_zeroed : u32 (smallNbits size) ≤ smallBitmapBits
  large_zeroed : u32 (largeNbits size) ≤ largeBitmapBits
  small_fits : ∀ k < smallCount lengths, BitFits smallBitmapBits (smallNbits size) k
  large_fits : ∀ k < largeCount lengths, BitFits largeBitmapBits (largeNbits size) k

variable {size : UInt64}

theorem smallOffset_lt (size : UInt64) (k : Nat) : smallOffset size k < 2 ^ 64 := by
  have hsize : size.toNat < 2 ^ 64 := size.toNat_lt
  unfold smallOffset bitFor smallNbits smallLength
  split <;> omega

theorem largeOffset_lt (size : UInt64) (k : Nat) : largeOffset size k < 2 ^ 64 := by
  have hsize : size.toNat < 2 ^ 64 := size.toNat_lt
  unfold largeOffset bitFor largeNbits largeLength
  split <;> omega

/-- The variables after requests of these lengths. -/
structure BitmapAllocator.Reached (a : BitmapAllocator) (size : UInt64) (lengths : List Nat) : Prop where
  devSize_eq : a.devSize = size
  small_array : a.small.arrayBits = smallBitmapBits
  small_nbits : a.small.nbits = smallNbits size
  small_taken : a.small.Taken (smallCount lengths)
  large_array : a.large.arrayBits = largeBitmapBits
  large_nbits : a.large.nbits = largeNbits size
  large_taken : a.large.Taken (largeCount lengths)

/-- A bitmap of which no bit has been set. -/
theorem SizeClass.taken_zero {arrayBits nbits : Nat} {bitmap : Nat → Bool} (hzero : ∀ i, bitmap i = false)
    (hsmall : arrayBits + 1 < 2 ^ 32) : (SizeClass.mk arrayBits nbits bitmap 0).Taken 0 where
  bits := by
    intro i _
    simp [hzero]
  lastPos_eq := (if_pos (Nat.zero_le _)).symm
  inArray := by
    rw [Nat.zero_min]
    exact Nat.zero_le _
  small := hsmall

theorem bitmapZero_zero {arrayBits nbits : Nat} (h : u32 nbits ≤ arrayBits) :
    bitmapZero arrayBits (fun _ => false) nbits = .ok fun _ => false := by
  unfold bitmapZero
  rw [if_neg (Nat.not_lt.mpr h)]
  simp

theorem bitmapAllocatorInit_spec (size : UInt64) :
    (InArrays size [] → ∃ a, bitmapAllocatorInit size = .ok a ∧ a.Reached size []) ∧
      (¬ InArrays size [] → bitmapAllocatorInit size = .error .outOfArray) := by
  unfold bitmapAllocatorInit
  refine ⟨fun h => ?_, fun h => ?_⟩
  · rw [bitmapZero_zero h.small_zeroed, ok_bind, bitmapZero_zero h.large_zeroed, ok_bind]
    exact ⟨_, rfl, rfl, rfl, rfl, SizeClass.taken_zero (fun _ => rfl) (by decide), rfl, rfl,
      SizeClass.taken_zero (fun _ => rfl) (by decide)⟩
  · by_cases hsmall : u32 (smallNbits size) ≤ smallBitmapBits
    · have hlarge : ¬ u32 (largeNbits size) ≤ largeBitmapBits :=
        fun hlarge => h ⟨hsmall, hlarge, by simp [smallCount], by simp [largeCount]⟩
      rw [bitmapZero_zero hsmall, ok_bind, bitmapZero, if_pos (Nat.not_le.mp hlarge)]
      rfl
    · rw [bitmapZero, if_pos (Nat.not_le.mp hsmall)]
      rfl

theorem inArrays_small {length : Nat} {before : List Nat} (h : length ≤ smallLength) :
    InArrays size (length :: before) ↔
      InArrays size before ∧ BitFits smallBitmapBits (smallNbits size) (smallCount before) := by
  constructor
  · rintro ⟨hs, hl, hsmall, hlarge⟩
    rw [smallCount_small h, Nat.forall_lt_succ_right] at hsmall
    rw [largeCount_small h] at hlarge
    exact ⟨⟨hs, hl, hsmall.1, hlarge⟩, hsmall.2⟩
  · rintro ⟨⟨hs, hl, hsmall, hlarge⟩, hfits⟩
    refine ⟨hs, hl, ?_, ?_⟩
    · rw [smallCount_small h, Nat.forall_lt_succ_right]
      exact ⟨hsmall, hfits⟩
    · rw [largeCount_small h]
      exact hlarge

theorem inArrays_large {length : Nat} {before : List Nat} (h : smallLength < length) :
    InArrays size (length :: before) ↔
      InArrays size before ∧ BitFits largeBitmapBits (largeNbits size) (largeCount before) := by
  constructor
  · rintro ⟨hs, hl, hsmall, hlarge⟩
    rw [largeCount_large h, Nat.forall_lt_succ_right] at hlarge
    rw [smallCount_large h] at hsmall
    exact ⟨⟨hs, hl, hsmall, hlarge.1⟩, hlarge.2⟩
  · rintro ⟨⟨hs, hl, hsmall, hlarge⟩, hfits⟩
    refine ⟨hs, hl, ?_, ?_⟩
    · rw [smallCount_large h]
      exact hsmall
    · rw [largeCount_large h, Nat.forall_lt_succ_right]
      exact ⟨hlarge, hfits⟩

/-- **One request.** -/
theorem bitmapAllocate_spec {a : BitmapAllocator} {before : List Nat} (h : a.Reached size before)
    (hbefore : InArrays size before) (length : Nat) :
    (InArrays size (length :: before) → ∃ a', bitmapAllocate a length =
        .ok (if length > smallLength then largeOffset size (largeCount before) else smallOffset size (smallCount before),
          a') ∧ a'.Reached size (length :: before)) ∧
      (¬ InArrays size (length :: before) → bitmapAllocate a length = .error .outOfArray) := by
  unfold bitmapAllocate
  by_cases hlen : length > smallLength
  · simp only [if_pos hlen]
    obtain ⟨hok, herr⟩ := SizeClass.take_spec h.large_taken
    rw [h.large_array, h.large_nbits] at hok herr
    rw [inArrays_large hlen]
    refine ⟨fun hin => ?_, fun hout => ?_⟩
    · obtain ⟨c, htake, htaken, harray, hnbits⟩ := hok hin.2
      rw [htake, ok_bind, h.devSize_eq]
      refine ⟨_, congrArg Except.ok (Prod.ext (u64_of_lt (largeOffset_lt size _)) rfl), ?_⟩
      exact
        { devSize_eq := rfl
          small_array := h.small_array
          small_nbits := h.small_nbits
          small_taken := by
            rw [smallCount_large hlen]
            exact h.small_taken
          large_array := harray
          large_nbits := hnbits
          large_taken := by
            rw [largeCount_large hlen]
            exact htaken }
    · rw [herr fun hfits => hout ⟨hbefore, hfits⟩]
      rfl
  · simp only [if_neg hlen]
    have hsmall := Nat.not_lt.mp hlen
    obtain ⟨hok, herr⟩ := SizeClass.take_spec h.small_taken
    rw [h.small_array, h.small_nbits] at hok herr
    rw [inArrays_small hsmall]
    refine ⟨fun hin => ?_, fun hout => ?_⟩
    · obtain ⟨c, htake, htaken, harray, hnbits⟩ := hok hin.2
      rw [htake, ok_bind]
      refine ⟨_, congrArg Except.ok (Prod.ext (u64_of_lt (smallOffset_lt size _)) rfl), ?_⟩
      exact
        { devSize_eq := h.devSize_eq
          small_array := harray
          small_nbits := hnbits
          small_taken := by
            rw [smallCount_small hsmall]
            exact htaken
          large_array := h.large_array
          large_nbits := h.large_nbits
          large_taken := by
            rw [largeCount_small hsmall]
            exact h.large_taken }
    · rw [herr fun hfits => hout ⟨hbefore, hfits⟩]
      rfl

theorem InArrays.before {length : Nat} {before : List Nat} (h : InArrays size (length :: before)) :
    InArrays size before := by
  rcases Nat.lt_or_ge smallLength length with hlarge | hsmall
  · exact ((inArrays_large hlarge).mp h).1
  · exact ((inArrays_small hsmall).mp h).1

/-- **Any requests**: the extents are the placed ones, or an access is outside an array. -/
theorem bitmap_placed (size : UInt64) (lengths : List Nat) :
    (InArrays size lengths → ∃ a, bitmapOps.run size lengths = .ok (placed size lengths, a) ∧
        a.Reached size lengths) ∧
      (¬ InArrays size lengths → bitmapOps.run size lengths = .error .outOfArray) := by
  induction lengths with
  | nil =>
      obtain ⟨hok, herr⟩ := bitmapAllocatorInit_spec size
      refine ⟨fun h => ?_, fun h => ?_⟩
      · obtain ⟨a, hinit, hreached⟩ := hok h
        refine ⟨a, ?_, hreached⟩
        rw [AllocatorOps.run, show bitmapOps.init size = .ok a from hinit]
        rfl
      · rw [AllocatorOps.run, show bitmapOps.init size = .error .outOfArray from herr h]
        rfl
  | cons length before ih =>
      by_cases hbefore : InArrays size before
      · obtain ⟨a, hrun, hreached⟩ := ih.1 hbefore
        obtain ⟨hok, herr⟩ := bitmapAllocate_spec hreached hbefore length
        rw [AllocatorOps.run, hrun, ok_bind]
        dsimp only [bitmapOps]
        refine ⟨fun h => ?_, fun h => ?_⟩
        · obtain ⟨a', halloc, hreached'⟩ := hok h
          exact ⟨a', by rw [halloc]; rfl, hreached'⟩
        · rw [herr h]
          rfl
      · refine ⟨fun h => absurd h.before hbefore, fun _ => ?_⟩
        rw [AllocatorOps.run, ih.2 hbefore]
        rfl

/-! ## Which extents are apart -/

theorem smallNbits_bounds (size : UInt64) :
    smallNbits size * 1024 ≤ size.toNat / 2 ∧ size.toNat / 2 < (smallNbits size + 1) * 1024 := by
  unfold smallNbits smallLength
  omega

theorem largeNbits_bounds (size : UInt64) :
    largeNbits size * 4096 ≤ size.toNat / 2 ∧ size.toNat / 2 < (largeNbits size + 1) * 4096 := by
  unfold largeNbits largeLength
  omega

theorem smallOffset_of_lt {k : Nat} (h : k < smallNbits size) : smallOffset size k = k * 1024 := by
  rw [smallOffset, bitFor, if_pos h, smallLength]

theorem smallOffset_of_ge {k : Nat} (h : smallNbits size ≤ k) : smallOffset size k = (smallNbits size + 1) * 1024 := by
  rw [smallOffset, bitFor, if_neg (Nat.not_lt.mpr h), smallLength]

theorem largeOffset_of_lt {k : Nat} (h : k < largeNbits size) : largeOffset size k = size.toNat / 2 + k * 4096 := by
  rw [largeOffset, bitFor, if_pos h, largeLength]

theorem largeOffset_of_ge {k : Nat} (h : largeNbits size ≤ k) :
    largeOffset size k = size.toNat / 2 + (largeNbits size + 1) * 4096 := by
  rw [largeOffset, bitFor, if_neg (Nat.not_lt.mpr h), largeLength]

theorem mem_placed {lengths : List Nat} {f : Extent} (h : f ∈ placed size lengths) :
    (f.length ≤ 1024 ∧ ∃ k < smallCount lengths, f.offset = smallOffset size k) ∨
      (1024 < f.length ∧ ∃ k < largeCount lengths, f.offset = largeOffset size k) := by
  induction lengths with
  | nil => cases h
  | cons length before ih =>
      rcases List.mem_cons.mp h with rfl | hbefore
      · by_cases hlen : length > smallLength
        · exact Or.inr ⟨hlen, _, by rw [largeCount_large hlen]; exact Nat.lt_succ_self _, if_pos hlen⟩
        · have hsmall := Nat.not_lt.mp hlen
          exact Or.inl ⟨hsmall, _, by rw [smallCount_small hsmall]; exact Nat.lt_succ_self _, if_neg hlen⟩
      · have hs : smallCount before ≤ smallCount (length :: before) := (List.sublist_cons_self ..).countP_le
        have hl : largeCount before ≤ largeCount (length :: before) := (List.sublist_cons_self ..).countP_le
        rcases ih hbefore with ⟨hlen, k, hk, hoff⟩ | ⟨hlen, k, hk, hoff⟩
        · exact Or.inl ⟨hlen, k, hk.trans_le hs, hoff⟩
        · exact Or.inr ⟨hlen, k, hk.trans_le hl, hoff⟩

theorem placed_map_length (size : UInt64) (lengths : List Nat) : (placed size lengths).map Extent.length = lengths := by
  induction lengths with
  | nil => rfl
  | cons length before ih => rw [placed, List.map_cons, ih]

theorem length_mem_of_placed {lengths : List Nat} {f : Extent} (h : f ∈ placed size lengths) : f.length ∈ lengths := by
  rw [← placed_map_length size lengths]
  exact List.mem_map_of_mem h

theorem exists_placed_small (size : UInt64) {lengths : List Nat} {k : Nat} (hk : k < smallCount lengths) :
    ∃ f ∈ placed size lengths, f.length ≤ 1024 ∧ f.offset = smallOffset size k := by
  induction lengths with
  | nil => cases hk
  | cons length before ih =>
      have hlater : k < smallCount before → ∃ f ∈ placed size (length :: before),
          f.length ≤ 1024 ∧ f.offset = smallOffset size k := by
        intro hk
        obtain ⟨f, hf, hsmall, hoff⟩ := ih hk
        exact ⟨f, List.mem_cons_of_mem _ hf, hsmall, hoff⟩
      by_cases hlen : length > smallLength
      · rw [smallCount_large hlen] at hk
        exact hlater hk
      · have hsmall := Nat.not_lt.mp hlen
        rw [smallCount_small hsmall] at hk
        rcases Nat.lt_succ_iff_lt_or_eq.mp hk with hlt | rfl
        · exact hlater hlt
        · exact ⟨_, List.mem_cons_self, hsmall, if_neg hlen⟩

theorem exists_placed_large (size : UInt64) {lengths : List Nat} {k : Nat} (hk : k < largeCount lengths) :
    ∃ f ∈ placed size lengths, 1024 < f.length ∧ f.offset = largeOffset size k := by
  induction lengths with
  | nil => cases hk
  | cons length before ih =>
      have hlater : k < largeCount before → ∃ f ∈ placed size (length :: before),
          1024 < f.length ∧ f.offset = largeOffset size k := by
        intro hk
        obtain ⟨f, hf, hlarge, hoff⟩ := ih hk
        exact ⟨f, List.mem_cons_of_mem _ hf, hlarge, hoff⟩
      by_cases hlen : length > smallLength
      · rw [largeCount_large hlen] at hk
        rcases Nat.lt_succ_iff_lt_or_eq.mp hk with hlt | rfl
        · exact hlater hlt
        · exact ⟨_, List.mem_cons_self, hlen, if_pos hlen⟩
      · rw [largeCount_small (Nat.not_lt.mp hlen)] at hk
        exact hlater hk

/-- **Room for the requests**: no large request without a bit, and no small one but the newest, which then lies behind
    the lower half, where no large value may be. -/
def BitsLeft (size : UInt64) (lengths : List Nat) : Prop :=
  largeCount lengths ≤ largeNbits size ∧
    (smallCount lengths ≤ smallNbits size ∨
      (largeCount lengths = 0 ∧ smallCount lengths = smallNbits size + 1 ∧
        ∀ newest ∈ lengths.head?, (smallNbits size + 1) * 1024 + newest ≤ size.toNat))

theorem bitsLeft_large {length : Nat} {before : List Nat} (h : smallLength < length) :
    BitsLeft size (length :: before) ↔
      largeCount before < largeNbits size ∧ smallCount before ≤ smallNbits size := by
  unfold BitsLeft
  rw [largeCount_large h, smallCount_large h]
  omega

theorem bitsLeft_small {length : Nat} {before : List Nat} (h : length ≤ smallLength) :
    BitsLeft size (length :: before) ↔ largeCount before ≤ largeNbits size ∧
      (smallCount before < smallNbits size ∨
        (largeCount before = 0 ∧ smallCount before = smallNbits size ∧
          (smallNbits size + 1) * 1024 + length ≤ size.toNat)) := by
  unfold BitsLeft
  rw [largeCount_small h, smallCount_small h, List.head?_cons]
  simp only [Option.mem_some_iff, forall_eq', Nat.add_right_cancel_iff, Nat.succ_le_iff]

theorem bitsLeft_bounds {lengths : List Nat} (h : BitsLeft size lengths) :
    largeCount lengths ≤ largeNbits size ∧ (smallCount lengths ≤ smallNbits size ∨
      (largeCount lengths = 0 ∧ smallCount lengths = smallNbits size + 1)) :=
  ⟨h.1, h.2.imp_right fun hspill => ⟨hspill.1, hspill.2.1⟩⟩

theorem bitsLeft_of_le {lengths : List Nat} (hlarge : largeCount lengths ≤ largeNbits size)
    (hsmall : smallCount lengths ≤ smallNbits size) : BitsLeft size lengths := ⟨hlarge, Or.inl hsmall⟩

section Request

variable {length : Nat} {before : List Nat} (hbefore : ∀ l ∈ before, 1 ≤ l ∧ l ≤ largeLength) (hroom : BitsLeft size before)

include hbefore hroom

/-- **A large request** after others that have room. -/
theorem largeExtent_iff (hlarge : 1024 < length) (hlen : length ≤ 4096) :
    ((⟨largeOffset size (largeCount before), length⟩ : Extent).Inside size ∧
        ∀ f ∈ placed size before, (⟨largeOffset size (largeCount before), length⟩ : Extent).Apart f) ↔
      largeCount before < largeNbits size ∧ smallCount before ≤ smallNbits size := by
  obtain ⟨hcount, hsmall⟩ := bitsLeft_bounds hroom
  obtain ⟨hn, hn'⟩ := smallNbits_bounds size
  obtain ⟨hm, hm'⟩ := largeNbits_bounds size
  unfold Extent.Inside Extent.Apart
  dsimp only
  constructor
  · rintro ⟨hin, hapart⟩
    have hlt : largeCount before < largeNbits size := by
      by_contra hge
      rw [largeOffset_of_ge (Nat.not_lt.mp hge)] at hin
      omega
    refine ⟨hlt, hsmall.resolve_right ?_⟩
    -- a small extent behind the lower half lies in the first large one
    rintro ⟨hzero, hspill⟩
    obtain ⟨f, hf, -, hoff⟩ := exists_placed_small size (hspill.symm ▸ Nat.lt_add_one (smallNbits size))
    have hpos := (hbefore _ (length_mem_of_placed hf)).1
    have happ := hapart f hf
    rw [smallOffset_of_ge (Nat.le_refl _)] at hoff
    rw [hzero, largeOffset_of_lt (hzero ▸ hlt)] at happ
    omega
  · rintro ⟨hlt, hle⟩
    rw [largeOffset_of_lt hlt]
    refine ⟨by omega, fun f hf => ?_⟩
    have hlong : f.length ≤ 4096 := (hbefore _ (length_mem_of_placed hf)).2
    rcases mem_placed hf with ⟨hshort, k, hk, hoff⟩ | ⟨-, k, hk, hoff⟩
    · rw [smallOffset_of_lt (hk.trans_le hle)] at hoff
      omega
    · rw [largeOffset_of_lt (hk.trans hlt)] at hoff
      omega

/-- **A small request** after others that have room. -/
theorem smallExtent_iff (hpos : 1 ≤ length) (hlen : length ≤ 1024) :
    ((⟨smallOffset size (smallCount before), length⟩ : Extent).Inside size ∧
        ∀ f ∈ placed size before, (⟨smallOffset size (smallCount before), length⟩ : Extent).Apart f) ↔
      smallCount before < smallNbits size ∨
        (largeCount before = 0 ∧ smallCount before = smallNbits size ∧
          (smallNbits size + 1) * 1024 + length ≤ size.toNat) := by
  obtain ⟨hcount, hsmall⟩ := bitsLeft_bounds hroom
  obtain ⟨hn, hn'⟩ := smallNbits_bounds size
  unfold Extent.Inside Extent.Apart
  dsimp only
  constructor
  · rintro ⟨hin, hapart⟩
    rcases Nat.lt_or_ge (smallCount before) (smallNbits size) with hlt | hge
    · exact Or.inl hlt
    rw [smallOffset_of_ge hge] at hin hapart
    refine Or.inr ⟨?_, ?_, hin⟩
    · -- the first large extent would hold this one
      by_contra hne
      obtain ⟨f, hf, hlong, hoff⟩ := exists_placed_large size (Nat.pos_of_ne_zero hne)
      have happ := hapart f hf
      rw [largeOffset_of_lt (by omega)] at hoff
      omega
    · -- an earlier one behind the lower half would be the same
      rcases hsmall with hle | ⟨-, hspill⟩
      · exact Nat.le_antisymm hle hge
      obtain ⟨f, hf, -, hoff⟩ := exists_placed_small size (hspill.symm ▸ Nat.lt_add_one (smallNbits size))
      have hfpos := (hbefore _ (length_mem_of_placed hf)).1
      have happ := hapart f hf
      rw [smallOffset_of_ge (Nat.le_refl _)] at hoff
      omega
  · rintro (hlt | ⟨hzero, hfull, hin⟩)
    · rw [smallOffset_of_lt hlt]
      refine ⟨?_, fun f hf => ?_⟩
      · have hend : (smallCount before + 1) * 1024 ≤ size.toNat / 2 := (Nat.mul_le_mul_right 1024 hlt).trans hn
        have hhalf : size.toNat / 2 ≤ size.toNat := Nat.div_le_self ..
        calc smallCount before * 1024 + length ≤ (smallCount before + 1) * 1024 := by
              rw [Nat.succ_mul]
              exact Nat.add_le_add_left hlen _
          _ ≤ size.toNat := hend.trans hhalf
      rcases mem_placed hf with ⟨hshort, k, hk, hoff⟩ | ⟨-, k, hk, hoff⟩
      · rw [smallOffset_of_lt (hk.trans hlt)] at hoff
        omega
      · rw [largeOffset_of_lt (by omega)] at hoff
        omega
    · rw [smallOffset_of_ge (Nat.le_of_eq hfull.symm)]
      refine ⟨hin, fun f hf => ?_⟩
      rcases mem_placed hf with ⟨hshort, k, hk, hoff⟩ | ⟨-, k, hk, -⟩
      · rw [smallOffset_of_lt (by omega)] at hoff
        omega
      · omega

end Request

theorem BitsLeft.before {length : Nat} {before : List Nat} (h : BitsLeft size (length :: before)) :
    BitsLeft size before := by
  rcases Nat.lt_or_ge smallLength length with hlarge | hsmall
  · obtain ⟨hlt, hle⟩ := (bitsLeft_large hlarge).mp h
    exact bitsLeft_of_le (Nat.le_of_lt hlt) hle
  · obtain ⟨hlt, hle⟩ := (bitsLeft_small hsmall).mp h
    exact bitsLeft_of_le hlt (by omega)

/-- No placed extent is taken for a failure. -/
theorem not_refused_placed {lengths : List Nat} {e : Extent} (he : e ∈ placed size lengths) : ¬ e.Refused size := by
  rintro ⟨hoff, hsize⟩
  rw [memOffset, if_pos hoff] at hsize
  have hzero : size.toNat / 2 = 0 := by omega
  have hlt : e.offset < 2 ^ 63 := by
    rcases mem_placed he with ⟨-, k, -, hk⟩ | ⟨-, k, -, hk⟩
    · rw [hk, smallOffset_of_ge (by simp [smallNbits, hzero])]
      simp [smallNbits, hzero]
    · rw [hk, largeOffset_of_ge (by simp [largeNbits, hzero])]
      simp [largeNbits, hzero]
  rw [hoff, noOffset] at hlt
  omega

/-- **The placed extents** are apart and on the device where there is room. -/
theorem allotted_placed_iff {lengths : List Nat} (hlen : ∀ l ∈ lengths, 1 ≤ l ∧ l ≤ largeLength) :
    Allotted size (placed size lengths) ↔ BitsLeft size lengths := by
  induction lengths with
  | nil => exact ⟨fun _ => bitsLeft_of_le (Nat.zero_le _) (Nat.zero_le _), fun _ => trivial⟩
  | cons length before ih =>
      obtain ⟨⟨hpos, hle⟩, hbefore⟩ := List.forall_mem_cons.mp hlen
      have hrefused := not_refused_placed (show _ ∈ placed size (length :: before) from List.mem_cons_self)
      rw [placed, Allotted, ih hbefore, or_iff_left hrefused]
      by_cases hlarge : length > smallLength
      · rw [if_pos hlarge, bitsLeft_large hlarge]
        constructor
        · rintro ⟨hroom, hextent⟩
          exact (largeExtent_iff hbefore hroom hlarge hle).mp hextent
        · intro h
          have hroom := ((bitsLeft_large hlarge).mpr h).before
          exact ⟨hroom, (largeExtent_iff hbefore hroom hlarge hle).mpr h⟩
      · have hsmall := Nat.not_lt.mp hlarge
        rw [if_neg hlarge, bitsLeft_small hsmall]
        constructor
        · rintro ⟨hroom, hextent⟩
          exact ⟨hroom.1, (smallExtent_iff hbefore hroom hpos hsmall).mp hextent⟩
        · intro h
          have hroom := ((bitsLeft_small hsmall).mpr h).before
          exact ⟨hroom, (smallExtent_iff hbefore hroom hpos hsmall).mpr h.2⟩

theorem bitmap_serves_iff {lengths : List Nat} (hlen : ∀ l ∈ lengths, 1 ≤ l ∧ l ≤ largeLength) :
    bitmapOps.Serves size lengths ↔ InArrays size lengths ∧ BitsLeft size lengths := by
  rw [← allotted_placed_iff hlen]
  constructor
  · rintro ⟨extents, a, hrun, hallotted⟩
    by_cases hin : InArrays size lengths
    · obtain ⟨a', hrun', -⟩ := (bitmap_placed size lengths).1 hin
      rw [hrun] at hrun'
      cases hrun'
      exact ⟨hin, hallotted⟩
    · rw [(bitmap_placed size lengths).2 hin] at hrun
      cases hrun
  · rintro ⟨hin, hallotted⟩
    obtain ⟨a, hrun, -⟩ := (bitmap_placed size lengths).1 hin
    exact ⟨_, a, hrun, hallotted⟩

/-! ## The append-only allocator -/

/-- The offsets of a run, as long as the counter has not come around. -/
theorem appendOnly_run (size : UInt64) {lengths : List Nat} (hsum : lengths.sum ≤ size.toNat) :
    ∃ extents, appendOnlyOps.run size lengths = .ok (extents, lengths.sum) ∧ Allotted size extents ∧
      ∀ e ∈ extents, e.offset + e.length ≤ lengths.sum := by
  have hsize : size.toNat < 2 ^ 64 := size.toNat_lt
  induction lengths with
  | nil => exact ⟨[], rfl, trivial, fun e he => nomatch he⟩
  | cons length before ih =>
      rw [List.sum_cons] at hsum ⊢
      obtain ⟨extents, hrun, hallotted, hends⟩ := ih (by omega)
      refine ⟨⟨before.sum, length⟩ :: extents, ?_, ⟨hallotted, Or.inl ⟨?_, fun f hf => Or.inr (hends f hf)⟩⟩, ?_⟩
      · rw [AllocatorOps.run, hrun, ok_bind]
        dsimp only [appendOnlyOps]
        rw [ok_bind, u64_of_lt (by omega), Nat.add_comm]
        rfl
      · show before.sum + length ≤ size.toNat
        omega
      · refine List.forall_mem_cons.mpr ⟨Nat.le_of_eq (Nat.add_comm ..), fun e he => ?_⟩
        have := hends e he
        omega

theorem appendOnly_serves_iff {lengths : List Nat} : appendOnlyOps.Serves size lengths ↔ lengths.sum ≤ size.toNat := by
  constructor
  · induction lengths with
    | nil => exact fun _ => Nat.zero_le _
    | cons length before ih =>
        rintro ⟨extents, s, hrun, hallotted⟩
        rw [AllocatorOps.run] at hrun
        obtain ⟨⟨extents', latest⟩, hbefore, hrun⟩ := bind_eq_ok hrun
        cases hrun
        have hsum := ih ⟨extents', latest, hbefore, hallotted.1⟩
        obtain ⟨extents'', hrun', -, -⟩ := appendOnly_run size hsum
        rw [hbefore] at hrun'
        cases hrun'
        rw [List.sum_cons]
        rcases hallotted.2 with ⟨hin, -⟩ | ⟨hoff, hzero⟩
        · have : before.sum + length ≤ size.toNat := hin
          omega
        · -- a counter of -1 on an empty device
          have hoff : before.sum = noOffset := hoff
          rw [memOffset, if_pos hoff] at hzero
          rw [noOffset] at hoff
          omega
  · intro hsum
    obtain ⟨extents, hrun, hallotted, -⟩ := appendOnly_run size hsum
    exact ⟨extents, _, hrun, hallotted⟩

/-! ## Both -/

/-- **The allocators of the key-value namespace**: for which requests of 1 to `LARGE_LENGTH` bytes every extent is on
    the device and apart from those before. -/
theorem kv_allocators_iff (size : UInt64) (lengths : List Nat) (hlen : ∀ l ∈ lengths, 1 ≤ l ∧ l ≤ largeLength) :
    (bitmapOps.Serves size lengths ↔ InArrays size lengths ∧ BitsLeft size lengths) ∧
      (appendOnlyOps.Serves size lengths ↔ lengths.sum ≤ size.toNat) :=
  ⟨bitmap_serves_iff hlen, appendOnly_serves_iff⟩

/-- A small value and two large ones on a device of 16 KiB. -/
theorem kv_allocators_three_values :
    bitmapOps.Serves 16384 [4096, 100, 2000] ∧ appendOnlyOps.Serves 16384 [4096, 100, 2000] := by
  obtain ⟨hbitmap, happend⟩ := kv_allocators_iff 16384 [4096, 100, 2000] (by decide)
  have hin : InArrays 16384 [4096, 100, 2000] :=
    ⟨by decide, by decide, by unfold BitFits; decide, by unfold BitFits; decide⟩
  exact ⟨hbitmap.mpr ⟨hin, bitsLeft_of_le (by decide) (by decide)⟩, happend.mpr (by decide)⟩

/-- On a device of 1 MiB the bitmap allocator places the 129th large value, and the append-only allocator the 257th,
    behind the end of the device. -/
theorem kv_allocators_behind_end :
    ¬ bitmapOps.Serves (2 ^ 20) (List.replicate 129 4096) ∧ ¬ appendOnlyOps.Serves (2 ^ 20) (List.replicate 257 4096) ∧
      ∃ extents a, bitmapOps.run (2 ^ 20) (List.replicate 129 4096) = .ok (⟨1052672, 4096⟩ :: extents, a) := by
  have hlen : ∀ n, ∀ l ∈ List.replicate n 4096, 1 ≤ l ∧ l ≤ largeLength := by
    intro n l hl
    rw [List.eq_of_mem_replicate hl]
    decide
  refine ⟨?_, ?_, ?_⟩
  · rw [bitmap_serves_iff (hlen 129)]
    rintro ⟨-, hroom, -⟩
    exact absurd hroom (by decide +kernel)
  · rw [appendOnly_serves_iff]
    decide +kernel
  · have hin : InArrays (2 ^ 20) (List.replicate 129 4096) :=
      ⟨by decide +kernel, by decide +kernel, by unfold BitFits; decide +kernel, by unfold BitFits; decide +kernel⟩
    obtain ⟨a, hrun, -⟩ := (bitmap_placed (2 ^ 20) (List.replicate 129 4096)).1 hin
    have hoff : largeOffset (2 ^ 20) (largeCount (List.replicate 128 4096)) = 1052672 := by decide +kernel
    rw [List.replicate_succ, placed, if_pos (by decide), hoff] at hrun
    exact ⟨_, a, hrun⟩

end NvmeVirt
