import NvmeVirt.Lib.Outcome
import Mathlib.Data.UInt
import Mathlib.Logic.Function.Basic

/-!
# `Kv.Index` — the mapping table of the key-value namespace (`kv_ftl.c`, `kv_ftl.h`)

The table is an array of `hash_slots` entries. A key is looked up from the slot its hash selects, along the
`next_slot` links; a key whose home slot is taken goes to the next free slot after the end of that chain and is
linked from there. An entry is free when its `mem_offset` is `-1`.

`-1` is kept as the value it has in the C types: `noOffset` for the 64-bit `size_t`, `noSlot` for the 32-bit
`unsigned int`. The loops run on fuel; running out of it is the fault `hang`, a loop of the source that does not
end.
-/

namespace NvmeVirt

/-- A key that stands in the command itself: `key_len` holds the length minus one, and the command has room for
    `KVCMD_INLINE_KEY_MAX` bytes. -/
structure KvKey where
  bytes : List UInt8
  length_pos : 0 < bytes.length
  length_le : bytes.length ≤ 16
deriving DecidableEq, Repr

/-- `(size_t)-1` -/
def noOffset : Nat := 2 ^ 64 - 1

/-- `(unsigned int)-1` -/
def noSlot : Nat := 2 ^ 32 - 1

/-- `struct mapping_entry` -/
structure MappingEntry where
  key : List UInt8
  memOffset : Nat
  length : Nat
  nextSlot : Nat
deriving DecidableEq, Repr

/-- `memset(&entry, -1, sizeof(struct mapping_entry))` -/
def MappingEntry.wiped : MappingEntry := ⟨List.replicate 18 0xff, noOffset, 2 ^ 64 - 1, noSlot⟩

/-- An entry as `kv_init_namespace` leaves it: zeroed, then `mem_offset`, `next_slot` and `length` set to `-1`. -/
def MappingEntry.initial : MappingEntry := ⟨List.replicate 18 0, noOffset, 2 ^ 64 - 1, noSlot⟩

/-- The members of `struct kv_ftl` that the index uses. -/
structure KvFtl where
  kvMappingTable : Nat → MappingEntry
  hashSlots : Nat

/-- What stops a command: a `BUG_ON`, a loop without end, or an access through the `NULL` PRP list pointer. -/
inductive KvFault where
  | bug
  | hang
  | nullPrpList
deriving DecidableEq, Repr

/-- `KV_MAPPING_TABLE_SIZE` -/
def kvMappingTableSize : Nat := 2 ^ 30

/-- `KV_MAPPING_ENTRY_SIZE`: 18 bytes of key padded to 24, two `size_t`, and an `unsigned int` padded to 8. -/
def kvMappingEntrySize : Nat := 48

/-- The table `kv_init_namespace` sets up. -/
def kvInitNamespace : KvFtl where
  kvMappingTable := fun _ => .initial
  hashSlots := kvMappingTableSize / kvMappingEntrySize

/-! ## Keys -/

/-- `hash_function`, on 32-bit unsigned integers. -/
def hashFunction (key : List UInt8) : UInt32 :=
  key.foldl (fun h p => (h * 16777619) ^^^ p.toUInt32) 2166136261

/-- `get_hash_slot` -/
def getHashSlot (ftl : KvFtl) (key : KvKey) : Nat := (hashFunction key.bytes).toNat % ftl.hashSlots

/-- `memcpy(dst, src, n)` on the first bytes of two arrays. -/
def copyBytes (dst src : List UInt8) (n : Nat) : List UInt8 := src.take n ++ dst.drop n

/-- `memcmp(key, entry.key, key_len) == 0`: as many bytes are compared as the key looked up has. -/
def MappingEntry.matchesKey (e : MappingEntry) (key : KvKey) : Bool :=
  e.key.take key.bytes.length == key.bytes

/-- `mem_offset == -1` -/
def MappingEntry.isFree (e : MappingEntry) : Bool := e.memOffset == noOffset

/-! ## Lookup

`get_mapping_entry`, `update_mapping_entry` and `delete_mapping_entry` walk the chain in the same way. -/

/-- The walk along the chain: the slot of the first entry that compares equal. -/
def searchLoop (ftl : KvFtl) (key : KvKey) : Nat → Nat → Except KvFault (Option Nat)
  | 0, _ => .error .hang
  | fuel + 1, slot =>
      if (ftl.kvMappingTable slot).isFree then .ok none
      else if (ftl.kvMappingTable slot).matchesKey key then .ok (some slot)
      else if (ftl.kvMappingTable slot).nextSlot = noSlot then .ok none
      else searchLoop ftl key fuel (ftl.kvMappingTable slot).nextSlot

/-- The walk from the key's home slot. No chain is longer than the table. -/
def search (ftl : KvFtl) (key : KvKey) : Except KvFault (Option Nat) :=
  searchLoop ftl key (ftl.hashSlots + 1) (getHashSlot ftl key)

/-- The mapping `get_mapping_entry` returns for the slot found: all ones, then the four members are filled in. -/
def foundMapping (ftl : KvFtl) (key : KvKey) : Option Nat → MappingEntry
  | none => .wiped
  | some slot =>
      { key := copyBytes MappingEntry.wiped.key (ftl.kvMappingTable slot).key key.bytes.length
        memOffset := (ftl.kvMappingTable slot).memOffset
        length := (ftl.kvMappingTable slot).length
        nextSlot := (ftl.kvMappingTable slot).nextSlot }

/-- `get_mapping_entry` -/
def getMappingEntry (ftl : KvFtl) (key : KvKey) : Except KvFault MappingEntry := do
  return foundMapping ftl key (← search ftl key)

/-- One entry of the table rewritten. -/
def KvFtl.setEntry (ftl : KvFtl) (slot : Nat) (e : MappingEntry) : KvFtl :=
  { ftl with kvMappingTable := Function.update ftl.kvMappingTable slot e }

/-- `update_mapping_entry`: returns 1 when there is no mapping. -/
def updateMappingEntry (ftl : KvFtl) (key : KvKey) (valueLength : Nat) : Except KvFault (Nat × KvFtl) := do
  match ← search ftl key with
  | none => return (1, ftl)
  | some slot => return (0, ftl.setEntry slot { ftl.kvMappingTable slot with length := valueLength })

/-- `delete_mapping_entry`: the entry is wiped, its link included. -/
def deleteMappingEntry (ftl : KvFtl) (key : KvKey) : Except KvFault KvFtl := do
  match ← search ftl key with
  | none => return ftl
  | some slot => return ftl.setEntry slot .wiped

/-! ## Insertion -/

/-- The first loop of `find_next_slot`: the last entry in use of the chain. -/
def tailLoop (ftl : KvFtl) : Nat → Nat → Nat → Except KvFault Nat
  | 0, _, _ => .error .hang
  | fuel + 1, prevs, tail =>
      if (ftl.kvMappingTable tail).isFree then .ok prevs
      else if (ftl.kvMappingTable tail).nextSlot = noSlot then .ok tail
      else tailLoop ftl fuel tail (ftl.kvMappingTable tail).nextSlot

/-- The second loop of `find_next_slot`: the next free slot, with wrap-around. -/
def probeLoop (ftl : KvFtl) : Nat → Nat → Except KvFault Nat
  | 0, _ => .error .hang
  | fuel + 1, retSlot =>
      if (ftl.kvMappingTable retSlot).isFree then .ok retSlot
      else probeLoop ftl fuel (if retSlot + 1 ≥ ftl.hashSlots then 0 else retSlot + 1)

/-- `find_next_slot`: the free slot, and the entry to link it from (`*prev_slot`). -/
def findNextSlot (ftl : KvFtl) (originalSlot : Nat) : Except KvFault (Nat × Nat) := do
  let prevs ← tailLoop ftl (ftl.hashSlots + 1) noSlot originalSlot
  let retSlot ← probeLoop ftl ftl.hashSlots prevs
  return (retSlot, prevs)

/-- `chain_mapping` -/
def chainMapping (ftl : KvFtl) (prev slot : Nat) : KvFtl :=
  ftl.setEntry prev { ftl.kvMappingTable prev with nextSlot := slot }

/-- The new entry: the key's bytes go over the first bytes of what the slot held, and the link stays. -/
def fillEntry (ftl : KvFtl) (slot : Nat) (key : KvKey) (valOffset valueLength : Nat) : KvFtl :=
  ftl.setEntry slot
    { ftl.kvMappingTable slot with
      key := copyBytes (ftl.kvMappingTable slot).key key.bytes key.bytes.length
      memOffset := valOffset
      length := valueLength }

/-- Where a new mapping goes: the home slot and no predecessor, or on a collision what `find_next_slot` says. -/
def chooseSlot (ftl : KvFtl) (key : KvKey) : Except KvFault (Nat × Nat) :=
  let slot := getHashSlot ftl key
  if (ftl.kvMappingTable slot).isFree then .ok (slot, noSlot) else findNextSlot ftl slot

/-- `new_mapping_entry` -/
def newMappingEntry (storageSize : UInt64) (ftl : KvFtl) (key : KvKey) (valOffset valueLength : Nat) :
    Except KvFault KvFtl := do
  if valOffset ≥ storageSize.toNat then .error .bug
  let (slot, prevSlot) ← chooseSlot ftl key
  let ftl := fillEntry ftl slot key valOffset valueLength
  return if prevSlot ≠ noSlot then chainMapping ftl prevSlot slot else ftl

end NvmeVirt
