import NvmeVirt.Kv.Index
import NvmeVirt.Nvme.Prp

/-!
# `Kv.Io` — commands of the key-value namespace (`__do_perform_kv_io`, `append_only.c`)

A store looks its key up. A key that is not found gets an extent from the allocator, as long as this first value, and
a mapping; a key that is found is written over where it stands. The length in the mapping follows only if the old and
the new length are both small; otherwise the code logs an error and goes on.
-/

namespace NvmeVirt

/-- The opcodes `__do_perform_kv_io` tells apart. -/
inductive KvOpcode where
  | store | retrieve | exist | delete | other
deriving DecidableEq, Repr

/-- The members of `struct nvme_kv_command` that the code reads; `key` stands for `key` and `key_len`. -/
structure KvCommand where
  opcode : KvOpcode
  key : KvKey
  valueLen : UInt32
  prp1 : UInt64
  prp2 : UInt64
deriving DecidableEq, Repr

/-- `cmd_value_length`: `value_len << 2` on `unsigned int`. -/
def KvCommand.valueLength (cmd : KvCommand) : Nat := cmd.valueLen.toNat * 4 % 2 ^ 32

/-- The PRPs of the command; every page is mapped with `kmap_atomic_pfn`. -/
def KvCommand.prps (cmd : KvCommand) : PrpPair := ⟨cmd.prp1, cmd.prp2, fun _ => true⟩

/-- `SMALL_LENGTH` -/
def smallLength : Nat := 1024

/-- `KV_ERR_KEY_NOT_EXIST` -/
def kvErrKeyNotExist : Nat := 0x310

/-- The state of the namespace: the index, the `latest` of the append-only allocator, and the storage. -/
structure KvNs where
  ftl : KvFtl
  latest : Nat
  storage : Nat → UInt8

/-- The namespace after `kv_init_namespace`, whatever the storage holds. -/
def KvNs.init (storage : Nat → UInt8) : KvNs := ⟨kvInitNamespace, 0, storage⟩

/-- The return value, and what `*status` is set to, if it is. -/
structure KvReply where
  result : Nat
  status : Option Nat
deriving DecidableEq, Repr

/-- `append_only_allocate`, on 64-bit counters. -/
def appendOnlyAllocate (s : KvNs) (length : Nat) : Nat × KvNs :=
  (s.latest, { s with latest := (s.latest + length) % 2 ^ 64 })

/-- `allocate_mem_offset`: a failed allocation is logged and becomes offset 0. -/
def allocateMemOffset (s : KvNs) (cmd : KvCommand) : Nat × KvNs :=
  let (offset, s) := appendOnlyAllocate s cmd.valueLength
  (if offset = noOffset then 0 else offset, s)

/-- The copy loop. -/
def KvCommand.move (cmd : KvCommand) (dir : IoDir) (offset length : Nat) (m : IoMem) : Except KvFault IoMem :=
  match transfer cmd.prps dir offset length m with
  | none => .error .nullPrpList
  | some m => .ok m

/-- `__do_perform_kv_io`, with the host memory before and after. -/
def doPerformKvIo (storageSize : UInt64) (cmd : KvCommand) (host : HostMem) (s : KvNs) :
    Except KvFault (KvReply × HostMem × KvNs) := do
  let entry ← getMappingEntry s.ftl cmd.key
  let length := cmd.valueLength
  match cmd.opcode with
  | .store =>
      if entry.memOffset = noOffset then
        let (newOffset, s) := allocateMemOffset s cmd
        let m ← cmd.move .toStorage newOffset length ⟨host, s.storage⟩
        let ftl ← newMappingEntry storageSize s.ftl cmd.key newOffset length
        return (⟨0, none⟩, m.host, { s with ftl := ftl, storage := m.storage })
      else
        let m ← cmd.move .toStorage entry.memOffset length ⟨host, s.storage⟩
        if length ≠ entry.length ∧ length ≤ smallLength ∧ entry.length ≤ smallLength then
          let (_, ftl) ← updateMappingEntry s.ftl cmd.key length
          return (⟨0, none⟩, m.host, { s with ftl := ftl, storage := m.storage })
        else return (⟨0, none⟩, m.host, { s with storage := m.storage })
  | .retrieve =>
      if entry.memOffset = noOffset then return (⟨0, some kvErrKeyNotExist⟩, host, s)
      else
        let m ← cmd.move .toHost entry.memOffset (min entry.length length) ⟨host, s.storage⟩
        return (⟨min entry.length length, none⟩, m.host, { s with storage := m.storage })
  | .exist =>
      if entry.memOffset = noOffset then return (⟨0, some kvErrKeyNotExist⟩, host, s)
      else return (⟨0, none⟩, host, s)
  | .delete =>
      if entry.memOffset = noOffset then return (⟨0, some kvErrKeyNotExist⟩, host, s)
      else
        let ftl ← deleteMappingEntry s.ftl cmd.key
        return (⟨0, none⟩, host, { s with ftl := ftl })
  | .other => return (⟨0, none⟩, host, s)

/-- What the host sees of a command: the reply and its memory. -/
def kvObserve (storageSize : UInt64) (cmd : KvCommand) (host : HostMem) (s : KvNs) :
    Except KvFault (KvReply × HostMem) :=
  (doPerformKvIo storageSize cmd host s).map fun r => (r.1, r.2.1)

end NvmeVirt
