import NvmeVirt.Kv.Io

/-!
# `Kv.Batch` — batches of stores (`__do_perform_kv_batch`)

A batch command carries up to eight sub-commands in one payload: a head with their attributes, then, each part padded to
64 bytes, an unused head, the key and the value of each. `decodeBatch` is the loop that takes the payload apart with
running offsets, and `decodeBatch_encode` says that it undoes the packing.

The sub-commands are executed by a second copy of the store path that looks up, inserts and writes by key.
-/

namespace NvmeVirt

/-! ## The payload -/

/-- `ALIGN_LEN` -/
def alignLen : Nat := 64

/-- `sizeof(struct batch_cmd_head)`: eight attributes of 16 bytes and 384 reserved bytes. -/
def batchHeadLen : Nat := 512

/-- `((len - 1) / ALIGN_LEN + 1) * ALIGN_LEN` -/
def alignedLen (len : Nat) : Nat := ((len - 1) / alignLen + 1) * alignLen

/-- A sub-command. -/
structure KvSubCommand where
  opcode : KvOpcode
  key : KvKey
  value : List UInt8
deriving DecidableEq, Repr

/-- A little-endian `u32`. -/
def u32le (bytes : List UInt8) : Nat :=
  (bytes.getD 0 0).toNat + 256 * ((bytes.getD 1 0).toNat + 256 * ((bytes.getD 2 0).toNat + 256 * (bytes.getD 3 0).toNat))

/-- The sub-command with attribute `i`, whose key begins at `payload_offset`; 0x81 is `nvme_cmd_kv_store`. `none` is an
    access beyond the buffer that holds the payload, or beyond `key` and `value`. -/
def decodeSub (buffer : List UInt8) (i payloadOffset : Nat) : Option KvSubCommand :=
  let attr := buffer.drop (16 * i)
  let keyLen := (attr.getD 1 0).toNat
  let valLen := u32le (attr.drop 4)
  let key := (buffer.drop (batchHeadLen + payloadOffset)).take keyLen
  let value := (buffer.drop (batchHeadLen + (payloadOffset + alignedLen keyLen))).take valLen
  if h : key.length = keyLen ∧ value.length = valLen ∧ value.length ≤ 4096 ∧ 0 < key.length ∧ key.length ≤ 16 then
    some ⟨if attr.getD 0 0 = 0x81 then .store else .other, ⟨key, h.2.2.2.1, h.2.2.2.2⟩, value⟩
  else none

/-- `sub_len` -/
def KvSubCommand.subLen (sub : KvSubCommand) : Nat :=
  alignedLen sub.key.bytes.length + alignedLen sub.value.length + alignLen

/-- The loop over the sub-commands. -/
def decodeSubs (buffer : List UInt8) : Nat → Nat → Nat → Option (List KvSubCommand)
  | 0, _, _ => some []
  | n + 1, i, payloadOffset => do
      let sub ← decodeSub buffer i payloadOffset
      let rest ← decodeSubs buffer n (i + 1) (payloadOffset + sub.subLen)
      return sub :: rest

def decodeBatch (buffer : List UInt8) (subCmdCnt : Nat) : Option (List KvSubCommand) :=
  decodeSubs buffer subCmdCnt 0 alignLen

/-- The members of `struct nvme_kv_batch_command` that the code reads. -/
structure KvBatchCommand where
  valueLen : UInt32
  rsvd4 : UInt8
  prp1 : UInt64
  prp2 : UInt64
deriving DecidableEq, Repr

def KvBatchCommand.valueLength (cmd : KvBatchCommand) : Nat := cmd.valueLen.toNat * 4 % 2 ^ 32

def KvBatchCommand.prps (cmd : KvBatchCommand) : PrpPair := ⟨cmd.prp1, cmd.prp2, fun _ => true⟩

/-! ## The packing -/

def padded (bytes : List UInt8) : List UInt8 := bytes ++ List.replicate (alignedLen bytes.length - bytes.length) 0

def u32Bytes (n : Nat) : List UInt8 :=
  [UInt8.ofNat n, UInt8.ofNat (n / 256), UInt8.ofNat (n / 256 ^ 2), UInt8.ofNat (n / 256 ^ 3)]

/-- `struct sub_cmd_attribute` of a store. -/
def KvSubCommand.attr (sub : KvSubCommand) : List UInt8 :=
  [0x81, UInt8.ofNat sub.key.bytes.length, 0, 0] ++ u32Bytes sub.value.length ++ List.replicate 8 0

/-- The part of the payload that belongs to a sub-command. -/
def KvSubCommand.body (sub : KvSubCommand) : List UInt8 :=
  List.replicate alignLen 0 ++ (padded sub.key.bytes ++ padded sub.value)

/-- The payload a host packs for stores. -/
def encodeBatch (subs : List KvSubCommand) : List UInt8 :=
  subs.flatMap KvSubCommand.attr ++ List.replicate (batchHeadLen - 16 * subs.length) 0 ++ subs.flatMap KvSubCommand.body

theorem u32le_u32Bytes {n : Nat} (h : n < 2 ^ 32) (rest : List UInt8) : u32le (u32Bytes n ++ rest) = n := by
  simp only [u32le, u32Bytes, List.cons_append, List.getD_cons_zero, List.getD_cons_succ, UInt8.toNat_ofNat']
  omega

theorem le_alignedLen (n : Nat) : n ≤ alignedLen n := by
  unfold alignedLen alignLen
  omega

theorem length_padded (bytes : List UInt8) : (padded bytes).length = alignedLen bytes.length := by
  have := le_alignedLen bytes.length
  simp only [padded, List.length_append, List.length_replicate]
  omega

theorem length_attr (sub : KvSubCommand) : sub.attr.length = 16 := by
  simp [KvSubCommand.attr, u32Bytes]

theorem length_body (sub : KvSubCommand) : sub.body.length = sub.subLen := by
  simp only [KvSubCommand.body, KvSubCommand.subLen, List.length_append, List.length_replicate, length_padded]
  omega

theorem length_attrs (subs : List KvSubCommand) : (subs.flatMap KvSubCommand.attr).length = 16 * subs.length := by
  induction subs with
  | nil => rfl
  | cons sub subs ih =>
      rw [List.flatMap_cons, List.length_append, ih, length_attr, List.length_cons]
      omega

/-- Where a part of a concatenation begins. -/
theorem drop_append_of_length {α : Type} {l₁ l₂ : List α} {n : Nat} (h : l₁.length = n) : (l₁ ++ l₂).drop n = l₂ := by
  rw [← h, List.drop_left]

/-- The stores that a payload can hold. -/
def KvSubCommand.Packable (sub : KvSubCommand) : Prop := sub.opcode = .store ∧ sub.value.length ≤ 4096

/-- The parts of a sub-command in the payload. -/
theorem drop_attr (pre post : List KvSubCommand) (sub : KvSubCommand) (tail : List UInt8) :
    ∃ rest, (encodeBatch (pre ++ sub :: post) ++ tail).drop (16 * pre.length) = sub.attr ++ rest := by
  refine ⟨?rest, ?_⟩
  rotate_left
  · simp only [encodeBatch, List.flatMap_append, List.flatMap_cons, List.append_assoc]
    exact drop_append_of_length (length_attrs pre)

theorem drop_body {pre post : List KvSubCommand} {sub : KvSubCommand} (tail : List UInt8)
    (hcnt : (pre ++ sub :: post).length ≤ 32) :
    ∃ rest, (encodeBatch (pre ++ sub :: post) ++ tail).drop
      (batchHeadLen + (alignLen + (pre.flatMap KvSubCommand.body).length)) =
        padded sub.key.bytes ++ (padded sub.value ++ rest) := by
  have hhead : ((pre ++ sub :: post).flatMap KvSubCommand.attr ++
      List.replicate (batchHeadLen - 16 * (pre ++ sub :: post).length) 0).length = batchHeadLen := by
    rw [List.length_append, length_attrs, List.length_replicate]
    unfold batchHeadLen
    omega
  have hbodies : (pre.flatMap KvSubCommand.body ++ List.replicate alignLen 0).length =
      alignLen + (pre.flatMap KvSubCommand.body).length := by
    rw [List.length_append, List.length_replicate, Nat.add_comm]
  refine ⟨post.flatMap KvSubCommand.body ++ tail, ?_⟩
  rw [← List.drop_drop, encodeBatch, List.append_assoc, drop_append_of_length hhead, List.flatMap_append,
    List.flatMap_cons, KvSubCommand.body]
  simp only [List.append_assoc]
  rw [← List.append_assoc (pre.flatMap KvSubCommand.body), drop_append_of_length hbodies]

theorem take_padded (bytes rest : List UInt8) : (padded bytes ++ rest).take bytes.length = bytes := by
  rw [padded, List.append_assoc, List.take_left]

/-- **One sub-command** at its place in the payload. -/
theorem decodeSub_encode {pre post : List KvSubCommand} {sub : KvSubCommand} (tail : List UInt8)
    (hsub : sub.Packable) (hcnt : (pre ++ sub :: post).length ≤ 32) :
    decodeSub (encodeBatch (pre ++ sub :: post) ++ tail) pre.length
      (alignLen + (pre.flatMap KvSubCommand.body).length) = some sub := by
  obtain ⟨afterAttr, hattr⟩ := drop_attr pre post sub tail
  obtain ⟨afterBody, hbody⟩ := drop_body tail hcnt
  have hkey : (UInt8.ofNat sub.key.bytes.length).toNat = sub.key.bytes.length := by
    rw [UInt8.toNat_ofNat', Nat.mod_eq_of_lt (Nat.lt_of_le_of_lt sub.key.length_le (by decide))]
  have hvalue : u32le (List.drop 4 (sub.attr ++ afterAttr)) = sub.value.length := by
    rw [KvSubCommand.attr, List.append_assoc, List.append_assoc, drop_append_of_length (by rfl)]
    exact u32le_u32Bytes (Nat.lt_of_le_of_lt hsub.2 (by decide)) _
  have hop : (sub.attr ++ afterAttr).getD 0 0 = 0x81 := rfl
  have hlen : (sub.attr ++ afterAttr).getD 1 0 = UInt8.ofNat sub.key.bytes.length := rfl
  have hafter : (encodeBatch (pre ++ sub :: post) ++ tail).drop (batchHeadLen +
      (alignLen + (pre.flatMap KvSubCommand.body).length + alignedLen sub.key.bytes.length)) =
      padded sub.value ++ afterBody := by
    rw [← Nat.add_assoc, ← List.drop_drop, hbody, drop_append_of_length (length_padded _)]
  unfold decodeSub
  simp only [hattr, hop, hlen, hkey, hvalue, hbody, hafter, take_padded]
  rw [dif_pos ⟨trivial, trivial, hsub.2, sub.key.length_pos, sub.key.length_le⟩, if_pos trivial]
  have heta : sub = ⟨.store, sub.key, sub.value⟩ := by rw [← hsub.1]
  exact congrArg some heta.symm

/-- **Unpacking undoes packing**, whatever follows in the buffer. -/
theorem decodeBatch_encode {subs : List KvSubCommand} (hsubs : ∀ sub, sub ∈ subs → sub.Packable)
    (hcnt : subs.length ≤ 32) (tail : List UInt8) :
    decodeBatch (encodeBatch subs ++ tail) subs.length = some subs := by
  have hfrom : ∀ post pre, pre ++ post = subs →
      decodeSubs (encodeBatch subs ++ tail) post.length pre.length
        (alignLen + (pre.flatMap KvSubCommand.body).length) = some post := by
    intro post
    induction post with
    | nil => intro pre _; rfl
    | cons sub post ih =>
        intro pre hpre
        have hmem : sub ∈ subs := by simp [← hpre]
        have hhead := decodeSub_encode tail (hsubs sub hmem) (hpre ▸ hcnt)
        have hrest := ih (pre ++ [sub]) (by simpa using hpre)
        rw [hpre] at hhead
        simp only [List.flatMap_append, List.flatMap_singleton, List.length_append, length_body, ← Nat.add_assoc,
          List.length_singleton] at hrest
        simp only [List.length_cons, decodeSubs, hhead, hrest, Option.bind_eq_bind, Option.bind_some, Option.pure_def]
  exact hfrom subs [] rfl

theorem decodeBatch_encode_twice :
    let sub : KvSubCommand := ⟨.store, ⟨[7], by decide, by decide⟩, [1, 2]⟩
    decodeBatch (encodeBatch [sub, sub] ++ [9]) 2 = some [sub, sub] :=
  decodeBatch_encode (by simp [KvSubCommand.Packable]) (by decide) [9]

/-! ## Execution -/

/-- `get_mapping_entry_by_key`, a copy of `get_mapping_entry`. -/
def getMappingEntryByKey (ftl : KvFtl) (key : KvKey) : Except KvFault MappingEntry := getMappingEntry ftl key

/-- `new_mapping_entry_by_key`, a copy of `new_mapping_entry`. -/
def newMappingEntryByKey (storageSize : UInt64) (ftl : KvFtl) (key : KvKey) (valLen valOffset : Nat) :
    Except KvFault KvFtl := newMappingEntry storageSize ftl key valOffset valLen

/-- `allocate_mem_offset_by_length` -/
def allocateMemOffsetByLength (s : KvNs) (valLen : Nat) : Nat × KvNs :=
  let (offset, s) := appendOnlyAllocate s valLen
  (if offset = noOffset then 0 else offset, s)

/-- A `memcpy` of these bytes: of a value into the storage, or into the buffer of an iterator. -/
def writeBytes (dst : Nat → UInt8) (offset : Nat) (bytes : List UInt8) : Nat → UInt8 :=
  memcpy dst offset (fun i => bytes.getD i 0) 0 bytes.length

/-- `__do_perform_kv_batched_io`. An update of another length sets `is_insert` to 2, and nothing reads that. -/
def doPerformKvBatchedIo (storageSize : UInt64) (s : KvNs) (sub : KvSubCommand) : Except KvFault KvNs := do
  let entry ← getMappingEntryByKey s.ftl sub.key
  match sub.opcode with
  | .store =>
      if entry.memOffset = noOffset then
        let (newOffset, s) := allocateMemOffsetByLength s sub.value.length
        let storage := writeBytes s.storage newOffset sub.value
        let ftl ← newMappingEntryByKey storageSize s.ftl sub.key sub.value.length newOffset
        return { s with ftl := ftl, storage := storage }
      else return { s with storage := writeBytes s.storage entry.memOffset sub.value }
  | _ => return s

/-- The sub-commands in order. -/
def performSubs (storageSize : UInt64) (subs : List KvSubCommand) (s : KvNs) : Except KvFault KvNs :=
  subs.foldlM (doPerformKvBatchedIo storageSize) s

/-- The sub-commands of a batch command in host memory; `rsvd4` is their number. -/
def KvBatchCommand.payload (cmd : KvBatchCommand) (host : HostMem) : Option (List KvSubCommand) := do
  decodeBatch (← gather cmd.prps cmd.valueLength host) cmd.rsvd4.toNat

/-- `__do_perform_kv_batch`, for a payload within its buffers. -/
def doPerformKvBatch (storageSize : UInt64) (cmd : KvBatchCommand) (host : HostMem) (s : KvNs) :
    Option (Except KvFault KvNs) :=
  (cmd.payload host).map fun subs => performSubs storageSize subs s

end NvmeVirt
