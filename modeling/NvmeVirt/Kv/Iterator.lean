import NvmeVirt.Kv.Batch

/-!
# `Kv.Iterator` — iterators over the keys (`kv_iter_open`, `kv_iter_read`, `kv_iter_close`)

An iterator is a context in one of the 17 entries of `iter_handle`, with a filter on the first four bytes of a key and
the slot of the mapping table to go on from. A read walks the table from there, puts the keys that pass the filter into
a buffer, and stops before the key that would not fit in 1024 bytes, or at the end of the table.

* `encodeKeys` — the format of the buffer: the number of keys, then each key behind its length.
* `iterScan_spec` — the loop of a read: what it put into the buffer and what is left for the next read make up what was
  left before, in slot order.
* `kv_iter_complete` — so a whole iteration returns every key once.

An entry of `iter_handle` that was never written holds whatever `kmalloc` left there; going through it, or reading an
entry behind the array, is a fault.
-/

namespace NvmeVirt

open Outcome

/-! ## Contexts and commands -/

/-- The members of `struct kv_iter_context` that are read again; `keyPrefix` is `prefix`. -/
structure KvIterContext where
  keyPrefix : UInt32
  bitmask : UInt32
  buf : Nat → UInt8
  currentPos : Nat

/-- An entry of `iter_handle`. -/
inductive IterPtr where
  | null
  | context (ctx : KvIterContext)
  | wild

def IterPtr.isNull : IterPtr → Bool
  | .null => true
  | _ => false

theorem IterPtr.isNull_iff {p : IterPtr} : p.isNull = true ↔ p = .null := by
  cases p <;> simp [IterPtr.isNull]

/-- `iter_handle[17]` of `struct kv_ftl`. -/
structure IterTable where
  iterHandle : Nat → IterPtr

/-- What stops an iterator command: an index behind the array, an entry that points nowhere, or the `NULL` PRP list. -/
inductive IterFault where
  | outOfBounds
  | wildPointer
  | nullPrpList
deriving DecidableEq, Repr

/-- `kv_init_namespace` clears the first 16 entries; `word` is what `kmalloc` left in the last one. -/
def IterTable.init (word : UInt64) : IterTable :=
  ⟨fun i => if i < 16 then .null else if word = 0 then .null else .wild⟩

def IterTable.load (t : IterTable) (iter : Nat) : Except IterFault IterPtr :=
  if iter < 17 then .ok (t.iterHandle iter) else .error .outOfBounds

def IterTable.store (t : IterTable) (iter : Nat) (p : IterPtr) : IterTable :=
  ⟨Function.update t.iterHandle iter p⟩

@[simp] theorem store_self (t : IterTable) (iter : Nat) (p : IterPtr) : (t.store iter p).iterHandle iter = p := by
  simp [IterTable.store]

theorem store_of_ne (t : IterTable) {i iter : Nat} (p : IterPtr) (hne : i ≠ iter) :
    (t.store iter p).iterHandle i = t.iterHandle i := by
  simp [IterTable.store, hne]

/-- `nvme_cmd_kv_iter_req` and `nvme_cmd_kv_iter_read` -/
inductive KvIterOpcode where
  | iterReq | iterRead
deriving DecidableEq, Repr

/-- The members of `nvme_kv_iter_req_command` and `nvme_kv_iter_read_command` that the code reads. -/
structure KvIterCommand where
  opcode : KvIterOpcode
  iterHandle : UInt8
  option : UInt8
  iterVal : UInt32
  iterBitmask : UInt32
  prp1 : UInt64
  prp2 : UInt64
deriving DecidableEq, Repr

def KvIterCommand.prps (cmd : KvIterCommand) : PrpPair := ⟨cmd.prp1, cmd.prp2, fun _ => true⟩

/-- `ITER_OPTION_OPEN` -/
def iterOptionOpen : UInt8 := 0x01

/-- `ITER_OPTION_CLOSE` -/
def iterOptionClose : UInt8 := 0x02

/-- The status of a read that reached the end of the table. -/
def iterEnd : Nat := 0x393

/-- A command with the host memory it finds, and what a buffer from `kmalloc` holds. -/
structure IterCall where
  cmd : KvIterCommand
  host : HostMem
  fresh : Nat → UInt8

/-! ## Opening and closing -/

/-- `kv_iter_open`. Without a free entry it returns 1 and leaves `*status` alone. -/
def kvIterOpen (call : IterCall) (t : IterTable) : KvReply × IterTable :=
  match (List.range' 1 16).find? fun iter => (t.iterHandle iter).isNull with
  | none => (⟨1, none⟩, t)
  | some iter =>
      (⟨iter, some 0⟩, t.store iter (.context ⟨call.cmd.iterVal, call.cmd.iterBitmask, call.fresh, 0⟩))

/-- `kv_iter_close` -/
def kvIterClose (cmd : KvIterCommand) (t : IterTable) : Except IterFault (KvReply × IterTable) := do
  match ← t.load cmd.iterHandle.toNat with
  | .null => return (⟨0, some 0⟩, t)
  | .wild => .error .wildPointer
  | .context _ => return (⟨0, some 0⟩, t.store cmd.iterHandle.toNat .null)

/-! ## Reading -/

/-- `keylen` -/
def iterKeyLen : Nat := 16

/-- The bytes a read may put into the buffer. -/
def iterBufLen : Nat := 1024

/-- The bytes of the entry's key that a read returns. -/
def MappingEntry.iterKey (e : MappingEntry) : List UInt8 := bytesAt (fun i => e.key.getD i 0) 0 iterKeyLen

/-- The entry is in use and the first four bytes of its key pass the filter. -/
def MappingEntry.passes (e : MappingEntry) (ctx : KvIterContext) : Bool :=
  !e.isFree && (UInt32.ofNat (u32le e.key) &&& ctx.bitmask == ctx.keyPrefix &&& ctx.bitmask)

/-- The variables of the loop of `kv_iter_read`. -/
structure IterScan where
  pos : Nat
  buf : Nat → UInt8
  bufOffset : Nat
  nrKeys : Nat
  atEnd : Bool

/-- A key goes into the buffer, behind its length, padded to four bytes. -/
def IterScan.append (st : IterScan) (e : MappingEntry) : IterScan :=
  { st with
    buf := writeBytes (writeBytes st.buf st.bufOffset (u32Bytes iterKeyLen)) (st.bufOffset + 4) e.iterKey
    bufOffset := st.bufOffset + 4 + (iterKeyLen + 3) / 4 * 4
    nrKeys := st.nrKeys + 1 }

/-- One slot of the table that has room in the buffer. -/
def IterScan.visit (st : IterScan) (ctx : KvIterContext) (e : MappingEntry) : IterScan :=
  if e.passes ctx then st.append e else st

/-- The loop. It passes every slot of the table at most once, so the number of slots left is fuel enough. -/
def iterScan (ftl : KvFtl) (ctx : KvIterContext) : Nat → IterScan → IterScan
  | 0, st => st
  | fuel + 1, st =>
      if st.pos < ftl.hashSlots then
        let e := ftl.kvMappingTable st.pos
        -- the buffer is full: the read stops before this slot
        if e.passes ctx ∧ st.bufOffset + 4 + iterKeyLen > iterBufLen then st
        else
          let st := st.visit ctx e
          if st.pos + 1 = ftl.hashSlots then { st with pos := st.pos + 1, atEnd := true }
          else iterScan ftl ctx fuel { st with pos := st.pos + 1 }
      else st

/-- `kv_iter_read` -/
def kvIterRead (ftl : KvFtl) (call : IterCall) (t : IterTable) : Except IterFault (KvReply × HostMem × IterTable) := do
  match ← t.load call.cmd.iterHandle.toNat with
  | .null => return (⟨0, none⟩, call.host, t)
  | .wild => .error .wildPointer
  | .context ctx =>
      let st := iterScan ftl ctx (ftl.hashSlots - ctx.currentPos) ⟨ctx.currentPos, ctx.buf, 4, 0, false⟩
      let buf := writeBytes st.buf 0 (u32Bytes st.nrKeys)
      let t := t.store call.cmd.iterHandle.toNat (.context { ctx with buf := buf, currentPos := st.pos })
      match transfer call.cmd.prps .toHost 0 st.bufOffset ⟨call.host, buf⟩ with
      | none => .error .nullPrpList
      | some m => return (⟨st.bufOffset, some (if st.atEnd then iterEnd else 0)⟩, m.host, t)

/-- `__do_perform_kv_iter_io`, with the host memory before and after. -/
def doPerformKvIterIo (ftl : KvFtl) (call : IterCall) (t : IterTable) :
    Except IterFault (KvReply × HostMem × IterTable) :=
  match call.cmd.opcode with
  | .iterReq =>
      if call.cmd.option &&& iterOptionOpen ≠ 0 then
        let (reply, t) := kvIterOpen call t
        .ok (reply, call.host, t)
      else if call.cmd.option &&& iterOptionClose ≠ 0 then do
        let (reply, t) ← kvIterClose call.cmd t
        return (reply, call.host, t)
      else .ok (⟨0, none⟩, call.host, t)
  | .iterRead => kvIterRead ftl call t

/-! ## The buffer -/

/-- Keys behind their lengths. -/
def encodeBody (keys : List (List UInt8)) : List UInt8 := keys.flatMap fun key => u32Bytes iterKeyLen ++ key

/-- **The buffer of a read**: the number of keys, then the keys. -/
def encodeKeys (keys : List (List UInt8)) : List UInt8 := u32Bytes keys.length ++ encodeBody keys

section Buffer

variable {buf : Nat → UInt8} {off : Nat} {bytes : List UInt8}

theorem length_u32Bytes (n : Nat) : (u32Bytes n).length = 4 := rfl

theorem length_iterKey (e : MappingEntry) : e.iterKey.length = iterKeyLen := length_bytesAt _ _ _

theorem bytesAt_writeBytes_self : bytesAt (writeBytes buf off bytes) off bytes.length = bytes := by
  rw [writeBytes, bytesAt_memcpy, bytesAt_getD]

/-- Bytes elsewhere stay. -/
theorem bytesAt_writeBytes_of_disjoint {a n : Nat} (h : a + n ≤ off ∨ off + bytes.length ≤ a) :
    bytesAt (writeBytes buf off bytes) a n = bytesAt buf a n := by
  apply bytesAt_congr
  intro i hi
  exact memcpy_of_not (by omega)

end Buffer

/-! ## The loop of a read -/

section Scan

variable (ftl : KvFtl) (ctx : KvIterContext)

/-- **The keys an iterator has still to return**, from a slot on and in slot order. -/
def keysFrom (pos : Nat) : List (List UInt8) :=
  ((List.range' pos (ftl.hashSlots - pos)).filter fun i => (ftl.kvMappingTable i).passes ctx).map
    fun i => (ftl.kvMappingTable i).iterKey

/-- The buffer holds these keys, the number at its start apart. -/
structure BufHolds (st : IterScan) (keys : List (List UInt8)) : Prop where
  nrKeys_eq : st.nrKeys = keys.length
  bufOffset_eq : st.bufOffset = 4 + 20 * keys.length
  body_eq : bytesAt st.buf 4 (20 * keys.length) = encodeBody keys
  bufOffset_le : st.bufOffset ≤ iterBufLen

/-- What the loop leaves behind when it started at `pos` with `old` in the buffer. -/
structure Scanned (pos : Nat) (old : List (List UInt8)) (st : IterScan) (new : List (List UInt8)) : Prop where
  filled : BufHolds st (old ++ new)
  split_eq : keysFrom ftl ctx pos = new ++ keysFrom ftl ctx st.pos
  at_end : st.atEnd = true → st.pos = ftl.hashSlots
  full : st.atEnd = false → st.pos < ftl.hashSlots ∧ iterBufLen < st.bufOffset + 20

/-- The keys of a slot that pass the filter: one or none. -/
def keysAt (pos : Nat) : List (List UInt8) :=
  if (ftl.kvMappingTable pos).passes ctx then [(ftl.kvMappingTable pos).iterKey] else []

variable {ftl ctx} {st : IterScan} {pos : Nat} {old new keys : List (List UInt8)}

theorem keysFrom_end : keysFrom ftl ctx ftl.hashSlots = [] := by
  simp [keysFrom]

theorem keysFrom_succ (h : pos < ftl.hashSlots) :
    keysFrom ftl ctx pos = keysAt ftl ctx pos ++ keysFrom ftl ctx (pos + 1) := by
  have hlen : ftl.hashSlots - pos = ftl.hashSlots - (pos + 1) + 1 := by omega
  unfold keysFrom keysAt
  rw [hlen, List.range'_succ, List.filter_cons]
  split <;> simp

/-- One more key in the buffer. -/
theorem BufHolds.append (h : BufHolds st old) (e : MappingEntry) (hroom : st.bufOffset + 4 + iterKeyLen ≤ iterBufLen) :
    BufHolds (st.append e) (old ++ [e.iterKey]) where
  nrKeys_eq := by
    simp [IterScan.append, h.nrKeys_eq]
  bufOffset_eq := by
    simp only [IterScan.append, h.bufOffset_eq, iterKeyLen, List.length_append, List.length_singleton]
    omega
  body_eq := by
    have hlen : 20 * (old ++ [e.iterKey]).length = 20 * old.length + (4 + 16) := by
      simp
      omega
    have hoff := h.bufOffset_eq
    rw [hlen, bytesAt_add, bytesAt_add, encodeBody, List.flatMap_append, ← encodeBody, ← h.body_eq, List.flatMap_singleton]
    congr 1
    · rw [IterScan.append, bytesAt_writeBytes_of_disjoint (by omega), bytesAt_writeBytes_of_disjoint (by omega)]
    congr 1
    · rw [IterScan.append, bytesAt_writeBytes_of_disjoint (by omega), ← hoff, ← length_u32Bytes iterKeyLen]
      exact bytesAt_writeBytes_self
    · rw [IterScan.append, ← hoff]
      exact length_iterKey e ▸ bytesAt_writeBytes_self
  bufOffset_le := by
    simp only [IterScan.append, iterKeyLen] at hroom ⊢
    omega

/-- The buffer before the first key. -/
theorem bufHolds_nil (pos : Nat) (buf : Nat → UInt8) : BufHolds ⟨pos, buf, 4, 0, false⟩ [] where
  nrKeys_eq := rfl
  bufOffset_eq := rfl
  body_eq := rfl
  bufOffset_le := (by decide : 4 ≤ iterBufLen)

theorem BufHolds.move (h : BufHolds st keys) (q : Nat) (b : Bool) : BufHolds { st with pos := q, atEnd := b } keys where
  nrKeys_eq := h.nrKeys_eq
  bufOffset_eq := h.bufOffset_eq
  body_eq := h.body_eq
  bufOffset_le := h.bufOffset_le

theorem visit_pos (st : IterScan) (e : MappingEntry) : (st.visit ctx e).pos = st.pos := by
  unfold IterScan.visit
  split <;> rfl

theorem visit_atEnd (st : IterScan) (e : MappingEntry) : (st.visit ctx e).atEnd = st.atEnd := by
  unfold IterScan.visit
  split <;> rfl

theorem BufHolds.visit (h : BufHolds st old)
    (hroom : (ftl.kvMappingTable pos).passes ctx = true → st.bufOffset + 4 + iterKeyLen ≤ iterBufLen) :
    BufHolds (st.visit ctx (ftl.kvMappingTable pos)) (old ++ keysAt ftl ctx pos) := by
  unfold IterScan.visit keysAt
  split
  · next hp => exact h.append _ (hroom hp)
  · rw [List.append_nil]
    exact h

/-- **The loop of a read.** What it put into the buffer and what is left for the next read make up what was left
    before, and it stops short of the end only with a full buffer. -/
theorem iterScan_spec (ctx : KvIterContext) (fuel : Nat) (hfill : BufHolds st old) (hend : st.atEnd = false)
    (hpos : st.pos < ftl.hashSlots)
    (hfuel : ftl.hashSlots ≤ st.pos + fuel) :
    ∃ new, Scanned ftl ctx st.pos old (iterScan ftl ctx fuel st) new := by
  induction fuel generalizing st old with
  | zero => omega
  | succ fuel ih =>
      rw [iterScan, if_pos hpos]
      dsimp only
      have hsucc : keysFrom ftl ctx st.pos = _ := keysFrom_succ hpos
      by_cases hfull : (ftl.kvMappingTable st.pos).passes ctx = true ∧ st.bufOffset + 4 + iterKeyLen > iterBufLen
      · rw [if_pos hfull]
        refine ⟨[], ?_, rfl, ?_, fun _ => ⟨hpos, ?_⟩⟩
        · rw [List.append_nil]
          exact hfill
        · rw [hend]
          intro h
          cases h
        · have := hfull.2
          unfold iterKeyLen at this
          omega
      rw [if_neg hfull]
      have hvisit : BufHolds (st.visit ctx (ftl.kvMappingTable st.pos)) (old ++ keysAt ftl ctx st.pos) :=
        hfill.visit fun hp => Nat.not_lt.mp (not_and.mp hfull hp)
      have hend' : (st.visit ctx (ftl.kvMappingTable st.pos)).atEnd = false := (visit_atEnd _ _).trans hend
      rw [visit_pos]
      by_cases hlast : st.pos + 1 = ftl.hashSlots
      · rw [if_pos hlast]
        refine ⟨_, hvisit.move _ _, ?_, fun _ => hlast, ?_⟩
        · exact hsucc
        · intro h
          cases h
      · rw [if_neg hlast]
        have hmoved := hvisit.move (st.pos + 1) (st.visit ctx (ftl.kvMappingTable st.pos)).atEnd
        obtain ⟨new, hnew⟩ := ih hmoved hend' (by dsimp only; omega) (by dsimp only; omega)
        refine ⟨keysAt ftl ctx st.pos ++ new, ?_, ?_, hnew.at_end, hnew.full⟩
        · rw [← List.append_assoc]
          exact hnew.filled
        · rw [hsucc, hnew.split_eq, List.append_assoc]

/-- A loop that stops short of the end has put a key into an empty buffer. -/
theorem Scanned.new_ne_nil (h : Scanned ftl ctx pos [] st new) (hend : st.atEnd = false) : new ≠ [] := by
  rintro rfl
  have hfull := (h.full hend).2
  rw [h.filled.bufOffset_eq] at hfull
  exact absurd hfull (by decide)

end Scan

/-! ## One read -/

/-- PRP1 and PRP2 hold `n` bytes between them. -/
def PrpPair.Holds (p : PrpPair) (n : Nat) : Prop :=
  p.prp1.toNat % pageSize + n ≤ pageSize ∨ p.prp1.toNat % pageSize + p.prp2.toNat % pageSize + n ≤ 2 * pageSize

instance (p : PrpPair) (n : Nat) : Decidable (p.Holds n) := inferInstanceAs (Decidable (_ ∨ _))

section Chunks

variable {σ : Type} {p : PrpPair} {host : σ → HostMem} {copy : σ → Nat → Nat → Nat → σ} {fuel remaining pos n : Nat} {s : σ}

/-- A second chunk that takes all that is left is the last one. -/
theorem prpLoop_second (hle : remaining ≤ pageSize)
    (hfit : remaining = 0 ∨ p.prp2.toNat % pageSize + remaining ≤ pageSize) :
    prpLoop p host copy fuel ⟨1, 0, none⟩ remaining pos s ≠ none := by
  cases fuel with
  | zero => simp [prpLoop]
  | succ fuel =>
      rw [prpLoop]
      by_cases hrem : remaining = 0
      · simp [hrem]
      · have hsize : ioSize remaining p.prp2.toNat = remaining := by
          have := hfit.resolve_left hrem
          unfold ioSize
          rw [if_neg (by omega)]
          omega
        simp only [if_neg hrem, PrpCursor.next, if_neg (Nat.not_lt.mpr hle), hsize, Nat.sub_self, prpLoop_zero]
        simp

/-- Bytes that two chunks hold are moved without a PRP list. -/
theorem prpLoop_two (hp : p.Holds remaining) (hle : remaining ≤ pageSize) :
    prpLoop p host copy fuel .start remaining pos s ≠ none := by
  cases fuel with
  | zero => simp [prpLoop]
  | succ fuel =>
      rw [prpLoop]
      by_cases hrem : remaining = 0
      · simp [hrem]
      · simp only [if_neg hrem, PrpCursor.start, PrpCursor.next]
        have hoff : p.prp1.toNat % pageSize < pageSize := Nat.mod_lt _ (by decide)
        apply prpLoop_second
        · omega
        · unfold PrpPair.Holds at hp
          unfold ioSize
          split <;> omega

theorem exists_scatter {bytes : List UInt8} (hp : p.Holds n) (hle : bytes.length ≤ n) (hn : n ≤ pageSize)
    (host : HostMem) : ∃ host', scatter p bytes host = some host' := by
  apply Option.ne_none_iff_exists'.mp
  refine prpLoop_two ?_ (Nat.le_trans hle hn)
  unfold PrpPair.Holds at hp ⊢
  omega

end Chunks

/-- **What a read returns**: the keys in the buffer, whether it reached the end, the context and the host memory
    after it. -/
structure Returned (ftl : KvFtl) (ctx : KvIterContext) (call : IterCall) (keys : List (List UInt8)) (atEnd : Bool)
    (ctx' : KvIterContext) (host : HostMem) : Prop where
  delivered : scatter call.cmd.prps (encodeKeys keys) call.host = some host
  length_le : (encodeKeys keys).length ≤ iterBufLen
  split_eq : keysFrom ftl ctx ctx.currentPos = keys ++ keysFrom ftl ctx' ctx'.currentPos
  at_end : atEnd = true → ctx'.currentPos = ftl.hashSlots
  goes_on : atEnd = false → ctx'.currentPos < ftl.hashSlots ∧ keys ≠ []

section Read

variable {ftl : KvFtl} {ctx : KvIterContext} {call : IterCall} {t : IterTable} {h : Nat}

/-- The whole buffer, once the number of keys is in front. -/
theorem BufHolds.buffer {st : IterScan} {keys : List (List UInt8)} (hf : BufHolds st keys) :
    bytesAt (writeBytes st.buf 0 (u32Bytes st.nrKeys)) 0 st.bufOffset = encodeKeys keys := by
  rw [hf.bufOffset_eq, bytesAt_add, encodeKeys, ← hf.body_eq, hf.nrKeys_eq]
  have hcount : bytesAt (writeBytes st.buf 0 (u32Bytes keys.length)) 0 4 = u32Bytes keys.length := bytesAt_writeBytes_self
  rw [hcount, bytesAt_writeBytes_of_disjoint (Or.inr (Nat.le_refl 4))]

/-- **`kv_iter_read`** on an iterator that has not reached the end. -/
theorem kvIterRead_spec (hslot : t.iterHandle h = .context ctx) (hlt : h < 17) (hcmd : call.cmd.iterHandle.toNat = h)
    (hpos : ctx.currentPos < ftl.hashSlots) (hprps : call.cmd.prps.Holds iterBufLen) :
    ∃ keys atEnd ctx' host, Returned ftl ctx call keys atEnd ctx' host ∧
      kvIterRead ftl call t =
        .ok (⟨(encodeKeys keys).length, some (if atEnd then iterEnd else 0)⟩, host, t.store h (.context ctx')) := by
  unfold kvIterRead IterTable.load
  rw [hcmd, if_pos hlt, ok_bind, hslot]
  dsimp only
  obtain ⟨keys, hscan⟩ := iterScan_spec ctx (ftl.hashSlots - ctx.currentPos) (bufHolds_nil ctx.currentPos ctx.buf) rfl
    hpos (by dsimp only; omega)
  generalize iterScan ftl ctx (ftl.hashSlots - ctx.currentPos) ⟨ctx.currentPos, ctx.buf, 4, 0, false⟩ = st at hscan
  have hfilled : BufHolds st keys := hscan.filled
  have hlen : (encodeKeys keys).length = st.bufOffset := by rw [← hfilled.buffer, length_bytesAt]
  obtain ⟨host, hhost⟩ := exists_scatter hprps (hlen ▸ hfilled.bufOffset_le) (by decide) call.host
  refine ⟨keys, st.atEnd, { ctx with buf := writeBytes st.buf 0 (u32Bytes st.nrKeys), currentPos := st.pos }, host,
    ⟨hhost, hlen ▸ hfilled.bufOffset_le, hscan.split_eq, hscan.at_end, ?_⟩, ?_⟩
  · intro hend
    exact ⟨(hscan.full hend).1, hscan.new_ne_nil hend⟩
  · rw [transfer_toHost]
    dsimp only
    rw [hfilled.buffer, hhost, hlen]
    rfl

end Read

/-! ## A whole iteration -/

/-- A read, after whatever else was done with the table of handles since the last one. -/
structure IterRead where
  others : IterTable → IterTable
  call : IterCall

/-- The read goes through this handle, with a buffer of 1024 bytes, and nothing else did. -/
structure IterRead.Through (r : IterRead) (h : Nat) : Prop where
  opcode_eq : r.call.cmd.opcode = .iterRead
  handle_eq : r.call.cmd.iterHandle.toNat = h
  prps : r.call.cmd.prps.Holds iterBufLen
  apart : ∀ t, (r.others t).iterHandle h = t.iterHandle h

/-- Successive reads on a table of keys that does not change: the replies, with the host memory after each. -/
def iterReads (ftl : KvFtl) : List IterRead → IterTable → Except IterFault (List (KvReply × HostMem) × IterTable)
  | [], t => .ok ([], t)
  | r :: rs, t => do
      let (reply, host, t) ← doPerformKvIterIo ftl r.call (r.others t)
      let (replies, t) ← iterReads ftl rs t
      return ((reply, host) :: replies, t)

/-- **The keys to be returned**: of every slot in use whose first four bytes match under the mask, in slot order. -/
def KvFtl.matching (ftl : KvFtl) (iterVal bitmask : UInt32) : List (List UInt8) :=
  ((List.range ftl.hashSlots).filter fun i => !(ftl.kvMappingTable i).isFree &&
    (UInt32.ofNat (u32le (ftl.kvMappingTable i).key) &&& bitmask == iterVal &&& bitmask)).map
    fun i => (ftl.kvMappingTable i).iterKey

/-- **An iteration**: as many reads as there are chunks of keys, of which the last and no other reports the end. Each
    returns the buffer with its chunk, at most 1024 bytes. -/
structure Iterates (ftl : KvFtl) (reads : Nat → IterRead) (t : IterTable) (chunks : List (List (List UInt8))) : Prop where
  ne_nil : chunks ≠ []
  returns : ∃ replies t', iterReads ftl ((List.range chunks.length).map reads) t = .ok (replies, t') ∧
    ∀ k chunk, chunks[k]? = some chunk → ∃ host,
      replies[k]? = some (⟨(encodeKeys chunk).length, some (if k + 1 = chunks.length then iterEnd else 0)⟩, host) ∧
      scatter (reads k).call.cmd.prps (encodeKeys chunk) (reads k).call.host = some host ∧
      (encodeKeys chunk).length ≤ iterBufLen

section Iteration

variable {ftl : KvFtl} {ctx : KvIterContext} {t : IterTable} {h : Nat} {reads : Nat → IterRead}

theorem keysFrom_zero : keysFrom ftl ctx 0 = ftl.matching ctx.keyPrefix ctx.bitmask := by
  rw [keysFrom, KvFtl.matching, List.range_eq_range']
  rfl

/-- A read through the handle, and the rest of the iteration after it. -/
theorem Iterates.cons {chunk : List (List UInt8)} {chunks : List (List (List UInt8))} {t' : IterTable} {host : HostMem}
    (hread : doPerformKvIterIo ftl (reads 0).call ((reads 0).others t) =
      .ok (⟨(encodeKeys chunk).length, some 0⟩, host, t'))
    (hhost : scatter (reads 0).call.cmd.prps (encodeKeys chunk) (reads 0).call.host = some host)
    (hle : (encodeKeys chunk).length ≤ iterBufLen) (hrest : Iterates ftl (fun k => reads (k + 1)) t' chunks) :
    Iterates ftl reads t (chunk :: chunks) where
  ne_nil := List.cons_ne_nil _ _
  returns := by
    obtain ⟨replies, t'', hreads, hreplies⟩ := hrest.returns
    refine ⟨(⟨(encodeKeys chunk).length, some 0⟩, host) :: replies, t'', ?_, ?_⟩
    · rw [List.length_cons, List.range_succ_eq_map, List.map_cons, List.map_map, iterReads, hread, ok_bind]
      dsimp only
      rw [show (reads ∘ Nat.succ) = fun k => reads (k + 1) from rfl, hreads]
      rfl
    · intro k c hk
      cases k with
      | zero =>
          cases hk
          refine ⟨host, ?_, hhost, hle⟩
          rw [if_neg]
          · rfl
          · have := List.length_pos_iff.mpr hrest.ne_nil
            rw [List.length_cons]
            omega
      | succ k =>
          obtain ⟨host', hreply, hscatter, hlen⟩ := hreplies k c hk
          refine ⟨host', ?_, hscatter, hlen⟩
          rw [List.getElem?_cons_succ, hreply, List.length_cons]
          simp

/-- The last read. -/
theorem iterates_last {chunk : List (List UInt8)} {t' : IterTable} {host : HostMem}
    (hread : doPerformKvIterIo ftl (reads 0).call ((reads 0).others t) =
      .ok (⟨(encodeKeys chunk).length, some iterEnd⟩, host, t'))
    (hhost : scatter (reads 0).call.cmd.prps (encodeKeys chunk) (reads 0).call.host = some host)
    (hle : (encodeKeys chunk).length ≤ iterBufLen) : Iterates ftl reads t [chunk] where
  ne_nil := List.cons_ne_nil _ _
  returns := by
    refine ⟨[(⟨(encodeKeys chunk).length, some iterEnd⟩, host)], t', ?_, ?_⟩
    · show iterReads ftl [reads 0] t = _
      rw [iterReads, hread, ok_bind]
      rfl
    · intro k c hk
      cases k with
      | zero =>
          cases hk
          exact ⟨host, rfl, hhost, hle⟩
      | succ k => cases hk

/-- **The rest of an iteration**, by induction on the number of keys left: a read that does not reach the end returns
    at least one. -/
theorem exists_iterates (n : Nat) (hlt : h < 17) (hthrough : ∀ k, (reads k).Through h)
    (hslot : t.iterHandle h = .context ctx) (hpos : ctx.currentPos < ftl.hashSlots)
    (hn : (keysFrom ftl ctx ctx.currentPos).length < n) :
    ∃ chunks, Iterates ftl reads t chunks ∧ chunks.flatten = keysFrom ftl ctx ctx.currentPos := by
  induction n generalizing t ctx reads with
  | zero => omega
  | succ n ih =>
      have hr := hthrough 0
      have hslot' : ((reads 0).others t).iterHandle h = .context ctx := (hr.apart t).trans hslot
      obtain ⟨keys, atEnd, ctx', host, hret, hread⟩ := kvIterRead_spec hslot' hlt hr.handle_eq hpos hr.prps
      have hio : doPerformKvIterIo ftl (reads 0).call ((reads 0).others t) =
          .ok (⟨(encodeKeys keys).length, some (if atEnd then iterEnd else 0)⟩, host,
            ((reads 0).others t).store h (.context ctx')) := by
        unfold doPerformKvIterIo
        rw [hr.opcode_eq]
        exact hread
      cases atEnd with
      | true =>
          refine ⟨[keys], iterates_last hio hret.delivered hret.length_le, ?_⟩
          rw [hret.split_eq, hret.at_end rfl, keysFrom_end]
          simp
      | false =>
          obtain ⟨hpos', hne⟩ := hret.goes_on rfl
          have hlen : (keysFrom ftl ctx' ctx'.currentPos).length < n := by
            have := List.length_pos_iff.mpr hne
            rw [hret.split_eq, List.length_append] at hn
            omega
          obtain ⟨chunks, hiter, hflat⟩ := ih (fun k => hthrough (k + 1)) (store_self _ h _) hpos' hlen
          refine ⟨keys :: chunks, hiter.cons hio hret.delivered hret.length_le, ?_⟩
          rw [List.flatten_cons, hflat, hret.split_eq]

/-- What `kv_iter_open` sets up. -/
theorem kvIterOpen_context {call : IterCall} {t' : IterTable} (hopen : kvIterOpen call t = (⟨h, some 0⟩, t')) :
    h < 17 ∧ t'.iterHandle h = .context ⟨call.cmd.iterVal, call.cmd.iterBitmask, call.fresh, 0⟩ := by
  unfold kvIterOpen at hopen
  split at hopen
  · cases hopen
  · next iter hfind =>
      have hmem := List.mem_of_find?_eq_some hfind
      cases hopen
      rw [List.mem_range'_1] at hmem
      exact ⟨by omega, store_self t h _⟩

/-- **An iteration is complete.** After an open that set its status, reads through the handle return every matching key
    once and in slot order, and after finitely many of them the end. -/
theorem kv_iter_complete (hslots : 0 < ftl.hashSlots) {call : IterCall} {t' : IterTable}
    (hopen : kvIterOpen call t = (⟨h, some 0⟩, t')) (hthrough : ∀ k, (reads k).Through h) :
    ∃ chunks, Iterates ftl reads t' chunks ∧ chunks.flatten = ftl.matching call.cmd.iterVal call.cmd.iterBitmask := by
  obtain ⟨hlt, hslot⟩ := kvIterOpen_context hopen
  obtain ⟨chunks, hiter, hflat⟩ := exists_iterates _ hlt hthrough hslot hslots (Nat.lt_succ_self _)
  exact ⟨chunks, hiter, hflat.trans keysFrom_zero⟩

/-- A table of 80 slots: of every eight, one is free, one has a key that begins with an 8, and six have one that begins
    with a 7. -/
def sixOfEight : KvFtl :=
  ⟨fun i => if i % 8 = 0 then .initial
    else ⟨(if i % 8 = 1 then 8 else 7) :: UInt8.ofNat i :: List.replicate 16 0, 0, 4, noSlot⟩, 80⟩

/-- An iterator command with a buffer at address 0. -/
def iterCall (opcode : KvIterOpcode) (iterHandle option : UInt8) : IterCall :=
  ⟨⟨opcode, iterHandle, option, 7, 0xff, 0, 0⟩, fun _ => 0, fun _ => 0⟩

/-- The iteration over that table for keys that begin with a 7: sixty keys, too many for one buffer. -/
theorem kv_iter_complete_two_reads :
    ∃ chunks, Iterates sixOfEight (fun _ => ⟨id, iterCall .iterRead 1 0⟩)
      (kvIterOpen (iterCall .iterReq 0 iterOptionOpen) (.init 0)).2 chunks ∧ 2 ≤ chunks.length ∧
      chunks.flatten = ((List.range 80).filter (2 ≤ · % 8)).map fun i => 7 :: UInt8.ofNat i :: List.replicate 14 0 := by
  have hmatching : sixOfEight.matching 7 0xff =
      ((List.range 80).filter (2 ≤ · % 8)).map fun i => 7 :: UInt8.ofNat i :: List.replicate 14 0 := by decide +kernel
  have hopen : kvIterOpen (iterCall .iterReq 0 iterOptionOpen) (.init 0) =
      (⟨1, some 0⟩, (kvIterOpen (iterCall .iterReq 0 iterOptionOpen) (.init 0)).2) := rfl
  have hthrough : ∀ _ : Nat, (⟨id, iterCall .iterRead 1 0⟩ : IterRead).Through 1 := fun _ =>
    { opcode_eq := rfl, handle_eq := rfl, prps := by decide, apart := fun _ => rfl }
  obtain ⟨chunks, hiter, hflat⟩ := kv_iter_complete (show 0 < sixOfEight.hashSlots by decide) hopen hthrough
  refine ⟨chunks, hiter, ?_, hflat.trans hmatching⟩
  -- one chunk would have all sixty keys
  have hone : ¬ (encodeKeys (sixOfEight.matching 7 0xff)).length ≤ iterBufLen := by decide +kernel
  obtain ⟨_, _, _, hreplies⟩ := hiter.returns
  rcases chunks with _ | ⟨chunk, _ | ⟨_, _⟩⟩
  · exact absurd rfl hiter.ne_nil
  · obtain ⟨_, _, _, hle⟩ := hreplies 0 chunk rfl
    rw [List.flatten_singleton] at hflat
    exact absurd (hflat ▸ hle) hone
  · simp

end Iteration

end NvmeVirt
