import NvmeVirt.Kv.Refine
import NvmeVirt.Kv.Io

/-!
# `Kv.Values` — stored values and their extents

With the append-only allocator every key owns an extent: as many bytes, from its offset on, as its *first* value had.
Extents of different keys are disjoint, so values stay apart as long as no update writes beyond the extent of its key.
Nothing in `__do_perform_kv_io` ensures that. A longer value is written over the extent that follows, and the length
of the mapping follows the new length only if both lengths are at most `SMALL_LENGTH`, so that after other updates a
retrieval returns a value of the wrong length.

`Kept` says what holds as long as every store `Fits`: keys apart (see `Kv.Refine`), updates inside the extent, lengths
that the mapping follows. `kv_values_isolated` is the result for whole runs of stores, `kv_values_overlap` the runs that
show both failures.
-/

namespace NvmeVirt

open Outcome

/-! ## Histories -/

/-- The values stored so far, newest first. -/
abbrev KvHistory := List (KvKey × List UInt8)

/-- The value stored last under a key. -/
def lastValue : KvHistory → KvKey → Option (List UInt8)
  | [], _ => none
  | (k, v) :: hist, x => if x = k then some v else lastValue hist x

/-- The length of the first value stored under a key. -/
def firstLength : KvHistory → KvKey → Option Nat
  | [], _ => none
  | (k, v) :: hist, x =>
      match firstLength hist x with
      | some n => some n
      | none => if x = k then some v.length else none

variable {hist : KvHistory} {k x : KvKey} {v : List UInt8}

@[simp] theorem lastValue_self : lastValue ((k, v) :: hist) k = some v := by simp [lastValue]

theorem lastValue_of_ne (h : x ≠ k) : lastValue ((k, v) :: hist) x = lastValue hist x := by simp [lastValue, h]

theorem firstLength_of_ne (h : x ≠ k) : firstLength ((k, v) :: hist) x = firstLength hist x := by
  rw [firstLength]
  cases firstLength hist x <;> simp [h]

theorem firstLength_eq_none_iff : firstLength hist x = none ↔ lastValue hist x = none := by
  induction hist with
  | nil => simp [firstLength, lastValue]
  | cons e hist ih =>
      obtain ⟨k, v⟩ := e
      by_cases hx : x = k
      · subst hx
        rw [firstLength]
        cases firstLength hist x <;> simp
      · rw [firstLength_of_ne hx, lastValue_of_ne hx, ih]

/-- A first value has its own length. -/
theorem firstLength_new (h : lastValue hist k = none) : firstLength ((k, v) :: hist) k = some v.length := by
  rw [firstLength, firstLength_eq_none_iff.mpr h]
  simp

/-- An update does not change the extent. -/
theorem firstLength_old {n : Nat} (h : firstLength hist k = some n) : firstLength ((k, v) :: hist) k = some n := by
  rw [firstLength, h]

/-! ## The invariant -/

/-- Where the stored values are: the record of a key is its offset and the length of its last value. -/
def recordOf (hist : KvHistory) (offsetOf : KvKey → Nat) (k : KvKey) : Option KvRecord :=
  (lastValue hist k).map fun v => ⟨offsetOf k, v.length⟩

/-- **Every key has its value in an extent of its own.** -/
structure Kept (storageSize : UInt64) (s : KvNs) (hist : KvHistory) (offsetOf : KvKey → Nat) : Prop where
  indexed : ∃ slotOf, Indexed s.ftl (recordOf hist offsetOf) slotOf
  bytes : ∀ k v, lastValue hist k = some v → bytesAt s.storage (offsetOf k) v.length = v
  within : ∀ k v n, lastValue hist k = some v → firstLength hist k = some n → v.length ≤ n
  below : ∀ k n, firstLength hist k = some n → offsetOf k + n ≤ s.latest
  disjoint : ∀ k k' n n', k ≠ k' → firstLength hist k = some n → firstLength hist k' = some n' →
    offsetOf k + n ≤ offsetOf k' ∨ offsetOf k' + n' ≤ offsetOf k
  latest_le : s.latest ≤ storageSize.toNat

/-- The storage is not exhausted: a key that is not stored yet finds room for its value. -/
def StorageLeft (storageSize : UInt64) (s : KvNs) (hist : KvHistory) (cmd : KvCommand) : Prop :=
  lastValue hist cmd.key = none → s.latest < storageSize.toNat ∧ s.latest + cmd.valueLength ≤ storageSize.toNat

/-- **The stores that stay inside their extents**: neither the key nor a different stored one is the beginning of the
    other; a new key finds a free slot; an update is not longer than the first value of its key, and as long as the
    last one unless both are small. -/
structure Fits (s : KvNs) (hist : KvHistory) (cmd : KvCommand) : Prop where
  apart : cmd.key.ApartFrom (lastValue hist)
  slot : lastValue hist cmd.key = none → ∃ f, f < s.ftl.hashSlots ∧ ¬ s.ftl.Live f
  extent : ∀ n, firstLength hist cmd.key = some n → cmd.valueLength ≤ n
  small : ∀ v, lastValue hist cmd.key = some v →
    cmd.valueLength = v.length ∨ (cmd.valueLength ≤ smallLength ∧ v.length ≤ smallLength)

variable {storageSize : UInt64} {s : KvNs} {offsetOf : KvKey → Nat} {cmd : KvCommand} {host : HostMem}

theorem recordOf_eq_some {r : KvRecord} (h : recordOf hist offsetOf k = some r) :
    ∃ v, lastValue hist k = some v ∧ r = ⟨offsetOf k, v.length⟩ := by
  obtain ⟨v, hv, rfl⟩ := Option.map_eq_some_iff.mp h
  exact ⟨v, hv, rfl⟩

theorem apartFrom_recordOf (h : k.ApartFrom (lastValue hist)) : k.ApartFrom (recordOf hist offsetOf) := by
  intro k' r hk'
  obtain ⟨v, hv, _⟩ := recordOf_eq_some hk'
  exact h k' v hv

/-- One more store, in the terms of the index. -/
theorem recordOf_cons (off : Nat) : recordOf ((k, v) :: hist) (Function.update offsetOf k off) =
    Function.update (recordOf hist offsetOf) k (some ⟨off, v.length⟩) := by
  funext x
  by_cases hx : x = k
  · subst hx
    simp [recordOf]
  · simp [recordOf, lastValue_of_ne hx, hx]

theorem kept_init (storage : Nat → UInt8) : Kept storageSize (.init storage) [] (fun _ => 0) where
  indexed := ⟨_, indexed_init⟩
  bytes := fun _ _ h => by cases h
  within := fun _ _ _ h => by cases h
  below := fun _ _ h => by cases h
  disjoint := fun _ _ _ _ _ h => by cases h
  latest_le := Nat.zero_le _

/-! ## Retrieval -/

/-- What the host sees of a retrieval that returns exactly the value `v`: its length, and its bytes where the command
    designates. -/
def returned (cmd : KvCommand) (v : List UInt8) (host : HostMem) : Except KvFault (KvReply × HostMem) :=
  match scatter cmd.prps v host with
  | none => .error .nullPrpList
  | some host' => .ok (⟨v.length, none⟩, host')

theorem bytesAt_take (mem : Nat → UInt8) (a n m : Nat) : (bytesAt mem a n).take m = bytesAt mem a (min n m) := by
  simp [bytesAt, ← List.map_take, List.take_range, Nat.min_comm]

/-- The mapping of a stored key. -/
theorem Kept.get_stored (h : Kept storageSize s hist offsetOf) (hv : lastValue hist k = some v) :
    offsetOf k ≠ noOffset ∧
      ∃ m, getMappingEntry s.ftl k = .ok m ∧ m.memOffset = offsetOf k ∧ m.length = v.length := by
  obtain ⟨slotOf, hidx⟩ := h.indexed
  have hrec : recordOf hist offsetOf k = some ⟨offsetOf k, v.length⟩ := by simp [recordOf, hv]
  obtain ⟨m, hm, hval⟩ := hidx.get_eq fun k' r' hk' => hidx.apart _ k' _ r' hrec hk'
  rw [hrec, reported] at hval
  obtain ⟨hoff, hlen⟩ := Prod.mk.inj hval
  exact ⟨hidx.offset_ne hrec, m, hm, hoff, hlen⟩

/-- **A retrieval shows the value stored last**, as far as the buffer reaches. -/
theorem Kept.retrieve (h : Kept storageSize s hist offsetOf) (hop : cmd.opcode = .retrieve)
    (hv : lastValue hist cmd.key = some v) :
    kvObserve storageSize cmd host s = returned cmd (v.take cmd.valueLength) host := by
  obtain ⟨hfound, m, hm, hoff, hlen⟩ := h.get_stored hv
  unfold kvObserve doPerformKvIo returned
  simp only [hm, ok_bind, hop, hoff, hlen, if_neg hfound, KvCommand.move, transfer_toHost]
  -- the bytes copied are the beginning of the value
  rw [← bytesAt_take, h.bytes _ v hv, List.length_take, Nat.min_comm]
  cases scatter cmd.prps (v.take cmd.valueLength) host <;> rfl

/-! ## Stores -/

/-- The bytes of an extent that a write elsewhere leaves alone. -/
theorem Wrote.bytesAt_eq {off a n : Nat} {bytes : List UInt8} {m m' : IoMem} (h : Wrote off bytes m m')
    (hd : a + n ≤ off ∨ off + bytes.length ≤ a) : bytesAt m'.storage a n = bytesAt m.storage a n := by
  apply bytesAt_congr
  intro i hi
  exact h.frame _ (by omega)

theorem move_toStorage (cmd : KvCommand) (off : Nat) (m : IoMem) :
    Sat (fun e => e = .nullPrpList ∧ cmd.prp2.toNat % pageSize ≠ 0)
      (fun m' => ∃ v, gather cmd.prps cmd.valueLength m.host = some v ∧ v.length = cmd.valueLength ∧ Wrote off v m m')
      (cmd.move .toStorage off cmd.valueLength m) := by
  unfold KvCommand.move
  rcases transfer_toStorage cmd.prps off cmd.valueLength m with ⟨_, hnone⟩ | ⟨v, m', hg, hs, hlen, hw⟩
  · rw [hnone]
    refine ⟨rfl, fun hp => ?_⟩
    exact prpLoop_ne_none (p := cmd.prps) hp (Or.inl (Nat.zero_le 1)) hnone
  · rw [hs]
    exact ⟨v, hg, hlen, hw⟩

/-- **A first value** goes to a new extent behind all others. -/
theorem Kept.insert (h : Kept storageSize s hist offsetOf) (hfits : Fits s hist cmd)
    (hleft : StorageLeft storageSize s hist cmd) (hnew : lastValue hist cmd.key = none) {m' : IoMem}
    (hlen : v.length = cmd.valueLength) (hw : Wrote s.latest v ⟨host, s.storage⟩ m') :
    Sat (fun _ => False)
      (fun ftl => Kept storageSize ⟨ftl, s.latest + cmd.valueLength, m'.storage⟩ ((cmd.key, v) :: hist)
        (Function.update offsetOf cmd.key s.latest))
      (newMappingEntry storageSize s.ftl cmd.key s.latest cmd.valueLength) := by
  obtain ⟨slotOf, hidx⟩ := h.indexed
  obtain ⟨hlt, hroom⟩ := hleft hnew
  obtain ⟨f, hf, hfree⟩ := hfits.slot hnew
  have hno : ∀ e : KvFault, (e = .bug ∧ storageSize.toNat ≤ s.latest) ∨ (e = .hang ∧ s.ftl.Full) → False := by
    rintro e (⟨_, hge⟩ | ⟨_, hfull⟩)
    · omega
    · exact hfree (hfull f hf)
  have hM : recordOf hist offsetOf cmd.key = none := by simp [recordOf, hnew]
  refine ((hidx.insert (apartFrom_recordOf hfits.apart) hM storageSize s.latest cmd.valueLength).mono_error
    hno).mono fun ftl hftl => ?_
  refine { indexed := ?_, bytes := ?_, within := ?_, below := ?_, disjoint := ?_, latest_le := hroom }
  · rw [recordOf_cons, hlen]
    exact hftl
  · intro x w hx
    by_cases hxk : x = cmd.key
    · subst hxk
      rw [lastValue_self] at hx
      cases hx
      rw [Function.update_self]
      exact hw.bytes_eq
    · rw [lastValue_of_ne hxk] at hx
      rw [Function.update_of_ne hxk]
      -- an old value lies below the new extent
      cases hn : firstLength hist x with
      | none =>
          rw [firstLength_eq_none_iff.mp hn] at hx
          cases hx
      | some n =>
          have hin := h.within x w n hx hn
          have hbelow := h.below x n hn
          rw [hw.bytesAt_eq (Or.inl (by omega))]
          exact h.bytes x w hx
  · intro x w n hx hn
    by_cases hxk : x = cmd.key
    · subst hxk
      rw [lastValue_self] at hx
      rw [firstLength_new hnew] at hn
      cases hx
      cases hn
      exact Nat.le_refl _
    · rw [lastValue_of_ne hxk] at hx
      rw [firstLength_of_ne hxk] at hn
      exact h.within x w n hx hn
  · intro x n hn
    by_cases hxk : x = cmd.key
    · subst hxk
      rw [firstLength_new hnew] at hn
      cases hn
      rw [Function.update_self, hlen]
    · rw [firstLength_of_ne hxk] at hn
      rw [Function.update_of_ne hxk]
      exact Nat.le_trans (h.below x n hn) (Nat.le_add_right _ _)
  · intro x y n n' hxy hn hn'
    by_cases hxk : x = cmd.key
    · subst hxk
      rw [firstLength_of_ne hxy.symm] at hn'
      rw [Function.update_self, Function.update_of_ne hxy.symm]
      exact Or.inr (h.below y n' hn')
    · rw [firstLength_of_ne hxk] at hn
      rw [Function.update_of_ne hxk]
      by_cases hyk : y = cmd.key
      · subst hyk
        rw [Function.update_self]
        exact Or.inl (h.below x n hn)
      · rw [firstLength_of_ne hyk] at hn'
        rw [Function.update_of_ne hyk]
        exact h.disjoint x y n n' hxy hn hn'

/-- **An update** inside the extent. The index is that of the new length. -/
theorem Kept.overwrite (h : Kept storageSize s hist offsetOf) (hfits : Fits s hist cmd) {w : List UInt8}
    (hold : lastValue hist cmd.key = some w) {m' : IoMem} (hlen : v.length = cmd.valueLength)
    (hw : Wrote (offsetOf cmd.key) v ⟨host, s.storage⟩ m') {ftl : KvFtl} {slotOf : KvKey → Nat}
    (hidx : Indexed ftl (recordOf ((cmd.key, v) :: hist) offsetOf) slotOf) :
    Kept storageSize ⟨ftl, s.latest, m'.storage⟩ ((cmd.key, v) :: hist) offsetOf := by
  have hfirst : ∃ n, firstLength hist cmd.key = some n := by
    cases hn : firstLength hist cmd.key with
    | none =>
        rw [firstLength_eq_none_iff.mp hn] at hold
        cases hold
    | some n => exact ⟨n, rfl⟩
  obtain ⟨n0, hn0⟩ := hfirst
  have hin := hfits.extent n0 hn0
  -- the extents are those of before
  have hsame : ∀ x, firstLength ((cmd.key, v) :: hist) x = firstLength hist x := by
    intro x
    by_cases hxk : x = cmd.key
    · subst hxk
      rw [firstLength_old hn0, hn0]
    · exact firstLength_of_ne hxk
  refine { indexed := ⟨slotOf, hidx⟩, bytes := ?_, within := ?_, below := ?_, disjoint := ?_,
           latest_le := h.latest_le }
  · intro x u hx
    by_cases hxk : x = cmd.key
    · subst hxk
      rw [lastValue_self] at hx
      cases hx
      exact hw.bytes_eq
    · rw [lastValue_of_ne hxk] at hx
      cases hn : firstLength hist x with
      | none =>
          rw [firstLength_eq_none_iff.mp hn] at hx
          cases hx
      | some n =>
          have hdis := h.disjoint x cmd.key n n0 hxk hn hn0
          have hle := h.within x u n hx hn
          rw [hw.bytesAt_eq (by omega)]
          exact h.bytes x u hx
  · intro x u n hx hn
    rw [hsame] at hn
    by_cases hxk : x = cmd.key
    · subst hxk
      rw [lastValue_self] at hx
      cases hx
      rw [hn0] at hn
      cases hn
      omega
    · rw [lastValue_of_ne hxk] at hx
      exact h.within x u n hx hn
  · intro x n hn
    rw [hsame] at hn
    exact h.below x n hn
  · intro x y n n' hxy hn hn'
    rw [hsame] at hn hn'
    exact h.disjoint x y n n' hxy hn hn'

/-- **Step.** A store that fits returns, unless PRP2 of the command is unaligned, and keeps every key in its extent. -/
theorem Kept.store (h : Kept storageSize s hist offsetOf) (hop : cmd.opcode = .store)
    (hleft : StorageLeft storageSize s hist cmd) (hfits : Fits s hist cmd) :
    Sat (fun e => e = .nullPrpList ∧ cmd.prp2.toNat % pageSize ≠ 0)
      (fun r => ∃ v, gather cmd.prps cmd.valueLength host = some v ∧ v.length = cmd.valueLength ∧
        ∃ offsetOf', Kept storageSize r.2.2 ((cmd.key, v) :: hist) offsetOf')
      (doPerformKvIo storageSize cmd host s) := by
  obtain ⟨slotOf, hidx⟩ := h.indexed
  have hap : cmd.key.ApartFrom (recordOf hist offsetOf) := apartFrom_recordOf hfits.apart
  unfold doPerformKvIo
  cases hold : lastValue hist cmd.key with
  | none =>
      obtain ⟨hlt, hroom⟩ := hleft hold
      have hM : recordOf hist offsetOf cmd.key = none := by simp [recordOf, hold]
      obtain ⟨m, hm, hval⟩ := hidx.get_eq hap
      simp only [hm, ok_bind, hop]
      rw [if_pos ((hidx.missing_iff hval).mpr hM)]
      -- the allocator neither fails nor wraps
      have halloc : allocateMemOffset s cmd = (s.latest, { s with latest := s.latest + cmd.valueLength }) := by
        have hsize := storageSize.toNat_lt
        rw [allocateMemOffset, appendOnlyAllocate]
        simp only
        rw [if_neg (noOffset_of_lt hlt), Nat.mod_eq_of_lt (by omega)]
      simp only [halloc]
      refine (move_toStorage cmd s.latest ⟨host, s.storage⟩).bind ?_
      rintro m' ⟨v, hg, hlen, hw⟩
      have hins := h.insert hfits hleft hold hlen hw
      refine (hins.mono_error fun _ he => he.elim).bind fun ftl hftl => ?_
      exact ⟨v, hg, hlen, _, hftl⟩
  | some w =>
      have hM : recordOf hist offsetOf cmd.key = some ⟨offsetOf cmd.key, w.length⟩ := by simp [recordOf, hold]
      obtain ⟨hfound, m, hm, hoff, hmlen⟩ := h.get_stored hold
      simp only [hm, ok_bind, hop, hoff, hmlen, if_neg hfound]
      refine (move_toStorage cmd _ ⟨host, s.storage⟩).bind ?_
      rintro m' ⟨v, hg, hlen, hw⟩
      have hrec : recordOf ((cmd.key, v) :: hist) offsetOf =
          Function.update (recordOf hist offsetOf) cmd.key (some ⟨offsetOf cmd.key, cmd.valueLength⟩) := by
        rw [← hlen, ← recordOf_cons, Function.update_eq_self]
      by_cases hne : cmd.valueLength = w.length
      · -- the same length: the index stays as it is
        rw [if_neg (by simp [hne])]
        rw [hne, ← hM, Function.update_eq_self] at hrec
        exact ⟨v, hg, hlen, offsetOf, h.overwrite hfits hold hlen hw (hrec ▸ hidx)⟩
      · have hsmall := (hfits.small w hold).resolve_left hne
        rw [if_pos ⟨hne, hsmall⟩]
        obtain ⟨ftl, hupd, hidx'⟩ := hidx.update hap hM cmd.valueLength
        rw [hupd]
        exact ⟨v, hg, hlen, offsetOf, h.overwrite hfits hold hlen hw (hrec ▸ hidx')⟩

/-! ## Runs of stores -/

/-- Runs of `kv_store` commands, with any host memory for each, from an initialised namespace whose storage holds
    anything. `G` restricts the commands. -/
inductive KvStoreRun (storageSize : UInt64) (G : KvNs → KvHistory → KvCommand → Prop) : KvNs → KvHistory → Prop
  | init (storage : Nat → UInt8) : KvStoreRun storageSize G (.init storage) []
  | step {s : KvNs} {hist : KvHistory} {cmd : KvCommand} {host : HostMem} {v : List UInt8}
      {r : KvReply × HostMem × KvNs} (hr : KvStoreRun storageSize G s hist) (hop : cmd.opcode = .store)
      (hleft : StorageLeft storageSize s hist cmd) (hg : G s hist cmd)
      (hv : gather cmd.prps cmd.valueLength host = some v) (hs : doPerformKvIo storageSize cmd host s = .ok r) :
      KvStoreRun storageSize G r.2.2 ((cmd.key, v) :: hist)

/-- **Run.** -/
theorem KvStoreRun.kept (hr : KvStoreRun storageSize Fits s hist) : ∃ offsetOf, Kept storageSize s hist offsetOf := by
  induction hr with
  | init storage => exact ⟨_, kept_init storage⟩
  | step _ hop hleft hg hv hs ih =>
      obtain ⟨_, h⟩ := ih
      obtain ⟨v', hv', _, hkept⟩ := (h.store hop hleft hg).of_eq_ok hs
      rw [hv'] at hv
      cases hv
      exact hkept

/-- **Values are isolated** along stores that stay inside their extents. The next such store returns, unless its PRP2 is
    unaligned; what a retrieval of any other stored key shows is then as before, for every buffer and host memory; and
    a retrieval of its own key into a buffer that is large enough returns exactly the bytes it designated. -/
theorem kv_values_isolated (hr : KvStoreRun storageSize Fits s hist) (hop : cmd.opcode = .store)
    (hleft : StorageLeft storageSize s hist cmd) (hfits : Fits s hist cmd) (host : HostMem) :
    Sat (fun e => e = .nullPrpList ∧ cmd.prp2.toNat % pageSize ≠ 0)
      (fun r =>
        (∀ cmd₂ host₂ v₂, cmd₂.opcode = .retrieve → cmd₂.key ≠ cmd.key → lastValue hist cmd₂.key = some v₂ →
          kvObserve storageSize cmd₂ host₂ r.2.2 = kvObserve storageSize cmd₂ host₂ s) ∧
        ∃ v, gather cmd.prps cmd.valueLength host = some v ∧ v.length = cmd.valueLength ∧
          ∀ cmd₁ host₁, cmd₁.opcode = .retrieve → cmd₁.key = cmd.key → cmd.valueLength ≤ cmd₁.valueLength →
            kvObserve storageSize cmd₁ host₁ r.2.2 = returned cmd₁ v host₁)
      (doPerformKvIo storageSize cmd host s) := by
  obtain ⟨offsetOf, h⟩ := hr.kept
  refine (h.store hop hleft hfits).mono ?_
  rintro r ⟨v, hv, hlen, offsetOf', h'⟩
  refine ⟨?_, v, hv, hlen, ?_⟩
  · intro cmd₂ host₂ v₂ hop₂ hne hv₂
    rw [h.retrieve hop₂ hv₂, h'.retrieve hop₂ (by rw [lastValue_of_ne hne, hv₂])]
  · intro cmd₁ host₁ hop₁ hkey hbuf
    rw [h'.retrieve hop₁ (by rw [hkey, lastValue_self]), List.take_of_length_le (by omega)]

/-! ## Concrete runs -/

/-- A run of stores from one host memory that was played, each one checked by `B` first, as far as an
    observation `f`. -/
theorem exists_kvStoreRun {α : Type} (storageSize : UInt64) (host : HostMem)
    {G : KvNs → KvHistory → KvCommand → Prop} {B : KvNs → KvHistory → KvCommand → Bool}
    (hB : ∀ s hist cmd, B s hist cmd = true → StorageLeft storageSize s hist cmd ∧ G s hist cmd)
    (todo : List KvCommand) (f : KvNs → KvHistory → α) (a : α)
    (h : (todo.foldlM (admitted
        (fun s cmd => do
          let r ← doPerformKvIo storageSize cmd host s.1
          return (r.2.2, (cmd.key, (gather cmd.prps cmd.valueLength host).getD []) :: s.2))
        fun s cmd => cmd.opcode = .store && (gather cmd.prps cmd.valueLength host).isSome && B s.1 s.2 cmd)
      (.init fun _ => 0, [])).map (fun s => f s.1 s.2) = some a) :
    ∃ s hist, KvStoreRun storageSize G s hist ∧ f s hist = a := by
  obtain ⟨s, hr, hf⟩ := exists_played (P := fun s => KvStoreRun storageSize G s.1 s.2) (fun s cmd s' hr hb hstep => by
    obtain ⟨r, hres, heq⟩ := bind_eq_ok hstep
    cases heq
    simp only [Bool.and_eq_true, decide_eq_true_eq] at hb
    obtain ⟨v, hv⟩ := Option.isSome_iff_exists.mp hb.1.2
    rw [hv]
    exact hr.step hb.1.1 (hB _ _ _ hb.2).1 (hB _ _ _ hb.2).2 hv hres) (KvStoreRun.init _) h
  exact ⟨s.1, s.2, hr, hf⟩

instance (s : KvNs) (hist : KvHistory) (cmd : KvCommand) : Decidable (StorageLeft storageSize s hist cmd) :=
  inferInstanceAs (Decidable (_ → _))

/-- `Fits`, with every key of the history and slot 0 as the free one. -/
def fitsCheck (s : KvNs) (hist : KvHistory) (cmd : KvCommand) : Bool :=
  hist.all (fun e => decide (cmd.key.Apart e.1)) && decide (0 < s.ftl.hashSlots) &&
    (s.ftl.kvMappingTable 0).isFree && (firstLength hist cmd.key).all (fun n => decide (cmd.valueLength ≤ n)) &&
    (lastValue hist cmd.key).all fun v =>
      decide (cmd.valueLength = v.length ∨ (cmd.valueLength ≤ smallLength ∧ v.length ≤ smallLength))

theorem mem_of_lastValue (h : lastValue hist k = some v) : (k, v) ∈ hist := by
  induction hist with
  | nil => cases h
  | cons e hist ih =>
      obtain ⟨k', v'⟩ := e
      by_cases hk : k = k'
      · subst hk
        rw [lastValue_self] at h
        cases h
        exact List.mem_cons_self ..
      · rw [lastValue_of_ne hk] at h
        exact List.mem_cons_of_mem _ (ih h)

theorem fits_of_check (h : fitsCheck s hist cmd = true) : Fits s hist cmd := by
  simp only [fitsCheck, Bool.and_eq_true, List.all_eq_true, decide_eq_true_eq] at h
  obtain ⟨⟨⟨⟨hkeys, hpos⟩, hfree⟩, hext⟩, hsmall⟩ := h
  refine { apart := ?_, slot := fun _ => ⟨0, hpos, by simp [KvFtl.Live, hfree]⟩, extent := ?_, small := ?_ }
  · intro k' v hk'
    exact hkeys _ (mem_of_lastValue hk')
  · intro n hn
    simpa [hn] using hext
  · intro v hv
    simpa [hv] using hsmall

/-- Host memory in which every byte of page `i` is `i`. -/
def pagedHost : HostMem := fun a => UInt8.ofNat (a / pageSize)

/-- A command with its buffer at the start of a page; `words` is the length in units of 4 bytes. -/
def kvCmd (opcode : KvOpcode) (key : KvKey) (words : UInt32) (page : UInt64) : KvCommand :=
  ⟨opcode, key, words, page * 4096, 0⟩

/-- The length that a retrieval returns, and the first `n` bytes of its buffer. -/
def retrieveSees (key : KvKey) (words : UInt32) (n : Nat) (s : KvNs) : Option (Nat × List UInt8) :=
  (kvObserve (2 ^ 30) (kvCmd .retrieve key words 9) pagedHost s).toOption.map fun r =>
    (r.1.result, bytesAt r.2 (9 * pageSize) n)

/-- Two colliding keys, the first one updated with a shorter value. -/
theorem kv_values_isolated_shorter :
    ∃ s hist, lastValue hist keyImxa = some [2, 2, 2, 2] ∧
      Sat (fun e => e = .nullPrpList ∧ (kvCmd .store keyAkcl 1 3).prp2.toNat % pageSize ≠ 0)
        (fun r => kvObserve (2 ^ 30) (kvCmd .retrieve keyImxa 1 9) pagedHost r.2.2 =
          kvObserve (2 ^ 30) (kvCmd .retrieve keyImxa 1 9) pagedHost s)
        (doPerformKvIo (2 ^ 30) (kvCmd .store keyAkcl 1 3) pagedHost s) := by
  obtain ⟨s, hist, hr, hobs⟩ := exists_kvStoreRun (2 ^ 30) pagedHost (G := Fits)
    (B := fun s hist cmd => decide (StorageLeft (2 ^ 30) s hist cmd) && fitsCheck s hist cmd)
    (fun s hist cmd h => by
      rw [Bool.and_eq_true, decide_eq_true_eq] at h
      exact ⟨h.1, fits_of_check h.2⟩)
    [kvCmd .store keyAkcl 2 1, kvCmd .store keyImxa 1 2]
    (fun s hist => (lastValue hist keyImxa, decide (StorageLeft (2 ^ 30) s hist (kvCmd .store keyAkcl 1 3)),
      fitsCheck s hist (kvCmd .store keyAkcl 1 3))) (some [2, 2, 2, 2], true, true) (by decide +kernel)
  obtain ⟨h1, h2, h3⟩ : _ ∧ _ ∧ _ := by simpa only [Prod.mk.injEq] using hobs
  have hiso := kv_values_isolated hr rfl (of_decide_eq_true h2) (fits_of_check h3) pagedHost
  refine ⟨s, hist, h1, hiso.mono fun r hr => ?_⟩
  exact hr.1 _ _ _ rfl (by decide) h1

/-- **Values that are not isolated.** With two keys of 4 bytes of value each, storing 8 bytes under the first changes
    what a retrieval of the second returns. And a value of 4 bytes stored over one of 2048 is retrieved with
    length 2048. -/
theorem kv_values_overlap :
    (∃ s hist, KvStoreRun (2 ^ 30) (fun _ _ _ => True) s hist ∧ lastValue hist keyImxa = some [2, 2, 2, 2] ∧
      retrieveSees keyImxa 1 4 s = some (4, [2, 2, 2, 2]) ∧
      (doPerformKvIo (2 ^ 30) (kvCmd .store keyAkcl 2 3) pagedHost s).toOption.bind
        (fun r => retrieveSees keyImxa 1 4 r.2.2) = some (4, [3, 3, 3, 3])) ∧
    ∃ s hist, KvStoreRun (2 ^ 30) (fun _ _ _ => True) s hist ∧ lastValue hist keyAkcl = some [2, 2, 2, 2] ∧
      retrieveSees keyAkcl 1024 8 s = some (2048, [2, 2, 2, 2, 1, 1, 1, 1]) := by
  constructor
  · obtain ⟨s, hist, hr, hobs⟩ := exists_kvStoreRun (2 ^ 30) pagedHost (G := fun _ _ _ => True)
      (B := fun s hist cmd => decide (StorageLeft (2 ^ 30) s hist cmd))
      (fun _ _ _ h => ⟨of_decide_eq_true h, trivial⟩)
      [kvCmd .store keyAkcl 1 1, kvCmd .store keyImxa 1 2]
      (fun s hist => (lastValue hist keyImxa, retrieveSees keyImxa 1 4 s,
        (doPerformKvIo (2 ^ 30) (kvCmd .store keyAkcl 2 3) pagedHost s).toOption.bind
          fun r => retrieveSees keyImxa 1 4 r.2.2))
      (some [2, 2, 2, 2], some (4, [2, 2, 2, 2]), some (4, [3, 3, 3, 3])) (by decide +kernel)
    simp only [Prod.mk.injEq] at hobs
    exact ⟨s, hist, hr, hobs⟩
  · obtain ⟨s, hist, hr, hobs⟩ := exists_kvStoreRun (2 ^ 30) pagedHost (G := fun _ _ _ => True)
      (B := fun s hist cmd => decide (StorageLeft (2 ^ 30) s hist cmd))
      (fun _ _ _ h => ⟨of_decide_eq_true h, trivial⟩)
      [kvCmd .store keyAkcl 512 1, kvCmd .store keyAkcl 1 2]
      (fun s hist => (lastValue hist keyAkcl, retrieveSees keyAkcl 1024 8 s))
      (some [2, 2, 2, 2], some (2048, [2, 2, 2, 2, 1, 1, 1, 1])) (by decide +kernel)
    simp only [Prod.mk.injEq] at hobs
    exact ⟨s, hist, hr, hobs⟩

end NvmeVirt
