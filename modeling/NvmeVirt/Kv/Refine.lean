import NvmeVirt.Kv.Chains
import Mathlib.Data.List.Infix

/-!
# `Kv.Refine` — the mapping table as a finite map

What the table is for is a map from keys to records: the offset and the length of the value. `Indexed ftl M` says
that the table is that map: every key of `M` stands, with its record, in an entry on the chain of its home slot,
and no other entry is in use.

The code keeps it as long as two things do not happen:

* a key that is the beginning of another one, or that begins with another one, comes together with it. A lookup
  compares as many bytes as the key *looked up* has, with what the entry's 18 bytes happen to be, so a key matches
  entries of other keys;
* an entry is deleted that another entry in use follows. The entry is wiped together with its link, so the rest of
  the chain is no longer reachable from its home slot.

`kv_index_refines_map` is the refinement for the runs in which neither happens, `kv_index_loses_keys` a run for
each of the two.
-/

namespace NvmeVirt

open Outcome Links

/-- What the index records for a key. -/
structure KvRecord where
  offset : Nat
  length : Nat
deriving DecidableEq, Repr

/-- The entry stands for the key, with its record. -/
structure MappingEntry.Holds (e : MappingEntry) (k : KvKey) (r : KvRecord) : Prop where
  key_eq : e.key.take k.bytes.length = k.bytes
  offset_eq : e.memOffset = r.offset
  length_eq : e.length = r.length

/-- Neither key is the beginning of the other, unless they are the same. -/
def KvKey.Apart (k k' : KvKey) : Prop := k.bytes <+: k'.bytes ∨ k'.bytes <+: k.bytes → k = k'

theorem KvKey.Apart.symm {k k' : KvKey} (h : k.Apart k') : k'.Apart k :=
  fun hp => (h hp.symm).symm

/-- **The table is the map `M`.** `slotOf` says where each key stands. -/
structure Indexed (ftl : KvFtl) (M : KvKey → Option KvRecord) (slotOf : KvKey → Nat) : Prop where
  chained : ∃ stamp, Chained ftl stamp
  stored : ∀ k r, M k = some r →
    ftl.Reach (getHashSlot ftl k) (slotOf k) ∧ (ftl.kvMappingTable (slotOf k)).Holds k r
  owned : ∀ a, a < ftl.hashSlots → ftl.Live a → ∃ k r, M k = some r ∧ slotOf k = a
  apart : ∀ k k' r r', M k = some r → M k' = some r' → k.Apart k'

/-- The key is apart from every key of the map. -/
def KvKey.ApartFrom {α : Type} (k : KvKey) (M : KvKey → Option α) : Prop := ∀ k' r, M k' = some r → k.Apart k'

variable {ftl ftl' : KvFtl} {M : KvKey → Option KvRecord} {slotOf : KvKey → Nat} {k k' : KvKey} {r : KvRecord}

/-! ## Lookup -/

theorem holds_of_sameContents {e e' : MappingEntry} (h : e.Holds k r) (hs : e.SameContents e') : e'.Holds k r where
  key_eq := by rw [hs.1]; exact h.key_eq
  offset_eq := by rw [hs.2.1]; exact h.offset_eq
  length_eq := by rw [hs.2.2]; exact h.length_eq

theorem MappingEntry.Holds.matches {e : MappingEntry} (h : e.Holds k r) : e.matchesKey k = true := by
  simp [MappingEntry.matchesKey, h.key_eq]

/-- Two keys that compare equal with one entry are not apart, unless they are the same. -/
theorem MappingEntry.Holds.eq_of_matches {e : MappingEntry} (h : e.Holds k' r) (hm : e.matchesKey k = true)
    (hap : k.Apart k') : k = k' := by
  apply hap
  have hk : k.bytes <+: e.key := by
    rw [← (by simpa [MappingEntry.matchesKey] using hm : e.key.take k.bytes.length = k.bytes)]
    exact List.take_prefix _ _
  have hk' : k'.bytes <+: e.key := by
    rw [← h.key_eq]
    exact List.take_prefix _ _
  exact List.prefix_or_prefix_of_prefix hk hk'

theorem Indexed.slot_lt (h : Indexed ftl M slotOf) (hk : M k = some r) : slotOf k < ftl.hashSlots := by
  obtain ⟨_, hc⟩ := h.chained
  exact hc.reach_lt (hc.home_lt k) (h.stored k r hk).1

/-- The entry in use that compares equal with a key apart from the stored ones is the key's own. -/
theorem Indexed.slot_of_matches (h : Indexed ftl M slotOf) (hap : k.ApartFrom M) {a : Nat}
    (ha : a < ftl.hashSlots) (hl : ftl.Live a) (hm : (ftl.kvMappingTable a).matchesKey k = true) :
    ∃ r, M k = some r ∧ slotOf k = a := by
  obtain ⟨k', r, hk', rfl⟩ := h.owned a ha hl
  obtain rfl := (h.stored k' r hk').2.eq_of_matches hm (hap k' r hk')
  exact ⟨r, hk', rfl⟩

/-- Two stored keys stand in different entries. -/
theorem Indexed.slot_inj (h : Indexed ftl M slotOf) {r' : KvRecord} (hk : M k = some r) (hk' : M k' = some r')
    (heq : slotOf k = slotOf k') : k = k' := by
  have hm := (h.stored k r hk).2.matches
  rw [heq] at hm
  exact (h.stored k' r' hk').2.eq_of_matches hm (h.apart k k' r r' hk hk')

/-- **The walk finds the key's entry**, or nothing if the key is not stored. -/
theorem Indexed.search_eq (h : Indexed ftl M slotOf) (hap : k.ApartFrom M) :
    search ftl k = .ok ((M k).map fun _ => slotOf k) := by
  obtain ⟨_, hc⟩ := h.chained
  obtain ⟨res, hres, hfinds⟩ := (search_spec hc k).exists_ok
  rw [hres]
  cases res with
  | none =>
      cases hM : M k with
      | none => rfl
      | some r =>
          -- the key's own entry is on the chain and compares equal
          obtain ⟨hreach, hholds⟩ := h.stored k r hM
          have hne := hfinds (slotOf k) hreach
          rw [hholds.matches] at hne
          cases hne
  | some a =>
      have ha := hc.reach_lt (hc.home_lt k) hfinds.1
      obtain ⟨r, hM, hslot⟩ := h.slot_of_matches hap ha hfinds.1.live_end hfinds.2
      simp [hM, hslot]

/-- Offset and length as `get_mapping_entry` reports them: all ones if there is no mapping. -/
def reported : Option KvRecord → Nat × Nat
  | none => (noOffset, 2 ^ 64 - 1)
  | some r => (r.offset, r.length)

/-- **`get_mapping_entry` returns what the map holds.** -/
theorem Indexed.get_eq (h : Indexed ftl M slotOf) (hap : k.ApartFrom M) :
    ∃ m, getMappingEntry ftl k = .ok m ∧ (m.memOffset, m.length) = reported (M k) := by
  refine ⟨foundMapping ftl k ((M k).map fun _ => slotOf k), ?_, ?_⟩
  · rw [getMappingEntry, h.search_eq hap]
    rfl
  · cases hM : M k with
    | none => rfl
    | some r =>
        have hholds := (h.stored k r hM).2
        simp [foundMapping, reported, hholds.offset_eq, hholds.length_eq]

theorem Indexed.offset_ne (h : Indexed ftl M slotOf) (hk : M k = some r) : r.offset ≠ noOffset := by
  obtain ⟨hreach, hholds⟩ := h.stored k r hk
  have hlive := hreach.live_end
  intro heq
  simp [KvFtl.Live, MappingEntry.isFree, hholds.offset_eq, heq] at hlive

/-- The test the callers make: the mapping has no offset exactly if the key is not stored. -/
theorem Indexed.missing_iff (h : Indexed ftl M slotOf) {m : MappingEntry}
    (hm : (m.memOffset, m.length) = reported (M k)) : m.memOffset = noOffset ↔ M k = none := by
  cases hM : M k with
  | none =>
      rw [hM, reported] at hm
      simp [(Prod.mk.inj hm).1]
  | some r =>
      rw [hM, reported] at hm
      simp [(Prod.mk.inj hm).1, h.offset_ne hM]

/-! ## The operations keep the map -/

theorem noOffset_of_lt {off : Nat} {storageSize : UInt64} (h : off < storageSize.toNat) : off ≠ noOffset := by
  have := storageSize.toNat_lt
  unfold noOffset
  omega

/-- **Insertion** of a key that is not stored adds it to the map. -/
theorem Indexed.insert (h : Indexed ftl M slotOf) (hap : k.ApartFrom M) (hM : M k = none)
    (storageSize : UInt64) (off len : Nat) :
    Sat (fun e => (e = .bug ∧ storageSize.toNat ≤ off) ∨ (e = .hang ∧ ftl.Full))
      (fun ftl' => ∃ slotOf', Indexed ftl' (Function.update M k (some ⟨off, len⟩)) slotOf')
      (newMappingEntry storageSize ftl k off len) := by
  obtain ⟨_, hc⟩ := h.chained
  refine (newMappingEntry_spec hc storageSize k off len).mono ?_
  rintro ftl' ⟨hlt, slot, prev, hch, hi⟩
  have hoff := noOffset_of_lt hlt
  have hhome : ∀ x, getHashSlot ftl' x = getHashSlot ftl x := fun x => by rw [getHashSlot, hi.slots]; rfl
  -- a stored key does not stand in the slot that was free
  have hne : ∀ x r, M x = some r → slotOf x ≠ slot := by
    rintro x r hx rfl
    exact hch.free (h.stored x r hx).1.live_end
  refine ⟨Function.update slotOf k slot, ?_⟩
  refine { chained := hc.insert hch hi hoff, stored := ?_, owned := ?_, apart := ?_ }
  · intro x r hx
    rw [hhome]
    by_cases hxk : x = k
    · subst hxk
      rw [Function.update_self] at hx ⊢
      cases hx
      refine ⟨hi.reach_new hc hch hoff, ?_, hi.offset_eq, hi.length_eq⟩
      rw [hi.key_eq]
      simp [copyBytes]
    · rw [Function.update_of_ne hxk] at hx ⊢
      obtain ⟨hreach, hholds⟩ := h.stored x r hx
      exact ⟨hi.reach hc hch hoff (hc.home_lt x) hreach,
        holds_of_sameContents hholds (hi.others _ (hne x r hx))⟩
  · intro a ha hl
    rw [hi.slots] at ha
    by_cases has : a = slot
    · exact ⟨k, ⟨off, len⟩, Function.update_self .., by rw [Function.update_self, has]⟩
    · obtain ⟨x, r, hx, hslot⟩ := h.owned a ha (((hi.live_iff hoff).mp hl).resolve_right has)
      have hxk : x ≠ k := by
        rintro rfl
        rw [hM] at hx
        cases hx
      exact ⟨x, r, by rw [Function.update_of_ne hxk, hx], by rw [Function.update_of_ne hxk, hslot]⟩
  · intro x y r r' hx hy
    by_cases hxk : x = k
    · subst hxk
      by_cases hyx : y = x
      · exact fun _ => hyx.symm
      · rw [Function.update_of_ne hyx] at hy
        exact hap y r' hy
    · rw [Function.update_of_ne hxk] at hx
      by_cases hyk : y = k
      · subst hyk
        exact (hap x r hx).symm
      · rw [Function.update_of_ne hyk] at hy
        exact h.apart x y r r' hx hy

/-- Every entry in use that compares equal with the key is the last one in use of its chain. -/
def LastOfChain (ftl : KvFtl) (k : KvKey) : Prop :=
  ∀ a, a < ftl.hashSlots → ftl.Live a → (ftl.kvMappingTable a).matchesKey k = true →
    ∀ b, ftl.next a = some b → ¬ ftl.Live b

/-- **Deletion** of a key that nothing in use follows takes it, and only it, out of the map. -/
theorem Indexed.delete (h : Indexed ftl M slotOf) (hap : k.ApartFrom M) (hlast : LastOfChain ftl k) :
    ∃ ftl', deleteMappingEntry ftl k = .ok ftl' ∧ Indexed ftl' (Function.update M k none) slotOf := by
  rw [deleteMappingEntry, h.search_eq hap]
  obtain ⟨_, hc⟩ := h.chained
  cases hM : M k with
  | none =>
      refine ⟨ftl, rfl, ?_⟩
      rw [← hM, Function.update_eq_self]
      exact h
  | some rk =>
      refine ⟨_, rfl, ?_⟩
      obtain ⟨hreach, hholds⟩ := h.stored k rk hM
      have hend := hlast (slotOf k) (h.slot_lt hM) hreach.live_end hholds.matches
      refine { chained := ⟨_, hc.wipe⟩, stored := ?_, owned := ?_, apart := ?_ }
      · intro x r hx
        by_cases hxk : x = k
        · subst hxk
          rw [Function.update_self] at hx
          cases hx
        · rw [Function.update_of_ne hxk] at hx
          have hne : slotOf x ≠ slotOf k := fun heq => hxk (h.slot_inj hx hM heq)
          obtain ⟨hrx, hhx⟩ := h.stored x r hx
          refine ⟨hrx.avoid hne hend (fun _ hy hl => wiped_live.mpr ⟨hl, hy⟩) (fun _ hy => wiped_next hy), ?_⟩
          rw [setEntry_of_ne hne]
          exact hhx
      · intro a ha hl
        obtain ⟨hla, hne⟩ := wiped_live.mp hl
        obtain ⟨x, r, hx, hslot⟩ := h.owned a ha hla
        have hxk : x ≠ k := by
          rintro rfl
          exact hne hslot.symm
        exact ⟨x, r, by rw [Function.update_of_ne hxk, hx], hslot⟩
      · intro x y r r' hx hy
        refine h.apart x y r r' ?_ ?_
        · by_cases hxk : x = k
          · subst hxk
            rw [Function.update_self] at hx
            cases hx
          · rwa [Function.update_of_ne hxk] at hx
        · by_cases hyk : y = k
          · subst hyk
            rw [Function.update_self] at hy
            cases hy
          · rwa [Function.update_of_ne hyk] at hy

/-- Rewriting the entry of a stored key, its link apart, changes the record of that key. -/
theorem Indexed.rewrite (h : Indexed ftl M slotOf) (hM : M k = some r) {e : MappingEntry} {r' : KvRecord}
    (hfree : e.isFree = (ftl.kvMappingTable (slotOf k)).isFree)
    (hnext : e.nextSlot = (ftl.kvMappingTable (slotOf k)).nextSlot) (he : e.Holds k r') :
    Indexed (ftl.setEntry (slotOf k) e) (Function.update M k (some r')) slotOf := by
  obtain ⟨_, hc⟩ := h.chained
  -- the keys of the map are the same as before
  have hold : ∀ x rx, Function.update M k (some r') x = some rx → ∃ ry, M x = some ry := by
    intro x rx hx
    by_cases hxk : x = k
    · exact ⟨r, hxk ▸ hM⟩
    · rw [Function.update_of_ne hxk] at hx
      exact ⟨rx, hx⟩
  refine { chained := ⟨_, hc.rewrite hfree hnext⟩, stored := ?_, owned := ?_, apart := ?_ }
  · intro x rx hx
    obtain ⟨ry, hy⟩ := hold x rx hx
    obtain ⟨hreach, hholds⟩ := h.stored x ry hy
    refine ⟨?_, ?_⟩
    · unfold KvFtl.Reach
      rw [setEntry_live hfree, setEntry_next hnext]
      exact hreach
    · by_cases hxk : x = k
      · subst hxk
        rw [Function.update_self] at hx
        cases hx
        rw [setEntry_self]
        exact he
      · rw [Function.update_of_ne hxk, hy] at hx
        cases hx
        rw [setEntry_of_ne fun heq => hxk (h.slot_inj hy hM heq)]
        exact hholds
  · intro a ha hl
    rw [setEntry_live hfree] at hl
    obtain ⟨x, rx, hx, hslot⟩ := h.owned a ha hl
    by_cases hxk : x = k
    · exact ⟨x, r', by rw [hxk, Function.update_self], hslot⟩
    · exact ⟨x, rx, by rw [Function.update_of_ne hxk, hx], hslot⟩
  · intro x y rx ry hx hy
    obtain ⟨_, hx'⟩ := hold x rx hx
    obtain ⟨_, hy'⟩ := hold y ry hy
    exact h.apart x y _ _ hx' hy'

/-- **A new length** for a stored key. -/
theorem Indexed.update (h : Indexed ftl M slotOf) (hap : k.ApartFrom M) (hM : M k = some r) (len : Nat) :
    ∃ ftl', updateMappingEntry ftl k len = .ok (0, ftl') ∧
      Indexed ftl' (Function.update M k (some ⟨r.offset, len⟩)) slotOf := by
  have hholds := (h.stored k r hM).2
  rw [updateMappingEntry, h.search_eq hap, hM]
  exact ⟨_, rfl, h.rewrite hM rfl rfl ⟨hholds.key_eq, hholds.offset_eq, rfl⟩⟩

theorem indexed_init : Indexed kvInitNamespace (fun _ => none) (fun _ => 0) where
  chained := ⟨_, chained_init⟩
  stored := fun _ _ h => by cases h
  owned := fun _ _ hl => by simp [KvFtl.Live, kvInitNamespace, MappingEntry.initial, MappingEntry.isFree] at hl
  apart := fun _ _ _ _ h => by cases h

/-! ## Runs -/

/-- What the host asks of the index. An insertion is what `kv_store` does with a key that is not stored. -/
inductive KvIndexOp where
  | insert (key : KvKey) (valOffset valueLength : Nat)
  | lookup (key : KvKey)
  | delete (key : KvKey)
deriving DecidableEq, Repr

/-- **What a history of operations, newest first, records for a key**: the last insertion of the key, unless a
    deletion of it came later. -/
def recorded : List KvIndexOp → KvKey → Option KvRecord
  | [], _ => none
  | .insert k off len :: ops, x => if x = k then some ⟨off, len⟩ else recorded ops x
  | .lookup _ :: ops, x => recorded ops x
  | .delete k :: ops, x => if x = k then none else recorded ops x

/-- One operation, in the order of `__do_perform_kv_io`: the key is looked up first, and a mapping is made for a key
    that was not found, or deleted for one that was. -/
def kvIndexStep (storageSize : UInt64) (ftl : KvFtl) : KvIndexOp → Except KvFault KvFtl
  | .insert k off len => do
      let entry ← getMappingEntry ftl k
      if entry.memOffset = noOffset then newMappingEntry storageSize ftl k off len else return ftl
  | .lookup k => do
      let _ ← getMappingEntry ftl k
      return ftl
  | .delete k => do
      let entry ← getMappingEntry ftl k
      if entry.memOffset = noOffset then return ftl else deleteMappingEntry ftl k

/-- What the operations are applied to: an insertion has a key that is not stored, an offset inside the storage, and
    a free slot. -/
def KvIndexAllowed (storageSize : UInt64) (ftl : KvFtl) (ops : List KvIndexOp) : KvIndexOp → Prop
  | .insert k off _ => recorded ops k = none ∧ off < storageSize.toNat ∧ ∃ f, f < ftl.hashSlots ∧ ¬ ftl.Live f
  | .lookup _ => True
  | .delete _ => True

/-- Runs from the initialised table, with the operations done so far. `G` restricts the operations. -/
inductive KvIndexRun (storageSize : UInt64) (G : KvFtl → List KvIndexOp → KvIndexOp → Prop) :
    KvFtl → List KvIndexOp → Prop
  | init : KvIndexRun storageSize G kvInitNamespace []
  | step {ftl ftl' : KvFtl} {ops : List KvIndexOp} {op : KvIndexOp} (hr : KvIndexRun storageSize G ftl ops)
      (ha : KvIndexAllowed storageSize ftl ops op) (hg : G ftl ops op)
      (hs : kvIndexStep storageSize ftl op = .ok ftl') : KvIndexRun storageSize G ftl' (op :: ops)

/-- The key of an operation. -/
def KvIndexOp.key : KvIndexOp → KvKey
  | .insert k _ _ => k
  | .lookup k => k
  | .delete k => k

/-- The operations that do no harm: the key and a different stored key are never one the beginning of the other, and
    no entry in use follows an entry that is deleted. -/
def Harmless (ftl : KvFtl) (ops : List KvIndexOp) (op : KvIndexOp) : Prop :=
  op.key.ApartFrom (recorded ops) ∧ ∀ k, op = .delete k → LastOfChain ftl k

variable {storageSize : UInt64} {ops : List KvIndexOp} {op : KvIndexOp}

/-- **Step.** A harmless operation returns, and leaves the table that the longer history describes. -/
theorem Indexed.step (h : Indexed ftl (recorded ops) slotOf) (ha : KvIndexAllowed storageSize ftl ops op)
    (hg : Harmless ftl ops op) :
    ∃ ftl', kvIndexStep storageSize ftl op = .ok ftl' ∧ ∃ slotOf', Indexed ftl' (recorded (op :: ops)) slotOf' := by
  obtain ⟨hap, hdel⟩ := hg
  obtain ⟨m, hm, hval⟩ := h.get_eq hap
  cases op with
  | insert k off len =>
      obtain ⟨hnone, hoff, f, hf, hfree⟩ := ha
      have hmiss : m.memOffset = noOffset := (h.missing_iff hval).mpr hnone
      -- neither fault is possible: the offset is inside the storage and a slot is free
      have hno : ∀ e : KvFault, (e = .bug ∧ storageSize.toNat ≤ off) ∨ (e = .hang ∧ ftl.Full) → False := by
        rintro e (⟨_, hge⟩ | ⟨_, hfull⟩)
        · omega
        · exact hfree (hfull f hf)
      obtain ⟨ftl', hftl', hidx⟩ := ((h.insert hap hnone storageSize off len).mono_error hno).exists_ok
      refine ⟨ftl', ?_, ?_⟩
      · rw [kvIndexStep, show getMappingEntry ftl k = .ok m from hm, ok_bind, if_pos hmiss]
        exact hftl'
      · have hrec : recorded (.insert k off len :: ops) = Function.update (recorded ops) k (some ⟨off, len⟩) := by
          funext x
          simp [recorded, Function.update_apply]
        rw [hrec]
        exact hidx
  | lookup k =>
      refine ⟨ftl, ?_, slotOf, h⟩
      rw [kvIndexStep, show getMappingEntry ftl k = .ok m from hm]
      rfl
  | delete k =>
      have hrec : recorded (.delete k :: ops) = Function.update (recorded ops) k none := by
        funext x
        simp [recorded, Function.update_apply]
      rw [hrec, kvIndexStep, show getMappingEntry ftl k = .ok m from hm, ok_bind]
      by_cases hmiss : m.memOffset = noOffset
      · -- not found, so there is nothing to take out of the map either
        have hk : recorded ops k = none := (h.missing_iff hval).mp hmiss
        rw [if_pos hmiss, ← hk, Function.update_eq_self]
        exact ⟨ftl, rfl, slotOf, h⟩
      · rw [if_neg hmiss]
        obtain ⟨ftl', hftl', hidx⟩ := h.delete hap (hdel k rfl)
        exact ⟨ftl', hftl', slotOf, hidx⟩

/-- **Run.** Along harmless operations the table is the map its history describes. -/
theorem KvIndexRun.indexed (hr : KvIndexRun storageSize Harmless ftl ops) :
    ∃ slotOf, Indexed ftl (recorded ops) slotOf := by
  induction hr with
  | init => exact ⟨_, indexed_init⟩
  | step _ ha hg hs ih =>
      obtain ⟨_, h⟩ := ih
      obtain ⟨ftl', hftl', hidx⟩ := h.step ha hg
      rw [hftl'] at hs
      cases hs
      exact hidx

/-- **The index refines a finite map**, along operations that do no harm: every next such operation returns, and a
    lookup of a key that is stored, or that neither begins with a stored key nor is the beginning of one, reports
    what the history records for it. -/
theorem kv_index_refines_map (hr : KvIndexRun storageSize Harmless ftl ops) :
    (∀ k, (∃ r, recorded ops k = some r) ∨ k.ApartFrom (recorded ops) →
      ∃ m, getMappingEntry ftl k = .ok m ∧ (m.memOffset, m.length) = reported (recorded ops k)) ∧
    ∀ op, KvIndexAllowed storageSize ftl ops op → Harmless ftl ops op →
      ∃ ftl', kvIndexStep storageSize ftl op = .ok ftl' := by
  obtain ⟨slotOf, h⟩ := hr.indexed
  refine ⟨?_, ?_⟩
  · rintro k (⟨r, hk⟩ | hap)
    · exact h.get_eq fun k' r' hk' => h.apart k k' r r' hk hk'
    · exact h.get_eq hap
  · intro op ha hg
    obtain ⟨ftl', hftl', _⟩ := h.step ha hg
    exact ⟨ftl', hftl'⟩

/-! ## Concrete runs -/

/-- A run that was played, each operation checked by `B` first, as far as an observation `f`. -/
theorem exists_kvIndexRun {α : Type} (storageSize : UInt64) {G : KvFtl → List KvIndexOp → KvIndexOp → Prop}
    {B : KvFtl → List KvIndexOp → KvIndexOp → Bool}
    (hB : ∀ ftl ops op, KvIndexRun storageSize G ftl ops → B ftl ops op = true →
      KvIndexAllowed storageSize ftl ops op ∧ G ftl ops op)
    (todo : List KvIndexOp) (f : KvFtl → List KvIndexOp → α) (a : α)
    (h : (todo.foldlM (admitted (fun s op => do return (← kvIndexStep storageSize s.1 op, op :: s.2)) fun s => B s.1 s.2)
      (kvInitNamespace, [])).map (fun s => f s.1 s.2) = some a) :
    ∃ ftl ops, KvIndexRun storageSize G ftl ops ∧ f ftl ops = a := by
  obtain ⟨s, hr, hf⟩ := exists_played (P := fun s => KvIndexRun storageSize G s.1 s.2) (fun s op s' hr hb hstep => by
    obtain ⟨ftl', hftl', heq⟩ := bind_eq_ok hstep
    cases heq
    exact hr.step (hB _ _ _ hr hb).1 (hB _ _ _ hr hb).2 hftl') KvIndexRun.init h
  exact ⟨s.1, s.2, hr, hf⟩

/-- `KvIndexAllowed` with slot 0 as the free one. -/
def allowedCheck (storageSize : UInt64) (ftl : KvFtl) (ops : List KvIndexOp) : KvIndexOp → Bool
  | .insert k off _ => (recorded ops k).isNone && decide (off < storageSize.toNat) &&
      (ftl.kvMappingTable 0).isFree && decide (0 < ftl.hashSlots)
  | .lookup _ => true
  | .delete _ => true

theorem allowed_of_check (h : allowedCheck storageSize ftl ops op = true) :
    KvIndexAllowed storageSize ftl ops op := by
  cases op with
  | insert k off len =>
      simp only [allowedCheck, Bool.and_eq_true, Option.isNone_iff_eq_none, decide_eq_true_eq] at h
      exact ⟨h.1.1.1, h.1.1.2, 0, h.2, by simp [KvFtl.Live, h.1.2]⟩
  | lookup k => trivial
  | delete k => trivial

instance (k k' : KvKey) : Decidable (k.Apart k') := inferInstanceAs (Decidable (_ → _))

/-- `Harmless`, with every key of the history instead of the stored ones, and the entry that the deletion finds. -/
def harmlessCheck (ftl : KvFtl) (ops : List KvIndexOp) (op : KvIndexOp) : Bool :=
  ops.all (fun o => decide (op.key.Apart o.key)) &&
    match search ftl op.key with
    | .ok (some a) => (ftl.next a).all fun b => (ftl.kvMappingTable b).isFree
    | _ => true

theorem exists_op_of_recorded (h : recorded ops k = some r) : ∃ o ∈ ops, o.key = k := by
  induction ops with
  | nil => cases h
  | cons o rest ih =>
      by_cases hk : k = o.key
      · exact ⟨o, List.mem_cons_self .., hk.symm⟩
      · have hrest : recorded rest k = some r := by
          cases o with
          | insert x off len => simpa [recorded, show k ≠ x from hk] using h
          | lookup x => exact h
          | delete x => simpa [recorded, show k ≠ x from hk] using h
        obtain ⟨o', ho', hkey⟩ := ih hrest
        exact ⟨o', List.mem_cons_of_mem o ho', hkey⟩

theorem harmless_of_check (hr : KvIndexRun storageSize Harmless ftl ops)
    (h : harmlessCheck ftl ops op = true) : Harmless ftl ops op := by
  simp only [harmlessCheck, Bool.and_eq_true, List.all_eq_true, decide_eq_true_eq] at h
  obtain ⟨hkeys, hlast⟩ := h
  have hap : op.key.ApartFrom (recorded ops) := by
    intro k' r hk'
    obtain ⟨o, ho, rfl⟩ := exists_op_of_recorded hk'
    exact hkeys o ho
  refine ⟨hap, ?_⟩
  rintro k rfl a ha hl hm b hb
  obtain ⟨slotOf, hidx⟩ := hr.indexed
  obtain ⟨r, hk, rfl⟩ := hidx.slot_of_matches hap ha hl hm
  rw [hidx.search_eq hap, show recorded ops (KvIndexOp.delete k).key = some r from hk] at hlast
  simp only [Option.map_some] at hlast
  rw [show ftl.next (slotOf (KvIndexOp.delete k).key) = some b from hb] at hlast
  simpa [KvFtl.Live] using hlast

/-- Two keys with the same home slot. -/
def keyAkcl : KvKey := ⟨[97, 107, 99, 108], by decide, by decide⟩

def keyImxa : KvKey := ⟨[105, 109, 120, 97], by decide, by decide⟩

/-- A key, and a longer one that begins with it, with the same home slot. -/
def keyC : KvKey := ⟨[99], by decide, by decide⟩

def keyCefzxv : KvKey := ⟨[99, 101, 102, 122, 120, 118], by decide, by decide⟩

/-- Two colliding keys, the second one deleted and stored again. -/
theorem kv_index_refines_map_collision :
    ∃ ftl, (∃ m, getMappingEntry ftl keyAkcl = .ok m ∧ (m.memOffset, m.length) = (0, 4)) ∧
      ∃ m, getMappingEntry ftl keyImxa = .ok m ∧ (m.memOffset, m.length) = (12, 16) := by
  obtain ⟨ftl, ops, hr, hobs⟩ := exists_kvIndexRun (2 ^ 30) (G := Harmless)
    (B := fun ftl ops op => allowedCheck (2 ^ 30) ftl ops op && harmlessCheck ftl ops op)
    (fun ftl ops op hr h => by
      rw [Bool.and_eq_true] at h
      exact ⟨allowed_of_check h.1, harmless_of_check hr h.2⟩)
    [.insert keyAkcl 0 4, .insert keyImxa 4 8, .delete keyImxa, .insert keyImxa 12 16]
    (fun _ ops => (recorded ops keyAkcl, recorded ops keyImxa)) (some ⟨0, 4⟩, some ⟨12, 16⟩) (by decide +kernel)
  obtain ⟨h1, h2⟩ := Prod.mk.inj hobs
  obtain ⟨hget, _⟩ := kv_index_refines_map hr
  refine ⟨ftl, ?_, ?_⟩
  · have h := hget keyAkcl (Or.inl ⟨_, h1⟩)
    rwa [h1] at h
  · have h := hget keyImxa (Or.inl ⟨_, h2⟩)
    rwa [h2] at h

/-- **Keys lost and keys mistaken.** After two colliding keys are stored and the first one is deleted, the second one
    is recorded and not found. And after one key is stored, another one that is the beginning of it, and was never
    stored, is found. -/
theorem kv_index_loses_keys :
    (∃ ftl ops, KvIndexRun (2 ^ 30) (fun _ _ _ => True) ftl ops ∧ recorded ops keyImxa = some ⟨4, 8⟩ ∧
      (getMappingEntry ftl keyImxa).toOption.map (·.memOffset) = some noOffset) ∧
    ∃ ftl ops, KvIndexRun (2 ^ 30) (fun _ _ _ => True) ftl ops ∧ recorded ops keyC = none ∧
      (getMappingEntry ftl keyC).toOption.map (fun m => (m.memOffset, m.length)) = some (0, 4) := by
  constructor
  · obtain ⟨ftl, ops, hr, hobs⟩ := exists_kvIndexRun (2 ^ 30) (G := fun _ _ _ => True)
      (fun _ _ _ _ h => ⟨allowed_of_check h, trivial⟩)
      [.insert keyAkcl 0 4, .insert keyImxa 4 8, .delete keyAkcl]
      (fun ftl ops => (recorded ops keyImxa, (getMappingEntry ftl keyImxa).toOption.map (·.memOffset)))
      (some ⟨4, 8⟩, some noOffset) (by decide +kernel)
    obtain ⟨h1, h2⟩ := Prod.mk.inj hobs
    exact ⟨ftl, ops, hr, h1, h2⟩
  · obtain ⟨ftl, ops, hr, hobs⟩ := exists_kvIndexRun (2 ^ 30) (G := fun _ _ _ => True)
      (fun _ _ _ _ h => ⟨allowed_of_check h, trivial⟩)
      [.insert keyCefzxv 0 4]
      (fun ftl ops => (recorded ops keyC, (getMappingEntry ftl keyC).toOption.map fun m => (m.memOffset, m.length)))
      (none, some (0, 4)) (by decide +kernel)
    obtain ⟨h1, h2⟩ := Prod.mk.inj hobs
    exact ⟨ftl, ops, hr, h1, h2⟩

end NvmeVirt
