import NvmeVirt.Kv.Batch
import NvmeVirt.Kv.Chains

/-!
# `Kv.BatchStores` — a batch and the same stores one by one

The two store paths walk the same table, so they find the same slots, take the same extents and fill the same entries;
they differ in the lengths they leave in the table, and no walk looks at a length. `KvFtl.relen` puts lengths beside the
table: the stores end in the table of the batch with other lengths (`performSubs_rel`), and `Followed` says with which.

A batch does not follow an update with its length. `updates` looks up the entry that each sub-command finds; the two are
seen to differ exactly if, for some entry, the last store that the single path would have followed had another length
than the entry (`kv_batch_matches_stores_iff`).
-/

namespace NvmeVirt

open Outcome

/-! ## Lengths beside the table -/

/-- The lengths in a table. -/
def KvFtl.lengths (ftl : KvFtl) (x : Nat) : Nat := (ftl.kvMappingTable x).length

/-- The table with other lengths. -/
def KvFtl.relen (ftl : KvFtl) (len : Nat → Nat) : KvFtl :=
  { ftl with kvMappingTable := fun x => { ftl.kvMappingTable x with length := len x } }

def KvNs.relen (s : KvNs) (len : Nat → Nat) : KvNs := { s with ftl := s.ftl.relen len }

section Relen

variable {ftl : KvFtl} {len : Nat → Nat} {key : KvKey} {a b x slot prev off n : Nat}

theorem relen_lengths (s : KvNs) : s.relen s.ftl.lengths = s := rfl

theorem searchLoop_relen (fuel : Nat) : searchLoop (ftl.relen len) key fuel a = searchLoop ftl key fuel a := by
  induction fuel generalizing a with
  | zero => rfl
  | succ fuel ih =>
      simp only [searchLoop, ih]
      rfl

theorem search_relen : search (ftl.relen len) key = search ftl key := searchLoop_relen _

theorem tailLoop_relen (fuel : Nat) : tailLoop (ftl.relen len) fuel b a = tailLoop ftl fuel b a := by
  induction fuel generalizing a b with
  | zero => rfl
  | succ fuel ih =>
      simp only [tailLoop, ih]
      rfl

theorem probeLoop_relen (fuel : Nat) : probeLoop (ftl.relen len) fuel a = probeLoop ftl fuel a := by
  induction fuel generalizing a with
  | zero => rfl
  | succ fuel ih =>
      simp only [probeLoop, ih]
      rfl

theorem chooseSlot_relen : chooseSlot (ftl.relen len) key = chooseSlot ftl key := by
  unfold chooseSlot findNextSlot
  simp only [tailLoop_relen, probeLoop_relen]
  rfl

/-- What `new_mapping_entry` does to the table. -/
def insertEntry (ftl : KvFtl) (key : KvKey) (off n slot prev : Nat) : KvFtl :=
  if prev ≠ noSlot then chainMapping (fillEntry ftl slot key off n) prev slot else fillEntry ftl slot key off n

theorem newMappingEntry_eq (storageSize : UInt64) (ftl : KvFtl) (key : KvKey) (off n : Nat) :
    newMappingEntry storageSize ftl key off n =
      if off ≥ storageSize.toNat then .error .bug
      else (chooseSlot ftl key).map fun c => insertEntry ftl key off n c.1 c.2 := by
  unfold newMappingEntry
  by_cases hoff : off ≥ storageSize.toNat
  · rw [if_pos hoff, if_pos hoff]
    rfl
  · rw [if_neg hoff, if_neg hoff]
    cases chooseSlot ftl key <;> rfl

/-- The entries of the new table. -/
theorem insertEntry_self (ftl : KvFtl) (key : KvKey) (off n slot prev : Nat) :
    ∃ nxt, (insertEntry ftl key off n slot prev).kvMappingTable slot =
    ⟨copyBytes (ftl.kvMappingTable slot).key key.bytes key.bytes.length, off, n, nxt⟩ := by
  unfold insertEntry
  by_cases hprev : prev ≠ noSlot
  · rw [if_pos hprev]
    by_cases hs : slot = prev
    · subst hs
      simp [chainMapping, fillEntry, KvFtl.setEntry]
    · simp [chainMapping, fillEntry, KvFtl.setEntry, hs]
  · rw [if_neg hprev]
    simp [fillEntry, KvFtl.setEntry]

theorem insertEntry_of_ne (ftl : KvFtl) (key : KvKey) (off n prev : Nat) (hne : x ≠ slot) :
    ∃ nxt, (insertEntry ftl key off n slot prev).kvMappingTable x = { ftl.kvMappingTable x with nextSlot := nxt } ∧
      (¬ (prev ≠ noSlot ∧ x = prev) → nxt = (ftl.kvMappingTable x).nextSlot) := by
  unfold insertEntry
  by_cases hprev : prev ≠ noSlot
  · rw [if_pos hprev]
    by_cases hx : x = prev
    · subst hx
      exact ⟨slot, by simp [chainMapping, fillEntry, KvFtl.setEntry, hne], fun h => absurd ⟨hprev, rfl⟩ h⟩
    · exact ⟨_, by simp [chainMapping, fillEntry, KvFtl.setEntry, hne, hx], fun _ => rfl⟩
  · rw [if_neg hprev]
    exact ⟨_, by simp [fillEntry, KvFtl.setEntry, hne], fun _ => rfl⟩

theorem setEntry_relen (ftl : KvFtl) (len : Nat → Nat) (x : Nat) (e : MappingEntry) (l : Nat) :
    (ftl.relen len).setEntry x e = (ftl.setEntry x { e with length := l }).relen (Function.update len x e.length) := by
  unfold KvFtl.relen KvFtl.setEntry
  congr 1
  funext y
  by_cases hy : y = x
  · subst hy
    simp
  · simp [hy]

theorem insertEntry_relen :
    insertEntry (ftl.relen len) key off n slot prev =
      (insertEntry ftl key off n slot prev).relen (Function.update len slot n) := by
  have hfill : fillEntry (ftl.relen len) slot key off n =
      (fillEntry ftl slot key off n).relen (Function.update len slot n) := setEntry_relen ftl len slot _ n
  have hchain : ∀ (f : KvFtl) (l : Nat → Nat), chainMapping (f.relen l) prev slot = (chainMapping f prev slot).relen l := by
    intro f l
    have h := setEntry_relen f l prev { (f.relen l).kvMappingTable prev with nextSlot := slot }
      (f.kvMappingTable prev).length
    rw [show ({ (f.relen l).kvMappingTable prev with nextSlot := slot } : MappingEntry).length = l prev from rfl,
      Function.update_eq_self] at h
    exact h
  unfold insertEntry
  by_cases hprev : prev ≠ noSlot
  · rw [if_pos hprev, if_pos hprev, hfill, hchain]
  · rw [if_neg hprev, if_neg hprev, hfill]

theorem insertEntry_lengths :
    (insertEntry ftl key off n slot prev).lengths = Function.update ftl.lengths slot n := by
  funext x
  by_cases hx : x = slot
  · subst hx
    obtain ⟨nxt, h⟩ := insertEntry_self ftl key off n x prev
    rw [KvFtl.lengths, h, Function.update_self]
  · obtain ⟨nxt, h, -⟩ := insertEntry_of_ne ftl key off n prev hx
    rw [KvFtl.lengths, h, Function.update_of_ne hx]
    rfl

end Relen

/-! ## Walks in any table

Nothing is assumed of the links here. -/

section Walks

variable {ftl : KvFtl} {key k : KvKey} {a b x slot prev off n : Nat}

/-- What a lookup finds is in use. -/
theorem searchLoop_live {fuel : Nat} (h : searchLoop ftl key fuel a = .ok (some x)) : ftl.Live x := by
  induction fuel generalizing a with
  | zero => cases h
  | succ fuel ih =>
      rw [searchLoop] at h
      by_cases hfree : (ftl.kvMappingTable a).isFree = true
      · rw [if_pos hfree] at h
        cases h
      · rw [if_neg hfree] at h
        by_cases hm : (ftl.kvMappingTable a).matchesKey key = true
        · rw [if_pos hm] at h
          cases h
          exact Bool.eq_false_iff.mpr hfree
        · rw [if_neg hm] at h
          by_cases hn : (ftl.kvMappingTable a).nextSlot = noSlot
          · rw [if_pos hn] at h
            cases h
          · rw [if_neg hn] at h
            exact ih h

theorem searchLoop_start {fuel : Nat} (h : searchLoop ftl key fuel a = .ok (some x)) : ftl.Live a := by
  cases fuel with
  | zero => cases h
  | succ fuel =>
      rw [searchLoop] at h
      by_cases hfree : (ftl.kvMappingTable a).isFree = true
      · rw [if_pos hfree] at h
        cases h
      · exact Bool.eq_false_iff.mpr hfree

/-- Nothing in use follows the entry. -/
def LastInUse (ftl : KvFtl) (a : Nat) : Prop := ftl.Live a ∧ ∀ z, ftl.next a = some z → ¬ ftl.Live z

theorem tailLoop_lastInUse {fuel : Nat} (h : tailLoop ftl fuel prev a = .ok b) :
    b = prev ∧ ¬ ftl.Live a ∨ LastInUse ftl b := by
  induction fuel generalizing a prev with
  | zero => cases h
  | succ fuel ih =>
      rw [tailLoop] at h
      by_cases hfree : (ftl.kvMappingTable a).isFree = true
      · rw [if_pos hfree] at h
        cases h
        exact Or.inl ⟨rfl, by simp [KvFtl.Live, hfree]⟩
      · have hlive : ftl.Live a := Bool.eq_false_iff.mpr hfree
        rw [if_neg hfree] at h
        by_cases hn : (ftl.kvMappingTable a).nextSlot = noSlot
        · rw [if_pos hn] at h
          cases h
          refine Or.inr ⟨hlive, fun z hz => ?_⟩
          rw [next_eq_none_iff.mpr hn] at hz
          cases hz
        · rw [if_neg hn] at h
          rcases ih h with ⟨rfl, hdead⟩ | hlast
          · -- the link leads to a free entry
            refine Or.inr ⟨hlive, fun z hz => ?_⟩
            rw [← (next_eq_some_iff.mp hz).2]
            exact hdead
          · exact Or.inr hlast

theorem probeLoop_free {fuel : Nat} (h : probeLoop ftl fuel a = .ok b) : ¬ ftl.Live b := by
  induction fuel generalizing a with
  | zero => cases h
  | succ fuel ih =>
      rw [probeLoop] at h
      by_cases hfree : (ftl.kvMappingTable a).isFree = true
      · rw [if_pos hfree] at h
        cases h
        simp [KvFtl.Live, hfree]
      · rw [if_neg hfree] at h
        exact ih h

/-- **Where a new entry goes**: to a free slot, behind an entry that nothing in use follows. -/
theorem chooseSlot_free (h : chooseSlot ftl key = .ok (slot, prev)) :
    ¬ ftl.Live slot ∧ (prev ≠ noSlot → LastInUse ftl prev) := by
  unfold chooseSlot at h
  by_cases hfree : (ftl.kvMappingTable (getHashSlot ftl key)).isFree = true
  · simp only [if_pos hfree] at h
    cases h
    exact ⟨by simp [KvFtl.Live, hfree], fun h => absurd rfl h⟩
  · simp only [if_neg hfree, findNextSlot] at h
    obtain ⟨prevs, ht, h⟩ := bind_eq_ok h
    obtain ⟨retSlot, hp, h⟩ := bind_eq_ok h
    cases h
    refine ⟨probeLoop_free hp, fun hne => ?_⟩
    rcases tailLoop_lastInUse ht with ⟨hprev, _⟩ | hlast
    · exact absurd hprev hne
    · exact hlast

/-- **A new entry hides no other**: what was found is found. -/
theorem searchLoop_insertEntry {fuel : Nat} (hslot : ¬ ftl.Live slot) (hprev : prev ≠ noSlot → LastInUse ftl prev)
    (h : searchLoop ftl k fuel a = .ok (some x)) :
    searchLoop (insertEntry ftl key off n slot prev) k fuel a = .ok (some x) := by
  induction fuel generalizing a with
  | zero => cases h
  | succ fuel ih =>
      rw [searchLoop] at h ⊢
      by_cases hfree : (ftl.kvMappingTable a).isFree = true
      · rw [if_pos hfree] at h
        cases h
      · rw [if_neg hfree] at h
        have hlive : ftl.Live a := Bool.eq_false_iff.mpr hfree
        have hne : a ≠ slot := fun heq => hslot (heq ▸ hlive)
        obtain ⟨nxt, hentry, hnxt⟩ := insertEntry_of_ne ftl key off n prev hne
        rw [hentry, if_neg (show ¬ ({ ftl.kvMappingTable a with nextSlot := nxt } : MappingEntry).isFree = true from hfree)]
        by_cases hm : (ftl.kvMappingTable a).matchesKey k = true
        · rw [if_pos hm] at h
          rw [if_pos (show ({ ftl.kvMappingTable a with nextSlot := nxt } : MappingEntry).matchesKey k = true from hm)]
          exact h
        · rw [if_neg hm] at h
          rw [if_neg (show ¬ ({ ftl.kvMappingTable a with nextSlot := nxt } : MappingEntry).matchesKey k = true from hm)]
          by_cases hn : (ftl.kvMappingTable a).nextSlot = noSlot
          · rw [if_pos hn] at h
            cases h
          · rw [if_neg hn] at h
            -- the walk goes on to an entry in use, so the link is not the one that is set
            have hother : ¬ (prev ≠ noSlot ∧ a = prev) := by
              rintro ⟨hp, rfl⟩
              exact (hprev hp).2 _ (next_eq_some_iff.mpr ⟨hn, rfl⟩) (searchLoop_start h)
            rw [hnxt hother, if_neg hn]
            exact ih h

theorem search_insertEntry (hslot : ¬ ftl.Live slot) (hprev : prev ≠ noSlot → LastInUse ftl prev)
    (h : search ftl k = .ok (some x)) : search (insertEntry ftl key off n slot prev) k = .ok (some x) := by
  have hslots : (insertEntry ftl key off n slot prev).hashSlots = ftl.hashSlots := by
    unfold insertEntry
    split <;> rfl
  unfold search getHashSlot at *
  rw [hslots]
  exact searchLoop_insertEntry hslot hprev h

theorem insertEntry_live (hoff : off ≠ noOffset) (hx : ftl.Live x ∨ x = slot) :
    (insertEntry ftl key off n slot prev).Live x := by
  unfold KvFtl.Live
  by_cases hs : x = slot
  · subst hs
    obtain ⟨nxt, h⟩ := insertEntry_self ftl key off n x prev
    rw [h]
    simpa [MappingEntry.isFree] using hoff
  · obtain ⟨nxt, h, -⟩ := insertEntry_of_ne ftl key off n prev hs
    rw [h]
    exact hx.resolve_right hs

end Walks

/-! ## One store on either path -/

/-- What a store does on both paths: the state of the batch path after it, the slot, and whether the entry is new. -/
def touch (storageSize : UInt64) (s : KvNs) (key : KvKey) (value : List UInt8) : Except KvFault (KvNs × Nat × Bool) := do
  match ← search s.ftl key with
  | some x =>
      return ({ s with storage := writeBytes s.storage (s.ftl.kvMappingTable x).memOffset value }, x, false)
  | none =>
      let (newOffset, s) := allocateMemOffsetByLength s value.length
      if newOffset ≥ storageSize.toNat then .error .bug
      let (slot, prev) ← chooseSlot s.ftl key
      return ({ s with
        ftl := insertEntry s.ftl key newOffset value.length slot prev
        storage := writeBytes s.storage newOffset value }, slot, true)

section Touch

variable {storageSize : UInt64} {s s' : KvNs} {key : KvKey} {value : List UInt8} {slot : Nat} {fresh : Bool}

/-- A found entry is in use, so its offset is one. -/
theorem memOffset_of_live {ftl : KvFtl} {x : Nat} (h : ftl.Live x) : (ftl.kvMappingTable x).memOffset ≠ noOffset := by
  simpa [KvFtl.Live, MappingEntry.isFree] using h

theorem batchedIo_eq_touch {sub : KvSubCommand} (hop : sub.opcode = .store) :
    doPerformKvBatchedIo storageSize s sub = (touch storageSize s sub.key sub.value).map (·.1) := by
  unfold doPerformKvBatchedIo touch getMappingEntryByKey getMappingEntry newMappingEntryByKey
  rw [hop]
  cases hsearch : search s.ftl sub.key with
  | error e => rfl
  | ok r =>
      cases r with
      | some x =>
          have hoff := memOffset_of_live (searchLoop_live hsearch)
          simp only [ok_bind, pure_eq_ok, foundMapping, if_neg hoff]
          rfl
      | none =>
          simp only [ok_bind, pure_eq_ok, foundMapping, MappingEntry.wiped, if_true, newMappingEntry_eq]
          by_cases hoff : (allocateMemOffsetByLength s sub.value.length).1 ≥ storageSize.toNat
          · rw [if_pos hoff, if_pos hoff]
            rfl
          · rw [if_neg hoff, if_neg hoff]
            cases chooseSlot (allocateMemOffsetByLength s sub.value.length).2.ftl sub.key <;> rfl

theorem length_of_gather {cmd : KvCommand} {host : HostMem}
    (hvalue : gather cmd.prps cmd.valueLength host = some value) : value.length = cmd.valueLength := by
  rcases transfer_toStorage cmd.prps 0 cmd.valueLength ⟨host, fun _ => 0⟩ with ⟨hnone, _⟩ | ⟨v, m', hg, _, hlen, _⟩
  · rw [hvalue] at hnone
    cases hnone
  · rw [hvalue] at hg
    cases hg
    exact hlen

/-- Memory in which a value stands at an offset and nothing else has changed. -/
theorem Wrote.storage_eq {off : Nat} {m m' : IoMem} (h : Wrote off value m m') :
    m'.storage = writeBytes m.storage off value := by
  funext x
  by_cases hx : off ≤ x ∧ x < off + value.length
  · have hget : (bytesAt m'.storage off value.length).getD (x - off) 0 = m'.storage (off + (x - off)) := by
      simp [bytesAt, List.getD, show x - off < value.length by omega]
    rw [h.bytes_eq] at hget
    rw [writeBytes, memcpy_of_mem hx, Nat.zero_add, hget, Nat.add_sub_cancel' hx.1]
  · rw [writeBytes, memcpy_of_not hx]
    exact h.frame x hx

/-- The copy loop of a store whose value is `value`. -/
theorem move_store {cmd : KvCommand} {host : HostMem} (hvalue : gather cmd.prps cmd.valueLength host = some value)
    (off : Nat) (storage : Nat → UInt8) :
    cmd.move .toStorage off value.length ⟨host, storage⟩ = .ok ⟨host, writeBytes storage off value⟩ := by
  rw [length_of_gather hvalue]
  rcases transfer_toStorage cmd.prps off cmd.valueLength ⟨host, storage⟩ with ⟨hnone, _⟩ | ⟨v, m', hg, ht, _, hw⟩
  · rw [hvalue] at hnone
    cases hnone
  · rw [hvalue] at hg
    cases hg
    obtain ⟨host', storage'⟩ := m'
    have hhost : host' = host := hw.host_eq
    have hstorage : storage' = writeBytes storage off value := hw.storage_eq
    rw [KvCommand.move, ht, hhost, hstorage]

/-- The lengths after a store of `n` bytes on the single path. -/
def followed (len : Nat → Nat) (n : Nat) (slot : Nat) (fresh : Bool) : Nat → Nat :=
  if fresh = true ∨ (n ≤ smallLength ∧ len slot ≤ smallLength) then Function.update len slot n else len

theorem updateMappingEntry_relen {ftl : KvFtl} {len : Nat → Nat} {x n : Nat} (h : search ftl key = .ok (some x)) :
    updateMappingEntry (ftl.relen len) key n = .ok (0, ftl.relen (Function.update len x n)) := by
  have hset := setEntry_relen ftl len x { (ftl.relen len).kvMappingTable x with length := n } (ftl.kvMappingTable x).length
  have hsame : ftl.setEntry x (ftl.kvMappingTable x) = ftl := by
    unfold KvFtl.setEntry
    rw [Function.update_eq_self]
  unfold updateMappingEntry
  rw [search_relen, h]
  exact congrArg (fun f => Except.ok (0, f)) (hset.trans (congrArg (fun f => KvFtl.relen f _) hsame))

theorem kvIo_eq_touch (storageSize : UInt64) (s : KvNs) {cmd : KvCommand} {host : HostMem} (hop : cmd.opcode = .store)
    (hvalue : gather cmd.prps cmd.valueLength host = some value) (len : Nat → Nat) :
    doPerformKvIo storageSize cmd host (s.relen len) =
      (touch storageSize s cmd.key value).map fun t =>
        (⟨0, none⟩, host, t.1.relen (followed len value.length t.2.1 t.2.2)) := by
  have hlen := length_of_gather hvalue
  unfold doPerformKvIo touch getMappingEntry
  rw [hop, show search (s.relen len).ftl cmd.key = search s.ftl cmd.key from search_relen]
  cases hsearch : search s.ftl cmd.key with
  | error e => rfl
  | ok r =>
      cases r with
      | some x =>
          have hoff := memOffset_of_live (searchLoop_live hsearch)
          have hoff' : (foundMapping (s.relen len).ftl cmd.key (some x)).memOffset ≠ noOffset := hoff
          have hfound : (foundMapping (s.relen len).ftl cmd.key (some x)).length = len x := rfl
          simp only [ok_bind, pure_eq_ok, if_neg hoff', ← hlen, move_store hvalue, hfound]
          by_cases hsmall : value.length ≤ smallLength ∧ len x ≤ smallLength
          · have hfollow : followed len value.length x false = Function.update len x value.length :=
              if_pos (Or.inr hsmall)
            by_cases hsame : value.length = len x
            · rw [if_neg fun h => h.1 hsame, Except.map, hfollow, hsame, Function.update_eq_self]
              rfl
            · rw [if_pos ⟨hsame, hsmall⟩, Except.map, hfollow,
                show (s.relen len).ftl = s.ftl.relen len from rfl, updateMappingEntry_relen hsearch]
              rfl
          · have hfollow : followed len value.length x false = len :=
              if_neg fun h => h.elim (fun h => Bool.false_ne_true h) hsmall
            rw [if_neg fun h => hsmall h.2, Except.map, hfollow]
            rfl
      | none =>
          have halloc : allocateMemOffset (s.relen len) cmd =
              ((allocateMemOffsetByLength s value.length).1, (allocateMemOffsetByLength s value.length).2.relen len) := by
            rw [hlen]
            rfl
          simp only [ok_bind, pure_eq_ok, foundMapping, MappingEntry.wiped, if_true, halloc, ← hlen,
            move_store hvalue, newMappingEntry_eq]
          by_cases hoff : (allocateMemOffsetByLength s value.length).1 ≥ storageSize.toNat
          · rw [if_pos hoff, if_pos hoff]
            rfl
          · rw [if_neg hoff, if_neg hoff, show ((allocateMemOffsetByLength s value.length).2.relen len).ftl =
              (allocateMemOffsetByLength s value.length).2.ftl.relen len from rfl, chooseSlot_relen]
            simp only [insertEntry_relen]
            cases chooseSlot (allocateMemOffsetByLength s value.length).2.ftl cmd.key with
            | error e => rfl
            | ok c =>
                have hfollow : followed len value.length c.1 true = Function.update len c.1 value.length :=
                  if_pos (Or.inl rfl)
                simp only [Except.map, ok_bind, hfollow]
                rfl

/-- **What a store does to the index.** An entry that is found stays as it is. A new one takes a free slot, stays in use,
    and hides none of the others. -/
inductive Touched (s : KvNs) (key : KvKey) (n : Nat) (s' : KvNs) (slot : Nat) : Bool → Prop
  | found (hsearch : search s.ftl key = .ok (some slot)) (hftl : s'.ftl = s.ftl) : Touched s key n s' slot false
  | fresh (hsearch : search s.ftl key = .ok none) (hfree : ¬ s.ftl.Live slot)
      (hlengths : s'.ftl.lengths = Function.update s.ftl.lengths slot n)
      (hlive : ∀ x, s.ftl.Live x ∨ x = slot → s'.ftl.Live x)
      (hfound : ∀ k x, search s.ftl k = .ok (some x) → search s'.ftl k = .ok (some x)) : Touched s key n s' slot true

theorem touch_touched (h : touch storageSize s key value = .ok (s', slot, fresh)) :
    Touched s key value.length s' slot fresh := by
  unfold touch at h
  obtain ⟨r, hsearch, h⟩ := bind_eq_ok h
  cases r with
  | some x =>
      cases h
      exact .found hsearch rfl
  | none =>
      simp only [pure_eq_ok] at h
      by_cases hoff : (allocateMemOffsetByLength s value.length).1 ≥ storageSize.toNat
      · rw [if_pos hoff] at h
        cases h
      · rw [if_neg hoff] at h
        obtain ⟨c, hc, h⟩ := bind_eq_ok h
        cases h
        obtain ⟨hfree, hprev⟩ := chooseSlot_free hc
        have hno : (allocateMemOffsetByLength s value.length).1 ≠ noOffset := by
          have := storageSize.toNat_lt
          unfold noOffset
          omega
        exact .fresh hsearch hfree insertEntry_lengths (fun x hx => insertEntry_live hno hx)
          fun k x hx => search_insertEntry hfree hprev hx

end Touch

/-! ## Runs -/

/-- A store command that is the single form of a sub-command, with the host memory it is executed on. -/
structure IsStoreOf (sub : KvSubCommand) (store : KvCommand × HostMem) : Prop where
  sub_store : sub.opcode = .store
  opcode : store.1.opcode = .store
  key : store.1.key = sub.key
  value : gather store.1.prps store.1.valueLength store.2 = some sub.value

/-- The stores one by one. -/
def runStores (storageSize : UInt64) (stores : List (KvCommand × HostMem)) (s : KvNs) : Except KvFault KvNs :=
  stores.foldlM (fun s store => do return (← doPerformKvIo storageSize store.1 store.2 s).2.2) s

/-- A sub-command that finds an entry: its slot, the length recorded there, and the length of the value. -/
structure LengthUpdate where
  slot : Nat
  old : Nat
  new : Nat
deriving DecidableEq, Repr

/-- **What the lookup before each sub-command finds.** A key that is not found gets an entry, as in the source; no data is
    moved. A fault is a lookup or a slot search that does not return, or an offset behind the storage. -/
def updates (storageSize : UInt64) : KvNs → List KvSubCommand → Except KvFault (List LengthUpdate)
  | _, [] => .ok []
  | s, sub :: subs => do
      match ← search s.ftl sub.key with
      | some x =>
          let later ← updates storageSize s subs
          return ⟨x, s.ftl.lengths x, sub.value.length⟩ :: later
      | none =>
          let (newOffset, s) := allocateMemOffsetByLength s sub.value.length
          let ftl ← newMappingEntryByKey storageSize s.ftl sub.key sub.value.length newOffset
          updates storageSize { s with ftl := ftl } subs

/-- The last update of the entry in slot `x` with a value of at most `SMALL_LENGTH` bytes. -/
def lastUpdate (x : Nat) : List LengthUpdate → Option LengthUpdate
  | [] => none
  | u :: us =>
      match lastUpdate x us with
      | some u' => some u'
      | none => if u.slot = x ∧ u.new ≤ smallLength then some u else none

/-- The lengths the single path has recorded are those of the table but for small ones. -/
def SmallApart (s : KvNs) (len : Nat → Nat) : Prop :=
  ∀ x, (len x ≤ smallLength ↔ s.ftl.lengths x ≤ smallLength) ∧ (¬ len x ≤ smallLength → len x = s.ftl.lengths x)

/-- **From one state of the two paths to another.** `len` and `len'` are the lengths of the single path. -/
structure Followed (s : KvNs) (len : Nat → Nat) (us : List LengthUpdate) (s' : KvNs) (len' : Nat → Nat) : Prop where
  live : ∀ x, s.ftl.Live x → s'.ftl.Live x ∧ s'.ftl.lengths x = s.ftl.lengths x
  found : ∀ k x, search s.ftl k = .ok (some x) → search s'.ftl k = .ok (some x)
  updated : ∀ x u, lastUpdate x us = some u → u.new ≤ smallLength ∧ (∃ k, search s'.ftl k = .ok (some x)) ∧
    s'.ftl.lengths x = u.old ∧ len' x = if u.old ≤ smallLength then u.new else u.old
  other : ∀ x, lastUpdate x us = none →
    len' x = len x ∧ s'.ftl.lengths x = s.ftl.lengths x ∨ ¬ s.ftl.Live x ∧ len' x = s'.ftl.lengths x

section Runs

variable {storageSize : UInt64} {s s₁ s' : KvNs} {len len' : Nat → Nat} {sub : KvSubCommand}
  {subs : List KvSubCommand} {slot : Nat} {fresh : Bool}

theorem smallApart_self (s : KvNs) : SmallApart s s.ftl.lengths := fun _ => ⟨Iff.rfl, fun _ => rfl⟩

theorem SmallApart.touch (h : SmallApart s len) (ht : Touched s sub.key sub.value.length s₁ slot fresh) :
    SmallApart s₁ (followed len sub.value.length slot fresh) := by
  intro x
  cases ht with
  | found hsearch hftl =>
      unfold followed
      rw [hftl]
      by_cases hsmall : sub.value.length ≤ smallLength ∧ len slot ≤ smallLength
      · rw [if_pos (Or.inr hsmall)]
        by_cases hx : x = slot
        · subst hx
          rw [Function.update_self]
          exact ⟨⟨fun _ => (h x).1.mp hsmall.2, fun _ => hsmall.1⟩, fun hn => absurd hsmall.1 hn⟩
        · rw [Function.update_of_ne hx]
          exact h x
      · rw [if_neg fun hc => hc.elim (fun hb => Bool.false_ne_true hb) hsmall]
        exact h x
  | fresh hsearch hfree hlengths hlive hfound =>
      have hfollow : followed len sub.value.length slot true = Function.update len slot sub.value.length :=
        if_pos (Or.inl rfl)
      rw [hfollow, hlengths]
      by_cases hx : x = slot
      · subst hx
        rw [Function.update_self, Function.update_self]
        exact ⟨Iff.rfl, fun _ => rfl⟩
      · rw [Function.update_of_ne hx, Function.update_of_ne hx]
        exact h x

/-- Along a store, what is in use stays. -/
theorem Touched.live (ht : Touched s sub.key sub.value.length s₁ slot fresh) {x : Nat} (hx : s.ftl.Live x) :
    s₁.ftl.Live x ∧ s₁.ftl.lengths x = s.ftl.lengths x := by
  cases ht with
  | found hsearch hftl => exact ⟨hftl ▸ hx, by rw [hftl]⟩
  | fresh hsearch hfree hlengths hlive hfound =>
      refine ⟨hlive x (Or.inl hx), ?_⟩
      rw [hlengths, Function.update_of_ne]
      rintro rfl
      exact hfree hx

theorem Touched.search (ht : Touched s sub.key sub.value.length s₁ slot fresh) {k : KvKey} {x : Nat}
    (hx : search s.ftl k = .ok (some x)) : search s₁.ftl k = .ok (some x) := by
  cases ht with
  | found hsearch hftl => rw [hftl, hx]
  | fresh hsearch hfree hlengths hlive hfound => exact hfound k x hx

/-- The storage plays no part in the lookups. -/
theorem updates_storage (storageSize : UInt64) (s : KvNs) (storage : Nat → UInt8) (subs : List KvSubCommand) :
    updates storageSize { s with storage := storage } subs = updates storageSize s subs := by
  induction subs generalizing s with
  | nil => rfl
  | cons sub subs ih =>
      simp only [updates, ih s]
      cases search s.ftl sub.key with
      | error e => rfl
      | ok r =>
          cases r with
          | some x => rfl
          | none =>
              have hother : ∀ ftl, updates storageSize
                  { (allocateMemOffsetByLength { s with storage := storage } sub.value.length).2 with ftl := ftl } subs =
                  updates storageSize { (allocateMemOffsetByLength s sub.value.length).2 with ftl := ftl } subs :=
                fun ftl => ih { (allocateMemOffsetByLength s sub.value.length).2 with ftl := ftl }
              simp only [ok_bind, hother]
              rfl

theorem updates_cons (storageSize : UInt64) (s : KvNs) (sub : KvSubCommand) (subs : List KvSubCommand) :
    updates storageSize s (sub :: subs) = (touch storageSize s sub.key sub.value).bind fun t =>
      (updates storageSize t.1 subs).map fun later =>
        if t.2.2 then later else ⟨t.2.1, s.ftl.lengths t.2.1, sub.value.length⟩ :: later := by
  have hid : ∀ x : Except KvFault (List LengthUpdate), x.map (fun later => later) = x := fun x => by cases x <;> rfl
  unfold touch
  rw [updates]
  cases search s.ftl sub.key with
  | error e => rfl
  | ok r =>
      cases r with
      | some x =>
          simp only [ok_bind, pure_eq_ok, Except.bind, updates_storage]
          cases updates storageSize s subs <;> rfl
      | none =>
          simp only [ok_bind, pure_eq_ok, newMappingEntryByKey, newMappingEntry_eq]
          by_cases hoff : (allocateMemOffsetByLength s sub.value.length).1 ≥ storageSize.toNat
          · rw [if_pos hoff, if_pos hoff]
            rfl
          · rw [if_neg hoff, if_neg hoff]
            cases chooseSlot (allocateMemOffsetByLength s sub.value.length).2.ftl sub.key with
            | error e => rfl
            | ok c => exact ((hid _).trans (updates_storage storageSize { s with
                latest := (allocateMemOffsetByLength s sub.value.length).2.latest
                ftl := insertEntry _ sub.key _ sub.value.length c.1 c.2 } _ subs)).symm

theorem lastUpdate_cons (x : Nat) (u : LengthUpdate) (us : List LengthUpdate) :
    lastUpdate x (u :: us) = (lastUpdate x us).or (if u.slot = x ∧ u.new ≤ smallLength then some u else none) := by
  rw [lastUpdate]
  cases lastUpdate x us <;> rfl

/-- A new entry in front. -/
theorem Followed.insert {us : List LengthUpdate} (ht : Touched s sub.key sub.value.length s₁ slot true)
    (h : Followed s₁ (followed len sub.value.length slot true) us s' len') : Followed s len us s' len' := by
  refine { live := fun x hx => ?_, found := fun k x hx => h.found k x (ht.search hx), updated := h.updated, other := ?_ }
  · obtain ⟨hl, hlen⟩ := ht.live hx
    obtain ⟨hl', hlen'⟩ := h.live x hl
    exact ⟨hl', hlen'.trans hlen⟩
  · intro x hx
    rcases h.other x hx with ⟨hlen, hold⟩ | ⟨hdead, hlen⟩
    · cases ht with
      | fresh hsearch hfree hlengths hlive hfound =>
          have hfollow : followed len sub.value.length slot true = Function.update len slot sub.value.length :=
            if_pos (Or.inl rfl)
          rw [hlen, hold, hfollow, hlengths]
          by_cases hxs : x = slot
          · subst hxs
            exact Or.inr ⟨hfree, by rw [Function.update_self, Function.update_self]⟩
          · exact Or.inl ⟨Function.update_of_ne hxs _ _, Function.update_of_ne hxs _ _⟩
    · exact Or.inr ⟨fun hl => hdead (ht.live hl).1, hlen⟩

/-- An update in front. -/
theorem Followed.update {us : List LengthUpdate} (hapart : SmallApart s len)
    (ht : Touched s sub.key sub.value.length s₁ slot false)
    (h : Followed s₁ (followed len sub.value.length slot false) us s' len') :
    Followed s len (⟨slot, s.ftl.lengths slot, sub.value.length⟩ :: us) s' len' := by
  cases ht with
  | found hsearch hftl =>
      have hlive := searchLoop_live hsearch
      refine { live := ?_, found := ?_, updated := fun x u hx => ?_, other := fun x hx => ?_ }
      · rw [← hftl]
        exact h.live
      · rw [← hftl]
        exact h.found
      · rw [lastUpdate_cons] at hx
        cases hrest : lastUpdate x us with
        | some u' =>
            rw [hrest] at hx
            cases hx
            exact h.updated x _ hrest
        | none =>
            rw [hrest, Option.none_or] at hx
            by_cases hhit : slot = x ∧ sub.value.length ≤ smallLength
            · rw [if_pos hhit] at hx
              cases hx
              obtain ⟨rfl, hsmall⟩ := hhit
              -- nothing later touches the entry
              rcases h.other slot hrest with ⟨hlen, hold⟩ | ⟨hdead, _⟩
              · refine ⟨hsmall, ⟨sub.key, h.found _ _ (hftl ▸ hsearch)⟩, hold.trans (by rw [hftl]), ?_⟩
                rw [hlen]
                unfold followed
                by_cases hslot : len slot ≤ smallLength
                · rw [if_pos (Or.inr ⟨hsmall, hslot⟩), Function.update_self, if_pos ((hapart slot).1.mp hslot)]
                · rw [if_neg fun hc => hc.elim (fun hb => Bool.false_ne_true hb) fun hc => hslot hc.2,
                    if_neg fun hc => hslot ((hapart slot).1.mpr hc), (hapart slot).2 hslot]
              · exact absurd (hftl ▸ hlive) hdead
            · rw [if_neg hhit] at hx
              cases hx
      · rw [lastUpdate_cons, Option.or_eq_none_iff] at hx
        obtain ⟨hrest, hhit⟩ := hx
        rcases h.other x hrest with ⟨hlen, hold⟩ | ⟨hdead, hlen⟩
        · refine Or.inl ⟨hlen.trans ?_, hold.trans (by rw [hftl])⟩
          unfold followed
          by_cases hsmall : sub.value.length ≤ smallLength ∧ len slot ≤ smallLength
          · have hne : x ≠ slot := by
              rintro rfl
              rw [if_pos ⟨rfl, hsmall.1⟩] at hhit
              cases hhit
            rw [if_pos (Or.inr hsmall), Function.update_of_ne hne]
          · rw [if_neg fun hc => hc.elim (fun hb => Bool.false_ne_true hb) hsmall]
        · exact Or.inr ⟨fun hl => hdead (hftl ▸ hl), hlen⟩

/-- **The two runs side by side**: they stop where the lookups do, on the same fault, or the stores end in the table of the
    batch with other lengths. -/
theorem performSubs_rel (storageSize : UInt64) {stores : List (KvCommand × HostMem)}
    (hstores : List.Forall₂ IsStoreOf subs stores) (hapart : SmallApart s len) :
    (∃ e, updates storageSize s subs = .error e ∧ performSubs storageSize subs s = .error e ∧
      runStores storageSize stores (s.relen len) = .error e) ∨
    ∃ us s' len', updates storageSize s subs = .ok us ∧ performSubs storageSize subs s = .ok s' ∧
      runStores storageSize stores (s.relen len) = .ok (s'.relen len') ∧ Followed s len us s' len' := by
  induction hstores generalizing s len with
  | nil =>
      exact Or.inr ⟨[], s, len, rfl, rfl, rfl,
        { live := fun x hx => ⟨hx, rfl⟩
          found := fun _ _ h => h
          updated := fun _ _ h => (by cases h)
          other := fun _ _ => Or.inl ⟨rfl, rfl⟩ }⟩
  | @cons sub store subs stores hstore hrest ih =>
      have hio := kvIo_eq_touch storageSize s hstore.opcode hstore.value len
      rw [hstore.key] at hio
      rw [updates_cons, performSubs, runStores, List.foldlM_cons, List.foldlM_cons, batchedIo_eq_touch hstore.sub_store,
        hio]
      cases htouch : touch storageSize s sub.key sub.value with
      | error e => exact Or.inl ⟨e, rfl, rfl, rfl⟩
      | ok t =>
          obtain ⟨s₁, slot, fresh⟩ := t
          have ht := touch_touched htouch
          rcases ih (hapart.touch ht) with ⟨e, hus, hbatch, hruns⟩ | ⟨us, s', len', hus, hbatch, hruns, hfollowed⟩
          · exact Or.inl ⟨e, congrArg (Except.map _) hus, hbatch, hruns⟩
          · refine Or.inr ⟨_, s', len', congrArg (Except.map _) hus, hbatch, hruns, ?_⟩
            cases fresh with
            | true => exact hfollowed.insert ht
            | false => exact hfollowed.update hapart ht

end Runs

/-! ## What the host sees -/

/-- Two states that no existence check and no retrieval of any key tells apart. -/
def SameView (storageSize : UInt64) (s t : KvNs) : Prop :=
  ∀ cmd host, cmd.opcode = .exist ∨ cmd.opcode = .retrieve →
    kvObserve storageSize cmd host s = kvObserve storageSize cmd host t

/-- **The batch leaves no length behind**: if all lookups and insertions return, the last update of at most `SMALL_LENGTH`
    bytes that found an entry of at most as many has the length of the entry. -/
def LengthsSettled (storageSize : UInt64) (s : KvNs) (subs : List KvSubCommand) : Prop :=
  ∀ us, updates storageSize s subs = .ok us → ∀ x u, lastUpdate x us = some u → u.old ≤ smallLength → u.new = u.old

section View

variable {storageSize : UInt64} {s : KvNs} {subs : List KvSubCommand} {stores : List (KvCommand × HostMem)}

/-- A retrieval returns the recorded length, as far as the buffer reaches. -/
theorem retrieve_length (storageSize : UInt64) (s : KvNs) {cmd : KvCommand} {x : Nat} (hop : cmd.opcode = .retrieve)
    (hpage : cmd.prp2.toNat % pageSize = 0) (hsearch : search s.ftl cmd.key = .ok (some x)) (host : HostMem) :
    ∃ host', kvObserve storageSize cmd host s = .ok (⟨min (s.ftl.lengths x) cmd.valueLength, none⟩, host') := by
  have hoff : (foundMapping s.ftl cmd.key (some x)).memOffset ≠ noOffset := memOffset_of_live (searchLoop_live hsearch)
  have hlen : (foundMapping s.ftl cmd.key (some x)).length = s.ftl.lengths x := rfl
  have hmove : ∀ off n m, ∃ m', cmd.move .toHost off n m = .ok m' := by
    intro off n m
    unfold KvCommand.move
    cases h : transfer cmd.prps .toHost off n m with
    | none => exact absurd h (prpLoop_ne_none (p := cmd.prps) hpage (Or.inl (Nat.zero_le 1)))
    | some m' => exact ⟨m', rfl⟩
  obtain ⟨m', hm'⟩ := hmove (foundMapping s.ftl cmd.key (some x)).memOffset
    (min (s.ftl.lengths x) cmd.valueLength) ⟨host, s.storage⟩
  refine ⟨m'.host, ?_⟩
  unfold kvObserve doPerformKvIo getMappingEntry
  simp only [hsearch, ok_bind, pure_eq_ok, hop, if_neg hoff, hlen, hm']
  rfl

theorem batch_view_iff (hstores : List.Forall₂ IsStoreOf subs stores) :
    Rel (SameView storageSize) (performSubs storageSize subs s) (runStores storageSize stores s) ↔
      LengthsSettled storageSize s subs := by
  have hrel := performSubs_rel storageSize hstores (smallApart_self s)
  rw [relen_lengths] at hrel
  rcases hrel with ⟨e, hus, hbatch, hruns⟩ | ⟨us, s', len', hus, hbatch, hruns, hfollowed⟩
  · rw [hbatch, hruns]
    refine iff_of_true rfl fun us hus' => ?_
    rw [hus] at hus'
    cases hus'
  · rw [hbatch, hruns, rel_ok]
    constructor
    · intro hsame us' hus' x u hlast hold
      rw [hus] at hus'
      cases hus'
      obtain ⟨hnew, ⟨k, hk⟩, hlen, hlen'⟩ := hfollowed.updated x u hlast
      rw [if_pos hold] at hlen'
      -- a retrieval of 1024 bytes shows both lengths
      let cmd : KvCommand := ⟨.retrieve, k, 256, 0, 0⟩
      have hview := hsame cmd (fun _ => 0) (Or.inr rfl)
      have hcmd : cmd.opcode = .retrieve ∧ cmd.prp2.toNat % pageSize = 0 := ⟨rfl, rfl⟩
      obtain ⟨h₁, hobs₁⟩ := retrieve_length storageSize s' hcmd.1 hcmd.2 hk (fun _ => 0)
      obtain ⟨h₂, hobs₂⟩ := retrieve_length storageSize (s'.relen len') hcmd.1 hcmd.2 (search_relen.trans hk)
        (fun _ => 0)
      rw [hobs₁, hobs₂] at hview
      have hmin := congrArg KvReply.result (congrArg Prod.fst (Except.ok.inj hview))
      have hrelen : (s'.relen len').ftl.lengths x = len' x := rfl
      have hbuf : cmd.valueLength = smallLength := by
        show (256 : UInt32).toNat * 4 % 2 ^ 32 = 1024
        decide
      simp only [hlen, hrelen, hlen', hbuf] at hmin
      rw [Nat.min_eq_left hold, Nat.min_eq_left hnew] at hmin
      exact hmin.symm
    · intro hsettled
      have heq : len' = s'.ftl.lengths := by
        funext x
        cases hlast : lastUpdate x us with
        | none =>
            rcases hfollowed.other x hlast with ⟨hlen', hlen⟩ | ⟨_, hlen'⟩
            · rw [hlen', hlen]
            · exact hlen'
        | some u =>
            obtain ⟨_, _, hlen, hlen'⟩ := hfollowed.updated x u hlast
            rw [hlen', hlen]
            by_cases hold : u.old ≤ smallLength
            · rw [if_pos hold, hsettled us hus x u hlast hold]
            · rw [if_neg hold]
      rw [heq, relen_lengths]
      exact fun _ _ _ => rfl

/-- **A batch and its stores.** In every state, for a batch command whose payload holds the sub-commands and for stores
    of the same keys and values: the batch leaves what the stores leave, to all later lookups and retrievals, exactly if
    it leaves no length behind. -/
theorem kv_batch_matches_stores_iff (storageSize : UInt64) (cmd : KvBatchCommand) (host : HostMem) (s : KvNs)
    (subs : List KvSubCommand) (stores : List (KvCommand × HostMem)) (hpayload : cmd.payload host = some subs)
    (hstores : List.Forall₂ IsStoreOf subs stores) :
    (∃ r, doPerformKvBatch storageSize cmd host s = some r ∧
      Rel (SameView storageSize) r (runStores storageSize stores s)) ↔ LengthsSettled storageSize s subs := by
  rw [doPerformKvBatch, hpayload, ← batch_view_iff hstores]
  constructor
  · rintro ⟨r, hr, hrel⟩
    cases hr
    exact hrel
  · exact fun hrel => ⟨_, rfl, hrel⟩

end View

/-! ## Stores and payloads -/

/-- A store of the sub-command, from a buffer at address 0. -/
def KvSubCommand.single (sub : KvSubCommand) : KvCommand × HostMem :=
  (⟨.store, sub.key, UInt32.ofNat (sub.value.length / 4), 0, 0⟩, fun x => sub.value.getD x 0)

/-- **Every sub-command has a single form** if its value is as long as a store can say. -/
theorem isStoreOf_single {sub : KvSubCommand} (hop : sub.opcode = .store) (hword : sub.value.length % 4 = 0)
    (hle : sub.value.length ≤ 4096) : IsStoreOf sub sub.single where
  sub_store := hop
  opcode := rfl
  key := rfl
  value := by
    have hlen : sub.single.1.valueLength = sub.value.length := by
      simp only [KvSubCommand.single, KvCommand.valueLength, UInt32.toNat_ofNat']
      omega
    rw [hlen, gather_page (by rfl) hle]
    exact congrArg some (bytesAt_getD sub.value)

/-- A batch command with its payload at address 0. -/
def batchOf (subs : List KvSubCommand) : KvBatchCommand :=
  ⟨UInt32.ofNat ((encodeBatch subs).length / 4), UInt8.ofNat subs.length, 0, 0⟩

def batchHost (subs : List KvSubCommand) : HostMem := fun x => (encodeBatch subs).getD x 0

def batchKey : KvKey := ⟨[107], by decide, by decide⟩

/-- A new key and an update of it with a value of the same length. -/
def batchRewrite : List KvSubCommand :=
  [⟨.store, batchKey, [1, 2, 3, 4, 5, 6, 7, 8]⟩, ⟨.store, batchKey, [8, 7, 6, 5, 4, 3, 2, 1]⟩]

/-- A new key and an update of it with a shorter value. -/
def batchShrink : List KvSubCommand := [⟨.store, batchKey, [1, 2, 3, 4, 5, 6, 7, 8]⟩, ⟨.store, batchKey, [9, 9, 9, 9]⟩]

/-- The second sub-command finds the entry of the first, and has its length. -/
theorem kv_batch_matches_stores_rewrite :
    (updates (2 ^ 30) (.init fun _ => 0) batchRewrite).toOption.map (·.map fun u => (u.old, u.new)) = some [(8, 8)] ∧
    ∃ r, doPerformKvBatch (2 ^ 30) (batchOf batchRewrite) (batchHost batchRewrite) (.init fun _ => 0) = some r ∧
      Rel (SameView (2 ^ 30)) r (runStores (2 ^ 30) (batchRewrite.map KvSubCommand.single) (.init fun _ => 0)) := by
  have hlookups : (updates (2 ^ 30) (.init fun _ => 0) batchRewrite).toOption.map (·.map fun u => (u.old, u.new)) =
      some [(8, 8)] := by decide +kernel
  refine ⟨hlookups, (kv_batch_matches_stores_iff (2 ^ 30) (batchOf batchRewrite) (batchHost batchRewrite)
    (.init fun _ => 0) batchRewrite (batchRewrite.map KvSubCommand.single) (by decide +kernel)
    (.cons (isStoreOf_single rfl rfl (by decide)) (.cons (isStoreOf_single rfl rfl (by decide)) .nil))).mpr ?_⟩
  intro us hus x u hlast _
  rw [hus] at hlookups
  obtain ⟨u', rfl, hu'⟩ := List.map_eq_singleton_iff.mp (Option.some.inj hlookups)
  rw [lastUpdate_cons, lastUpdate, Option.none_or] at hlast
  split at hlast
  · cases hlast
    exact (Prod.mk.inj hu').2.trans (Prod.mk.inj hu').1.symm
  · cases hlast

/-- The length that a retrieval of the key returns, into a buffer of 8 bytes. -/
def retrieved (s : KvNs) : Option Nat :=
  (kvObserve (2 ^ 30) ⟨.retrieve, batchKey, 2, 0, 0⟩ (fun _ => 0) s).toOption.map (·.1.result)

/-- **A length left behind.** From an empty table, 8 bytes and then 4 bytes are stored under a key. After the batch a
    retrieval returns 8 bytes, after the stores 4. -/
theorem kv_batch_keeps_length :
    (batchOf batchShrink).payload (batchHost batchShrink) = some batchShrink ∧
    List.Forall₂ IsStoreOf batchShrink (batchShrink.map KvSubCommand.single) ∧
    ¬ ∃ r, doPerformKvBatch (2 ^ 30) (batchOf batchShrink) (batchHost batchShrink) (.init fun _ => 0) = some r ∧
      Rel (SameView (2 ^ 30)) r (runStores (2 ^ 30) (batchShrink.map KvSubCommand.single) (.init fun _ => 0)) := by
  refine ⟨by decide +kernel,
    .cons (isStoreOf_single rfl rfl (by decide)) (.cons (isStoreOf_single rfl rfl (by decide)) .nil), ?_⟩
  rintro ⟨r, hr, hrel⟩
  have hbatch : ((doPerformKvBatch (2 ^ 30) (batchOf batchShrink) (batchHost batchShrink) (.init fun _ => 0)).bind
      Except.toOption).bind retrieved = some 8 := by decide +kernel
  have hruns : (runStores (2 ^ 30) (batchShrink.map KvSubCommand.single) (.init fun _ => 0)).toOption.bind retrieved =
      some 4 := by decide +kernel
  rw [hr] at hbatch
  cases r with
  | error e => cases hbatch
  | ok s' =>
      cases ht : runStores (2 ^ 30) (batchShrink.map KvSubCommand.single) (.init fun _ => 0) with
      | error e =>
          rw [ht] at hruns
          cases hruns
      | ok t =>
          rw [ht] at hruns hrel
          have hview : retrieved s' = retrieved t :=
            congrArg (fun r => r.toOption.map (·.1.result)) (hrel _ _ (Or.inr rfl))
          have h8 : retrieved s' = some 8 := hbatch
          have h4 : retrieved t = some 4 := hruns
          rw [hview, h4] at h8
          exact absurd h8 (by decide)

end NvmeVirt
