import NvmeVirt.Kv.Refine
import Mathlib.Logic.Relation

/-!
# `Kv.Acyclic` — every walk over the mapping table ends

A deleted entry is wiped, its own link included, but the link of its predecessor stays and leads to whatever the slot
holds next. So chains run together, and a link says nothing about the key it was made for. What keeps the links free of
cycles is that a link is only ever made to an entry that is free at the time, hence has no link itself.

The runs here are of any insertions, updates and deletions, of any keys, stored or not: an insertion of a key that is
already there makes a second entry.

* `KvTableRun.chained` — the structure of the chains holds in every run.
* `not_cycle` — the stamps increase along the links, so no walk comes back.
* `kv_chains_acyclic` — the loops that follow the links end from every slot, and the search for a free slot ends exactly
  if there is one.
-/

namespace NvmeVirt

open Outcome Links

/-- The functions that change the table. -/
inductive KvTableOp where
  | insert (key : KvKey) (valOffset valueLength : Nat)
  | update (key : KvKey) (valueLength : Nat)
  | delete (key : KvKey)
deriving DecidableEq, Repr

def kvTableStep (storageSize : UInt64) (ftl : KvFtl) : KvTableOp → Except KvFault KvFtl
  | .insert key off len => newMappingEntry storageSize ftl key off len
  | .update key len => do
      let (_, ftl) ← updateMappingEntry ftl key len
      return ftl
  | .delete key => deleteMappingEntry ftl key

/-- Any calls that return, on the table `kv_init_namespace` sets up. -/
inductive KvTableRun (storageSize : UInt64) : KvFtl → Prop
  | init : KvTableRun storageSize kvInitNamespace
  | step {ftl ftl' : KvFtl} {op : KvTableOp} :
      KvTableRun storageSize ftl → kvTableStep storageSize ftl op = .ok ftl' → KvTableRun storageSize ftl'

/-- The link of a slot leads to another. -/
def KvFtl.LinksTo (ftl : KvFtl) (a b : Nat) : Prop := ftl.next a = some b

/-- Some slot is free. -/
def KvFtl.HasFree (ftl : KvFtl) : Prop := ∃ f, f < ftl.hashSlots ∧ (ftl.kvMappingTable f).isFree = true

variable {ftl ftl' : KvFtl} {stamp : Nat → Nat} {storageSize : UInt64} {key : KvKey} {a b : Nat}

/-! ## Runs -/

theorem Chained.update (h : Chained ftl stamp) (key : KvKey) (len : Nat) :
    Sat (fun _ => False) (fun r => Chained r.2 stamp) (updateMappingEntry ftl key len) := by
  unfold updateMappingEntry
  refine (search_spec h key).bind fun r _ => ?_
  cases r with
  | none => exact h
  | some slot => exact h.rewrite rfl rfl

theorem Chained.delete (h : Chained ftl stamp) (key : KvKey) :
    Sat (fun _ => False) (fun ftl' => Chained ftl' stamp) (deleteMappingEntry ftl key) := by
  unfold deleteMappingEntry
  refine (search_spec h key).bind fun r _ => ?_
  cases r with
  | none => exact h
  | some slot => exact h.wipe

/-- **Step.** -/
theorem Chained.step (h : Chained ftl stamp) (op : KvTableOp) :
    Sat (fun _ => True) (fun ftl' => ∃ stamp', Chained ftl' stamp') (kvTableStep storageSize ftl op) := by
  cases op with
  | insert key off len =>
      refine ((newMappingEntry_spec h storageSize key off len).mono_error fun _ _ => trivial).mono ?_
      rintro ftl' ⟨hoff, slot, prev, hchosen, hinserted⟩
      exact h.insert hchosen hinserted (noOffset_of_lt hoff)
  | update key len =>
      exact ((h.update key len).mono_error fun _ he => he.elim).bind fun r hr => ⟨stamp, hr⟩
  | delete key =>
      exact ((h.delete key).mono_error fun _ he => he.elim).mono fun _ hr => ⟨stamp, hr⟩

theorem KvTableRun.chained (hr : KvTableRun storageSize ftl) : ∃ stamp, Chained ftl stamp := by
  induction hr with
  | init => exact ⟨_, chained_init⟩
  | step _ hok ih =>
      obtain ⟨stamp, h⟩ := ih
      exact (h.step _).of_eq_ok hok

/-! ## No cycle -/

/-- A slot with a link is in use. -/
theorem Chained.live_of_links (h : Chained ftl stamp) (ha : a < ftl.hashSlots) (hl : ftl.LinksTo a b) : ftl.Live a := by
  by_contra hfree
  have hnone := h.free_next a ha hfree
  rw [hl] at hnone
  cases hnone

/-- **Along the links** the stamps increase, up to a free slot. -/
theorem Chained.stamp_lt (h : Chained ftl stamp) (ha : a < ftl.hashSlots) (hp : Relation.TransGen ftl.LinksTo a b) :
    b < ftl.hashSlots ∧ (ftl.Live b → stamp a < stamp b) := by
  induction hp with
  | single hl => exact h.ordered a _ ha (h.live_of_links ha hl) hl
  | tail _ hl ih =>
      have hlive := h.live_of_links ih.1 hl
      obtain ⟨hlt, hstamp⟩ := h.ordered _ _ ih.1 hlive hl
      exact ⟨hlt, fun hc => Nat.lt_trans (ih.2 hlive) (hstamp hc)⟩

theorem Chained.not_cycle (h : Chained ftl stamp) (ha : a < ftl.hashSlots) : ¬ Relation.TransGen ftl.LinksTo a a := by
  intro hcycle
  obtain ⟨b, hl, -⟩ := Relation.TransGen.head'_iff.mp hcycle
  exact Nat.lt_irrefl _ ((h.stamp_lt ha hcycle).2 (h.live_of_links ha hl))

/-! ## The loops -/

/-- **The search for a free slot** visits every slot of the table, so it ends if one is free. -/
theorem probeLoop_ends (hfree : ftl.HasFree) (ha : a < ftl.hashSlots) : ∃ r, probeLoop ftl ftl.hashSlots a = .ok r := by
  obtain ⟨f, hf, hff⟩ := hfree
  have hnot : ¬ ftl.Live f := by simpa [KvFtl.Live] using hff
  have hfuel : slotsTo ftl.hashSlots a f < ftl.hashSlots := by
    unfold slotsTo
    split <;> omega
  obtain ⟨r, hok, -⟩ := (probeLoop_spec hf hnot ftl.hashSlots ha hfuel).exists_ok
  exact ⟨r, hok⟩

/-- In a full table it goes round without end. -/
theorem hasFree_of_probeLoop {fuel r : Nat} (ha : a < ftl.hashSlots) (hok : probeLoop ftl fuel a = .ok r) :
    ftl.HasFree := by
  by_contra hno
  have hfull : ftl.Full := by
    intro f hf
    by_contra hl
    exact hno ⟨f, hf, isFree_of_not_live hl⟩
  rw [probeLoop_full hfull ha] at hok
  cases hok

theorem probeLoop_ends_iff (ha : a < ftl.hashSlots) :
    (∃ fuel r, probeLoop ftl fuel a = .ok r) ↔ ftl.HasFree :=
  ⟨fun ⟨_, _, hok⟩ => hasFree_of_probeLoop ha hok, fun hfree => ⟨_, probeLoop_ends hfree ha⟩⟩

/-- `find_next_slot`, from a slot in use. -/
theorem Chained.findNextSlot_ends_iff (h : Chained ftl stamp) (ha : a < ftl.hashSlots) (hl : ftl.Live a) :
    (∃ r, findNextSlot ftl a = .ok r) ↔ ftl.HasFree := by
  unfold findNextSlot
  obtain ⟨prevs, htail, hend⟩ := (tailLoop_spec h (Nat.lt_succ_self _) ha noSlot).exists_ok
  rw [if_pos hl] at hend
  have hlt : prevs < ftl.hashSlots := h.reach_lt ha hend.1
  rw [htail, ok_bind]
  constructor
  · rintro ⟨r, hok⟩
    obtain ⟨slot, hprobe, -⟩ := bind_eq_ok hok
    exact hasFree_of_probeLoop hlt hprobe
  · intro hfree
    obtain ⟨slot, hprobe⟩ := probeLoop_ends hfree hlt
    exact ⟨(slot, prevs), by rw [hprobe]; rfl⟩

/-- `new_mapping_entry`, on a collision. -/
theorem Chained.newMappingEntry_ends_iff (h : Chained ftl stamp) {off : Nat} (hoff : off < storageSize.toNat) (len : Nat)
    (hl : ftl.Live (getHashSlot ftl key)) :
    (∃ ftl', newMappingEntry storageSize ftl key off len = .ok ftl') ↔ ftl.HasFree := by
  rw [← h.findNextSlot_ends_iff (h.home_lt key) hl]
  unfold newMappingEntry chooseSlot
  rw [if_neg (Nat.not_le.mpr hoff)]
  simp only [if_neg (show ¬ (ftl.kvMappingTable (getHashSlot ftl key)).isFree = true by simpa [KvFtl.Live] using hl)]
  cases findNextSlot ftl (getHashSlot ftl key) with
  | error e => exact iff_of_false (by rintro ⟨_, hok⟩; cases hok) (by rintro ⟨_, hok⟩; cases hok)
  | ok r => exact iff_of_true ⟨_, rfl⟩ ⟨r, rfl⟩

/-- **The walks that follow the links end**, from every slot of the table. -/
structure WalksEnd (ftl : KvFtl) : Prop where
  search : ∀ key a, a < ftl.hashSlots → ∃ r, searchLoop ftl key (ftl.hashSlots + 1) a = .ok r
  tail : ∀ prevs a, a < ftl.hashSlots → ∃ r, tailLoop ftl (ftl.hashSlots + 1) prevs a = .ok r
  get : ∀ key, ∃ e, getMappingEntry ftl key = .ok e
  update : ∀ key len, ∃ r, updateMappingEntry ftl key len = .ok r
  delete : ∀ key, ∃ ftl', deleteMappingEntry ftl key = .ok ftl'

theorem Chained.walksEnd (h : Chained ftl stamp) : WalksEnd ftl where
  search := by
    intro key a ha
    obtain ⟨r, hok, -⟩ := (searchLoop_spec h key (Nat.lt_succ_self _) ha).exists_ok
    exact ⟨r, hok⟩
  tail := by
    intro prevs a ha
    obtain ⟨r, hok, -⟩ := (tailLoop_spec h (Nat.lt_succ_self _) ha prevs).exists_ok
    exact ⟨r, hok⟩
  get := by
    intro key
    obtain ⟨r, hok, -⟩ := (search_spec h key).exists_ok
    exact ⟨_, by rw [getMappingEntry, hok]; rfl⟩
  update := by
    intro key len
    obtain ⟨r, hok, -⟩ := (h.update key len).exists_ok
    exact ⟨r, hok⟩
  delete := by
    intro key
    obtain ⟨r, hok, -⟩ := (h.delete key).exists_ok
    exact ⟨r, hok⟩

/-- **Chains are acyclic and walks end**, after any insertions, updates and deletions. -/
theorem kv_chains_acyclic (hr : KvTableRun storageSize ftl) :
    (∀ a, a < ftl.hashSlots → (ftl.kvMappingTable a).isFree = true → (ftl.kvMappingTable a).nextSlot = noSlot) ∧
      (∀ a, a < ftl.hashSlots → ¬ Relation.TransGen ftl.LinksTo a a) ∧
      WalksEnd ftl ∧
      (∀ a, a < ftl.hashSlots → ((∃ fuel r, probeLoop ftl fuel a = .ok r) ↔ ftl.HasFree)) ∧
      (∀ a, a < ftl.hashSlots → ftl.Live a → ((∃ r, findNextSlot ftl a = .ok r) ↔ ftl.HasFree)) ∧
      ∀ key off len, off < storageSize.toNat → ftl.Live (getHashSlot ftl key) →
        ((∃ ftl', newMappingEntry storageSize ftl key off len = .ok ftl') ↔ ftl.HasFree) := by
  obtain ⟨stamp, h⟩ := hr.chained
  refine ⟨?_, fun a ha => h.not_cycle ha, h.walksEnd, fun a ha => probeLoop_ends_iff ha,
    fun a ha hl => h.findNextSlot_ends_iff ha hl, fun key off len hoff hl => h.newMappingEntry_ends_iff hoff len hl⟩
  intro a ha hfree
  refine next_eq_none_iff.mp (h.free_next a ha ?_)
  simpa [KvFtl.Live] using hfree

/-- Two keys with one home slot: the second one hangs on a link, and is looked up through it. -/
theorem kv_chains_acyclic_collision :
    ∃ ftl, KvTableRun 4096 ftl ∧ (ftl.kvMappingTable (getHashSlot ftl keyAkcl)).nextSlot ≠ noSlot ∧
      ¬ Relation.TransGen ftl.LinksTo (getHashSlot ftl keyAkcl) (getHashSlot ftl keyAkcl) ∧
      ∃ e, getMappingEntry ftl keyImxa = .ok e := by
  have hobs : ([.insert keyAkcl 0 4, .insert keyImxa 4 8].foldlM (admitted (kvTableStep 4096) fun _ _ => true)
      kvInitNamespace).map (fun ftl => (decide ((ftl.kvMappingTable (getHashSlot ftl keyAkcl)).nextSlot ≠ noSlot),
        decide (getHashSlot ftl keyAkcl < ftl.hashSlots))) = some (true, true) := by decide +kernel
  obtain ⟨ftl, hr, hobs⟩ := exists_played (P := KvTableRun 4096) (fun _ _ _ hr _ hstep => hr.step hstep) .init hobs
  simp only [Prod.mk.injEq, decide_eq_true_eq] at hobs
  obtain ⟨-, hacyclic, hwalks, -⟩ := kv_chains_acyclic hr
  exact ⟨ftl, hr, hobs.1, hacyclic _ hobs.2, hwalks.get keyImxa⟩

end NvmeVirt
