import NvmeVirt.Kv.Index
import NvmeVirt.Lib.Links
import Mathlib.Data.Finset.Lattice.Fold

/-!
# `Kv.Chains` — the chains of the mapping table and the loops that follow them

The table's chains are links among entries in use (`Links`). `Chained` is what every operation keeps, whatever
keys are stored and deleted: links stay inside the table, a free entry has no link, and the order in which the
entries were filled increases along the links. From it each loop of `kv_ftl.c` gets one lemma that says where it
ends:

* `search_spec` — at the first entry reachable from the home slot that compares equal, or at none;
* `tailLoop_spec` — at a reachable entry that nothing in use follows;
* `probeLoop_spec` — at a free slot, if there is one.
-/

namespace NvmeVirt

open Outcome Links

/-- The entry is in use. -/
def KvFtl.Live (ftl : KvFtl) (slot : Nat) : Prop := (ftl.kvMappingTable slot).isFree = false

/-- The entry the link of a slot leads to. -/
def KvFtl.next (ftl : KvFtl) (slot : Nat) : Option Nat :=
  if (ftl.kvMappingTable slot).nextSlot = noSlot then none else some (ftl.kvMappingTable slot).nextSlot

instance (ftl : KvFtl) (slot : Nat) : Decidable (ftl.Live slot) :=
  inferInstanceAs (Decidable (_ = false))

/-- A walk along the chain from the first slot visits the second. -/
abbrev KvFtl.Reach (ftl : KvFtl) : Nat → Nat → Prop := Links.Reach ftl.Live ftl.next

/-- The structure of the chains. `stamp` is the order in which the entries were filled. -/
structure Chained (ftl : KvFtl) (stamp : Nat → Nat) : Prop where
  slots_pos : 0 < ftl.hashSlots
  slots_lt : ftl.hashSlots < noSlot
  ordered : Ordered ftl.hashSlots ftl.Live ftl.next stamp
  free_next : ∀ a, a < ftl.hashSlots → ¬ ftl.Live a → ftl.next a = none

variable {ftl : KvFtl} {stamp : Nat → Nat} {key : KvKey} {a b slot : Nat}

theorem isFree_of_not_live (h : ¬ ftl.Live slot) : (ftl.kvMappingTable slot).isFree = true := by
  simpa [KvFtl.Live] using h

theorem next_eq_none_iff : ftl.next slot = none ↔ (ftl.kvMappingTable slot).nextSlot = noSlot := by
  simp [KvFtl.next]

theorem next_eq_some_iff : ftl.next slot = some b ↔
    (ftl.kvMappingTable slot).nextSlot ≠ noSlot ∧ (ftl.kvMappingTable slot).nextSlot = b := by
  simp [KvFtl.next]

theorem Chained.home_lt (h : Chained ftl stamp) (key : KvKey) : getHashSlot ftl key < ftl.hashSlots :=
  Nat.mod_lt _ h.slots_pos

theorem Chained.reach_lt (h : Chained ftl stamp) (ha : a < ftl.hashSlots) (hr : ftl.Reach a b) :
    b < ftl.hashSlots := by
  induction hr with
  | self _ => exact ha
  | link hl hn _ ih => exact ih (h.ordered _ _ ha hl hn).1

/-! ## Lookup -/

/-- What a walk may return: an entry on the way that compares equal, or none if there is no such entry. -/
def Finds (ftl : KvFtl) (key : KvKey) (a : Nat) : Option Nat → Prop
  | none => ∀ b, ftl.Reach a b → (ftl.kvMappingTable b).matchesKey key = false
  | some b => ftl.Reach a b ∧ (ftl.kvMappingTable b).matchesKey key = true

/-- At an entry in use that compares different, the walk goes on along the link. -/
theorem Finds.link {r : Option Nat} (hl : ftl.Live a) (hm : (ftl.kvMappingTable a).matchesKey key = false)
    (hn : ftl.next a = some b) (h : Finds ftl key b r) : Finds ftl key a r := by
  cases r with
  | none =>
      intro x hx
      cases hx with
      | self _ => exact hm
      | link _ hn' hr =>
          rw [hn] at hn'
          cases hn'
          exact h x hr
  | some x => exact ⟨.link hl hn h.1, h.2⟩

theorem searchLoop_spec (h : Chained ftl stamp) (key : KvKey) {fuel : Nat} (hfuel : ftl.hashSlots < fuel)
    (ha : a < ftl.hashSlots) : Sat (fun _ => False) (Finds ftl key a) (searchLoop ftl key fuel a) := by
  refine walk_induction (motive := fun k a => Sat (fun _ => False) (Finds ftl key a) (searchLoop ftl key k a))
    h.ordered ?_ ?_ ?_ hfuel ha
  · intro k a _ hfree
    rw [searchLoop, if_pos (isFree_of_not_live hfree)]
    intro b hb
    exact absurd hb.live_start hfree
  · intro k a _ hl hn
    rw [searchLoop, if_neg (by simpa [KvFtl.Live] using hl)]
    by_cases hm : (ftl.kvMappingTable a).matchesKey key = true
    · rw [if_pos hm]
      exact ⟨.self hl, hm⟩
    · rw [if_neg hm, if_pos (next_eq_none_iff.mp hn)]
      -- a walk from the last entry visits that entry only
      intro b hb
      cases hb with
      | self _ => simpa using hm
      | link _ hn' _ => simp [hn] at hn'
  · intro k a b _ hl hn ih
    obtain ⟨hne, rfl⟩ := next_eq_some_iff.mp hn
    rw [searchLoop, if_neg (by simpa [KvFtl.Live] using hl)]
    by_cases hm : (ftl.kvMappingTable a).matchesKey key = true
    · rw [if_pos hm]
      exact ⟨.self hl, hm⟩
    · rw [if_neg hm, if_neg hne]
      exact ih.mono fun r hr => hr.link hl (by simpa using hm) hn

/-- **Lookup ends**, at an entry of the key's chain that compares equal if there is one. -/
theorem search_spec (h : Chained ftl stamp) (key : KvKey) :
    Sat (fun _ => False) (Finds ftl key (getHashSlot ftl key)) (search ftl key) :=
  searchLoop_spec h key (Nat.lt_succ_self _) (h.home_lt key)

/-! ## Insertion -/

/-- An entry in use, reachable from `a`, that no entry in use follows. -/
def EndsChain (ftl : KvFtl) (a b : Nat) : Prop :=
  ftl.Reach a b ∧ ∀ x, ftl.next b = some x → ¬ ftl.Live x

theorem tailLoop_spec (h : Chained ftl stamp) {fuel : Nat} (hfuel : ftl.hashSlots < fuel)
    (ha : a < ftl.hashSlots) (prevs : Nat) :
    Sat (fun _ => False) (fun r => if ftl.Live a then EndsChain ftl a r else r = prevs)
      (tailLoop ftl fuel prevs a) := by
  revert prevs
  refine walk_induction (motive := fun k a => ∀ prevs, Sat (fun _ => False)
    (fun r => if ftl.Live a then EndsChain ftl a r else r = prevs) (tailLoop ftl k prevs a))
    h.ordered ?_ ?_ ?_ hfuel ha
  · intro k a _ hfree prevs
    simp [tailLoop, isFree_of_not_live hfree, hfree]
  · intro k a _ hl hn prevs
    rw [tailLoop, if_neg (by simpa [KvFtl.Live] using hl), if_pos (next_eq_none_iff.mp hn), sat_ok, if_pos hl]
    exact ⟨.self hl, by simp [hn]⟩
  · intro k a b _ hl hn ih prevs
    obtain ⟨hne, rfl⟩ := next_eq_some_iff.mp hn
    rw [tailLoop, if_neg (by simpa [KvFtl.Live] using hl), if_neg hne]
    refine (ih a).mono fun r hr => ?_
    rw [if_pos hl]
    by_cases hb : ftl.Live (ftl.kvMappingTable a).nextSlot
    · rw [if_pos hb] at hr
      exact ⟨.link hl hn hr.1, hr.2⟩
    · -- the link is left over from an entry freed since, so `a` is the last one in use
      rw [if_neg hb] at hr
      subst hr
      refine ⟨.self hl, ?_⟩
      intro x hx
      rw [hn] at hx
      cases hx
      exact hb

/-- Steps from a slot to another, upwards with wrap-around. -/
def slotsTo (n a f : Nat) : Nat := if a ≤ f then f - a else n - a + f

theorem probeLoop_spec {f : Nat} (hf : f < ftl.hashSlots) (hfree : ¬ ftl.Live f) (fuel : Nat)
    (ha : a < ftl.hashSlots) (hfuel : slotsTo ftl.hashSlots a f < fuel) :
    Sat (fun _ => False) (fun r => r < ftl.hashSlots ∧ ¬ ftl.Live r) (probeLoop ftl fuel a) := by
  induction fuel generalizing a with
  | zero => exact absurd hfuel (Nat.not_lt_zero _)
  | succ k ih =>
      rw [probeLoop]
      by_cases hl : ftl.Live a
      · rw [if_neg (by simpa [KvFtl.Live] using hl)]
        -- `f` is another slot, so one step upwards comes nearer to it
        have hne : a ≠ f := by
          rintro rfl
          exact hfree hl
        apply ih
        · split <;> omega
        · unfold slotsTo at hfuel ⊢
          split <;> split <;> split at hfuel <;> omega
      · rw [if_pos (isFree_of_not_live hl)]
        exact ⟨ha, hl⟩

theorem probeLoop_full (hfull : ∀ f, f < ftl.hashSlots → ftl.Live f) {fuel : Nat} (ha : a < ftl.hashSlots) :
    probeLoop ftl fuel a = .error .hang := by
  induction fuel generalizing a with
  | zero => rfl
  | succ k ih =>
      rw [probeLoop, if_neg (by simpa [KvFtl.Live] using hfull a ha)]
      apply ih
      split <;> omega

/-- Where a new mapping may go: a free slot, which is the home slot, or is to be linked from the end of the chain
    that starts there. -/
structure Chosen (ftl : KvFtl) (key : KvKey) (slot prev : Nat) : Prop where
  slot_lt : slot < ftl.hashSlots
  free : ¬ ftl.Live slot
  place : (slot = getHashSlot ftl key ∧ prev = noSlot) ∨ EndsChain ftl (getHashSlot ftl key) prev

/-- Every entry of the table is in use. -/
def KvFtl.Full (ftl : KvFtl) : Prop := ∀ f, f < ftl.hashSlots → ftl.Live f

/-- **Insertion finds a slot**, and searches without end only in a full table. -/
theorem chooseSlot_spec (h : Chained ftl stamp) (key : KvKey) :
    Sat (fun e => e = .hang ∧ ftl.Full) (fun r => Chosen ftl key r.1 r.2) (chooseSlot ftl key) := by
  unfold chooseSlot
  by_cases hl : ftl.Live (getHashSlot ftl key)
  · rw [if_neg (by simpa [KvFtl.Live] using hl), findNextSlot]
    have htail := tailLoop_spec h (Nat.lt_succ_self _) (h.home_lt key) noSlot
    refine (htail.mono_error fun _ he => he.elim).bind fun prevs hprevs => ?_
    rw [if_pos hl] at hprevs
    have hlt : prevs < ftl.hashSlots := h.reach_lt (h.home_lt key) hprevs.1
    by_cases hfull : ftl.Full
    · rw [probeLoop_full hfull hlt]
      exact ⟨rfl, hfull⟩
    · simp only [KvFtl.Full, not_forall] at hfull
      obtain ⟨f, hf, hff⟩ := hfull
      have hprobe := probeLoop_spec hf hff ftl.hashSlots hlt (by unfold slotsTo; split <;> omega)
      refine (hprobe.mono_error fun _ he => he.elim).bind fun r hr => ?_
      exact { slot_lt := hr.1, free := hr.2, place := Or.inr hprevs }
  · rw [if_pos (isFree_of_not_live hl)]
    exact { slot_lt := h.home_lt key, free := hl, place := Or.inl ⟨rfl, rfl⟩ }

/-! ## What the updates do to the chains -/

@[simp] theorem setEntry_self (e : MappingEntry) : (ftl.setEntry slot e).kvMappingTable slot = e := by
  simp [KvFtl.setEntry]

theorem setEntry_of_ne {e : MappingEntry} (hne : a ≠ slot) :
    (ftl.setEntry slot e).kvMappingTable a = ftl.kvMappingTable a := by
  simp [KvFtl.setEntry, hne]

/-- The contents of an entry, its link apart. -/
def MappingEntry.SameContents (e e' : MappingEntry) : Prop :=
  e'.key = e.key ∧ e'.memOffset = e.memOffset ∧ e'.length = e.length

/-- The effect of an insertion: one more entry in use, linked from `prev` if there is one. -/
structure Inserted (ftl : KvFtl) (key : KvKey) (valOffset valueLength slot prev : Nat) (ftl' : KvFtl) : Prop where
  slots : ftl'.hashSlots = ftl.hashSlots
  key_eq : (ftl'.kvMappingTable slot).key =
    copyBytes (ftl.kvMappingTable slot).key key.bytes key.bytes.length
  offset_eq : (ftl'.kvMappingTable slot).memOffset = valOffset
  length_eq : (ftl'.kvMappingTable slot).length = valueLength
  others : ∀ a, a ≠ slot → (ftl.kvMappingTable a).SameContents (ftl'.kvMappingTable a)
  next_eq : ∀ a, a < ftl.hashSlots → ftl'.next a = if a = prev then some slot else ftl.next a

theorem inserted_of_chosen (h : Chained ftl stamp) {prev : Nat} (hc : Chosen ftl key slot prev)
    (off len : Nat) :
    Inserted ftl key off len slot prev
      (if prev ≠ noSlot then chainMapping (fillEntry ftl slot key off len) prev slot
        else fillEntry ftl slot key off len) := by
  have hslot : slot ≠ noSlot := Nat.ne_of_lt (Nat.lt_trans hc.slot_lt h.slots_lt)
  have hfill : ∀ a, (fillEntry ftl slot key off len).next a = ftl.next a := by
    intro a
    unfold KvFtl.next fillEntry
    by_cases hne : a = slot
    · subst hne
      simp
    · rw [setEntry_of_ne hne]
  rcases hc.place with ⟨_, rfl⟩ | hend
  · rw [if_neg (by simp)]
    refine { slots := rfl, key_eq := by simp [fillEntry], offset_eq := by simp [fillEntry],
             length_eq := by simp [fillEntry], others := ?_, next_eq := ?_ }
    · intro a ha
      rw [fillEntry, setEntry_of_ne ha]
      exact ⟨rfl, rfl, rfl⟩
    · intro a ha
      rw [if_neg (Nat.ne_of_lt (Nat.lt_trans ha h.slots_lt)), hfill]
  · -- the predecessor is in use, so it is another entry than the one filled
    have hprev : prev ≠ slot := by
      rintro rfl
      exact hc.free hend.1.live_end
    have hlt : prev < ftl.hashSlots := h.reach_lt (h.home_lt key) hend.1
    rw [if_pos (Nat.ne_of_lt (Nat.lt_trans hlt h.slots_lt)), chainMapping]
    refine { slots := rfl, key_eq := ?_, offset_eq := ?_, length_eq := ?_, others := ?_, next_eq := ?_ }
    · rw [setEntry_of_ne hprev.symm]
      simp [fillEntry]
    · rw [setEntry_of_ne hprev.symm]
      simp [fillEntry]
    · rw [setEntry_of_ne hprev.symm]
      simp [fillEntry]
    · intro a ha
      by_cases hap : a = prev
      · subst hap
        rw [setEntry_self, fillEntry, setEntry_of_ne ha]
        exact ⟨rfl, rfl, rfl⟩
      · rw [setEntry_of_ne hap, fillEntry, setEntry_of_ne ha]
        exact ⟨rfl, rfl, rfl⟩
    · intro a _
      by_cases hap : a = prev
      · subst hap
        rw [if_pos rfl, next_eq_some_iff, setEntry_self]
        exact ⟨hslot, rfl⟩
      · rw [if_neg hap, ← hfill a]
        unfold KvFtl.next
        rw [setEntry_of_ne hap]

/-- **`new_mapping_entry`.** It stops on an offset outside the storage, searches without end in a full table,
    and otherwise adds an entry for the key to the key's chain. -/
theorem newMappingEntry_spec (h : Chained ftl stamp) (storageSize : UInt64) (key : KvKey) (off len : Nat) :
    Sat (fun e => (e = .bug ∧ storageSize.toNat ≤ off) ∨ (e = .hang ∧ ftl.Full))
      (fun ftl' => off < storageSize.toNat ∧
        ∃ slot prev, Chosen ftl key slot prev ∧ Inserted ftl key off len slot prev ftl')
      (newMappingEntry storageSize ftl key off len) := by
  unfold newMappingEntry
  by_cases hoff : off ≥ storageSize.toNat
  · rw [if_pos hoff]
    exact Or.inl ⟨rfl, hoff⟩
  · rw [if_neg hoff]
    refine ((chooseSlot_spec h key).mono_error fun _ he => Or.inr he).bind fun r hr => ?_
    exact ⟨by omega, r.1, r.2, hr, inserted_of_chosen h hr off len⟩

section Insert

variable {off len prev : Nat} {ftl' : KvFtl}

theorem Inserted.live_iff (hi : Inserted ftl key off len slot prev ftl') (hoff : off ≠ noOffset) :
    ftl'.Live a ↔ ftl.Live a ∨ a = slot := by
  by_cases hne : a = slot
  · subst hne
    simp [KvFtl.Live, MappingEntry.isFree, hi.offset_eq, hoff]
  · simp [KvFtl.Live, MappingEntry.isFree, (hi.others a hne).2.1, hne]

/-- Insertion extends the chains: what could be reached before still can. -/
theorem Inserted.reach (h : Chained ftl stamp) (hc : Chosen ftl key slot prev)
    (hi : Inserted ftl key off len slot prev ftl') (hoff : off ≠ noOffset) (ha : a < ftl.hashSlots)
    (hr : ftl.Reach a b) : ftl'.Reach a b := by
  induction hr with
  | self hl => exact .self ((hi.live_iff hoff).mpr (Or.inl hl))
  | @link x y z hl hn hr ih =>
      refine .link ((hi.live_iff hoff).mpr (Or.inl hl)) ?_ (ih (h.ordered _ _ ha hl hn).1)
      rw [hi.next_eq x ha, if_neg, hn]
      -- an entry in use follows `x`, so it is not the end of the chain that gets the new link
      rintro rfl
      rcases hc.place with ⟨_, rfl⟩ | hend
      · exact absurd (Nat.lt_trans ha h.slots_lt) (Nat.lt_irrefl _)
      · exact hend.2 y hn hr.live_start

/-- The new entry is on the chain of its key. -/
theorem Inserted.reach_new (h : Chained ftl stamp) (hc : Chosen ftl key slot prev)
    (hi : Inserted ftl key off len slot prev ftl') (hoff : off ≠ noOffset) :
    ftl'.Reach (getHashSlot ftl key) slot := by
  have hl : ftl'.Live slot := (hi.live_iff hoff).mpr (Or.inr rfl)
  rcases hc.place with ⟨hs, _⟩ | hend
  · rw [← hs]
    exact .self hl
  · have hlt := h.reach_lt (h.home_lt key) hend.1
    refine (hi.reach h hc hoff (h.home_lt key) hend.1).snoc ?_ hl
    rw [hi.next_eq prev hlt, if_pos rfl]

/-- **Insertion keeps the chains.** The new entry is the newest, so links to it increase the stamp, links that
    were left over included. -/
theorem Chained.insert (h : Chained ftl stamp) (hc : Chosen ftl key slot prev)
    (hi : Inserted ftl key off len slot prev ftl') (hoff : off ≠ noOffset) :
    ∃ stamp', Chained ftl' stamp' := by
  have hnew : ∀ a, a < ftl.hashSlots → stamp a < (Finset.range ftl.hashSlots).sup stamp + 1 := by
    intro a ha
    exact Nat.lt_succ_of_le (Finset.le_sup (f := stamp) (Finset.mem_range.mpr ha))
  refine ⟨Function.update stamp slot ((Finset.range ftl.hashSlots).sup stamp + 1), ?_⟩
  refine { slots_pos := by rw [hi.slots]; exact h.slots_pos, slots_lt := by rw [hi.slots]; exact h.slots_lt,
           ordered := ?_, free_next := ?_ }
  · intro a b ha hl hn
    rw [hi.slots] at ha ⊢
    rw [hi.next_eq a ha] at hn
    split at hn
    · next hap =>
        cases hn
        refine ⟨hc.slot_lt, fun _ => ?_⟩
        rcases hc.place with ⟨_, rfl⟩ | hend
        · exact absurd (Nat.lt_trans ha h.slots_lt) (by rw [hap]; exact Nat.lt_irrefl _)
        · rw [Function.update_self, Function.update_of_ne (by
            rintro rfl
            exact hc.free (hap ▸ hend.1.live_end))]
          exact hnew a ha
    · -- an old link, which does not start at the new entry
      have hane : a ≠ slot := by
        rintro rfl
        rw [h.free_next a ha hc.free] at hn
        cases hn
      have hla : ftl.Live a := ((hi.live_iff hoff).mp hl).resolve_right hane
      obtain ⟨hb, hstamp⟩ := h.ordered a b ha hla hn
      refine ⟨hb, fun hlb => ?_⟩
      rw [Function.update_of_ne hane]
      by_cases hbs : b = slot
      · subst hbs
        rw [Function.update_self]
        exact hnew a ha
      · rw [Function.update_of_ne hbs]
        exact hstamp (((hi.live_iff hoff).mp hlb).resolve_right hbs)
  · intro a ha hl
    rw [hi.slots] at ha
    rw [hi.live_iff hoff, not_or] at hl
    rw [hi.next_eq a ha, if_neg, h.free_next a ha hl.1]
    rintro rfl
    rcases hc.place with ⟨_, rfl⟩ | hend
    · exact absurd (Nat.lt_trans ha h.slots_lt) (Nat.lt_irrefl _)
    · exact hl.1 hend.1.live_end

end Insert

/-! ## Deletion and update of an entry -/

theorem wiped_live : (ftl.setEntry slot .wiped).Live a ↔ ftl.Live a ∧ a ≠ slot := by
  by_cases hne : a = slot
  · subst hne
    simp [KvFtl.Live, MappingEntry.isFree, MappingEntry.wiped]
  · simp [KvFtl.Live, setEntry_of_ne hne, hne]

theorem wiped_next (hne : a ≠ slot) : (ftl.setEntry slot .wiped).next a = ftl.next a := by
  simp [KvFtl.next, setEntry_of_ne hne]

theorem wiped_next_self : (ftl.setEntry slot .wiped).next slot = none := by
  simp [next_eq_none_iff, MappingEntry.wiped]

/-- **Deletion keeps the chains**, whatever becomes unreachable. -/
theorem Chained.wipe (h : Chained ftl stamp) : Chained (ftl.setEntry slot .wiped) stamp := by
  refine { slots_pos := h.slots_pos, slots_lt := h.slots_lt, ordered := ?_, free_next := ?_ }
  · intro a b ha hl hn
    obtain ⟨hla, hne⟩ := wiped_live.mp hl
    rw [wiped_next hne] at hn
    obtain ⟨hb, hstamp⟩ := h.ordered a b ha hla hn
    exact ⟨hb, fun hlb => hstamp (wiped_live.mp hlb).1⟩
  · intro a ha hl
    by_cases hne : a = slot
    · subst hne
      exact wiped_next_self
    · rw [wiped_next hne]
      exact h.free_next a ha fun hla => hl (wiped_live.mpr ⟨hla, hne⟩)

/-- An entry rewritten without changing whether it is in use or where it leads changes no chain. -/
theorem setEntry_live {e : MappingEntry} (hfree : e.isFree = (ftl.kvMappingTable slot).isFree) :
    (ftl.setEntry slot e).Live = ftl.Live := by
  funext a
  unfold KvFtl.Live
  by_cases hne : a = slot
  · subst hne
    rw [setEntry_self, hfree]
  · rw [setEntry_of_ne hne]

theorem setEntry_next {e : MappingEntry} (hnext : e.nextSlot = (ftl.kvMappingTable slot).nextSlot) :
    (ftl.setEntry slot e).next = ftl.next := by
  funext a
  unfold KvFtl.next
  by_cases hne : a = slot
  · subst hne
    rw [setEntry_self, hnext]
  · rw [setEntry_of_ne hne]

theorem Chained.rewrite (h : Chained ftl stamp) {e : MappingEntry}
    (hfree : e.isFree = (ftl.kvMappingTable slot).isFree)
    (hnext : e.nextSlot = (ftl.kvMappingTable slot).nextSlot) : Chained (ftl.setEntry slot e) stamp := by
  refine { slots_pos := h.slots_pos, slots_lt := h.slots_lt, ordered := ?_, free_next := ?_ }
  · rw [setEntry_live hfree, setEntry_next hnext]
    exact h.ordered
  · rw [setEntry_live hfree, setEntry_next hnext]
    exact h.free_next

/-- The table that `kv_init_namespace` sets up. -/
theorem chained_init : Chained kvInitNamespace (fun _ => 0) := by
  refine { slots_pos := by decide, slots_lt := by decide, ordered := ?_, free_next := ?_ }
  · intro a b _ _ hn
    simp [KvFtl.next, kvInitNamespace, MappingEntry.initial] at hn
  · intro a _ _
    simp [KvFtl.next, kvInitNamespace, MappingEntry.initial]

end NvmeVirt
