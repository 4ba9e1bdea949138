import NvmeVirt.Kv.Iterator

/-!
# `Kv.IterHandles` — who holds which iterator handle

Commands of any clients, one after the other, on the table of handles that `kv_init_namespace` left. An open takes the
first free one of the entries 1 to 16; `kv_init_namespace` clears the entries 0 to 15. So what an open may hand out
depends on a word of memory that was never written.

When no entry is free, `kv_iter_open` returns 1 and leaves the status as it was, which is success: the completion looks
like that of an open that returned handle 1.

* `Exclusive` — what a command owes the holders of the other handles.
* `kv_iter_exclusive_iff` — it is met exactly by the commands that are `Served`, and 16 iterators can be open exactly if
  the word happens to be zero.
-/

namespace NvmeVirt

open Outcome

/-- The status in the completion: work entries start with `NVME_SC_SUCCESS`. -/
def KvReply.completed (reply : KvReply) : Nat := reply.status.getD 0

/-- An iterator is open under this handle. -/
def IterTable.IsOpen (t : IterTable) (h : Nat) : Prop := ∃ ctx, t.iterHandle h = .context ctx

/-- An open finds an entry. -/
def IterTable.HasFree (t : IterTable) : Prop := ∃ h, 1 ≤ h ∧ h ≤ 16 ∧ t.iterHandle h = .null

def IterPtr.isContext : IterPtr → Bool
  | .context _ => true
  | _ => false

/-- How many iterators are open. -/
def IterTable.openCount (t : IterTable) : Nat := ((List.range 17).filter fun h => (t.iterHandle h).isContext).length

/-- Any commands, on whatever keys are stored at the time. -/
inductive IterRun (word : UInt64) : IterTable → Prop
  | init : IterRun word (.init word)
  | step {ftl : KvFtl} {call : IterCall} {reply : KvReply} {host : HostMem} {t t' : IterTable} :
      IterRun word t → doPerformKvIterIo ftl call t = .ok (reply, host, t') → IterRun word t'

namespace KvIterCommand

def IsOpenReq (cmd : KvIterCommand) : Prop := cmd.opcode = .iterReq ∧ cmd.option &&& iterOptionOpen ≠ 0

instance (cmd : KvIterCommand) : Decidable cmd.IsOpenReq := inferInstanceAs (Decidable (_ ∧ _))

/-- The command goes through `iter_handle[cmd.iter_handle]`. -/
def UsesHandle (cmd : KvIterCommand) : Prop :=
  cmd.opcode = .iterRead ∨ (¬ cmd.IsOpenReq ∧ cmd.option &&& iterOptionClose ≠ 0)

/-- What the command needs of the table before it: an open a free entry, a read or a close an entry that was written. -/
def Served (cmd : KvIterCommand) (t : IterTable) : Prop :=
  (cmd.IsOpenReq → t.HasFree) ∧
    (cmd.UsesHandle → cmd.iterHandle.toNat < 17 ∧ t.iterHandle cmd.iterHandle.toNat ≠ .wild)

end KvIterCommand

/-- **What a command owes the others.** An open that completes with success returns a handle from 1 to 16 that nobody
    holds; every iterator but the one that a read or close goes through keeps its context, with position and filter; and
    nothing but the PRPs stops the command. -/
def Exclusive (ftl : KvFtl) (call : IterCall) (t : IterTable) : Prop :=
  Sat (fun e => e = .nullPrpList)
    (fun r =>
      (call.cmd.IsOpenReq → r.1.completed = 0 → 1 ≤ r.1.result ∧ r.1.result ≤ 16 ∧ ¬ t.IsOpen r.1.result) ∧
      ∀ h, t.IsOpen h → (call.cmd.UsesHandle → h ≠ call.cmd.iterHandle.toNat) → r.2.2.iterHandle h = t.iterHandle h)
    (doPerformKvIterIo ftl call t)

/-- **The open succeeds**, with a handle that was free. -/
def Opens (ftl : KvFtl) (call : IterCall) (t : IterTable) : Prop :=
  ∃ h host t', doPerformKvIterIo ftl call t = .ok (⟨h, some 0⟩, host, t') ∧ 1 ≤ h ∧ h ≤ 16 ∧ ¬ t.IsOpen h ∧ t'.IsOpen h

section

variable {ftl : KvFtl} {call : IterCall} {t t' : IterTable} {word : UInt64} {h : Nat}

/-! ## One command -/

theorem doPerformKvIterIo_open (ho : call.cmd.IsOpenReq) :
    doPerformKvIterIo ftl call t = .ok ((kvIterOpen call t).1, call.host, (kvIterOpen call t).2) := by
  unfold doPerformKvIterIo
  rw [ho.1]
  dsimp only
  rw [if_pos ho.2]

/-- An open that finds an entry takes one that was free. -/
theorem kvIterOpen_free (call : IterCall) (hfree : t.HasFree) : ∃ h, 1 ≤ h ∧ h ≤ 16 ∧ t.iterHandle h = .null ∧
    kvIterOpen call t =
      (⟨h, some 0⟩, t.store h (.context ⟨call.cmd.iterVal, call.cmd.iterBitmask, call.fresh, 0⟩)) := by
  obtain ⟨g, hg1, hg2, hnull⟩ := hfree
  unfold kvIterOpen
  cases hfind : (List.range' 1 16).find? fun iter => (t.iterHandle iter).isNull with
  | none =>
      have hno := List.find?_eq_none.mp hfind g (List.mem_range'_1.mpr ⟨hg1, by omega⟩)
      exact absurd (IterPtr.isNull_iff.mpr hnull) hno
  | some h =>
      have hmem := List.mem_range'_1.mp (List.mem_of_find?_eq_some hfind)
      have hfound := List.find?_some (p := fun iter => (t.iterHandle iter).isNull) hfind
      exact ⟨h, hmem.1, by omega, IterPtr.isNull_iff.mp hfound, rfl⟩

/-- An open that finds none returns 1. -/
theorem kvIterOpen_full (hfull : ¬ t.HasFree) : kvIterOpen call t = (⟨1, none⟩, t) := by
  have hnone : (List.range' 1 16).find? (fun iter => (t.iterHandle iter).isNull) = none := by
    rw [List.find?_eq_none]
    intro h hmem hnull
    have hm := List.mem_range'_1.mp hmem
    exact hfull ⟨h, hm.1, by omega, IterPtr.isNull_iff.mp hnull⟩
  rw [kvIterOpen, hnone]

/-- What a read or a close does to the table: only the entry it goes through may change, and not to one that points
    nowhere. -/
structure Through (cmd : KvIterCommand) (t t' : IterTable) : Prop where
  others : ∀ h, h ≠ cmd.iterHandle.toNat → t'.iterHandle h = t.iterHandle h
  written : t'.iterHandle cmd.iterHandle.toNat ≠ .wild

theorem through_refl {cmd : KvIterCommand} (hw : t.iterHandle cmd.iterHandle.toNat ≠ .wild) : Through cmd t t :=
  ⟨fun _ _ => rfl, hw⟩

theorem through_store {cmd : KvIterCommand} {p : IterPtr} (hp : p ≠ .wild) :
    Through cmd t (t.store cmd.iterHandle.toNat p) :=
  ⟨fun _ hne => store_of_ne t p hne, by rw [store_self]; exact hp⟩

theorem kvIterClose_through {cmd : KvIterCommand} (hlt : cmd.iterHandle.toNat < 17)
    (hw : t.iterHandle cmd.iterHandle.toNat ≠ .wild) :
    Sat (fun _ => False) (fun r => Through cmd t r.2) (kvIterClose cmd t) := by
  unfold kvIterClose IterTable.load
  rw [if_pos hlt, ok_bind]
  cases hp : t.iterHandle cmd.iterHandle.toNat with
  | null => exact through_refl hw
  | wild => exact absurd hp hw
  | context ctx => exact through_store (by simp)

theorem kvIterRead_through (hlt : call.cmd.iterHandle.toNat < 17) (hw : t.iterHandle call.cmd.iterHandle.toNat ≠ .wild) :
    Sat (fun e => e = .nullPrpList) (fun r => Through call.cmd t r.2.2) (kvIterRead ftl call t) := by
  unfold kvIterRead IterTable.load
  rw [if_pos hlt, ok_bind]
  cases hp : t.iterHandle call.cmd.iterHandle.toNat with
  | null => exact through_refl hw
  | wild => exact absurd hp hw
  | context ctx =>
      dsimp only
      split
      · rfl
      · exact through_store (by simp)

/-- **Reads and closes** through an entry that was written. -/
theorem doPerformKvIterIo_through (hu : call.cmd.UsesHandle) (hlt : call.cmd.iterHandle.toNat < 17)
    (hw : t.iterHandle call.cmd.iterHandle.toNat ≠ .wild) :
    Sat (fun e => e = .nullPrpList) (fun r => Through call.cmd t r.2.2) (doPerformKvIterIo ftl call t) := by
  unfold doPerformKvIterIo
  cases hop : call.cmd.opcode with
  | iterRead => exact kvIterRead_through hlt hw
  | iterReq =>
      obtain ⟨hno, hclose⟩ := hu.resolve_left fun hread => nomatch hop.symm.trans hread
      dsimp only
      rw [if_neg fun h => hno ⟨hop, h⟩, if_pos hclose]
      exact ((kvIterClose_through hlt hw).mono_error fun _ he => he.elim).bind fun r hr => hr

/-- Reads and closes through any other entry. -/
theorem doPerformKvIterIo_astray (hu : call.cmd.UsesHandle)
    (hstray : ¬ (call.cmd.iterHandle.toNat < 17 ∧ t.iterHandle call.cmd.iterHandle.toNat ≠ .wild)) :
    Sat (fun e => e ≠ .nullPrpList) (fun _ => False) (doPerformKvIterIo ftl call t) := by
  -- the load fails, or it returns the pointer that leads nowhere
  have hload : t.load call.cmd.iterHandle.toNat = .error .outOfBounds ∨ t.load call.cmd.iterHandle.toNat = .ok .wild := by
    unfold IterTable.load
    by_cases hlt : call.cmd.iterHandle.toNat < 17
    · rw [if_pos hlt, not_not.mp (not_and.mp hstray hlt)]
      exact Or.inr rfl
    · rw [if_neg hlt]
      exact Or.inl rfl
  unfold doPerformKvIterIo
  cases hop : call.cmd.opcode with
  | iterRead =>
      dsimp only
      unfold kvIterRead
      rcases hload with h | h <;> rw [h] <;> exact fun he => by cases he
  | iterReq =>
      obtain ⟨hno, hclose⟩ := hu.resolve_left fun hread => nomatch hop.symm.trans hread
      dsimp only
      rw [if_neg fun h => hno ⟨hop, h⟩, if_pos hclose]
      unfold kvIterClose
      rcases hload with h | h <;> rw [h] <;> exact fun he => by cases he

/-- Requests that are neither change nothing. -/
theorem doPerformKvIterIo_other (ho : ¬ call.cmd.IsOpenReq) (hu : ¬ call.cmd.UsesHandle) :
    doPerformKvIterIo ftl call t = .ok (⟨0, none⟩, call.host, t) := by
  unfold doPerformKvIterIo
  cases hop : call.cmd.opcode with
  | iterRead => exact absurd (Or.inl hop) hu
  | iterReq =>
      dsimp only
      rw [if_neg fun h => ho ⟨hop, h⟩, if_neg fun h => hu (Or.inr ⟨ho, h⟩)]

/-! ## Runs -/

/-- **The entries after any commands**: the first 16 were written, the last one if it was free from the start. -/
structure Written (word : UInt64) (t : IterTable) : Prop where
  cleared : ∀ h, h < 16 → t.iterHandle h ≠ .wild
  last : t.iterHandle 16 = .wild ↔ word ≠ 0

theorem written_init (word : UInt64) : Written word (.init word) where
  cleared := by
    intro h hlt
    simp [IterTable.init, hlt]
  last := by
    by_cases hw : word = 0 <;> simp [IterTable.init, hw]

/-- A table that differs in one entry, which was written before and after. -/
theorem Written.entry (hw : Written word t) (hbefore : t.iterHandle h ≠ .wild) (hafter : t'.iterHandle h ≠ .wild)
    (hothers : ∀ g, g ≠ h → t'.iterHandle g = t.iterHandle g) : Written word t' where
  cleared := by
    intro g hg
    by_cases hgh : g = h
    · subst hgh
      exact hafter
    · rw [hothers g hgh]
      exact hw.cleared g hg
  last := by
    by_cases hgh : 16 = h
    · subst hgh
      exact iff_of_false hafter fun hword => hbefore (hw.last.mpr hword)
    · rw [hothers 16 hgh]
      exact hw.last

theorem Written.step {reply : KvReply} {host : HostMem} (hw : Written word t)
    (hok : doPerformKvIterIo ftl call t = .ok (reply, host, t')) : Written word t' := by
  by_cases ho : call.cmd.IsOpenReq
  · rw [doPerformKvIterIo_open ho] at hok
    cases hok
    by_cases hfree : t.HasFree
    · obtain ⟨h, -, -, hnull, hopen⟩ := kvIterOpen_free call hfree
      rw [hopen]
      exact hw.entry (h := h) (by rw [hnull]; simp) (by simp) fun g hg => store_of_ne t _ hg
    · rw [kvIterOpen_full hfree]
      exact hw
  by_cases hu : call.cmd.UsesHandle
  · by_cases hslot : call.cmd.iterHandle.toNat < 17 ∧ t.iterHandle call.cmd.iterHandle.toNat ≠ .wild
    · have hthrough := (doPerformKvIterIo_through hu hslot.1 hslot.2).of_eq_ok hok
      exact hw.entry hslot.2 hthrough.written hthrough.others
    · exact ((doPerformKvIterIo_astray hu hslot).of_eq_ok hok).elim
  · rw [doPerformKvIterIo_other ho hu] at hok
    cases hok
    exact hw

theorem IterRun.written (hr : IterRun word t) : Written word t := by
  induction hr with
  | init => exact written_init word
  | step _ hok ih => exact ih.step hok

theorem not_isOpen_of_null (hnull : t.iterHandle h = .null) : ¬ t.IsOpen h := by
  rintro ⟨ctx, hctx⟩
  rw [hnull] at hctx
  cases hctx

theorem isOpen_of_taken (hnull : t.iterHandle h ≠ .null) (hwild : t.iterHandle h ≠ .wild) : t.IsOpen h := by
  cases hp : t.iterHandle h with
  | null => exact absurd hp hnull
  | wild => exact absurd hp hwild
  | context ctx => exact ⟨ctx, hp⟩

theorem opens_of_hasFree (ho : call.cmd.IsOpenReq) (hfree : t.HasFree) : Opens ftl call t := by
  obtain ⟨h, h1, h16, hnull, hopen⟩ := kvIterOpen_free call hfree
  refine ⟨h, call.host, (kvIterOpen call t).2, ?_, h1, h16, not_isOpen_of_null hnull, ?_⟩
  · rw [doPerformKvIterIo_open ho, hopen]
  · rw [hopen]
    exact ⟨_, store_self t h _⟩

/-- With 16 entries written, an entry is free as long as fewer than 16 iterators are open. -/
theorem hasFree_of_openCount (hw : Written 0 t) (hcount : t.openCount < 16) : t.HasFree := by
  by_contra hfull
  have hall : ∀ h ∈ List.range' 1 16, (t.iterHandle h).isContext = true := by
    intro h hmem
    have hm := List.mem_range'_1.mp hmem
    have hwild : t.iterHandle h ≠ .wild := by
      rcases Nat.lt_or_ge h 16 with hlt | hge
      · exact hw.cleared h hlt
      · obtain rfl : h = 16 := by omega
        exact fun hp => hw.last.mp hp rfl
    obtain ⟨ctx, hctx⟩ := isOpen_of_taken (fun hnull => hfull ⟨h, hm.1, by omega, hnull⟩) hwild
    rw [hctx]
    rfl
  have hrange : List.range 17 = [0] ++ List.range' 1 16 := rfl
  unfold IterTable.openCount at hcount
  rw [hrange, List.filter_append, List.filter_eq_self.mpr hall, List.length_append, List.length_range'] at hcount
  omega

/-- **One command**, after any others. -/
theorem exclusive_iff (hw : Written word t) : Exclusive ftl call t ↔ call.cmd.Served t := by
  unfold Exclusive
  by_cases ho : call.cmd.IsOpenReq
  · have hu : ¬ call.cmd.UsesHandle := by
      rintro (hread | h)
      · rw [ho.1] at hread
        cases hread
      · exact h.1 ho
    rw [doPerformKvIterIo_open ho]
    refine ⟨fun hex => ⟨fun _ => ?_, fun h => absurd h hu⟩, fun hserved => ?_⟩
    · by_contra hfull
      -- the reply looks like handle 1, whose holder is another
      rw [kvIterOpen_full hfull] at hex
      refine (hex.1 ho rfl).2.2 (isOpen_of_taken ?_ (hw.cleared 1 (by decide)))
      exact fun hnull => hfull ⟨1, Nat.le_refl 1, by decide, hnull⟩
    · obtain ⟨h, h1, h16, hnull, hopen⟩ := kvIterOpen_free call (hserved.1 ho)
      rw [hopen]
      refine ⟨fun _ _ => ⟨h1, h16, not_isOpen_of_null hnull⟩, fun g hg _ => store_of_ne t _ ?_⟩
      rintro rfl
      exact not_isOpen_of_null hnull hg
  by_cases hu : call.cmd.UsesHandle
  · refine ⟨fun hex => ⟨fun h => absurd h ho, fun _ => ?_⟩, fun hserved => ?_⟩
    · by_contra hstray
      have hastray : Sat _ _ (doPerformKvIterIo ftl call t) := doPerformKvIterIo_astray hu hstray
      cases hres : doPerformKvIterIo ftl call t with
      | ok r =>
          rw [hres] at hastray
          exact hastray
      | error e =>
          rw [hres] at hex hastray
          exact hastray hex
    · obtain ⟨hlt, hwild⟩ := hserved.2 hu
      exact (doPerformKvIterIo_through hu hlt hwild).mono fun r hr =>
        ⟨fun h => absurd h ho, fun g _ hne => hr.others g (hne hu)⟩
  · rw [doPerformKvIterIo_other ho hu]
    exact iff_of_true ⟨fun h => absurd h ho, fun _ _ _ => rfl⟩ ⟨fun h => absurd h ho, fun h => absurd h hu⟩

end

/-! ## Exhaustion -/

/-- An open. -/
def openCall : IterCall := iterCall .iterReq 0 iterOptionOpen

theorem openCall_isOpenReq : openCall.cmd.IsOpenReq := by decide

/-- The table after so many opens. -/
def openedTable (word : UInt64) : Nat → IterTable
  | 0 => .init word
  | n + 1 => (kvIterOpen openCall (openedTable word n)).2

theorem openedTable_run (word : UInt64) (n : Nat) : IterRun word (openedTable word n) := by
  induction n with
  | zero => exact .init
  | succ n ih =>
      have hok : doPerformKvIterIo kvInitNamespace openCall (openedTable word n) = _ :=
        doPerformKvIterIo_open openCall_isOpenReq
      exact .step ih hok

/-- **Handles are exclusive** exactly as far as the commands are served, and 16 iterators can be open exactly if the
    entry that `kv_init_namespace` does not clear happens to be `NULL`. -/
theorem kv_iter_exclusive_iff (word : UInt64) :
    ((∀ t, IterRun word t → t.openCount < 16 → ∀ ftl (call : IterCall), call.cmd.IsOpenReq → Opens ftl call t) ↔
      word = 0) ∧
    ∀ t, IterRun word t → ∀ ftl (call : IterCall), Exclusive ftl call t ↔ call.cmd.Served t := by
  refine ⟨⟨fun hall => ?_, ?_⟩, fun t hr ftl call => exclusive_iff hr.written⟩
  · by_contra hword
    have htable : IterTable.init word = IterTable.init 1 := by simp [IterTable.init, hword]
    have hopened : ∀ n, openedTable word n = openedTable 1 n := by
      intro n
      induction n with
      | zero => exact htable
      | succ n ih => rw [openedTable, ih, openedTable]
    -- after 15 opens the next one finds nothing
    obtain ⟨h, host, t', hok, -⟩ := hall (openedTable word 15) (openedTable_run word 15) (by rw [hopened]; decide)
      kvInitNamespace openCall openCall_isOpenReq
    rw [doPerformKvIterIo_open openCall_isOpenReq, hopened] at hok
    have hreply : (kvIterOpen openCall (openedTable 1 15)).1 = ⟨1, none⟩ := by decide
    rw [hreply] at hok
    cases hok
  · rintro rfl t hr hcount ftl call ho
    exact opens_of_hasFree ho (hasFree_of_openCount hr.written hcount)

/-- **Two holders of one handle.** After 16 opens the next one completes with success and handle 1, which the first one
    holds. -/
theorem kv_iter_handle_shared :
    ∃ t, IterRun 0 t ∧ t.openCount = 16 ∧ t.IsOpen 1 ∧ ∃ reply host t',
      doPerformKvIterIo kvInitNamespace openCall t = .ok (reply, host, t') ∧ reply.completed = 0 ∧ reply.result = 1 := by
  refine ⟨openedTable 0 16, openedTable_run 0 16, by decide, ⟨_, rfl⟩, _, _, _,
    doPerformKvIterIo_open openCall_isOpenReq, ?_, ?_⟩
  · decide
  · decide

end NvmeVirt
