import NvmeVirt.Lib.Counting
import NvmeVirt.Ssd.Timeline

/-!
# `Ssd.CreditRing` — the array of credits under any calls

`Ssd.Timeline` says what the array means when the clock goes forward and its readings are not too far apart. Here
nothing is asked of the clock: it may go back, jump, or stand still, and the request times and lengths are arbitrary.
The array then shows no timeline any more, but it stays an array of credits: its window is inside it, no slot holds more
than an interval's credits, and outside the window every slot is full (`CreditRing`).

* `CreditRing.moveHead` — the head moves by at most the length of the window, over slots that it fills up.
* `allocLoop_takes` — what the loop takes it takes from the slots it passes, all that was asked for or all there is.
* `credit_ring_invariant` — so after any calls the next one stays inside the array, returns, and takes its credits.
-/

namespace NvmeVirt

open Window Outcome Counting

/-- **The array of credits.** -/
structure CreditRing (ch : ChannelModel) : Prop where
  sized : ch.Sized
  commandCredits_eq : ch.commandCredits = 0
  head_lt : ch.head < nrCreditEntries
  validLen_le : ch.validLen ≤ nrCreditEntries
  le_max : ∀ i, i < nrCreditEntries → ch.availCredits i ≤ ch.maxCredits
  outside : ∀ i, ch.validLen ≤ i → i < nrCreditEntries →
    ch.availCredits (slot nrCreditEntries ch.head i) = ch.maxCredits

/-- The credits of all slots. -/
def totalCredits (credits : Nat → Nat) : Nat := ∑ i ∈ Finset.range nrCreditEntries, credits i

/-- The `MEMSET`s of a call, each with its start and its length before the conversion to an unsigned number. -/
def ChannelModel.memsets (ch : ChannelModel) (curTime : Nat) : List (Nat × Int) :=
  let offs := ch.curTimeOffs curTime
  if ch.head + offs ≥ nrCreditEntries then
    [(ch.head, nrCreditEntries - ch.head), (0, offs - (nrCreditEntries - ch.head))]
  else [(ch.head, offs)]

/-- No length is negative, and no range reaches behind the array. -/
def MemsetsInside (memsets : List (Nat × Int)) : Prop :=
  ∀ m ∈ memsets, 0 ≤ m.2 ∧ (m.1 : Int) + m.2 ≤ nrCreditEntries

/-- **What a call that reaches the loop takes**: its credits, or all there are from its first slot to the end of the
    ring. -/
def TakesCredits (ch : ChannelModel) (call : ChannelCall) (ch' : ChannelModel) : Prop :=
  call.now.toNat ≤ call.requestTime.toNat →
  u32 (interval call.requestTime.toNat - interval call.now.toNat) < nrCreditEntries →
    totalCredits (ch.moveHead call.now.toNat).availCredits =
        totalCredits ch'.availCredits + (unitsToXfer call.length + ch.commandCredits) ∨
      ∀ i, u32 (interval call.requestTime.toNat - interval call.now.toNat) ≤ i → i < nrCreditEntries →
        ch'.availCredits (slot nrCreditEntries ch'.head i) = 0

variable {ch ch' : ChannelModel} {now : Nat}

/-! ## Moving the head -/

theorem curTimeOffs_le : ch.curTimeOffs now ≤ ch.validLen := by
  unfold ChannelModel.curTimeOffs
  dsimp only
  split <;> omega

/-- The head is moved over what these `MEMSET`s clear. -/
theorem moveHead_availCredits (h : CreditRing ch) (now : Nat) :
    (ch.moveHead now).availCredits = (ch.memsets now).foldl
      (fun credits m => memsetCredits credits m.1 ch.maxCredits m.2.toNat) ch.availCredits := by
  have htail : ∀ n head offs : Nat, head ≤ n → ((offs : Int) - (n - head)).toNat = offs - (n - head) := by omega
  have hfront : ∀ n head : Nat, ((n : Int) - head).toNat = n - head := by omega
  unfold ChannelModel.moveHead ChannelModel.memsets
  dsimp only
  by_cases hend : ch.head + ch.curTimeOffs now ≥ nrCreditEntries
  · rw [if_pos hend, if_pos hend, List.foldl_cons, List.foldl_cons, List.foldl_nil, hfront,
      htail _ _ _ (Nat.le_of_lt h.head_lt)]
  · rw [if_neg hend, if_neg hend, List.foldl_cons, List.foldl_nil, Int.toNat_natCast]

theorem memsetsInside (h : CreditRing ch) (now : Nat) : MemsetsInside (ch.memsets now) := by
  have hoffs : ch.curTimeOffs now ≤ ch.validLen := curTimeOffs_le
  have hhead := h.head_lt
  have hvalid := h.validLen_le
  unfold MemsetsInside ChannelModel.memsets
  dsimp only
  split
  · rw [List.forall_mem_cons, List.forall_mem_singleton]
    dsimp only
    omega
  · rw [List.forall_mem_singleton]
    dsimp only
    omega

theorem memsetCredits_le {credits : Nat → Nat} {m : Nat} (hm : m < 2 ^ 8) (start length : Nat) {i : Nat}
    (hi : credits i ≤ m) : memsetCredits credits start m length i ≤ m := by
  unfold memsetCredits
  rw [Nat.mod_eq_of_lt hm]
  split
  · exact Nat.le_refl m
  · exact hi

/-- **Moving the head** fills up the slots it passes. -/
theorem CreditRing.moveHead (h : CreditRing ch) (now : Nat) : CreditRing (ch.moveHead now) where
  sized := h.sized
  commandCredits_eq := h.commandCredits_eq
  head_lt := slot_lt h.head_lt
  validLen_le := (Nat.sub_le ..).trans h.validLen_le
  le_max := by
    intro i hi
    simp only [ChannelModel.moveHead]
    split
    · exact memsetCredits_le h.sized.2 _ _ (memsetCredits_le h.sized.2 _ _ (h.le_max i hi))
    · exact memsetCredits_le h.sized.2 _ _ (h.le_max i hi)
  outside := by
    intro i hout hi
    have hoffs : ch.curTimeOffs now ≤ ch.validLen := curTimeOffs_le
    have hslot : ∀ j < nrCreditEntries, (ch.moveHead now).availCredits (slot nrCreditEntries ch.head j) =
        if j < ch.curTimeOffs now then ch.maxCredits % 2 ^ 8 else ch.availCredits (slot nrCreditEntries ch.head j) :=
      fun j hj => memsetCredits_slot h.head_lt hj _ _
    have hhead : (ch.moveHead now).head = slot nrCreditEntries ch.head (ch.curTimeOffs now) := rfl
    have hmax : ch.maxCredits % 2 ^ 8 = ch.maxCredits := Nat.mod_eq_of_lt h.sized.2
    simp only [ChannelModel.moveHead] at hout
    rw [hhead, slot_slot]
    rcases Nat.lt_or_ge (ch.curTimeOffs now + i) nrCreditEntries with hlt | hge
    · -- behind the window that was
      rw [hslot _ hlt, if_neg (by omega)]
      exact h.outside _ (by omega) hlt
    · -- around the end, at a slot the head has passed
      obtain ⟨j, hj⟩ : ∃ j, ch.curTimeOffs now + i = j + nrCreditEntries := ⟨_, (Nat.sub_add_cancel hge).symm⟩
      have hvalid := h.validLen_le
      rw [hj, slot_add_self, hslot j (by omega), if_pos (by omega), hmax]
      rfl

/-! ## Taking credits -/

theorem totalCredits_update (credits : Nat → Nat) (v : Nat) {x : Nat} (hx : x < nrCreditEntries) :
    totalCredits (Function.update credits x v) + credits x = totalCredits credits + v := by
  have hsum := sum_add_of_eq_off (f := credits) (g := Function.update credits x v) (Finset.mem_range.mpr hx)
    fun y _ hy => Function.update_of_ne hy v credits
  rw [Function.update_self] at hsum
  exact hsum

/-- What the loop leaves behind when it started at distance `i` from the head with `n` credits to take, and ended `d`
    slots later. -/
structure TookCredits (head i n d : Nat) (credits credits' : Nat → Nat) : Prop where
  reach_lt : i + d < nrCreditEntries
  le : ∀ x, credits' x ≤ credits x
  kept : ∀ j, j < nrCreditEntries → j < i ∨ i + d < j →
    credits' (slot nrCreditEntries head j) = credits (slot nrCreditEntries head j)
  taken : totalCredits credits = totalCredits credits' + n ∨
    ∀ j, i ≤ j → j < nrCreditEntries → credits' (slot nrCreditEntries head j) = 0

/-- A slot that has enough is the last one. -/
theorem tookCredits_last {head i n : Nat} {credits : Nat → Nat} (hhead : head < nrCreditEntries)
    (hi : i < nrCreditEntries) (hn : n ≤ credits (slot nrCreditEntries head i)) :
    TookCredits head i n 0 credits
      (Function.update credits (slot nrCreditEntries head i) (credits (slot nrCreditEntries head i) - n)) where
  reach_lt := hi
  le := by
    intro x
    by_cases hx : x = slot nrCreditEntries head i
    · subst hx
      rw [Function.update_self]
      exact Nat.sub_le ..
    · rw [Function.update_of_ne hx]
  kept := by
    intro j hj hne
    refine Function.update_of_ne (fun heq => ?_) _ _
    have := slot_inj hhead hj hi heq
    omega
  taken := by
    have hsum := totalCredits_update credits (credits (slot nrCreditEntries head i) - n)
      (slot_lt (i := i) hhead)
    exact Or.inl (by omega)

/-- The end of the ring is reached with credits still to take. -/
theorem tookCredits_end {head i n : Nat} {credits : Nat → Nat} (hhead : head < nrCreditEntries)
    (hi : i + 1 = nrCreditEntries) :
    TookCredits head i n 0 credits (Function.update credits (slot nrCreditEntries head i) 0) where
  reach_lt := by omega
  le := by
    intro x
    by_cases hx : x = slot nrCreditEntries head i
    · subst hx
      rw [Function.update_self]
      exact Nat.zero_le _
    · rw [Function.update_of_ne hx]
  kept := by
    intro j hj hne
    refine Function.update_of_ne (fun heq => ?_) _ _
    have := slot_inj hhead hj (by omega) heq
    omega
  taken := by
    refine Or.inr fun j hij hj => ?_
    obtain rfl : j = i := by omega
    exact Function.update_self ..

/-- A slot is emptied, and the loop goes on with the next one. -/
theorem TookCredits.next {head i n d : Nat} {credits credits' : Nat → Nat} (hhead : head < nrCreditEntries)
    (hi : i < nrCreditEntries) (hn : credits (slot nrCreditEntries head i) < n)
    (h : TookCredits head (i + 1) (n - credits (slot nrCreditEntries head i)) d
      (Function.update credits (slot nrCreditEntries head i) 0) credits') :
    TookCredits head i n (d + 1) credits credits' where
  reach_lt := by
    have := h.reach_lt
    omega
  le := by
    intro x
    refine (h.le x).trans ?_
    by_cases hx : x = slot nrCreditEntries head i
    · subst hx
      rw [Function.update_self]
      exact Nat.zero_le _
    · rw [Function.update_of_ne hx]
  kept := by
    intro j hj hne
    rw [h.kept j hj (by omega)]
    refine Function.update_of_ne (fun heq => ?_) _ _
    have := slot_inj hhead hj hi heq
    omega
  taken := by
    rcases h.taken with hsum | hzero
    · have hupd := totalCredits_update credits 0 (slot_lt (i := i) hhead)
      exact Or.inl (by omega)
    · refine Or.inr fun j hij hj => ?_
      rcases Nat.eq_or_lt_of_le hij with rfl | hlt
      · rw [h.kept i hj (Or.inl (Nat.lt_succ_self i)), Function.update_self]
      · exact hzero j hlt hj

/-- **The loop** ends within the ring. -/
theorem allocLoop_takes {head i : Nat} (fuel n delay : Nat) (credits : Nat → Nat) (hhead : head < nrCreditEntries)
    (hi : i < nrCreditEntries) (hfuel : nrCreditEntries ≤ fuel + i) :
    ∃ a d, ChannelModel.allocLoop head fuel credits (slot nrCreditEntries head i) n delay = .ok a ∧
      a.pos = slot nrCreditEntries head (i + d) ∧ TookCredits head i n d credits a.credits := by
  obtain ⟨a, hok, d, hpos, htook⟩ := allocLoop_rule hhead
    (P := fun i n _ credits a => ∃ d, a.pos = slot nrCreditEntries head (i + d) ∧
      TookCredits head i n d credits a.credits)
    (fun _ _ _ _ hi henough => ⟨0, rfl, tookCredits_last hhead hi henough⟩)
    (fun _ _ _ _ hi => ⟨0, rfl, tookCredits_end hhead hi⟩)
    (fun i _ _ _ _ hi hshort ih => by
      obtain ⟨d, hpos, htook⟩ := ih
      exact ⟨d + 1, by rw [hpos, Nat.add_right_comm, Nat.add_assoc], htook.next hhead hi hshort⟩)
    fuel n delay credits hi hfuel
  exact ⟨a, d, hok, hpos, htook⟩

/-! ## A call -/

theorem creditsFor_eq (h : CreditRing ch) (length : UInt64) :
    ch.creditsFor length = unitsToXfer length + ch.commandCredits := by
  unfold ChannelModel.creditsFor unitXferCredits
  rw [h.commandCredits_eq, Nat.mul_one]
  exact u32_of_lt (Nat.mod_lt _ (by decide))

/-- The window grows to where the loop ended. -/
theorem CreditRing.took (h : CreditRing ch) {i n d : Nat} {credits : Nat → Nat}
    (htook : TookCredits ch.head i n d ch.availCredits credits) :
    CreditRing { ch with
      availCredits := credits, validLen := ch.reachTo (slot nrCreditEntries ch.head (i + d)) } := by
  have hreach : ch.reachTo (slot nrCreditEntries ch.head (i + d)) = max ch.validLen (i + d + 1) := by
    unfold ChannelModel.reachTo
    rw [slot_distance h.head_lt htook.reach_lt]
    dsimp only
    split <;> omega
  have hlt := htook.reach_lt
  have hvalid := h.validLen_le
  refine
    { sized := h.sized
      commandCredits_eq := h.commandCredits_eq
      head_lt := h.head_lt
      validLen_le := ?_
      le_max := fun x hx => (htook.le x).trans (h.le_max x hx)
      outside := ?_ }
  · dsimp only
    omega
  · intro j hout hj
    dsimp only at hout ⊢
    rw [htook.kept j hj (by omega)]
    exact h.outside j (by omega) hj

/-- **One call.** -/
theorem chmodelRequest_takes (h : CreditRing ch) (call : ChannelCall) :
    ∃ reply ch', chmodelRequest ch call = .ok (reply, ch') ∧ CreditRing ch' ∧ TakesCredits ch call ch' := by
  have hmoved := h.moveHead call.now.toNat
  have hcur : (ch.moveHead call.now.toNat).curTime = call.now.toNat := rfl
  have hcmd : (ch.moveHead call.now.toNat).commandCredits = ch.commandCredits := rfl
  unfold chmodelRequest TakesCredits
  generalize ch.moveHead call.now.toNat = ch1 at hmoved hcur hcmd ⊢
  dsimp only
  rw [if_neg (Nat.not_lt.mpr hmoved.validLen_le)]
  unfold ChannelModel.request
  rw [hcur]
  by_cases hpast : call.requestTime.toNat < call.now.toNat
  · rw [if_pos hpast]
    exact ⟨_, _, rfl, hmoved, fun hge => absurd hge (Nat.not_le.mpr hpast)⟩
  rw [if_neg hpast]
  dsimp only
  generalize u32 (interval call.requestTime.toNat - interval call.now.toNat) = offs
  by_cases hfar : offs ≥ nrCreditEntries
  · rw [if_pos hfar]
    exact ⟨_, _, rfl, hmoved, fun _ hlt => absurd hlt (Nat.not_lt.mpr hfar)⟩
  rw [if_neg hfar]
  obtain ⟨a, d, hok, hpos, htook⟩ := allocLoop_takes (nrCreditEntries + 1) (ch1.creditsFor call.length) 0
    ch1.availCredits hmoved.head_lt (Nat.not_le.mp hfar) (by omega)
  rw [show (ch1.head + offs) % nrCreditEntries = slot nrCreditEntries ch1.head offs from rfl, hok, ok_bind]
  refine ⟨_, _, rfl, ?_, fun _ _ => ?_⟩
  · rw [hpos, ← hcur]
    exact hmoved.took htook
  · rw [creditsFor_eq hmoved, hcmd] at htook
    exact htook.taken

/-! ## Any calls -/

/-- Calls one after the other. -/
def chmodelRequests (ch : ChannelModel) (calls : List ChannelCall) : Except ChannelFault ChannelModel :=
  calls.foldlM (fun ch call => do return (← chmodelRequest ch call).2) ch

theorem creditRing_boot {credits : Nat → Nat} {bandwidth : UInt64} {xferLat : Nat}
    (hsized : (channelBoot credits bandwidth xferLat).Sized) : CreditRing (channelBoot credits bandwidth xferLat) := by
  have hfull : ∀ i, i < nrCreditEntries → (channelBoot credits bandwidth xferLat).availCredits i =
      (channelBoot credits bandwidth xferLat).maxCredits := by
    intro i hi
    simp only [channelBoot, chmodelInit, memsetCredits]
    rw [if_pos ⟨Nat.zero_le i, by omega⟩]
    exact Nat.mod_eq_of_lt hsized.2
  exact
    { sized := hsized
      commandCredits_eq := rfl
      head_lt := (by decide : 0 < nrCreditEntries)
      validLen_le := Nat.zero_le _
      le_max := fun i hi => Nat.le_of_eq (hfull i hi)
      outside := fun i _ _ => hfull _ (slot_lt (by decide : 0 < nrCreditEntries)) }

theorem CreditRing.requests (h : CreditRing ch) (calls : List ChannelCall) :
    Sat (fun _ => False) CreditRing (chmodelRequests ch calls) := by
  refine sat_foldlM_const calls (fun call _ ch hch => ?_) h
  obtain ⟨reply, ch', hok, hring, -⟩ := chmodelRequest_takes hch call
  rw [hok]
  exact hring

/-- **The ring of credits under any calls**, for every bandwidth whose credits fit a byte and are not zero. -/
theorem credit_ring_invariant (credits : Nat → Nat) (bandwidth : UInt64) (xferLat : Nat)
    (hsized : (channelBoot credits bandwidth xferLat).Sized) (calls : List ChannelCall) :
    ∃ ch, chmodelRequests (channelBoot credits bandwidth xferLat) calls = .ok ch ∧ CreditRing ch ∧
      ∀ call : ChannelCall, MemsetsInside (ch.memsets call.now.toNat) ∧
        (ch.moveHead call.now.toNat).availCredits = (ch.memsets call.now.toNat).foldl
          (fun credits m => memsetCredits credits m.1 ch.maxCredits m.2.toNat) ch.availCredits ∧
        ∃ reply ch', chmodelRequest ch call = .ok (reply, ch') ∧ CreditRing ch' ∧ TakesCredits ch call ch' := by
  obtain ⟨ch, hok, hring⟩ := ((creditRing_boot hsized).requests calls).exists_ok
  exact ⟨ch, hok, hring, fun call =>
    ⟨memsetsInside hring _, moveHead_availCredits hring _, chmodelRequest_takes hring call⟩⟩

/-- A channel of 800 MB/s whose clock goes back between two calls. -/
theorem credit_ring_invariant_backwards :
    (channelBoot (fun _ => 0) 800 152).Sized ∧
      ∃ ch, chmodelRequests (channelBoot (fun _ => 0) 800 152) [⟨8000, 9000, 4096⟩, ⟨0, 4000, 128⟩] = .ok ch ∧
        CreditRing ch := by
  have hsized : (channelBoot (fun _ => 0) 800 152).Sized := by
    unfold ChannelModel.Sized
    decide +kernel
  obtain ⟨ch, hok, hring, -⟩ := credit_ring_invariant (fun _ => 0) 800 152 hsized [⟨8000, 9000, 4096⟩, ⟨0, 4000, 128⟩]
  exact ⟨hsized, ch, hok, hring⟩

end NvmeVirt
