import NvmeVirt.Lib.Outcome
import NvmeVirt.Lib.Window
import NvmeVirt.Ssd.Channel

/-!
# `Ssd.Timeline` — the channel model refines an unbounded timeline

* `Timeline` — what the circular array stands for: the credits of every interval there will ever be, numbered by
  absolute time. `Greedy` is the allocation on it.
* `Tracks` — the array shows the timeline from the interval of the last call on, and behind `valid_len` no credits have
  been taken.
* `channel_refines_timeline` — the completion times are those of the timeline, as long as the numbers of intervals fit
  32 bits (`In32Bits`). They need not: after a gap of 2^32 intervals (under five hours) the array is taken to be up to
  date, and the intervals it shows as used up are long past (`channel_reuses_stale_credits`).
-/

namespace NvmeVirt

open Window Outcome

/-! ## The timeline -/

/-- The credits of every interval. -/
abbrev Timeline := Nat → Nat

/-- **The greedy allocation without an end**: `n` credits are taken from the interval `t` on, the last of them `d`
    intervals later. -/
inductive Greedy : Timeline → Nat → Nat → Nat → Timeline → Prop
  | done {A : Timeline} {t n : Nat} : n ≤ A t → Greedy A t n 0 (Function.update A t (A t - n))
  | next {A A' : Timeline} {t n d : Nat} :
      A t < n → Greedy (Function.update A t 0) (t + 1) (n - A t) d A' → Greedy A t n (d + 1) A'

/-- A call on the timeline: only the array is different. -/
inductive Timeline.Serves (ch : ChannelModel) (call : ChannelCall) (A : Timeline) : Nat → Timeline → Prop
  | past : call.requestTime.toNat < call.now.toNat → Serves ch call A call.requestTime.toNat A
  | served {d : Nat} {A' : Timeline} : ¬ call.requestTime.toNat < call.now.toNat →
      Greedy A (interval call.requestTime.toNat) (ch.creditsFor call.length) d A' →
      Serves ch call A (ch.finishTime call.requestTime.toNat call.length d) A'

theorem Greedy.unique {A A₁ A₂ : Timeline} {t n d₁ d₂ : Nat} (h₁ : Greedy A t n d₁ A₁) (h₂ : Greedy A t n d₂ A₂) :
    d₁ = d₂ ∧ A₁ = A₂ := by
  induction h₁ generalizing d₂ A₂ with
  | done hle =>
      cases h₂ with
      | done _ => exact ⟨rfl, rfl⟩
      | next hlt _ => exact absurd hle (Nat.not_le.mpr hlt)
  | next hlt _ ih =>
      cases h₂ with
      | done hle => exact absurd hle (Nat.not_le.mpr hlt)
      | next _ h₂ =>
          obtain ⟨rfl, rfl⟩ := ih h₂
          exact ⟨rfl, rfl⟩

theorem Timeline.Serves.unique {ch : ChannelModel} {call : ChannelCall} {A A₁ A₂ : Timeline} {t₁ t₂ : Nat}
    (h₁ : Timeline.Serves ch call A t₁ A₁) (h₂ : Timeline.Serves ch call A t₂ A₂) : t₁ = t₂ ∧ A₁ = A₂ := by
  cases h₁ with
  | past hlt =>
      cases h₂ with
      | past _ => exact ⟨rfl, rfl⟩
      | served hge _ => exact absurd hlt hge
  | served hge hg₁ =>
      cases h₂ with
      | past hlt => exact absurd hlt hge
      | served _ hg₂ =>
          obtain ⟨rfl, rfl⟩ := hg₁.unique hg₂
          exact ⟨rfl, rfl⟩

/-! ## The array shows the timeline -/

variable {ch ch' : ChannelModel} {call : ChannelCall} {A A' : Timeline}

/-- **The array shows the timeline** from the interval of the last call on. -/
structure Tracks (ch : ChannelModel) (A : Timeline) : Prop where
  head_lt : ch.head < nrCreditEntries
  validLen_le : ch.validLen ≤ nrCreditEntries
  shows : Shows nrCreditEntries ch.availCredits ch.head A (interval ch.curTime)
  fresh : ∀ t, interval ch.curTime + ch.validLen ≤ t → A t = ch.maxCredits

/-- An interval can give credits away, and they fit `credit_t`. -/
def ChannelModel.Sized (ch : ChannelModel) : Prop := 0 < ch.maxCredits ∧ ch.maxCredits < 2 ^ 8

/-- **The numbers of intervals fit 32 bits**: those since the last call, unless what is left of them is enough to pass
    everything that was recorded, and those up to the request time. -/
def In32Bits (ch : ChannelModel) (call : ChannelCall) : Prop :=
  (interval call.now.toNat - interval ch.curTime < 2 ^ 32 ∨
    ch.validLen ≤ (interval call.now.toNat - interval ch.curTime) % 2 ^ 32) ∧
  interval call.requestTime.toNat - interval call.now.toNat < 2 ^ 32

theorem interval_mono {t t' : Nat} (h : t ≤ t') : interval t ≤ interval t' := Nat.div_le_div_right h

/-- The head moves over the elapsed intervals, or over all that were recorded. -/
theorem curTimeOffs_eq {now : Nat} (hclock : ch.curTime ≤ now)
    (h : interval now - interval ch.curTime < 2 ^ 32 ∨ ch.validLen ≤ (interval now - interval ch.curTime) % 2 ^ 32) :
    ch.curTimeOffs now = min (interval now - interval ch.curTime) ch.validLen := by
  have hle := interval_mono hclock
  have hoffs : u32 (u64 (interval now + 2 ^ 64 - interval ch.curTime)) =
      (interval now - interval ch.curTime) % 2 ^ 32 := by
    unfold u32 u64
    omega
  unfold ChannelModel.curTimeOffs
  rw [hoffs]
  dsimp only
  have hmod := Nat.mod_le (interval now - interval ch.curTime) (2 ^ 32)
  rcases h with h | h
  · rw [Nat.mod_eq_of_lt h]
    split <;> omega
  · rw [if_neg (by omega)]
    omega

/-- The one or two `MEMSET`s clear the slots the head passes, and no others. -/
theorem memsetCredits_slot {head k i : Nat} (hhead : head < nrCreditEntries) (hi : i < nrCreditEntries)
    (credits : Nat → Nat) (v : Nat) :
    (if head + k ≥ nrCreditEntries then
      memsetCredits (memsetCredits credits head v (nrCreditEntries - head)) 0 v (k - (nrCreditEntries - head))
    else memsetCredits credits head v k) (slot nrCreditEntries head i) =
      if i < k then v % 2 ^ 8 else credits (slot nrCreditEntries head i) := by
  rcases Nat.lt_or_ge (head + i) nrCreditEntries with hlt | hge
  · -- before the end of the array
    rw [slot_of_lt hlt]
    by_cases hwrap : head + k ≥ nrCreditEntries
    · rw [if_pos hwrap, if_pos (by omega), memsetCredits, memsetCredits, if_pos (by omega : head ≤ head + i ∧ _), ite_self]
    · rw [if_neg hwrap, memsetCredits]
      exact if_congr (by omega) rfl rfl
  · -- after it
    rw [slot_of_ge hhead hi hge]
    by_cases hwrap : head + k ≥ nrCreditEntries
    · rw [if_pos hwrap, memsetCredits, memsetCredits, if_neg (by omega : ¬ (head ≤ head + i - nrCreditEntries ∧ _))]
      exact if_congr (by omega) rfl rfl
    · rw [if_neg hwrap, memsetCredits, if_neg (by omega), if_neg (by omega)]

/-- **Moving the head** keeps the timeline in view. -/
theorem Tracks.moveHead (h : Tracks ch A) (hsized : ch.Sized) {now : Nat} (hclock : ch.curTime ≤ now)
    (hgap : interval now - interval ch.curTime < 2 ^ 32 ∨
      ch.validLen ≤ (interval now - interval ch.curTime) % 2 ^ 32) : Tracks (ch.moveHead now) A := by
  have hle := interval_mono hclock
  have hoffs := curTimeOffs_eq hclock hgap
  have hvalid := h.validLen_le
  have hmax : ch.maxCredits % 2 ^ 8 = ch.maxCredits := Nat.mod_eq_of_lt hsized.2
  refine { head_lt := slot_lt h.head_lt, validLen_le := ?_, shows := ?_, fresh := ?_ }
  · exact (Nat.sub_le ..).trans hvalid
  · have hslot : ∀ i < nrCreditEntries, (ch.moveHead now).availCredits (slot nrCreditEntries ch.head i) =
        if i < ch.curTimeOffs now then ch.maxCredits % 2 ^ 8 else ch.availCredits (slot nrCreditEntries ch.head i) :=
      fun i hi => memsetCredits_slot h.head_lt hi _ _
    refine h.shows.move (v := ch.maxCredits) (fun i hki hi => ?_) (fun i hi => ?_) (fun i hi => ?_) fun i hi => ?_
    · rw [hslot i hi, if_neg (by omega)]
    · rw [hslot i (by omega), if_pos hi, hmax]
    · exact h.fresh _ (by simp only [ChannelModel.moveHead]; omega)
    · -- either the window moved by what has elapsed, or both entries lie behind everything recorded
      by_cases hrec : interval now - interval ch.curTime ≤ ch.validLen
      · congr 1
        simp only [ChannelModel.moveHead]
        omega
      · rw [h.fresh _ (by simp only [ChannelModel.moveHead]; omega), h.fresh _ (by omega)]
  · intro t ht
    simp only [ChannelModel.moveHead] at ht ⊢
    exact h.fresh t (by omega)

/-- **Rule for the loop** over the slots after the head: it ends at a slot that has what is still to be taken, or at
    the last slot of the array; any other slot it empties. -/
theorem allocLoop_rule {head : Nat} {P : Nat → Nat → Nat → (Nat → Nat) → ChannelModel.Allocated → Prop}
    (hhead : head < nrCreditEntries)
    (hlast : ∀ i n delay credits, i < nrCreditEntries → n ≤ credits (slot nrCreditEntries head i) →
      P i n delay credits ⟨Function.update credits (slot nrCreditEntries head i)
        (credits (slot nrCreditEntries head i) - n), slot nrCreditEntries head i, delay, false⟩)
    (hend : ∀ i n delay credits, i + 1 = nrCreditEntries →
      P i n delay credits ⟨Function.update credits (slot nrCreditEntries head i) 0,
        slot nrCreditEntries head i, delay, true⟩)
    (hnext : ∀ i n delay credits a, i < nrCreditEntries → credits (slot nrCreditEntries head i) < n →
      P (i + 1) (n - credits (slot nrCreditEntries head i)) (delay + 1)
        (Function.update credits (slot nrCreditEntries head i) 0) a → P i n delay credits a)
    (fuel : Nat) {i : Nat} (n delay : Nat) (credits : Nat → Nat) (hi : i < nrCreditEntries)
    (hfuel : nrCreditEntries ≤ fuel + i) :
    ∃ a, ChannelModel.allocLoop head fuel credits (slot nrCreditEntries head i) n delay = .ok a ∧
      P i n delay credits a := by
  induction fuel generalizing i n delay credits with
  | zero => omega
  | succ fuel ih =>
      unfold ChannelModel.allocLoop
      by_cases henough : n ≤ credits (slot nrCreditEntries head i)
      · simp only [if_pos henough, Nat.sub_self, ne_eq, not_true, if_false]
        exact ⟨_, rfl, hlast i n delay credits hi henough⟩
      simp only [if_neg henough, Nat.sub_self]
      rw [if_pos (by omega)]
      have hsucc : (slot nrCreditEntries head i + 1) % nrCreditEntries = slot nrCreditEntries head (i + 1) :=
        slot_slot (j := 1)
      rw [hsucc]
      by_cases hwrap : slot nrCreditEntries head (i + 1) = head
      · rw [if_neg (not_not.mpr hwrap)]
        exact ⟨_, rfl, hend i n delay credits ((slot_succ_eq_head hhead hi).mp hwrap)⟩
      · rw [if_pos hwrap]
        have hne := mt (slot_succ_eq_head hhead hi).mpr hwrap
        obtain ⟨a, hok, ha⟩ := ih (i := i + 1) _ (delay + 1) _ (by omega) (by omega)
        exact ⟨a, hok, hnext i n delay credits a hi (Nat.not_le.mp henough) ha⟩

/-- The allocation on the array is an allocation on the timeline it shows, unless the array is too small. -/
def AllocatesShown (head base i n delay : Nat) (credits : Nat → Nat) (a : ChannelModel.Allocated) : Prop :=
  ∀ A, Shows nrCreditEntries credits head A base → a.full = false →
    ∃ d A', Greedy A (base + i) n d A' ∧ a.delay = delay + d ∧ i + d < nrCreditEntries ∧
      a.pos = slot nrCreditEntries head (i + d) ∧ Shows nrCreditEntries a.credits head A' base ∧
      ∀ t, base + (i + d) < t → A' t = A t

theorem allocLoop_spec {head i : Nat} (base fuel n delay : Nat) (credits : Nat → Nat) (hhead : head < nrCreditEntries)
    (hi : i < nrCreditEntries) (hfuel : nrCreditEntries ≤ fuel + i) :
    ∃ a, ChannelModel.allocLoop head fuel credits (slot nrCreditEntries head i) n delay = .ok a ∧
      AllocatesShown head base i n delay credits a := by
  refine allocLoop_rule hhead ?_ ?_ ?_ fuel n delay credits hi hfuel
  · -- the interval has all the credits that are left to take
    intro i n delay credits hi henough A hshows _
    have hpos := hshows i hi
    refine ⟨0, _, .done (by rwa [hpos] at henough), rfl, hi, rfl, ?_, fun t ht => Function.update_of_ne (by omega) _ _⟩
    rw [hpos]
    exact hshows.update hhead hi _
  · exact fun _ _ _ _ _ _ _ hfull => by cases hfull
  · intro i n delay credits a hi hshort ih A hshows hfull
    obtain ⟨d, A', hgreedy, hdelay, hd, hapos, hashows, hrest⟩ := ih _ (hshows.update hhead hi 0) hfull
    rw [hshows i hi] at hgreedy hshort
    refine ⟨d + 1, A', .next hshort hgreedy, by omega, by omega, ?_, hashows, ?_⟩
    · rw [hapos]
      congr 1
      omega
    · intro t ht
      rw [hrest t (by omega)]
      exact Function.update_of_ne (by omega) _ _

/-- **One call.** -/
theorem Tracks.request (h : Tracks ch A) (call : ChannelCall) (hnow : ch.curTime = call.now.toNat)
    (h32 : interval call.requestTime.toNat - interval call.now.toNat < 2 ^ 32) :
    ∃ reply ch', ch.request call.requestTime.toNat call.length = .ok (reply, ch') ∧
      (reply.tooSmall = false → ∃ A', Timeline.Serves ch call A reply.time A' ∧ Tracks ch' A') := by
  unfold ChannelModel.request
  rw [hnow]
  by_cases hpast : call.requestTime.toNat < call.now.toNat
  · rw [if_pos hpast]
    exact ⟨_, _, rfl, fun _ => ⟨A, .past hpast, h⟩⟩
  · rw [if_neg hpast]
    have hle := interval_mono (Nat.not_lt.mp hpast)
    have hoffs : u32 (interval call.requestTime.toNat - interval call.now.toNat) =
        interval call.requestTime.toNat - interval call.now.toNat := Nat.mod_eq_of_lt h32
    dsimp only
    rw [hoffs]
    set offs := interval call.requestTime.toNat - interval call.now.toNat with hdef
    by_cases hfar : offs ≥ nrCreditEntries
    · rw [if_pos hfar]
      exact ⟨_, _, rfl, fun hsmall => by cases hsmall⟩
    · rw [if_neg hfar]
      have hlt : offs < nrCreditEntries := Nat.not_le.mp hfar
      obtain ⟨a, hok, hspec⟩ := allocLoop_spec (interval ch.curTime) (nrCreditEntries + 1) (ch.creditsFor call.length) 0
        ch.availCredits h.head_lt hlt (by omega)
      have hrun : ChannelModel.allocLoop ch.head (nrCreditEntries + 1) ch.availCredits
          ((ch.head + offs) % nrCreditEntries) (ch.creditsFor call.length) 0 = .ok a := hok
      rw [hrun]
      refine ⟨_, _, rfl, fun hfull => ?_⟩
      obtain ⟨d, A', hgreedy, hdelay, hd, hpos, hshows, hrest⟩ := hspec A h.shows hfull
      have hbase : interval ch.curTime + offs = interval call.requestTime.toNat := by
        rw [hnow]
        omega
      rw [hbase] at hgreedy
      rw [Nat.zero_add] at hdelay
      rw [hnow] at hshows hrest
      refine ⟨A', ?_, ?_⟩
      · dsimp only
        rw [hdelay]
        exact .served hpast hgreedy
      · have hreach : ch.reachTo a.pos = max ch.validLen (offs + d + 1) := by
          unfold ChannelModel.reachTo
          rw [hpos, slot_distance h.head_lt hd]
          dsimp only
          split <;> omega
        have hvalid := h.validLen_le
        refine { head_lt := h.head_lt, validLen_le := ?_, shows := hshows, fresh := ?_ }
        · dsimp only
          rw [hreach]
          omega
        · intro t ht
          simp only [hreach] at ht ⊢
          rw [hrest t (by omega)]
          exact h.fresh t (by rw [hnow]; omega)

/-! ## Every call returns -/

/-- The positions of the array that `chmodel_request` may use. -/
structure ChannelModel.Bounded (ch : ChannelModel) : Prop where
  head_lt : ch.head < nrCreditEntries
  validLen_le : ch.validLen ≤ nrCreditEntries

/-- **Every call returns**, whatever the clock, the request time and the length. -/
theorem chmodelRequest_bounded (h : ch.Bounded) (call : ChannelCall) :
    Sat (fun _ => False) (fun r => r.2.Bounded) (chmodelRequest ch call) := by
  have hmoved : (ch.moveHead call.now.toNat).Bounded := by
    have hle := h.validLen_le
    refine ⟨Nat.mod_lt _ (by decide), ?_⟩
    show ch.validLen - _ ≤ _
    omega
  unfold chmodelRequest
  generalize ch.moveHead call.now.toNat = ch1 at hmoved
  dsimp only
  rw [if_neg (Nat.not_lt.mpr hmoved.validLen_le)]
  unfold ChannelModel.request
  dsimp only
  split
  · exact hmoved
  split
  · exact hmoved
  rename_i hoffs
  generalize u32 (interval call.requestTime.toNat - interval ch1.curTime) = offs at hoffs ⊢
  -- the allocation ends at a position of the array
  obtain ⟨a, hok, hpos⟩ := allocLoop_rule (P := fun _ _ _ _ a => a.pos < nrCreditEntries) hmoved.head_lt
    (fun _ _ _ _ _ _ => slot_lt hmoved.head_lt) (fun _ _ _ _ _ => slot_lt hmoved.head_lt)
    (fun _ _ _ _ _ _ _ ih => ih) (nrCreditEntries + 1) (ch1.creditsFor call.length) 0 ch1.availCredits
    (Nat.not_le.mp hoffs) (by omega)
  rw [show (ch1.head + offs) % nrCreditEntries = slot nrCreditEntries ch1.head offs from rfl, hok, ok_bind]
  refine ⟨hmoved.head_lt, ?_⟩
  have hvalid := hmoved.validLen_le
  have hhead := hmoved.head_lt
  show ch1.reachTo a.pos ≤ nrCreditEntries
  unfold ChannelModel.reachTo
  dsimp only
  split <;> split <;> omega

/-! ## Whole runs -/

/-- A channel as `ssd_init_ch` and `ssd_init_pcie` leave it; the former adds to `xfer_lat`. -/
def channelBoot (credits : Nat → Nat) (bandwidth : UInt64) (xferLat : Nat) : ChannelModel :=
  { chmodelInit credits bandwidth with xferLat := xferLat }

/-- The calls made on a channel, newest first, with what they returned. The clock never goes back, no call takes a
    branch for an array that is too small, and every call satisfies `G`. -/
inductive ChannelRun (G : ChannelModel → ChannelCall → Prop) (boot : ChannelModel) :
    List ChannelCall → List Nat → ChannelModel → Prop
  | nil : ChannelRun G boot [] [] boot
  | call {calls : List ChannelCall} {times : List Nat} {ch ch' : ChannelModel} {call : ChannelCall}
      {reply : ChannelReply} :
      ChannelRun G boot calls times ch → ch.curTime ≤ call.now.toNat → G ch call →
      chmodelRequest ch call = .ok (reply, ch') → reply.tooSmall = false →
      ChannelRun G boot (call :: calls) (reply.time :: times) ch'

/-- The same calls on a timeline on which every interval starts with `max_credits`. -/
inductive TimelineRun (boot : ChannelModel) : List ChannelCall → List Nat → Timeline → Prop
  | nil : TimelineRun boot [] [] fun _ => boot.maxCredits
  | call {calls : List ChannelCall} {times : List Nat} {A A' : Timeline} {call : ChannelCall} {t : Nat} :
      TimelineRun boot calls times A → Timeline.Serves boot call A t A' → TimelineRun boot (call :: calls) (t :: times) A'

theorem TimelineRun.unique {boot : ChannelModel} {calls : List ChannelCall} {times times' : List Nat}
    (h : TimelineRun boot calls times A) (h' : TimelineRun boot calls times' A') : times = times' ∧ A = A' := by
  induction h generalizing times' A' with
  | nil =>
      cases h'
      exact ⟨rfl, rfl⟩
  | call _ hserves ih =>
      cases h' with
      | call hrun' hserves' =>
          obtain ⟨rfl, rfl⟩ := ih hrun'
          obtain ⟨rfl, rfl⟩ := hserves.unique hserves'
          exact ⟨rfl, rfl⟩

/-- What a call reads of a channel besides its array. -/
structure SameParams (ch ch' : ChannelModel) : Prop where
  maxCredits : ch'.maxCredits = ch.maxCredits
  commandCredits : ch'.commandCredits = ch.commandCredits
  xferLat : ch'.xferLat = ch.xferLat

theorem SameParams.sized (h : SameParams ch ch') (hsized : ch.Sized) : ch'.Sized := by
  unfold ChannelModel.Sized
  rw [h.maxCredits]
  exact hsized

theorem SameParams.creditsFor (h : SameParams ch ch') (length : UInt64) :
    ch'.creditsFor length = ch.creditsFor length := by
  simp only [ChannelModel.creditsFor, h.commandCredits]

theorem SameParams.serves (h : SameParams ch ch') {t : Nat} (hs : Timeline.Serves ch' call A t A') :
    Timeline.Serves ch call A t A' := by
  cases hs with
  | past hlt => exact .past hlt
  | served hge hgreedy =>
      rw [h.creditsFor] at hgreedy
      have hfinish : ∀ d, ch'.finishTime call.requestTime.toNat call.length d =
          ch.finishTime call.requestTime.toNat call.length d := by
        intro d
        simp only [ChannelModel.finishTime, ChannelModel.totalLatency, h.creditsFor, h.maxCredits, h.xferLat]
      rw [hfinish]
      exact .served hge hgreedy

theorem sameParams_request {requestTime : Nat} {length : UInt64} {reply : ChannelReply}
    (h : ch.request requestTime length = .ok (reply, ch')) : SameParams ch ch' ∧ ch'.curTime = ch.curTime := by
  unfold ChannelModel.request at h
  dsimp only at h
  split at h
  · cases h
    exact ⟨⟨rfl, rfl, rfl⟩, rfl⟩
  · split at h
    · cases h
      exact ⟨⟨rfl, rfl, rfl⟩, rfl⟩
    · obtain ⟨a, _, ha⟩ := bind_eq_ok h
      cases ha
      exact ⟨⟨rfl, rfl, rfl⟩, rfl⟩

/-- **A call on the array is the call on the timeline.** -/
theorem chmodelRequest_spec (h : Tracks ch A) (hsized : ch.Sized) (hclock : ch.curTime ≤ call.now.toNat)
    (h32 : In32Bits ch call) :
    ∃ reply ch', chmodelRequest ch call = .ok (reply, ch') ∧ SameParams ch ch' ∧
      (reply.tooSmall = false → ∃ A', Timeline.Serves ch call A reply.time A' ∧ Tracks ch' A') := by
  have hmoved := h.moveHead hsized hclock h32.1
  obtain ⟨reply, ch', hok, hspec⟩ := hmoved.request call rfl h32.2
  have hparams : SameParams ch (ch.moveHead call.now.toNat) := ⟨rfl, rfl, rfl⟩
  have hparams' := (sameParams_request hok).1
  refine ⟨reply, ch', ?_, ?_, fun hsmall => ?_⟩
  · unfold chmodelRequest
    dsimp only
    rw [if_neg (Nat.not_lt.mpr hmoved.validLen_le), hok]
  · exact ⟨hparams'.maxCredits, hparams'.commandCredits, hparams'.xferLat⟩
  · obtain ⟨A', hserves, htracks⟩ := hspec hsmall
    exact ⟨A', hparams.serves hserves, htracks⟩

variable {credits : Nat → Nat} {bandwidth : UInt64} {xferLat : Nat}

theorem tracks_boot (hsized : (channelBoot credits bandwidth xferLat).Sized) :
    Tracks (channelBoot credits bandwidth xferLat) fun _ => (channelBoot credits bandwidth xferLat).maxCredits := by
  refine { head_lt := (by decide : 0 < nrCreditEntries), validLen_le := Nat.zero_le _, shows := ?_, fresh := fun _ _ => rfl }
  intro i hi
  have hmem : (channelBoot credits bandwidth xferLat).availCredits (slot nrCreditEntries 0 i) =
      bandwidthToMaxCredits bandwidth % 2 ^ 8 := by
    have hlt : slot nrCreditEntries 0 i < nrCreditEntries := slot_lt (by decide)
    simp only [channelBoot, chmodelInit, memsetCredits]
    rw [if_pos (by omega)]
  exact hmem.trans (Nat.mod_eq_of_lt hsized.2)

theorem ChannelRun.tracks {boot : ChannelModel} {calls : List ChannelCall} {times : List Nat}
    (hboot : Tracks boot fun _ => boot.maxCredits) (hsized : boot.Sized)
    (h : ChannelRun In32Bits boot calls times ch) :
    SameParams boot ch ∧ ∃ A, TimelineRun boot calls times A ∧ Tracks ch A := by
  induction h with
  | nil => exact ⟨⟨rfl, rfl, rfl⟩, _, .nil, hboot⟩
  | call _ hclock h32 hok hsmall ih =>
      obtain ⟨hparams, A, hrun, htracks⟩ := ih
      obtain ⟨reply, ch', hok', hparams', hspec⟩ := chmodelRequest_spec htracks (hparams.sized hsized) hclock h32
      cases hok.symm.trans hok'
      obtain ⟨A', hserves, htracks'⟩ := hspec hsmall
      refine ⟨⟨?_, ?_, ?_⟩, A', .call hrun (hparams.serves hserves), htracks'⟩
      · rw [hparams'.maxCredits, hparams.maxCredits]
      · rw [hparams'.commandCredits, hparams.commandCredits]
      · rw [hparams'.xferLat, hparams.xferLat]

/-- **The channel model refines the timeline.** In every run of calls whose numbers of intervals fit 32 bits the times
    returned are exactly those of the greedy allocation on the unbounded array, and every further such call returns. -/
theorem channel_refines_timeline {calls : List ChannelCall} {times : List Nat}
    (hsized : (channelBoot credits bandwidth xferLat).Sized)
    (h : ChannelRun In32Bits (channelBoot credits bandwidth xferLat) calls times ch) :
    (∀ times', (∃ A, TimelineRun (channelBoot credits bandwidth xferLat) calls times' A) ↔ times' = times) ∧
      ∀ call : ChannelCall, ch.curTime ≤ call.now.toNat → In32Bits ch call →
        ∃ reply ch', chmodelRequest ch call = .ok (reply, ch') := by
  obtain ⟨hparams, A, hrun, htracks⟩ := h.tracks (tracks_boot hsized) hsized
  refine ⟨fun times' => ⟨?_, ?_⟩, fun call hclock h32 => ?_⟩
  · rintro ⟨A', hrun'⟩
    exact (hrun'.unique hrun).1
  · rintro rfl
    exact ⟨A, hrun⟩
  · obtain ⟨reply, ch', hok, _⟩ := chmodelRequest_spec htracks (hparams.sized hsized) hclock h32
    exact ⟨reply, ch', hok⟩

/-- The bandwidths of `ssd_config.h` give every interval credits that fit a byte. -/
example : ∀ mbs ∈ [800, 3360, 3200, 450, 3050], (channelBoot (fun _ => 0) mbs 0).Sized := by
  simp only [ChannelModel.Sized, List.forall_mem_cons]
  refine ⟨?_, ?_, ?_, ?_, ?_, by simp⟩ <;> decide +kernel

/-! ## The gap that is not seen -/

/-- A channel of 800 MB/s, 26 credits an interval. -/
def channel800 : ChannelModel := channelBoot (fun _ => 0) 800 152

/-- A transfer that takes all the credits of the first interval. -/
def callFull : ChannelCall := ⟨0, 0, 3328⟩

/-- A small transfer, 2^32 intervals later. -/
def callLater : ChannelCall := ⟨17179869184000, 17179869184000, 128⟩

/-- On the timeline the second transfer is not delayed. -/
theorem timelineRun_later :
    ∃ A, TimelineRun channel800 [callLater, callFull] [17179869184152, 3952] A := by
  -- what the first transfer takes is not taken from the interval of the second
  obtain ⟨A, hfirst, hfresh⟩ : ∃ A, Timeline.Serves channel800 callFull (fun _ => channel800.maxCredits)
      (channel800.finishTime callFull.requestTime.toNat callFull.length 0) A ∧
      A (interval callLater.requestTime.toNat) = channel800.maxCredits :=
    ⟨_, .served (by decide) (.done (by decide +kernel)), Function.update_of_ne (by decide) _ _⟩
  have hsecond : Timeline.Serves channel800 callLater A _ _ :=
    .served (by decide) (.done (by rw [hfresh]; decide +kernel))
  have htimes : [channel800.finishTime callLater.requestTime.toNat callLater.length 0,
      channel800.finishTime callFull.requestTime.toNat callFull.length 0] = [17179869184152, 3952] := by decide +kernel
  rw [← htimes]
  exact ⟨_, .call (.call .nil hfirst) hsecond⟩

/-- **Stale credits are reused.** After 2^32 intervals the elapsed time is taken to be zero: the second transfer finds
    the credits of an interval used up that has passed long ago, and is delayed. -/
theorem channel_reuses_stale_credits :
    ∃ calls times ch, ChannelRun (fun _ _ => True) channel800 calls times ch ∧
      ¬ ∃ A, TimelineRun channel800 calls times A := by
  obtain ⟨⟨reply, ch⟩, hok, hobs⟩ := exists_ok_of_observed (x := chmodelRequest channel800 callFull)
    (f := fun r => (r.1, r.2.curTime, (chmodelRequest r.2 callLater).toOption.map Prod.fst))
    (b := (⟨3952, false⟩, 0, some ⟨17179869188152, false⟩)) (by decide +kernel)
  simp only [Prod.mk.injEq] at hobs
  obtain ⟨rfl, hcur, hlater⟩ := hobs
  obtain ⟨⟨reply', ch'⟩, hok', rfl⟩ := exists_ok_of_observed hlater
  refine ⟨_, _, ch', .call (.call .nil (Nat.zero_le _) trivial hok rfl) (by rw [hcur]; exact Nat.zero_le _) trivial
    hok' rfl, ?_⟩
  rintro ⟨A, hrun⟩
  obtain ⟨A', hrun'⟩ := timelineRun_later
  have htimes := (hrun.unique hrun').1
  revert htimes
  decide

instance (ch : ChannelModel) (call : ChannelCall) : Decidable (In32Bits ch call) := inferInstanceAs (Decidable (_ ∧ _))

/-- Three transfers of an interval each at once, of which the last is delayed, and a fourth when the clock has passed
    them. -/
theorem channel_refines_timeline_delayed :
    ∃ calls times ch, ChannelRun In32Bits channel800 calls times ch ∧ times = [23952, 7952, 3952, 3952] ∧
      ((∀ times', (∃ A, TimelineRun channel800 calls times' A) ↔ times' = times) ∧
        ∀ call : ChannelCall, ch.curTime ≤ call.now.toNat → In32Bits ch call →
          ∃ reply ch', chmodelRequest ch call = .ok (reply, ch')) := by
  have hobs : ([callFull, callFull, callFull, ⟨20000, 20000, 3328⟩].foldlM
      (admitted (fun x call => do
          let (reply, ch) ← chmodelRequest x.2.2 call
          if reply.tooSmall then .error .hang else return (call :: x.1, reply.time :: x.2.1, ch))
        fun x call => decide (x.2.2.curTime ≤ call.now.toNat ∧ In32Bits x.2.2 call))
      (([], [], channel800) : List ChannelCall × List Nat × ChannelModel)).map (·.2.1) =
        some [23952, 7952, 3952, 3952] := by decide +kernel
  obtain ⟨⟨calls, times, ch⟩, hrun, htimes⟩ := exists_played
    (P := fun x => ChannelRun In32Bits channel800 x.1 x.2.1 x.2.2) (fun x call x' hx hadmits hstep => by
      obtain ⟨hclock, h32⟩ := of_decide_eq_true hadmits
      obtain ⟨⟨reply, ch⟩, hok, hret⟩ := bind_eq_ok hstep
      dsimp only at hret
      split at hret
      · cases hret
      · next hsmall =>
          cases hret
          exact .call hx hclock h32 hok (Bool.eq_false_iff.mpr hsmall)) .nil hobs
  exact ⟨calls, times, ch, hrun, htimes, channel_refines_timeline (by unfold ChannelModel.Sized; decide +kernel) hrun⟩

end NvmeVirt
