import NvmeVirt.Lib.Outcome
import Mathlib.Logic.Function.Basic
import Mathlib.Data.UInt

/-!
# `Io.CqDoorbell` — what the host's completion doorbell makes the dispatcher do (`nvmev_proc_io_cq`)

The host writes the head of a completion queue to a doorbell register when it has consumed entries; the dispatcher walks
from the old value to the new one and counts each entry's command as no longer in flight. The walk ends when its
variable **equals** the new value. At the end of the queue it starts over, so it takes the values `0, ..., queue_size`
and no other, for ever.

* `procIoCqLoop_reach` — a value up to `queue_size` is reached, with every entry on the way counted once.
* `procIoCqLoop_hang` — any other value is passed again and again: the dispatcher does not come back.
-/

namespace NvmeVirt

open Outcome

/-! ## The source -/

/-- A loop of the dispatcher that does not end. -/
inductive CqFault where
  | hang
deriving DecidableEq, Repr

/-- `stat.nr_in_flight` of the submission queues there are. -/
abbrev InFlight := Nat → Option UInt32

/-- `sqes[sqid]->stat.nr_in_flight--`, if there is the queue -/
def InFlight.dec (s : InFlight) (sqid : Nat) : InFlight := Function.update s sqid ((s sqid).map fun n => n - 1)

/-- A completion queue: `qsize` of the command that created it, and `cq_entry(i).sq_id`. -/
structure CqRing where
  qsize : UInt16
  sqId : Nat → Nat

/-- `queue_size` -/
def CqRing.queueSize (cq : CqRing) : Nat := cq.qsize.toNat + 1

/-- A doorbell register, read into an `int`. -/
def doorbell (value : UInt32) : Int := if value.toNat < 2 ^ 31 then value.toNat else value.toNat - 2 ^ 32

/-- The loop of `nvmev_proc_io_cq`. -/
def procIoCqLoop (cq : CqRing) (newDb : Int) : Nat → Int → InFlight → Except CqFault InFlight
  | 0, _, _ => .error .hang
  | fuel + 1, i, s =>
      if i = newDb then .ok s
      -- `i = -1; continue;`
      else if i ≥ cq.queueSize then procIoCqLoop cq newDb fuel (-1 + 1) s
      else procIoCqLoop cq newDb fuel (i + 1) (s.dec (cq.sqId i.toNat))

/-- `cq->cq_tail` after the walk -/
def CqRing.cqTail (cq : CqRing) (newDb : Int) : Int := if newDb = -1 then cq.queueSize - 1 else newDb - 1

/-- `nvmev_proc_io_cq`: the counters and `cq_tail` -/
def nvmevProcIoCq (fuel : Nat) (cq : CqRing) (newDb : UInt32) (oldDb : Nat) (s : InFlight) :
    Except CqFault (InFlight × Int) := do
  let s ← procIoCqLoop cq (doorbell newDb) fuel oldDb s
  return (s, cq.cqTail (doorbell newDb))

/-! ## The entries consumed -/

/-- **The entries from the old value up to the new one**, around the end of the queue. -/
def cqInterval (queueSize oldDb newDb : Nat) : List Nat :=
  if oldDb ≤ newDb then List.range' oldDb (newDb - oldDb)
  else List.range' oldDb (queueSize - oldDb) ++ List.range' 0 newDb

/-- The counters once these entries are counted. -/
def CqRing.consumed (cq : CqRing) (entries : List Nat) (s : InFlight) : InFlight :=
  entries.foldl (fun s i => s.dec (cq.sqId i)) s

variable {cq : CqRing} {s : InFlight} {i newDb : Nat}

theorem dec_self (s : InFlight) (sqid : Nat) : s.dec sqid sqid = (s sqid).map fun n => n - 1 := Function.update_self ..

theorem dec_of_ne (s : InFlight) {q sqid : Nat} (h : q ≠ sqid) : s.dec sqid q = s q := Function.update_of_ne h ..

/-- **Each entry counts once**: a counter goes down by the number of entries of its queue. -/
theorem consumed_eq (cq : CqRing) (entries : List Nat) (s : InFlight) (q : Nat) :
    cq.consumed entries s q = (s q).map fun n => n - UInt32.ofNat (entries.countP fun i => cq.sqId i = q) := by
  induction entries generalizing s with
  | nil =>
      rw [CqRing.consumed, List.foldl_nil]
      cases s q <;> simp
  | cons i entries ih =>
      have hcons : cq.consumed (i :: entries) s = cq.consumed entries (s.dec (cq.sqId i)) := rfl
      rw [hcons, ih]
      by_cases hq : cq.sqId i = q
      · subst hq
        rw [dec_self, Option.map_map]
        cases s (cq.sqId i) with
        | none => rfl
        | some n =>
            simp only [Option.map_some, Function.comp_apply, List.countP_cons, decide_true, if_true, Option.some.injEq]
            rw [UInt32.ofNat_add, sub_sub, add_comm]
            rfl
      · rw [dec_of_ne s (Ne.symm hq), List.countP_cons]
        simp [hq]

/-! ## The walk -/

/-- Up to a value ahead. -/
theorem procIoCqLoop_ahead (d : Nat) (hd : i + d = newDb) (hle : newDb ≤ cq.queueSize) :
    procIoCqLoop cq newDb (d + 1) i s = .ok (cq.consumed (List.range' i d) s) := by
  induction d generalizing i s with
  | zero =>
      obtain rfl : i = newDb := hd
      rw [procIoCqLoop, if_pos rfl]
      rfl
  | succ d ih =>
      rw [procIoCqLoop, if_neg (by omega), if_neg (by omega), Int.toNat_natCast]
      have hstep := ih (i := i + 1) (s := s.dec (cq.sqId i)) (by omega)
      rw [List.range'_succ]
      exact hstep

/-- Over the end of the queue. -/
theorem procIoCqLoop_around (d : Nat) (hd : i + d = cq.queueSize) (hlt : newDb < i) :
    procIoCqLoop cq newDb (d + 1 + (newDb + 1)) i s =
      .ok (cq.consumed (List.range' 0 newDb) (cq.consumed (List.range' i d) s)) := by
  induction d generalizing i s with
  | zero =>
      rw [show 0 + 1 + (newDb + 1) = (newDb + 1) + 1 from by omega, procIoCqLoop, if_neg (by omega), if_pos (by omega)]
      exact procIoCqLoop_ahead newDb (Nat.zero_add _) (by omega)
  | succ d ih =>
      rw [show d + 1 + 1 + (newDb + 1) = (d + 1 + (newDb + 1)) + 1 from by omega, procIoCqLoop, if_neg (by omega),
        if_neg (by omega), Int.toNat_natCast]
      have hstep := ih (i := i + 1) (s := s.dec (cq.sqId i)) (by omega) (by omega)
      rw [List.range'_succ]
      exact hstep

/-- **A value up to `queue_size` is reached.** -/
theorem procIoCqLoop_reach (hi : i < cq.queueSize) (hle : newDb ≤ cq.queueSize) (s : InFlight) :
    ∃ fuel, procIoCqLoop cq newDb fuel i s = .ok (cq.consumed (cqInterval cq.queueSize i newDb) s) := by
  unfold cqInterval
  by_cases h : i ≤ newDb
  · rw [if_pos h]
    exact ⟨_, procIoCqLoop_ahead (newDb - i) (by omega) hle⟩
  · rw [if_neg h]
    refine ⟨_, (procIoCqLoop_around (cq.queueSize - i) (by omega) (by omega)).trans ?_⟩
    rw [CqRing.consumed, CqRing.consumed, CqRing.consumed, List.foldl_append]

/-- **No other value is.** -/
theorem procIoCqLoop_hang {target : Int} (htarget : target < 0 ∨ (cq.queueSize : Int) < target) (fuel : Nat)
    (hi : i ≤ cq.queueSize) : procIoCqLoop cq target fuel i s = .error .hang := by
  induction fuel generalizing i s with
  | zero => rfl
  | succ fuel ih =>
      rw [procIoCqLoop, if_neg (by omega)]
      by_cases hend : (i : Int) ≥ cq.queueSize
      · rw [if_pos hend]
        exact ih (i := 0) (Nat.zero_le _)
      · rw [if_neg hend]
        exact ih (i := i + 1) (by omega)

/-- A register value that is not a queue position, or one. -/
theorem doorbell_of_le {value : UInt32} (h : value.toNat ≤ cq.queueSize) : doorbell value = value.toNat := by
  have hsize : cq.qsize.toNat < 2 ^ 16 := cq.qsize.toNat_lt
  unfold CqRing.queueSize at h
  rw [doorbell, if_pos (by omega)]

theorem doorbell_of_gt {value : UInt32} (h : cq.queueSize < value.toNat) :
    doorbell value < 0 ∨ (cq.queueSize : Int) < doorbell value := by
  have hlt : value.toNat < 2 ^ 32 := value.toNat_lt
  unfold doorbell
  split <;> omega

/-- **The doorbell is walked to and counted.** The call returns, and for a position of the queue every counter goes down
    by the number of its entries that were consumed. -/
def CountsConsumed (cq : CqRing) (newDb : UInt32) (oldDb : Nat) (s : InFlight) : Prop :=
  ∃ fuel r, nvmevProcIoCq fuel cq newDb oldDb s = .ok r ∧
    (newDb.toNat < cq.queueSize → ∀ q, r.1 q = (s q).map fun n =>
      n - UInt32.ofNat ((cqInterval cq.queueSize oldDb newDb.toNat).countP fun i => cq.sqId i = q))

/-- **The walk ends exactly for values up to `queue_size`**, and counts right for those below. -/
theorem cq_doorbell_iff (cq : CqRing) {oldDb : Nat} (hold : oldDb < cq.queueSize) (newDb : UInt32) (s : InFlight) :
    CountsConsumed cq newDb oldDb s ↔ newDb.toNat ≤ cq.queueSize := by
  constructor
  · rintro ⟨fuel, r, hok, -⟩
    by_contra hgt
    rw [nvmevProcIoCq, procIoCqLoop_hang (doorbell_of_gt (Nat.not_le.mp hgt)) fuel (Nat.le_of_lt hold)] at hok
    cases hok
  · intro hle
    obtain ⟨fuel, hloop⟩ := procIoCqLoop_reach hold hle s
    rw [← doorbell_of_le hle] at hloop
    refine ⟨fuel, (_, cq.cqTail (doorbell newDb)), ?_, fun _ q => consumed_eq cq _ s q⟩
    rw [nvmevProcIoCq, hloop, ok_bind]
    rfl

/-- A queue of eight entries, all of submission queue 1. -/
def cqOfEight : CqRing := ⟨7, fun _ => 1⟩

/-- From 6 around the end to 2. -/
theorem cq_doorbell_around : CountsConsumed cqOfEight 2 6 fun _ => some 4 :=
  (cq_doorbell_iff cqOfEight (by decide) 2 fun _ => some 4).mpr (by decide)

/-- **A value beyond the queue size**: the dispatcher does not come back. -/
theorem cq_doorbell_hangs :
    (∀ fuel, nvmevProcIoCq fuel cqOfEight 9 0 (fun _ => some 4) = .error .hang) ∧
      ¬ CountsConsumed cqOfEight 9 0 fun _ => some 4 := by
  have hhang : ∀ fuel, nvmevProcIoCq fuel cqOfEight 9 0 (fun _ => some 4) = .error .hang := by
    intro fuel
    rw [nvmevProcIoCq, procIoCqLoop_hang (Or.inr (by decide)) fuel (Nat.zero_le _)]
    rfl
  refine ⟨hhang, ?_⟩
  rintro ⟨fuel, r, hok, -⟩
  rw [hhang] at hok
  cases hok

end NvmeVirt
