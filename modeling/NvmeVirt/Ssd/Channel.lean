import Mathlib.Logic.Function.Basic
import NvmeVirt.Ssd.Params

/-!
# `Ssd.Channel` — the bandwidth model of a channel (`channel_model.c`, `channel_model.h`)

Time is cut into intervals, each with a number of credits, and a transfer takes its credits greedily from the interval
of its request time on. The channel keeps the intervals that may have given credits away in a circular array, from the
interval of the last call on (`head`, `valid_len`), and clears those that have passed when the next call comes.
-/

namespace NvmeVirt

/-! ## The source -/

/-- `NR_CREDIT_ENTRIES` -/
def nrCreditEntries : Nat := 1024 * 96

/-- `UNIT_TIME_INTERVAL` -/
def unitTimeInterval : Nat := 4000

/-- `UNIT_XFER_SIZE` -/
def unitXferSize : Nat := 128

/-- `UNIT_XFER_CREDITS` -/
def unitXferCredits : Nat := 1

/-- The number of the interval a time lies in. -/
def interval (t : Nat) : Nat := t / unitTimeInterval

/-- `struct channel_model` -/
structure ChannelModel where
  curTime : Nat
  head : Nat
  validLen : Nat
  maxCredits : Nat
  commandCredits : Nat
  xferLat : Nat
  availCredits : Nat → Nat

/-- A failed `NVMEV_ASSERT`, or an allocation that does not end. -/
inductive ChannelFault where
  | bug | hang
deriving DecidableEq, Repr

/-- `BANDWIDTH_TO_MAX_CREDITS`, stored in 32 bits -/
def bandwidthToMaxCredits (mbs : UInt64) : Nat :=
  u32 (u64 (u64 (mbs.toNat * 2 ^ 20) * unitTimeInterval) / 10 ^ 9 / unitXferSize * unitXferCredits)

/-- `BANDWIDTH_TO_TX_TIME`, stored in 32 bits -/
def bandwidthToTxTime (mbs : UInt64) : Nat := u32 (unitXferSize * 10 ^ 9 / u64 (mbs.toNat * 2 ^ 20))

/-- `MEMSET` of a range of credits; a credit is one byte. -/
def memsetCredits (credits : Nat → Nat) (start value length : Nat) : Nat → Nat :=
  fun i => if start ≤ i ∧ i < start + length then value % 2 ^ 8 else credits i

/-- `chmodel_init` on memory that holds `credits` -/
def chmodelInit (credits : Nat → Nat) (bandwidth : UInt64) : ChannelModel where
  head := 0
  validLen := 0
  curTime := 0
  maxCredits := bandwidthToMaxCredits bandwidth
  commandCredits := 0
  xferLat := bandwidthToTxTime bandwidth
  availCredits := memsetCredits credits 0 (bandwidthToMaxCredits bandwidth) nrCreditEntries

/-- The clock read by a call of `chmodel_request`, and its arguments. -/
structure ChannelCall where
  now : UInt64
  requestTime : UInt64
  length : UInt64

/-- What a call returns, and whether it took one of the branches that report the array to be too small. -/
structure ChannelReply where
  time : Nat
  tooSmall : Bool
deriving DecidableEq, Repr

/-- `DIV_ROUND_UP(length, UNIT_XFER_SIZE)`, stored in 32 bits -/
def unitsToXfer (length : UInt64) : Nat := u32 (u64 (length.toNat + unitXferSize - 1) / unitXferSize)

namespace ChannelModel

variable (ch : ChannelModel)

/-- `cur_time_offs`: the intervals since the last call in 32 bits, at most `valid_len` -/
def curTimeOffs (curTime : Nat) : Nat :=
  let offs := u32 (u64 (interval curTime + 2 ^ 64 - interval ch.curTime))
  if offs < ch.validLen then offs else ch.validLen

/-- "Search current time index and move head to it" -/
def moveHead (curTime : Nat) : ChannelModel :=
  let offs := ch.curTimeOffs curTime
  { ch with
    availCredits :=
      if ch.head + offs ≥ nrCreditEntries then
        memsetCredits (memsetCredits ch.availCredits ch.head ch.maxCredits (nrCreditEntries - ch.head)) 0 ch.maxCredits
          (offs - (nrCreditEntries - ch.head))
      else memsetCredits ch.availCredits ch.head ch.maxCredits offs
    head := (ch.head + offs) % nrCreditEntries
    curTime := curTime
    validLen := ch.validLen - offs }

/-- Where the allocation loop ends: the credits left, the last position and the delay, and whether it ended because
    the array was full. -/
structure Allocated where
  credits : Nat → Nat
  pos : Nat
  delay : Nat
  full : Bool

/-- The loop of `chmodel_request` that takes the credits. -/
def allocLoop (head : Nat) : Nat → (Nat → Nat) → Nat → Nat → Nat → Except ChannelFault Allocated
  | 0, _, _, _, _ => .error .hang
  | fuel + 1, credits, pos, remaining, delay =>
      let consumed := if remaining ≤ credits pos then remaining else credits pos
      let credits' := Function.update credits pos (credits pos - consumed)
      if remaining - consumed ≠ 0 then
        let nextPos := (pos + 1) % nrCreditEntries
        if nextPos ≠ head then allocLoop head fuel credits' nextPos (remaining - consumed) (delay + 1)
        else .ok ⟨credits', pos, delay, true⟩
      else .ok ⟨credits', pos, delay, false⟩

/-- `remaining_credits` at the start of the allocation -/
def creditsFor (length : UInt64) : Nat := u32 (unitsToXfer length * unitXferCredits + ch.commandCredits)

/-- `total_latency` of a transfer delayed by `delay` intervals. -/
def totalLatency (length : UInt64) (delay : Nat) : Nat :=
  let defaultDelay := ch.creditsFor length / ch.maxCredits
  let extra := if delay > defaultDelay then delay - defaultDelay else 0
  u64 (u32 (ch.xferLat * unitsToXfer length) + extra * unitTimeInterval)

/-- The time such a transfer is complete. -/
def finishTime (requestTime : Nat) (length : UInt64) (delay : Nat) : Nat :=
  u64 (requestTime + ch.totalLatency length delay)

/-- `valid_len` after an allocation that ended at `pos` -/
def reachTo (pos : Nat) : Nat :=
  let validLength := if pos ≥ ch.head then pos - ch.head + 1 else nrCreditEntries - (ch.head - pos - 1)
  if validLength > ch.validLen then validLength else ch.validLen

/-- `chmodel_request`; the head has been moved. -/
def request (requestTime : Nat) (length : UInt64) : Except ChannelFault (ChannelReply × ChannelModel) :=
  if requestTime < ch.curTime then .ok (⟨requestTime, false⟩, ch)
  else
    let requestTimeOffs := u32 (interval requestTime - interval ch.curTime)
    if requestTimeOffs ≥ nrCreditEntries then .ok (⟨requestTime, true⟩, ch)
    else do
      let a ← allocLoop ch.head (nrCreditEntries + 1) ch.availCredits ((ch.head + requestTimeOffs) % nrCreditEntries)
        (ch.creditsFor length) 0
      return (⟨ch.finishTime requestTime length a.delay, a.full⟩,
        { ch with availCredits := a.credits, validLen := ch.reachTo a.pos })

end ChannelModel

/-- `chmodel_request` -/
def chmodelRequest (ch : ChannelModel) (call : ChannelCall) : Except ChannelFault (ChannelReply × ChannelModel) :=
  let ch := ch.moveHead call.now.toNat
  -- "Invalid valid_len"
  if ch.validLen > nrCreditEntries then .error .bug else ch.request call.requestTime.toNat call.length

end NvmeVirt
