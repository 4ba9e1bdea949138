import NvmeVirt.Lib.Ring
import NvmeVirt.Nvme.Prp
import NvmeVirt.Fdp.Namespace

/-!
# `Fdp.LogPages` — the FDP log pages (`fdp_get_log_page`) and the event ring

`fdp_get_log_page` builds one page of 4096 bytes from `fdp_ctx`: the configuration, the use of the reclaim unit
handles, the statistics, or the events. `LogPage.store` refuses a store behind the end of the page, so that a log that
is built at all fits. The events are kept in a ring of 63 records; `fdp_emit_event` overwrites the oldest one.

`EventHistory` is what the ring stands for: the events that were enabled when they were emitted, all of them.
`events_log_newest_first` says that the page the host reads lists the most recent 63 of them.
-/

namespace NvmeVirt

open Outcome

/-! ## Little-endian numbers -/

/-- `cpu_to_le16`, `cpu_to_le32`, `cpu_to_le64`: `n` bytes of a number, the lowest one first. -/
def leBytes : Nat → Nat → List UInt8
  | 0, _ => []
  | n + 1, x => UInt8.ofNat x :: leBytes n (x / 256)

/-- The number some bytes stand for. -/
def leNat : List UInt8 → Nat
  | [] => 0
  | b :: bs => b.toNat + 256 * leNat bs

@[simp] theorem length_leBytes (n x : Nat) : (leBytes n x).length = n := by
  induction n generalizing x with
  | zero => rfl
  | succ n ih => rw [leBytes, List.length_cons, ih]

theorem leNat_leBytes {n x : Nat} (h : x < 256 ^ n) : leNat (leBytes n x) = x := by
  induction n generalizing x with
  | zero =>
      rw [Nat.pow_zero] at h
      rw [leBytes, leNat]
      omega
  | succ n ih =>
      rw [Nat.pow_succ] at h
      rw [leBytes, leNat, ih (by omega), UInt8.toNat_ofNat']
      omega

/-! ## The page -/

/-- What stops the function that builds a page: `NVMEV_ASSERT(0)`, or a store behind the end of `log[PAGE_SIZE]`. -/
inductive LogFault where
  | bug | overflow
deriving DecidableEq, Repr

/-- `static uint8_t log[PAGE_SIZE]` -/
abbrev LogPage := Nat → UInt8

/-- `memset(log, 0, sizeof(log))` -/
def LogPage.clear : LogPage := fun _ => 0

/-- A store of some bytes at an offset. -/
def LogPage.store (log : LogPage) (off : Nat) (bytes : List UInt8) : Except LogFault LogPage :=
  if off + bytes.length ≤ pageSize then .ok (memcpy log off (fun i => bytes.getD i 0) 0 bytes.length)
  else .error .overflow

/-- Stores at several offsets. -/
def LogPage.stores (log : LogPage) (fields : List (Nat × List UInt8)) : Except LogFault LogPage :=
  fields.foldlM (fun log f => log.store f.1 f.2) log

section Page

variable {log : LogPage} {off : Nat} {bytes : List UInt8}

/-- **What a store does**: its bytes stand there, the others are as before. -/
theorem LogPage.store_sat (log : LogPage) (hfit : off + bytes.length ≤ pageSize) :
    Sat (fun _ => False) (fun log' => bytesAt log' off bytes.length = bytes ∧
      ∀ a n, a + n ≤ off ∨ off + bytes.length ≤ a → bytesAt log' a n = bytesAt log a n) (log.store off bytes) := by
  rw [LogPage.store, if_pos hfit]
  refine ⟨?_, fun a n h => ?_⟩
  · rw [bytesAt_memcpy, bytesAt_getD]
  · apply bytesAt_congr
    intro i hi
    exact memcpy_of_not (by omega)

theorem LogPage.stores_sat (log : LogPage) {fields : List (Nat × List UInt8)}
    (hfit : ∀ f, f ∈ fields → f.1 + f.2.length ≤ pageSize) :
    Sat (fun _ => False) (fun _ => True) (log.stores fields) :=
  sat_foldlM_const fields (fun f hf log _ => (log.store_sat (hfit f hf)).mono fun _ _ => trivial) trivial

end Page

/-! ## The log pages -/

/-- `NVME_LOG_FDP_CONFIGS` and the other log page identifiers. -/
def lidFdpConfigs : Nat := 0x20

@[inherit_doc lidFdpConfigs] def lidFdpRuhUsage : Nat := 0x21

@[inherit_doc lidFdpConfigs] def lidFdpStats : Nat := 0x22

@[inherit_doc lidFdpConfigs] def lidFdpEvents : Nat := 0x23

/-- `NVME_FDP_RUHA_*` -/
def RuhAttr.code : RuhAttr → Nat
  | .unused => 0
  | .host => 1
  | .ctrl => 2

/-- `dsze`: a configuration descriptor with its handles, of 64 and 4 bytes. -/
def fdpDescSize : Nat := 64 + fdpNrRuh * 4

/-- `__fill_fdp_log_configs`: the header at 0, the descriptor at 16, the handles at 80. -/
def fillFdpLogConfigs (ctx : FdpCtx) (log : LogPage) : Except LogFault LogPage := do
  let log ← log.stores [(0, leBytes 2 0), (2, leBytes 1 0), (4, leBytes 4 (16 + fdpDescSize))]
  let log ← log.stores
    [(16, leBytes 2 fdpDescSize), (18, leBytes 1 (1 <<< 7)), (19, leBytes 1 0), (20, leBytes 4 1),
      (24, leBytes 2 fdpNrRuh), (26, leBytes 2 (fdpNrRuh - 1)), (28, leBytes 4 1), (32, leBytes 8 ctx.runs),
      (40, leBytes 4 0)]
  (List.range fdpNrRuh).foldlM (fun log i => log.store (80 + 4 * i) (leBytes 1 1)) log

/-- `__fill_fdp_log_ruh_usage` -/
def fillFdpLogRuhUsage (ctx : FdpCtx) (log : LogPage) : Except LogFault LogPage := do
  let log ← log.store 0 (leBytes 2 fdpNrRuh)
  (List.range fdpNrRuh).foldlM (fun log i => log.store (8 + 8 * i) (leBytes 1 (ctx.ruhAttr i).code)) log

/-- `__fill_fdp_log_stats`: the low 64 bits of three 128-bit counters. -/
def fillFdpLogStats (ctx : FdpCtx) (log : LogPage) : Except LogFault LogPage :=
  log.stores [(0, leBytes 8 ctx.hbmw.toNat), (16, leBytes 8 ctx.mbmw.toNat), (32, leBytes 8 ctx.mbe.toNat)]

/-- The 64 bytes of `struct nvme_fdp_event`. -/
def FdpEvent.bytes (e : FdpEvent) : List UInt8 :=
  leBytes 1 e.type ++ leBytes 1 e.flags ++ leBytes 2 e.pid ++ leBytes 8 e.timestamp ++ leBytes 4 e.nsid ++
    List.replicate 16 0 ++ List.replicate 32 0

/-- The slot of the `i`-th record, counted from the most recent one. -/
def FdpCtx.recordSlot (ctx : FdpCtx) (i : Nat) : Nat := (ctx.ringHead + fdpNrEvents - 1 - i) % fdpNrEvents

/-- The `NVME_LOG_FDP_EVENTS` case: the header of 64 bytes, then the records. -/
def fillFdpLogEvents (ctx : FdpCtx) (log : LogPage) : Except LogFault LogPage := do
  let log ← log.store 0 (leBytes 4 ctx.nrEvents)
  (List.range ctx.nrEvents).foldlM
    (fun log i => log.store (64 + 64 * i) (ctx.ring (ctx.recordSlot i)).bytes) log

/-- The page that `fdp_get_log_page` builds. -/
def fdpLogPage (lid : Nat) (ctx : FdpCtx) : Except LogFault LogPage :=
  if lid = lidFdpConfigs then fillFdpLogConfigs ctx .clear
  else if lid = lidFdpRuhUsage then fillFdpLogRuhUsage ctx .clear
  else if lid = lidFdpStats then fillFdpLogStats ctx .clear
  else if lid = lidFdpEvents then fillFdpLogEvents ctx .clear
  else .error .bug

/-- `fdp_get_log_page(lid, buf, len)`: the bytes that are copied to `buf`. -/
def fdpGetLogPage (lid len : Nat) (ctx : FdpCtx) : Except LogFault (List UInt8) := do
  let log ← fdpLogPage lid ctx
  return bytesAt log 0 (min len pageSize)

/-! ## What the host reads -/

/-- `n` of `struct nvme_fdp_events_log` -/
def eventsLogN (log : LogPage) : Nat := leNat (bytesAt log 0 4)

/-- A record of 64 bytes. -/
def parseEvent (bs : List UInt8) : FdpEvent where
  type := leNat (bs.take 1)
  flags := leNat ((bs.drop 1).take 1)
  pid := leNat ((bs.drop 2).take 2)
  timestamp := leNat ((bs.drop 4).take 8)
  nsid := leNat ((bs.drop 12).take 4)

/-- The records that a page says it has. -/
def eventsLogRecords (log : LogPage) : List FdpEvent :=
  (List.range (eventsLogN log)).map fun i => parseEvent (bytesAt log (64 + 64 * i) 64)

/-- The fields of an event are in the ranges of their C types. -/
structure FdpEvent.Fits (e : FdpEvent) : Prop where
  type_lt : e.type < 2 ^ 8
  flags_lt : e.flags < 2 ^ 8
  pid_lt : e.pid < 2 ^ 16
  timestamp_lt : e.timestamp < 2 ^ 64
  nsid_lt : e.nsid < 2 ^ 32

@[simp] theorem FdpEvent.length_bytes (e : FdpEvent) : e.bytes.length = 64 := by
  simp [FdpEvent.bytes]

/-- **A record reads back as the event it was made of.** -/
theorem parseEvent_bytes {e : FdpEvent} (h : e.Fits) : parseEvent e.bytes = e := by
  have htype : leNat (leBytes 1 e.type) = e.type := leNat_leBytes h.type_lt
  have hflags : leNat (leBytes 1 e.flags) = e.flags := leNat_leBytes h.flags_lt
  have hpid : leNat (leBytes 2 e.pid) = e.pid := leNat_leBytes h.pid_lt
  have htime : leNat (leBytes 8 e.timestamp) = e.timestamp := leNat_leBytes h.timestamp_lt
  have hnsid : leNat (leBytes 4 e.nsid) = e.nsid := leNat_leBytes h.nsid_lt
  simp [parseEvent, FdpEvent.bytes, List.drop_append, List.drop_of_length_le, htype, hflags, hpid, htime, hnsid]

/-! ## Every page fits -/

/-- **The events page**: the number of records, then the records, most recent first. -/
theorem fillFdpLogEvents_sat {ctx : FdpCtx} (log : LogPage) (h : ctx.nrEvents ≤ fdpNrEvents) :
    Sat (fun _ => False) (fun log => bytesAt log 0 4 = leBytes 4 ctx.nrEvents ∧
      ∀ i, i < ctx.nrEvents → bytesAt log (64 + 64 * i) 64 = (ctx.ring (ctx.recordSlot i)).bytes)
      (fillFdpLogEvents ctx log) := by
  have hmany : ctx.nrEvents ≤ 63 := h
  refine (log.store_sat (by rw [length_leBytes]; decide)).bind ?_
  rintro log₁ ⟨hn, -⟩
  rw [length_leBytes] at hn
  refine sat_foldlM_range (fun k log => bytesAt log 0 4 = leBytes 4 ctx.nrEvents ∧
    ∀ i, i < k → bytesAt log (64 + 64 * i) 64 = (ctx.ring (ctx.recordSlot i)).bytes) _ ?_
    ⟨hn, fun i hi => absurd hi (Nat.not_lt_zero i)⟩
  rintro k hk log ⟨hn, hrecords⟩
  refine (LogPage.store_sat log (by rw [FdpEvent.length_bytes, pageSize]; omega)).mono ?_
  rintro log' ⟨hnew, hframe⟩
  rw [FdpEvent.length_bytes] at hnew hframe
  refine ⟨(hframe 0 4 (by omega)).trans hn, fun i hi => ?_⟩
  rcases Nat.lt_succ_iff_lt_or_eq.mp hi with hlt | rfl
  · exact (hframe _ _ (by omega)).trans (hrecords i hlt)
  · exact hnew

/-- One byte for each handle, at a distance. -/
theorem handles_sat (log : LogPage) (base step : Nat) (code : Nat → Nat) (hfit : base + step * fdpNrRuh ≤ pageSize)
    (hstep : 0 < step) :
    Sat (fun _ => False) (fun _ => True)
      ((List.range fdpNrRuh).foldlM (fun log i => LogPage.store log (base + step * i) (leBytes 1 (code i))) log) := by
  refine sat_foldlM_const _ (fun i hi log _ => (LogPage.store_sat log ?_).mono fun _ _ => trivial) trivial
  have hmul : step * (i + 1) ≤ step * fdpNrRuh := Nat.mul_le_mul_left step (List.mem_range.mp hi)
  rw [Nat.mul_add] at hmul
  rw [length_leBytes]
  omega

theorem fillFdpLogConfigs_sat (ctx : FdpCtx) (log : LogPage) :
    Sat (fun _ => False) (fun _ => True) (fillFdpLogConfigs ctx log) := by
  refine (LogPage.stores_sat log (by simp [pageSize])).bind fun log₁ _ => ?_
  refine (LogPage.stores_sat log₁ (by simp [pageSize])).bind fun log₂ _ => ?_
  exact handles_sat log₂ 80 4 (fun _ => 1) (by decide) (by decide)

theorem fillFdpLogRuhUsage_sat (ctx : FdpCtx) (log : LogPage) :
    Sat (fun _ => False) (fun _ => True) (fillFdpLogRuhUsage ctx log) := by
  refine (LogPage.store_sat log (by simp [pageSize])).bind fun log₁ _ => ?_
  exact handles_sat log₁ 8 8 (fun i => (ctx.ruhAttr i).code) (by decide) (by decide)

theorem fillFdpLogStats_sat (ctx : FdpCtx) (log : LogPage) :
    Sat (fun _ => False) (fun _ => True) (fillFdpLogStats ctx log) :=
  LogPage.stores_sat log (by simp [pageSize])

/-- **The log pages fit**: the four that exist are built without a store behind the page, and every other identifier
    ends in `NVMEV_ASSERT(0)`. -/
theorem fdpLogPage_fits {ctx : FdpCtx} (h : ctx.nrEvents ≤ fdpNrEvents) (lid : Nat) :
    (lid ∈ [lidFdpConfigs, lidFdpRuhUsage, lidFdpStats, lidFdpEvents] → ∃ log, fdpLogPage lid ctx = .ok log) ∧
      (lid ∉ [lidFdpConfigs, lidFdpRuhUsage, lidFdpStats, lidFdpEvents] → fdpLogPage lid ctx = .error .bug) := by
  simp only [List.mem_cons, List.not_mem_nil, or_false, not_or]
  constructor
  · have hdone : ∀ {x : Except LogFault LogPage}, Sat (fun _ => False) (fun _ => True) x → ∃ log, x = .ok log := by
      intro x hx
      obtain ⟨log, hlog, -⟩ := hx.exists_ok
      exact ⟨log, hlog⟩
    rintro (rfl | rfl | rfl | rfl)
    · exact hdone (fillFdpLogConfigs_sat ctx .clear)
    · exact hdone (fillFdpLogRuhUsage_sat ctx .clear)
    · exact hdone (fillFdpLogStats_sat ctx .clear)
    · exact hdone ((fillFdpLogEvents_sat .clear h).mono fun _ _ => trivial)
  · rintro ⟨h₁, h₂, h₃, h₄⟩
    rw [fdpLogPage, if_neg h₁, if_neg h₂, if_neg h₃, if_neg h₄]

/-- The events page of a ring that is full and has wrapped: the last record ends with the page. -/
theorem fdpLogPage_fits_full_ring :
    ∃ ctx : FdpCtx, ctx.nrEvents = fdpNrEvents ∧ ctx.ringHead = 1 ∧ ∃ log, fdpLogPage lidFdpEvents ctx = .ok log := by
  have hring : ((List.range 64).foldl (fun ctx i => fdpEmitEvent 0 0 i 1 i ctx)
      { fdpInitCtx 0 with events := [(0, true)] }).nrEvents = fdpNrEvents ∧
        ((List.range 64).foldl (fun ctx i => fdpEmitEvent 0 0 i 1 i ctx)
          { fdpInitCtx 0 with events := [(0, true)] }).ringHead = 1 := by decide +kernel
  exact ⟨_, hring.1, hring.2, (fdpLogPage_fits (Nat.le_of_eq hring.1) lidFdpEvents).1 (by decide)⟩

/-! ## The history of events -/

/-- A call of one of the two functions that change what the events page shows. The descriptors of Set Features are
    `(evt, evta)`, at the address in PRP1 if there is one. -/
inductive EventCall where
  | emit (type flags : UInt8) (pid : UInt16) (nsid : UInt32) (now : UInt64)
  | setFeature (dw11 : UInt32) (buf : Option (Nat → UInt8 × UInt8))

/-- The descriptors `fdp_set_feature_events(dw11, buf)` goes through, `noet` of them. -/
def eventDescs (dw11 : UInt32) : Option (Nat → UInt8 × UInt8) → List (Nat × Nat)
  | none => []
  | some buf => (List.range (dw11.toNat / 2 ^ 16 % 2 ^ 8)).map fun i => ((buf i).1.toNat, (buf i).2.toNat)

/-- One call. -/
def FdpCtx.call (ctx : FdpCtx) : EventCall → FdpCtx
  | .emit type flags pid nsid now => fdpEmitEvent type.toNat flags.toNat pid.toNat nsid.toNat now.toNat ctx
  | .setFeature dw11 buf => fdpSetFeatureEvents (eventDescs dw11 buf) ctx

/-- `fdp_init_ctx(runs)` on a context whose events were enabled in any way: it leaves the mask alone. -/
def fdpInitCtxWith (mask : List (Nat × Bool)) (runs : Nat) : FdpCtx := { fdpInitCtx runs with events := mask }

/-- **What the events page is about**: which types are enabled, and all events emitted while their type was, the most
    recent one first. -/
structure EventHistory where
  mask : List (Nat × Bool)
  emitted : List FdpEvent

/-- The type of an event is enabled. -/
def EventHistory.enabled (h : EventHistory) (type : Nat) : Prop :=
  (h.mask.find? fun e => e.1 == type).map Prod.snd = some true

instance (h : EventHistory) (type : Nat) : Decidable (h.enabled type) := inferInstanceAs (Decidable (_ = _))

/-- A descriptor switches the entries of its type. -/
def switchType (mask : List (Nat × Bool)) (d : Nat × Nat) : List (Nat × Bool) :=
  mask.map fun e => if e.1 = d.1 then (e.1, d.2 % 2 == 1) else e

def EventHistory.call (h : EventHistory) : EventCall → EventHistory
  | .emit type flags pid nsid now =>
      if h.enabled type.toNat then
        { h with emitted := ⟨type.toNat, flags.toNat, pid.toNat, now.toNat, nsid.toNat⟩ :: h.emitted }
      else h
  | .setFeature dw11 buf => { h with mask := (eventDescs dw11 buf).foldl switchType h.mask }

/-- **The ring holds the recent part of the history.** -/
structure HoldsEvents (ctx : FdpCtx) (h : EventHistory) : Prop where
  mask_eq : ctx.events = h.mask
  recent : Ring.Recent fdpNrEvents ctx.ring ctx.ringHead ctx.nrEvents h.emitted
  fits : ∀ e, e ∈ h.emitted → e.Fits

theorem holdsEvents_init (mask : List (Nat × Bool)) (runs : Nat) : HoldsEvents (fdpInitCtxWith mask runs) ⟨mask, []⟩ :=
  ⟨rfl, Ring.recent_nil _, fun e he => absurd he (by simp)⟩

theorem enabled_iff {ctx : FdpCtx} {h : EventHistory} (hmask : ctx.events = h.mask) (type : Nat) :
    ctx.enabled type = true ↔ h.enabled type := by
  unfold FdpCtx.enabled EventHistory.enabled
  rw [hmask]
  cases h.mask.find? fun e => e.1 == type <;> simp

/-- Set Features changes the mask and nothing else. -/
theorem fdpSetFeatureEvents_eq (descs : List (Nat × Nat)) (ctx : FdpCtx) :
    fdpSetFeatureEvents descs ctx = { ctx with events := descs.foldl switchType ctx.events } := by
  unfold fdpSetFeatureEvents
  induction descs generalizing ctx with
  | nil => rfl
  | cons d descs ih =>
      rw [List.foldl_cons, List.foldl_cons, ih]
      rfl

/-- **One call.** -/
theorem HoldsEvents.call {ctx : FdpCtx} {h : EventHistory} (hh : HoldsEvents ctx h) (c : EventCall) :
    HoldsEvents (ctx.call c) (h.call c) := by
  cases c with
  | setFeature dw11 buf =>
      rw [FdpCtx.call, fdpSetFeatureEvents_eq]
      exact ⟨by rw [hh.mask_eq]; rfl, hh.recent, hh.fits⟩
  | emit type flags pid nsid now =>
      have henabled := enabled_iff hh.mask_eq type.toNat
      simp only [FdpCtx.call, fdpEmitEvent, EventHistory.call]
      by_cases hon : h.enabled type.toNat
      · rw [if_pos (henabled.mpr hon), if_pos hon]
        refine ⟨hh.mask_eq, hh.recent.push _, fun e he => ?_⟩
        rcases List.mem_cons.mp he with rfl | he
        · exact ⟨type.toNat_lt, flags.toNat_lt, pid.toNat_lt, now.toNat_lt, nsid.toNat_lt⟩
        · exact hh.fits e he
      · rw [if_neg (mt henabled.mp hon), if_neg hon]
        exact hh

/-- **A sequence of calls.** -/
theorem holdsEvents_calls (mask : List (Nat × Bool)) (runs : Nat) (calls : List EventCall) :
    HoldsEvents (calls.foldl FdpCtx.call (fdpInitCtxWith mask runs)) (calls.foldl EventHistory.call ⟨mask, []⟩) := by
  suffices hgen : ∀ ctx h, HoldsEvents ctx h →
      HoldsEvents (calls.foldl FdpCtx.call ctx) (calls.foldl EventHistory.call h) from
    hgen _ _ (holdsEvents_init mask runs)
  induction calls with
  | nil => exact fun ctx h hh => hh
  | cons c calls ih => exact fun ctx h hh => ih _ _ (hh.call c)

/-- The page of a context whose ring holds a history. -/
theorem HoldsEvents.page {ctx : FdpCtx} {h : EventHistory} (hh : HoldsEvents ctx h) :
    ∃ log, fdpLogPage lidFdpEvents ctx = .ok log ∧ eventsLogN log = min h.emitted.length fdpNrEvents ∧
      eventsLogRecords log = h.emitted.take fdpNrEvents := by
  have hcount := hh.recent.count_eq
  have hmany : ctx.nrEvents ≤ fdpNrEvents := by omega
  obtain ⟨log, hlog, hn, hrecords⟩ := (fillFdpLogEvents_sat .clear hmany).exists_ok
  have hnr : eventsLogN log = ctx.nrEvents := by
    rw [eventsLogN, hn, leNat_leBytes (lt_of_le_of_lt hmany (by decide))]
  refine ⟨log, hlog, hnr.trans hcount, ?_⟩
  rw [eventsLogRecords, hnr, ← hh.recent.read_all]
  apply List.map_congr_left
  intro i hi
  have hlt : i < ctx.nrEvents := List.mem_range.mp hi
  rw [hrecords i hlt]
  exact parseEvent_bytes (hh.fits _ (List.mem_of_getElem? (hh.recent.read hlt)))

/-- **The events page serves the most recent events.** After any sequence of emissions and changes of the mask, the page
    has as many records as there were enabled events, at most 63, and they are the last ones, the most recent one first,
    with the fields they were emitted with; header and records fit the page, of which the host gets `len` bytes. -/
theorem events_log_newest_first (mask : List (Nat × Bool)) (runs : Nat) (calls : List EventCall) (len : Nat) :
    ∃ log, fdpGetLogPage lidFdpEvents len (calls.foldl FdpCtx.call (fdpInitCtxWith mask runs)) =
        .ok (bytesAt log 0 (min len pageSize)) ∧
      eventsLogN log = min (calls.foldl EventHistory.call ⟨mask, []⟩).emitted.length fdpNrEvents ∧
      eventsLogRecords log = (calls.foldl EventHistory.call ⟨mask, []⟩).emitted.take fdpNrEvents ∧
      64 + 64 * eventsLogN log ≤ pageSize := by
  obtain ⟨log, hlog, hn, hrecords⟩ := (holdsEvents_calls mask runs calls).page
  refine ⟨log, ?_, hn, hrecords, ?_⟩
  · rw [fdpGetLogPage, hlog]
    rfl
  · have hle : eventsLogN log ≤ 63 := hn ▸ Nat.min_le_right _ _
    unfold pageSize
    omega

end NvmeVirt
