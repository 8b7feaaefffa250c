import Datamancer.Live.Connection

/-!
# Datamancer.Health.Stats

What a live session keeps about itself for the diagnostics plane (`LiveStats`), and the counters
a provider keeps about the calls made to it (`ProviderAccounting`).

Each of the fields of `LiveStats` is written by some of the things that touch a session and left
alone by the others, so that after any history of touches it is one plain function of it: the
last `seq` stamped, the stamps of the last data event delivered, how many gaps there were and
which were the last few, the phase its own controls leave (`LiveStats.kept_of`).
-/

namespace Datamancer

/-- `rx_ts` of data events only; `none` for controls. -/
def MarketEvent.dataRxTs : MarketEvent → Option Timestamp
  | .trade t => some t.rxTs
  | .quote q => some q.rxTs
  | .bar b => some b.rxTs
  | .control _ => none

@[simp] theorem MarketEvent.dataRxTs_stampSeq (s : Seq) (ev : MarketEvent) :
    (ev.stampSeq s).dataRxTs = ev.dataRxTs := by cases ev <;> rfl

/-- The two stamps of a data event. -/
def MarketEvent.dataStamps (ev : MarketEvent) : Option (Timestamp × Timestamp) :=
  match ev.dataSourceTs, ev.dataRxTs with
  | some source, some rx => some (source, rx)
  | _, _ => none

/-- The span of a `Gap` control and when it was received. -/
def MarketEvent.gapStamp : MarketEvent → Option (GapSpan × Timestamp)
  | .control ⟨_, rx, _, .gap _ _ span⟩ => some (span, rx)
  | _ => none

@[simp] theorem MarketEvent.dataStamps_stampSeq (s : Seq) (ev : MarketEvent) :
    (ev.stampSeq s).dataStamps = ev.dataStamps := by simp [dataStamps]

@[simp] theorem MarketEvent.gapStamp_stampSeq (s : Seq) (ev : MarketEvent) :
    (ev.stampSeq s).gapStamp = ev.gapStamp := by
  cases ev with
  | control c => obtain ⟨_, _, _, kind⟩ := c; cases kind <;> rfl
  | _ => rfl

namespace Health

open Connection

/-! ### One live session -/

/-- `RECENT_GAPS_CAP`. -/
def recentGapsCap : Nat := 8

/-- The per-symbol counters of an authoritative session. A flag and the value it guards
(`has_seq` and `last_seq`) are one `Option`. -/
structure LiveStats where
  lastSeq : Option Seq
  /-- `last_source_ts` and `last_rx_ts`, which one flag guards. -/
  lastTs : Option (Timestamp × Timestamp)
  gapCount : Nat
  recentGaps : EvictRing GapSpan
  lastGapRxTs : Option Timestamp
  backfilling : Bool
  subscribers : Nat
  connection : StreamConnection

namespace LiveStats

def new : LiveStats := ⟨none, none, 0, .new recentGapsCap, none, false, 0, .pending⟩

def setSubscribers (s : LiveStats) (n : Nat) : LiveStats := { s with subscribers := n }

def setBackfilling (s : LiveStats) (active : Bool) : LiveStats := { s with backfilling := active }

/-- Every event has a `seq` today. -/
def recordSeq (s : LiveStats) (ev : MarketEvent) : LiveStats := { s with lastSeq := some ev.seq }

/-- Record one event delivered. -/
def recordEvent (s : LiveStats) (ev : MarketEvent) : LiveStats :=
  let s := s.recordSeq ev
  match ev with
  | .trade _ | .quote _ | .bar _ =>
      match ev.dataSourceTs, ev.dataRxTs with
      | some source, some rx => { s with lastTs := some (source, rx) }
      | _, _ => s
  | .control c =>
      match c.kind with
      | .gap _ _ span =>
          { s with
            gapCount := s.gapCount + 1
            lastGapRxTs := some c.rxTs
            recentGaps := s.recentGaps.push span }
      -- the phase is recorded at receipt, not here
      | .providerConnected _ | .providerDisconnected _ _ _ | .providerError _ _
      | .subscriptionChanged _ _ _ _ | .sessionClosing => s

/-- Record the latest-value seed: its `seq` only. -/
def recordSeed (s : LiveStats) (ev : MarketEvent) : LiveStats := s.recordSeq ev

/-- Record a connect or disconnect at receipt. -/
def recordConnection (s : LiveStats) (c : Control) : LiveStats × ConnectionChange :=
  let r := Connection.recordConnection s.connection c
  ({ s with connection := r.1 }, r.2)

end LiveStats

/-! ### What touches it -/

inductive Touch
  | event (ev : MarketEvent)
  | seed (ev : MarketEvent)
  | received (c : Control)
  | backfill (active : Bool)
  | subscribers (n : Nat)
  deriving DecidableEq, Repr

namespace Touch

/-- The event a touch delivers, the seed included. -/
def stamped : Touch → Option MarketEvent
  | event ev | seed ev => some ev
  | _ => none

/-- The event a touch delivers, if it is no seed. -/
def delivered : Touch → Option MarketEvent
  | event ev => some ev
  | _ => none

def control : Touch → Option Control
  | received c => some c
  | _ => none

def backfillMark : Touch → Option Bool
  | backfill active => some active
  | _ => none

def subscriberCount : Touch → Option Nat
  | subscribers n => some n
  | _ => none

/-- The `seq` a touch delivers, that of a seed included. -/
def seq (t : Touch) : Option Seq := t.stamped.map MarketEvent.seq

def dataStamps (t : Touch) : Option (Timestamp × Timestamp) :=
  t.delivered.bind MarketEvent.dataStamps

def gapStamp (t : Touch) : Option (GapSpan × Timestamp) := t.delivered.bind MarketEvent.gapStamp

end Touch

def LiveStats.touch (s : LiveStats) : Touch → LiveStats
  | .event ev => s.recordEvent ev
  | .seed ev => s.recordSeed ev
  | .received c => (s.recordConnection c).1
  | .backfill active => s.setBackfilling active
  | .subscribers n => s.setSubscribers n

/-- What a session keeps after a history of touches. -/
def LiveStats.of (ts : List Touch) : LiveStats := ts.foldl LiveStats.touch .new

/-- The `seq`s a history delivered, seeds included. -/
def seqs (ts : List Touch) : List Seq := ts.filterMap Touch.seq

/-- The data stamps of what a history delivered, seeds aside. -/
def dataStamps (ts : List Touch) : List (Timestamp × Timestamp) := ts.filterMap Touch.dataStamps

/-- The gaps a history delivered. -/
def gaps (ts : List Touch) : List (GapSpan × Timestamp) := ts.filterMap Touch.gapStamp

/-- The controls a history received from the provider. -/
def controls (ts : List Touch) : List Control := ts.filterMap Touch.control

/-! ### What is kept, as a function of the history -/

/-- Whatever the event, what it is to the counters is its `seq`, its stamps if it is data and its
span if it is a gap. -/
theorem recordEvent_eq (s : LiveStats) (ev : MarketEvent) :
    s.recordEvent ev =
      { s with
        lastSeq := some ev.seq
        lastTs := ev.dataStamps.or s.lastTs
        gapCount := s.gapCount + ev.gapStamp.toList.length
        lastGapRxTs := (ev.gapStamp.map Prod.snd).or s.lastGapRxTs
        recentGaps := s.recentGaps.pushAll (ev.gapStamp.toList.map Prod.fst) } := by
  cases ev with
  | control c => obtain ⟨_, _, _, kind⟩ := c; cases kind <;> rfl
  | _ => rfl

/-- What a touch writes, each field by its own reading of the touch. -/
theorem touch_eq (s : LiveStats) (t : Touch) :
    s.touch t =
      { lastSeq := t.seq.or s.lastSeq
        lastTs := t.dataStamps.or s.lastTs
        gapCount := s.gapCount + t.gapStamp.toList.length
        lastGapRxTs := (t.gapStamp.map Prod.snd).or s.lastGapRxTs
        recentGaps := s.recentGaps.pushAll (t.gapStamp.toList.map Prod.fst)
        backfilling := t.backfillMark.getD s.backfilling
        subscribers := t.subscriberCount.getD s.subscribers
        connection := t.control.toList.foldl (fun slot c => (recordConnection slot c).1)
          s.connection } := by
  cases t with
  | event ev => exact recordEvent_eq s ev
  | _ => rfl

theorem LiveStats.of_append (ts : List Touch) (t : Touch) :
    LiveStats.of (ts ++ [t]) = (LiveStats.of ts).touch t := by
  rw [LiveStats.of, List.foldl_append]
  rfl

section Append

variable {α β : Type*}

theorem filterMap_snoc (f : α → Option β) (l : List α) (a : α) :
    (l ++ [a]).filterMap f = l.filterMap f ++ (f a).toList := by
  cases h : f a <;> simp [h]

theorem getLast?_append_toList (l : List α) (o : Option α) :
    (l ++ o.toList).getLast? = o.or l.getLast? := by
  cases o <;> simp

end Append

/-- What is kept of a history, field by field. -/
structure Kept (ts : List Touch) (s : LiveStats) : Prop where
  lastSeq : s.lastSeq = (seqs ts).getLast?
  lastTs : s.lastTs = (dataStamps ts).getLast?
  gapCount : s.gapCount = (gaps ts).length
  recentGaps : s.recentGaps = (EvictRing.new recentGapsCap).pushAll ((gaps ts).map Prod.fst)
  lastGapRxTs : s.lastGapRxTs = (gaps ts).getLast?.map Prod.snd
  backfilling : s.backfilling = (ts.filterMap Touch.backfillMark).getLast?.getD false
  subscribers : s.subscribers = (ts.filterMap Touch.subscriberCount).getLast?.getD 0
  connection : s.connection = foldPhase (controls ts)

theorem kept_new : Kept [] .new := ⟨rfl, rfl, rfl, rfl, rfl, rfl, rfl, rfl⟩

theorem kept_touch {ts : List Touch} {s : LiveStats} (h : Kept ts s) (t : Touch) :
    Kept (ts ++ [t]) (s.touch t) := by
  rw [touch_eq]
  constructor
  · simp only [seqs, filterMap_snoc, getLast?_append_toList, h.lastSeq]
  · simp only [dataStamps, filterMap_snoc, getLast?_append_toList, h.lastTs]
  · simp only [gaps, filterMap_snoc, List.length_append, h.gapCount]
  · simp only [gaps, filterMap_snoc, List.map_append, h.recentGaps, EvictRing.pushAll,
      List.foldl_append]
  · simp only [gaps, filterMap_snoc, getLast?_append_toList, h.lastGapRxTs]
    cases t.gapStamp <;> rfl
  · simp only [filterMap_snoc, getLast?_append_toList, h.backfilling]
    cases t.backfillMark <;> rfl
  · simp only [filterMap_snoc, getLast?_append_toList, h.subscribers]
    cases t.subscriberCount <;> rfl
  · simp only [controls, filterMap_snoc, h.connection, foldPhase, List.foldl_append]

/-- After any history of touches each field is what the history says of it. -/
theorem LiveStats.kept_of (ts : List Touch) : Kept ts (.of ts) := by
  induction ts using List.reverseRecOn with
  | nil => exact kept_new
  | append_singleton ts t ih =>
      rw [LiveStats.of_append]
      exact kept_touch ih t

/-- The recent gaps are the last of all the gaps. -/
theorem LiveStats.recentGaps_of (ts : List Touch) :
    (LiveStats.of ts).recentGaps.buf
      = ((gaps ts).map Prod.fst).drop ((gaps ts).length - recentGapsCap) := by
  rw [(LiveStats.kept_of ts).recentGaps, (EvictRing.buf_pushAll _ _).1, List.length_map]
  rfl

/-! ### One provider -/

/-- The counters of the calls made to a provider, beside what its connection writes. -/
structure Accounting where
  historyFetches : Nat
  historyFetchCoalesced : Nat
  liveStarts : Nat
  subscribes : Nat
  unsubscribes : Nat
  messages : Nat
  gapsEmitted : Nat
  connection : ProviderAccounting
  deriving DecidableEq, Repr

/-- What moves a counter, or the connection's accounting. -/
inductive Tick
  | historyFetch
  | historyFetchCoalesced
  | liveStart
  | subscribe
  | unsubscribe
  /-- `record_forwarded`; `live` is false for a historical session and for the seed. -/
  | forwarded (ev : MarketEvent) (live : Bool)
  /-- `record_provider_control`. -/
  | providerControl (kind : ControlKind) (change : ConnectionChange)
  /-- `record_error`. -/
  | error (message : String)
  /-- `record_open_failure`. -/
  | openFailure (e : Error)
  deriving DecidableEq, Repr

namespace Accounting

def new : Accounting := ⟨0, 0, 0, 0, 0, 0, 0, .new⟩

/-- Fold one forwarded event into the throughput counters. -/
def recordForwarded (acc : Accounting) (ev : MarketEvent) (live : Bool) : Accounting :=
  match ev with
  | .trade _ | .quote _ | .bar _ => if live then { acc with messages := acc.messages + 1 } else acc
  | .control ⟨_, _, _, .gap _ _ _⟩ => { acc with gapsEmitted := acc.gapsEmitted + 1 }
  | _ => acc

def tick (acc : Accounting) : Tick → Accounting
  | .historyFetch => { acc with historyFetches := acc.historyFetches + 1 }
  | .historyFetchCoalesced => { acc with historyFetchCoalesced := acc.historyFetchCoalesced + 1 }
  | .liveStart => { acc with liveStarts := acc.liveStarts + 1 }
  | .subscribe => { acc with subscribes := acc.subscribes + 1 }
  | .unsubscribe => { acc with unsubscribes := acc.unsubscribes + 1 }
  | .forwarded ev live => acc.recordForwarded ev live
  | .providerControl kind change =>
      { acc with connection := acc.connection.recordProviderControl kind change }
  | .error message => { acc with connection := acc.connection.recordError message }
  | .openFailure e => { acc with connection := acc.connection.recordOpenFailure e }

def tickAll (acc : Accounting) (ts : List Tick) : Accounting := ts.foldl tick acc

end Accounting

/-- A data event forwarded by a live session. -/
def Tick.isMessage : Tick → Bool
  | .forwarded ev true => ev.isData
  | _ => false

/-- A gap forwarded by any session. -/
def Tick.isGap : Tick → Bool
  | .forwarded ev _ => ev.gapStamp.isSome
  | _ => false

/-- Each counter as a count of the ticks of a kind. -/
structure Counted (ts : List Tick) (acc : Accounting) : Prop where
  historyFetches : acc.historyFetches = ts.count .historyFetch
  historyFetchCoalesced : acc.historyFetchCoalesced = ts.count .historyFetchCoalesced
  liveStarts : acc.liveStarts = ts.count .liveStart
  subscribes : acc.subscribes = ts.count .subscribe
  unsubscribes : acc.unsubscribes = ts.count .unsubscribe
  messages : acc.messages = ts.countP Tick.isMessage
  gapsEmitted : acc.gapsEmitted = ts.countP Tick.isGap

theorem recordForwarded_eq (acc : Accounting) (ev : MarketEvent) (live : Bool) :
    acc.recordForwarded ev live =
      { acc with
        messages := acc.messages + (if Tick.isMessage (.forwarded ev live) then 1 else 0)
        gapsEmitted := acc.gapsEmitted + (if ev.gapStamp.isSome then 1 else 0) } := by
  cases ev with
  | control c => obtain ⟨_, _, _, kind⟩ := c; cases kind <;> cases live <;> rfl
  | _ => cases live <;> rfl

theorem counted_new : Counted [] .new := ⟨rfl, rfl, rfl, rfl, rfl, rfl, rfl⟩

/-- Every counter counts the ticks of its kind and no others. -/
theorem Counted.tick {ts : List Tick} {acc : Accounting} (h : Counted ts acc) (t : Tick) :
    Counted (ts ++ [t]) (acc.tick t) := by
  obtain ⟨hfetch, hcoal, hstart, hsub, hunsub, hmsg, hgap⟩ := h
  cases t with
  | forwarded ev live =>
      rw [Accounting.tick, recordForwarded_eq]
      cases hspan : ev.gapStamp.isSome <;>
        constructor <;> simp [List.countP_append, List.countP_cons, Tick.isGap, *]
  | _ => constructor <;> simp [Accounting.tick, List.countP_append, Tick.isMessage, Tick.isGap, *]

/-- What is written of the connection counts as nothing. -/
theorem Counted.providerControl {ts : List Tick} {acc : Accounting} (h : Counted ts acc)
    (kind : ControlKind) (change : ConnectionChange) :
    Counted ts (acc.tick (.providerControl kind change)) :=
  ⟨h.historyFetches, h.historyFetchCoalesced, h.liveStarts, h.subscribes, h.unsubscribes,
    h.messages, h.gapsEmitted⟩

end Health

end Datamancer
