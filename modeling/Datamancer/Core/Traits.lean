import Datamancer.Core.Error

/-!
# Datamancer.Core.Traits

The persistence and history surfaces the session layer is written against: a
keyed store of historical fetches, the request a provider serves, and what a
spawned fetch can come to.
-/

namespace Datamancer

/-! ### The historical cache -/

/-- Identifies one cached range. -/
structure CacheKey where
  instrument : Instrument
  kind : EventKind
  fromTs : Timestamp
  toTs : Timestamp
  adjustment : Adjustment
  deriving DecidableEq, Repr

/-- What a cache reports about a cached range. -/
structure CacheCoverage where
  fromTs : Timestamp
  toTs : Timestamp
  eventCount : UInt64
  firstSeq : Option Seq
  lastSeq : Option Seq
  deriving DecidableEq, Repr

/-- Parameters of `ReplaySource::open`; an empty list selects everything. -/
structure ReplayRequest where
  instruments : List Instrument
  kinds : List EventKind
  fromTs : Timestamp
  toTs : Timestamp
  deriving DecidableEq, Repr

/-- A store of historical fetches with state `σ`. `open` stands for
`as_replay_source(key).open(request)` and yields the whole stream. -/
class HistoricalCache (σ : Type) where
  lookup : σ → CacheKey → Except Error (Option CacheCoverage)
  gaps : σ → CacheKey → Except Error (List GapSpan)
  store : σ → CacheKey → List MarketEvent → Except Error Unit × σ
  «open» : σ → CacheKey → ReplayRequest → Except Error (List MarketEvent)

/-! ### Providers -/

/-- Bounded request a provider's `fetch_history` serves. -/
structure HistoryRequest where
  instrument : Instrument
  kind : EventKind
  fromTs : Timestamp
  toTs : Timestamp
  adjustment : Adjustment
  deriving DecidableEq, Repr

/-- How joining the spawned fetch task ends. -/
inductive FetchJoin
  | ok
  | err (e : Error)
  | cancelled
  | panicked (message : String)
  deriving DecidableEq, Repr

/-- One fetch: the events pushed into the sink, in order, and how the task ends. -/
structure FetchRun where
  sent : List MarketEvent
  joined : FetchJoin
  deriving DecidableEq, Repr

/-- The provider as the session layer uses it. A provider may answer one request
differently each time, so a fetch also gets the number of fetches before it. -/
structure Provider where
  id : String
  fetchHistory : Nat → HistoryRequest → FetchRun

end Datamancer
