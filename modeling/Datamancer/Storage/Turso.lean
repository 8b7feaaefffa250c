import Datamancer.Core.Traits
import Datamancer.Lib.KeyedTable
import Datamancer.Storage.Coverage

/-!
# Datamancer.Storage.Turso

The Turso-backed historical cache (`storage/turso.rs`): one event table per kind
under the primary key `(provider, symbol, adjustment, source_ts)`, and one
coverage table under `(provider, symbol, kind, adjustment)`.

Each statement of the source is one operation of `Lib.KeyedTable`. A `store` is
the delete, the inserts and the coverage upsert of one transaction; an error in
it rolls all of them back. A row keeps its columns as the storage engine does
(`INTEGER` is `i64`, so unsigned sizes are cast); the JSON of the segments column
is kept decoded.
-/

namespace Datamancer

/-! ### Errors -/

/-- `map_err`, of what the engine says. -/
def mapErr (err : String) : Error := .storage ("turso: " ++ err)

/-- The error of `execute_retry` for what is not a write conflict. -/
def executeErr (err : String) : Error := mapErr (err ++ " (after 0 busy retries)")

/-! ### Rows -/

structure TradeCols where
  priceRaw : Int64
  sizeRaw : Int64
  deriving DecidableEq, Repr

structure QuoteCols where
  bidRaw : Int64
  bidSizeRaw : Int64
  askRaw : Int64
  askSizeRaw : Int64
  deriving DecidableEq, Repr

structure BarCols where
  openRaw : Int64
  highRaw : Int64
  lowRaw : Int64
  closeRaw : Int64
  volumeRaw : Int64
  deriving DecidableEq, Repr

/-- The value columns of the table of a kind (`event_columns`). -/
abbrev EventCols : EventKind → Type
  | .trade => TradeCols
  | .quote => QuoteCols
  | .bar _ => BarCols

/-- A row of the event table of `kind`. -/
structure EventRow (kind : EventKind) where
  provider : String
  symbol : String
  adjustment : String
  sourceTs : Timestamp
  rxTs : Timestamp
  cols : EventCols kind

/-- `PRIMARY KEY (provider, symbol, adjustment, source_ts)`. -/
def EventRow.pk {kind : EventKind} (r : EventRow kind) :
    String × String × String × Timestamp :=
  (r.provider, r.symbol, r.adjustment, r.sourceTs)

/-- A row of the `coverage` table; `kind` is the token of the kind's table. -/
structure CoverageRow where
  provider : String
  symbol : String
  kind : String
  adjustment : String
  segments : List (Timestamp × Timestamp)
  eventCount : Int64
  assetClass : Option String
  deriving DecidableEq, Repr

/-- `PRIMARY KEY (provider, symbol, kind, adjustment)`. -/
def CoverageRow.pk (r : CoverageRow) : String × String × String × String :=
  (r.provider, r.symbol, r.kind, r.adjustment)

/-- The database of one cache. -/
structure TursoCache where
  events : (kind : EventKind) → KeyedTable (@EventRow.pk kind)
  coverage : KeyedTable CoverageRow.pk

namespace TursoCache

/-- A freshly created cache. -/
def empty : TursoCache := ⟨fun _ => .empty, .empty⟩

/-! ### Key columns -/

def tableFor : EventKind → String
  | .trade => "trades"
  | .quote => "quotes"
  | .bar .oneSecond => "bars_1s"
  | .bar .oneMinute => "bars_1m"
  | .bar .fiveMinute => "bars_5m"
  | .bar .fifteenMinute => "bars_15m"
  | .bar .oneHour => "bars_1h"
  | .bar .oneDay => "bars_1d"

/-- The inverse of `tableFor`; `none` for an unrecognized token. -/
def kindFor (table : String) : Option EventKind :=
  if table = "trades" then some .trade
  else if table = "quotes" then some .quote
  else if table = "bars_1s" then some (.bar .oneSecond)
  else if table = "bars_1m" then some (.bar .oneMinute)
  else if table = "bars_5m" then some (.bar .fiveMinute)
  else if table = "bars_15m" then some (.bar .fifteenMinute)
  else if table = "bars_1h" then some (.bar .oneHour)
  else if table = "bars_1d" then some (.bar .oneDay)
  else none

theorem kindFor_tableFor (kind : EventKind) : kindFor (tableFor kind) = some kind := by
  cases kind with
  | trade => decide
  | quote => decide
  | bar i => cases i <;> decide

theorem tableFor_injective : Function.Injective tableFor := fun a b h =>
  Option.some.inj (by rw [← kindFor_tableFor, h, kindFor_tableFor])

/-- `asset_class_tag`. -/
def assetClassTag : AssetClass → String
  | .equity => "equity"
  | .etf => "etf"
  | .crypto => "crypto"

/-- Trades and quotes are never adjusted: they store under `Raw` whatever the
key's mode; only bars segregate by mode. -/
def effectiveAdjustment (key : CacheKey) : Adjustment :=
  match key.kind with
  | .bar _ => key.adjustment
  | .trade | .quote => .raw

/-- `WHERE provider = ? AND symbol = ? AND adjustment = ? AND source_ts >= lo AND
source_ts < hi`. -/
def rowWhere (key : CacheKey) (lo hi : Timestamp) (r : EventRow key.kind) : Bool :=
  r.provider = key.instrument.provider ∧ r.symbol = key.instrument.symbol
    ∧ r.adjustment = (effectiveAdjustment key).asStr ∧ lo ≤ r.sourceTs ∧ r.sourceTs < hi

/-- The primary key of the row a key's stream holds at an instant. -/
def rowKey (key : CacheKey) (ts : Timestamp) : String × String × String × Timestamp :=
  (key.instrument.provider, key.instrument.symbol, (effectiveAdjustment key).asStr, ts)

/-- The primary key of a key's coverage row. -/
def coverageKey (key : CacheKey) : String × String × String × String :=
  (key.instrument.provider, key.instrument.symbol, tableFor key.kind,
    (effectiveAdjustment key).asStr)

/-! ### Queries -/

/-- The coverage document of a key, if any. -/
def loadCoverage (c : TursoCache) (key : CacheKey) : Option CoverageDoc :=
  (c.coverage.lookup (coverageKey key)).map fun row =>
    ⟨row.segments, row.eventCount.toUInt64, row.assetClass⟩

/-- Rows of a key in `[lo, hi)`. -/
def countEventsIn (c : TursoCache) (key : CacheKey) (lo hi : Timestamp) : UInt64 :=
  UInt64.ofNat ((c.events key.kind).count (rowWhere key lo hi))

def lookup (c : TursoCache) (key : CacheKey) : Option CacheCoverage := do
  let doc ← c.loadCoverage key
  let (lo, hi) ← doc.intersect key.fromTs key.toTs
  some ⟨lo, hi, c.countEventsIn key lo hi, none, none⟩

def gaps (c : TursoCache) (key : CacheKey) : List GapSpan :=
  (((c.loadCoverage key).getD .default).gapsWithin key.fromTs key.toTs).map fun g => ⟨g.1, g.2⟩

/-- Decode one row; `seq` has no column and comes back as `Seq(0)`. -/
def decodeRow (instrument : Instrument) : (kind : EventKind) → EventRow kind → MarketEvent
  | .trade, r => .trade
      { instrument, sourceTs := r.sourceTs, rxTs := r.rxTs, seq := ⟨0⟩, price := ⟨r.cols.priceRaw⟩
        size := ⟨r.cols.sizeRaw.toUInt64⟩ }
  | .quote, r => .quote
      { instrument, sourceTs := r.sourceTs, rxTs := r.rxTs, seq := ⟨0⟩, bid := ⟨r.cols.bidRaw⟩
        bidSize := ⟨r.cols.bidSizeRaw.toUInt64⟩, ask := ⟨r.cols.askRaw⟩
        askSize := ⟨r.cols.askSizeRaw.toUInt64⟩ }
  | .bar interval, r => .bar
      { instrument, interval, sourceTs := r.sourceTs, rxTs := r.rxTs, seq := ⟨0⟩
        «open» := ⟨r.cols.openRaw⟩, high := ⟨r.cols.highRaw⟩, low := ⟨r.cols.lowRaw⟩
        close := ⟨r.cols.closeRaw⟩, volume := ⟨r.cols.volumeRaw.toUInt64⟩ }

/-- `TursoCacheReplaySource::open`: the key's rows, narrowed by the request, in
`source_ts` order. -/
def replay (c : TursoCache) (key : CacheKey) (request : ReplayRequest) : List MarketEvent :=
  let lo := max request.fromTs key.fromTs
  let hi := min request.toTs key.toTs
  let instrumentMatches := request.instruments = [] ∨ key.instrument ∈ request.instruments
  if ¬ instrumentMatches ∨ (request.kinds ≠ [] ∧ key.kind ∉ request.kinds) ∨ hi ≤ lo then []
  else
    ((c.events key.kind).selectOrdered (rowWhere key lo hi) EventRow.sourceTs).map
      (decodeRow key.instrument key.kind)

/-! ### Store -/

/-- The row an event of a batch is inserted as, with its table; `none` for events
that are skipped. A bar goes to the table of the key's kind, which only has the
bar columns when that kind is a bar. -/
def encodeRow (key : CacheKey) : MarketEvent → Except Error (Option (Σ kind, EventRow kind))
  | .trade t => .ok (some ⟨.trade, key.instrument.provider, key.instrument.symbol,
      (effectiveAdjustment key).asStr, t.sourceTs, t.rxTs, ⟨t.price.raw, t.size.raw.toInt64⟩⟩)
  | .quote q => .ok (some ⟨.quote, key.instrument.provider, key.instrument.symbol,
      (effectiveAdjustment key).asStr, q.sourceTs, q.rxTs,
      ⟨q.bid.raw, q.bidSize.raw.toInt64, q.ask.raw, q.askSize.raw.toInt64⟩⟩)
  | .bar b =>
      match key.kind with
      | .bar interval => .ok (some ⟨.bar interval, key.instrument.provider, key.instrument.symbol,
          (effectiveAdjustment key).asStr, b.sourceTs, b.rxTs,
          ⟨b.open.raw, b.high.raw, b.low.raw, b.close.raw, b.volume.raw.toInt64⟩⟩)
      | kind => .error (executeErr ("table " ++ tableFor kind ++ " has no column named open_raw"))
  | .control _ => .ok none

def insertRow (c : TursoCache) (r : Σ kind, EventRow kind) : TursoCache :=
  { c with events := Function.update c.events r.1 ((c.events r.1).insertOrReplace r.2) }

def insertEvent (key : CacheKey) (c : TursoCache) (ev : MarketEvent) : Except Error TursoCache :=
  (encodeRow key ev).map fun
    | some r => c.insertRow r
    | none => c

/-- `DELETE` of the claimed range. -/
def deleteRange (c : TursoCache) (key : CacheKey) : TursoCache :=
  { c with
    events := Function.update c.events key.kind
      ((c.events key.kind).deleteWhere (rowWhere key key.fromTs key.toTs)) }

/-- Merge the key's range into its coverage document, recount the rows under the
merged segments, and upsert the document. -/
def claimRange (c : TursoCache) (key : CacheKey) : TursoCache :=
  let doc := ((c.loadCoverage key).getD .default).mergeIn key.fromTs key.toTs 0
  let total := doc.segments.foldl
    (fun total s => saturatingAdd total (c.countEventsIn key s.1 s.2)) 0
  { c with
    coverage := c.coverage.insertOrReplace
      { provider := key.instrument.provider, symbol := key.instrument.symbol
        kind := tableFor key.kind, adjustment := (effectiveAdjustment key).asStr
        segments := doc.segments, eventCount := total.toInt64
        assetClass := some (assetClassTag key.instrument.assetClass) } }

/-- The body of `store`, inside the write transaction. -/
def storeInTx (c : TursoCache) (key : CacheKey) (events : List MarketEvent) :
    Except Error TursoCache :=
  (events.foldlM (insertEvent key) (c.deleteRange key)).map fun c => c.claimRange key

/-- `store`: commit, or roll back and report the error. -/
def store (c : TursoCache) (key : CacheKey) (events : List MarketEvent) :
    Except Error Unit × TursoCache :=
  match c.storeInTx key events with
  | .ok c' => (.ok (), c')
  | .error e => (.error e, c)

end TursoCache

instance : HistoricalCache TursoCache where
  lookup c key := .ok (c.lookup key)
  gaps c key := .ok (c.gaps key)
  store := TursoCache.store
  «open» c key request := .ok (c.replay key request)

end Datamancer
