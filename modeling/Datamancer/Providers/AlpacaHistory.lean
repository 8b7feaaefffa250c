import Datamancer.Core.Traits

/-!
# Datamancer.Providers.AlpacaHistory

The historical side of the Alpaca provider (`providers/alpaca.rs`): the REST
requests of one window, the mapping of the answered records to events, and
`fetch_history`.

The REST client is a package of its own and stands as a parameter: one function per
endpoint, from the request it is built with to its answer.
-/

namespace Datamancer

/-- `Price::from_f64_round`. -/
def Price.fromF64Round (value : Float) : Price := ⟨(value * 1000000000.0).round.toInt64⟩

/-- `Quantity::from_units`: saturating at the largest internal unit. -/
def Quantity.fromUnits (units : UInt64) : Quantity := ⟨UInt64.ofNatClamp (units.toNat * 1000000000)⟩

namespace Alpaca

def providerId : String := "alpaca"

/-! ### Times -/

/-- A `DateTime<Utc>`, in nanoseconds since the Unix epoch. -/
structure DateTime where
  nanos : Int
  deriving DecidableEq

/-- Whether the nanoseconds fit an `i64`. -/
def DateTime.Fits (dt : DateTime) : Prop := -2 ^ 63 ≤ dt.nanos ∧ dt.nanos < 2 ^ 63

instance (dt : DateTime) : Decidable dt.Fits := inferInstanceAs (Decidable (_ ∧ _))

/-- `chrono_to_ts`; a time that does not fit is the epoch. -/
def chronoToTs (dt : DateTime) : Timestamp := if dt.Fits then ⟨Int64.ofInt dt.nanos⟩ else ⟨0⟩

def tsToChrono (ts : Timestamp) : DateTime := ⟨ts.toInt⟩

/-! ### The REST client -/

inductive RestFeed
  | iex
  | sip
  | delayedSip
  deriving DecidableEq

inductive AlpacaStreamFeed
  | iex
  | sip
  | delayedSip
  | test
  deriving DecidableEq

inductive AlpacaHistoryFeed
  | iex
  | sip
  deriving DecidableEq

/-- The feed of a historical fetch: the explicit setting, else what the stream feed
implies. -/
def historyFeed : Option AlpacaHistoryFeed → AlpacaStreamFeed → RestFeed
  | some .iex, _ => .iex
  | some .sip, _ => .sip
  | none, .sip => .sip
  | none, _ => .iex

inductive AlpacaAdjustment
  | raw
  | split
  | dividend
  | spinOff
  | all
  deriving DecidableEq

def mapAdjustment : Adjustment → AlpacaAdjustment
  | .raw => .raw
  | .split => .split
  | .dividend => .dividend
  | .spinOff => .spinOff
  | .all => .all

inductive TimeFrame
  | oneMinute
  | fiveMinutes
  | fifteenMinutes
  | oneHour
  | oneDay
  deriving DecidableEq

structure StockTrade where
  timestamp : DateTime
  price : Float
  size : UInt32

structure StockQuote where
  timestamp : DateTime
  bidPrice : Float
  bidSize : UInt32
  askPrice : Float
  askSize : UInt32

structure StockBar where
  time : DateTime
  «open» : Float
  high : Float
  low : Float
  close : Float
  volume : UInt64

/-- A trades or quotes request. -/
structure StockTicksRequest where
  symbol : String
  start : DateTime
  «end» : DateTime
  feed : RestFeed
  deriving DecidableEq

structure StockBarsRequest where
  symbol : String
  timeframe : TimeFrame
  start : DateTime
  «end» : DateTime
  adjustment : AlpacaAdjustment
  feed : RestFeed
  deriving DecidableEq

/-- The endpoints, each with the rendering of the error it may answer with. -/
structure MarketDataClient where
  stockTrades : StockTicksRequest → Except String (List StockTrade)
  stockQuotes : StockTicksRequest → Except String (List StockQuote)
  stockBars : StockBarsRequest → Except String (List StockBar)

/-! ### The fetch -/

def tradesRequest (symbol : String) (start stop : DateTime) (feed : RestFeed) :
    StockTicksRequest := ⟨symbol, start, stop, feed⟩

def quotesRequest (symbol : String) (start stop : DateTime) (feed : RestFeed) :
    StockTicksRequest := ⟨symbol, start, stop, feed⟩

def barsRequest (symbol : String) (timeframe : TimeFrame) (start stop : DateTime)
    (adjustment : AlpacaAdjustment) (feed : RestFeed) : StockBarsRequest :=
  ⟨symbol, timeframe, start, stop, adjustment, feed⟩

/-- The timeframe of a bar interval; there is no endpoint for one-second bars. -/
def timeframe : BarInterval → Option TimeFrame
  | .oneSecond => none
  | .oneMinute => some .oneMinute
  | .fiveMinute => some .fiveMinutes
  | .fifteenMinute => some .fifteenMinutes
  | .oneHour => some .oneHour
  | .oneDay => some .oneDay

def restTradeToTrade (t : StockTrade) (instrument : Instrument) (rx : Timestamp) : Trade where
  instrument := instrument
  sourceTs := chronoToTs t.timestamp
  rxTs := rx
  seq := ⟨0⟩
  price := .fromF64Round t.price
  size := .fromUnits t.size.toUInt64

def restQuoteToQuote (q : StockQuote) (instrument : Instrument) (rx : Timestamp) : Quote where
  instrument := instrument
  sourceTs := chronoToTs q.timestamp
  rxTs := rx
  seq := ⟨0⟩
  bid := .fromF64Round q.bidPrice
  bidSize := .fromUnits q.bidSize.toUInt64
  ask := .fromF64Round q.askPrice
  askSize := .fromUnits q.askSize.toUInt64

def restBarToBar (b : StockBar) (instrument : Instrument) (interval : BarInterval)
    (rx : Timestamp) : Bar where
  instrument := instrument
  interval := interval
  sourceTs := chronoToTs b.time
  rxTs := rx
  seq := ⟨0⟩
  «open» := .fromF64Round b.open
  high := .fromF64Round b.high
  low := .fromF64Round b.low
  close := .fromF64Round b.close
  volume := .fromUnits b.volume

/-- Send the answered records one by one, or map the endpoint's error. -/
def sendAll {R : Type} (endpoint : String) (toEvent : R → MarketEvent) :
    Except String (List R) → FetchRun
  | .ok records => ⟨records.map toEvent, .ok⟩
  | .error e => ⟨[], .err (.provider providerId (endpoint ++ ": " ++ e))⟩

/-- `fetch_history_via`; `rx` is the wall clock when it starts. -/
def fetchHistoryVia (rest : MarketDataClient) (feed : RestFeed) (rx : Timestamp)
    (request : HistoryRequest) : FetchRun :=
  let symbol := request.instrument.symbol
  let start := tsToChrono request.fromTs
  let stop := tsToChrono request.toTs
  match request.kind with
  | .trade =>
      sendAll "stock_trades" (fun t => .trade (restTradeToTrade t request.instrument rx))
        (rest.stockTrades (tradesRequest symbol start stop feed))
  | .quote =>
      sendAll "stock_quotes" (fun q => .quote (restQuoteToQuote q request.instrument rx))
        (rest.stockQuotes (quotesRequest symbol start stop feed))
  | .bar interval =>
      match timeframe interval with
      | none =>
          ⟨[], .err (.unsupportedEventKind (.bar interval) request.instrument .history)⟩
      | some timeframe =>
          sendAll "stock_bars" (fun b => .bar (restBarToBar b request.instrument interval rx))
            (rest.stockBars (barsRequest symbol timeframe start stop
              (mapAdjustment request.adjustment) feed))

/-- `fetch_history`: without credentials there is no REST client. -/
def fetchHistory (rest : Option MarketDataClient) (explicit : Option AlpacaHistoryFeed)
    (streamFeed : AlpacaStreamFeed) (rx : Timestamp) (request : HistoryRequest) : FetchRun :=
  match rest with
  | none => ⟨[], .err (.provider providerId
      "REST client not initialized (Alpaca credentials missing?)")⟩
  | some rest => fetchHistoryVia rest (historyFeed explicit streamFeed) rx request

/-- The provider of a session; `rx n` is the wall clock at its `n`-th fetch. -/
def provider (rest : Option MarketDataClient) (explicit : Option AlpacaHistoryFeed)
    (streamFeed : AlpacaStreamFeed) (rx : Nat → Timestamp) : Provider :=
  ⟨providerId, fun n request => fetchHistory rest explicit streamFeed (rx n) request⟩

/-! ### Records, whatever their kind -/

/-- What the endpoint of a kind answers with. -/
abbrev Record : EventKind → Type
  | .trade => StockTrade
  | .quote => StockQuote
  | .bar _ => StockBar

def Record.time : {kind : EventKind} → Record kind → DateTime
  | .trade, t => StockTrade.timestamp t
  | .quote, q => StockQuote.timestamp q
  | .bar _, b => StockBar.time b

/-- The event a record is sent as. -/
def Record.toEvent (instrument : Instrument) (rx : Timestamp) :
    {kind : EventKind} → Record kind → MarketEvent
  | .trade, t => .trade (restTradeToTrade t instrument rx)
  | .quote, q => .quote (restQuoteToQuote q instrument rx)
  | .bar interval, b => .bar (restBarToBar b instrument interval rx)

/-- The answer to the request of one window; `none` where there is no endpoint. -/
def answer (rest : MarketDataClient) (feed : RestFeed) (symbol : String)
    (adjustment : Adjustment) :
    (kind : EventKind) → DateTime → DateTime → Option (Except String (List (Record kind)))
  | .trade, start, stop => some (rest.stockTrades (tradesRequest symbol start stop feed))
  | .quote, start, stop => some (rest.stockQuotes (quotesRequest symbol start stop feed))
  | .bar interval, start, stop => (timeframe interval).map fun timeframe =>
      rest.stockBars (barsRequest symbol timeframe start stop (mapAdjustment adjustment) feed)

variable {instrument : Instrument} {kind : EventKind} {rx : Timestamp}

@[simp] theorem Record.sourceTs_toEvent (r : Record kind) :
    (r.toEvent instrument rx).sourceTs = chronoToTs r.time := by
  cases kind <;> rfl

@[simp] theorem Record.routeKey_toEvent (r : Record kind) :
    (r.toEvent instrument rx).routeKey = some (instrument, kind) := by
  cases kind <;> rfl

/-- A fetch sends what its window is answered with, record by record. -/
theorem fetchHistoryVia_of_answer {rest : MarketDataClient} {feed : RestFeed}
    {request : HistoryRequest} {records : List (Record request.kind)}
    (h : answer rest feed request.instrument.symbol request.adjustment request.kind
      (tsToChrono request.fromTs) (tsToChrono request.toTs) = some (.ok records)) :
    fetchHistoryVia rest feed rx request
      = ⟨records.map (Record.toEvent request.instrument rx), .ok⟩ := by
  obtain ⟨instrument, kind, f, t, adjustment⟩ := request
  cases kind with
  | trade =>
      unfold fetchHistoryVia
      dsimp only
      rw [show rest.stockTrades _ = .ok records from Option.some.inj h]
      rfl
  | quote =>
      unfold fetchHistoryVia
      dsimp only
      rw [show rest.stockQuotes _ = .ok records from Option.some.inj h]
      rfl
  | bar interval =>
      obtain ⟨tf, htf, hrest⟩ := Option.map_eq_some_iff.mp h
      unfold fetchHistoryVia
      dsimp only
      rw [htf]
      dsimp only
      rw [hrest]
      rfl

/-! ### Times that fit -/

theorem toInt_chronoToTs {dt : DateTime} (h : dt.Fits) : (chronoToTs dt).toInt = dt.nanos := by
  rw [chronoToTs, if_pos h]
  exact Int64.toInt_ofInt_of_le h.1 h.2

/-- A time between two timestamps fits. -/
theorem DateTime.fits_of_mem {dt : DateTime} {f t : Timestamp} (hf : f.toInt ≤ dt.nanos)
    (ht : dt.nanos ≤ t.toInt) : dt.Fits :=
  ⟨f.le_toInt.trans hf, ht.trans_lt t.toInt_lt⟩

end Alpaca

end Datamancer
