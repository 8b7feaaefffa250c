import Datamancer.Providers.AlpacaHub

/-!
# Datamancer.Providers.AlpacaStream

The streamed messages of the Alpaca stock provider, their translation to events, and the hub
together with the service behind its socket. The service is not part of the repository:
it is a parameter, with what its documentation says of the two requests the hub makes.
-/

namespace Datamancer

/-- `Quantity::from_f64_round`: what is not finite is zero, the rest saturates. -/
def Quantity.fromF64Round (value : Float) : Quantity :=
  if value.isFinite then ⟨(value * 1000000000.0).round.toUInt64⟩ else ⟨0⟩

namespace Alpaca

/-! ### Messages -/

structure StockTradeEvent where
  symbol : String
  timestamp : DateTime
  price : Float
  size : Float

structure StockQuoteEvent where
  symbol : String
  timestamp : DateTime
  bidPrice : Float
  bidSize : Float
  askPrice : Float
  askSize : Float

/-- A streamed bar (`StockBar` of the streaming API). -/
structure StockBarEvent where
  symbol : String
  timestamp : DateTime
  «open» : Float
  high : Float
  low : Float
  close : Float
  volume : Int64

inductive StockStreamMessage
  | trade (t : StockTradeEvent)
  | quote (q : StockQuoteEvent)
  | bar (b : StockBarEvent)
  | dailyBar (b : StockBarEvent)
  | updatedBar (b : StockBarEvent)
  /-- The code is as it is printed for debugging. -/
  | error (code message : String)
  /-- Control envelopes, confirmations and the auxiliary variants. -/
  | other

/-- The symbol and kind a message of the stream is of. -/
def StockStreamMessage.topic : StockStreamMessage → Option (String × EventKind)
  | trade t => some (t.symbol, .trade)
  | quote q => some (q.symbol, .quote)
  | bar b | updatedBar b => some (b.symbol, .bar .oneMinute)
  | dailyBar b => some (b.symbol, .bar .oneDay)
  | error _ _ | other => none

/-! ### Translation -/

/-- The decoder sees no more of an instrument than its symbol. -/
def providerInstrument (symbol : String) : Instrument := ⟨providerId, .equity, symbol⟩

def translateTrade (t : StockTradeEvent) (rx : Timestamp) : Trade where
  instrument := providerInstrument t.symbol
  sourceTs := chronoToTs t.timestamp
  rxTs := rx
  seq := ⟨0⟩
  price := .fromF64Round t.price
  size := .fromF64Round t.size

def translateQuote (q : StockQuoteEvent) (rx : Timestamp) : Quote where
  instrument := providerInstrument q.symbol
  sourceTs := chronoToTs q.timestamp
  rxTs := rx
  seq := ⟨0⟩
  bid := .fromF64Round q.bidPrice
  bidSize := .fromF64Round q.bidSize
  ask := .fromF64Round q.askPrice
  askSize := .fromF64Round q.askSize

def translateBar (b : StockBarEvent) (interval : BarInterval) (rx : Timestamp) : Bar where
  instrument := providerInstrument b.symbol
  interval := interval
  sourceTs := chronoToTs b.timestamp
  rxTs := rx
  seq := ⟨0⟩
  «open» := .fromF64Round b.open
  high := .fromF64Round b.high
  low := .fromF64Round b.low
  close := .fromF64Round b.close
  volume := .fromUnits (max b.volume 0).toUInt64

/-- `rx` is the wall clock when the message is taken. -/
def translateStockMessage (msg : StockStreamMessage) (rx : Timestamp) : List MarketEvent :=
  match msg with
  | .trade t => [.trade (translateTrade t rx)]
  | .quote q => [.quote (translateQuote q rx)]
  | .bar b => [.bar (translateBar b .oneMinute rx)]
  | .dailyBar b => [.bar (translateBar b .oneDay rx)]
  | .updatedBar b => [.bar (translateBar b .oneMinute rx)]
  | .error code message =>
      [.control ⟨rx, rx, ⟨0⟩, .providerError providerId (code ++ ": " ++ message)⟩]
  | .other => []

/-- A message about a symbol and kind is one event, of the instrument the provider makes
of the symbol. -/
theorem translateStockMessage_of_topic {msg : StockStreamMessage} {symbol : String}
    {kind : EventKind} (h : msg.topic = some (symbol, kind)) (rx : Timestamp) :
    ∃ ev, translateStockMessage msg rx = [ev]
      ∧ ev.routeKey = some (providerInstrument symbol, kind) := by
  cases msg with
  | error code message => cases h
  | other => cases h
  | _ =>
      cases h
      exact ⟨_, rfl, rfl⟩

/-- There are messages about every pair the provider streams. -/
theorem exists_topic {p : Pair} (h : Streamed p.2) :
    ∃ msg : StockStreamMessage, msg.topic = some (p.1.symbol, p.2) := by
  obtain ⟨i, kind⟩ := p
  rcases kind with _ | _ | (_ | _ | _ | _ | _ | _)
  · exact ⟨.trade ⟨i.symbol, ⟨0⟩, 0, 0⟩, rfl⟩
  · exact ⟨.quote ⟨i.symbol, ⟨0⟩, 0, 0, 0, 0⟩, rfl⟩
  · exact h.elim
  · exact ⟨.bar ⟨i.symbol, ⟨0⟩, 0, 0, 0, 0, 0⟩, rfl⟩
  · exact h.elim
  · exact h.elim
  · exact h.elim
  · exact ⟨.dailyBar ⟨i.symbol, ⟨0⟩, 0, 0, 0, 0, 0⟩, rfl⟩

/-! ### The service -/

/-- What is behind a socket of the stream: the state the service keeps for it, the two
requests of the hub, and what it streams in which state. -/
structure Service where
  Socket : Type
  fresh : Socket
  addSubscriptions : Socket → StockSubscriptionList → Socket
  removeSubscriptions : Socket → StockSubscriptionList → Socket
  streams : Socket → String → EventKind → Prop

/-- The list names the symbol for the kind. -/
def StockSubscriptionList.Lists (list : StockSubscriptionList) (symbol : String)
    (kind : EventKind) : Prop := symbol ∈ (fieldOf list kind).getD []

/-- As the service documents it: a fresh socket streams nothing, a subscription adds what
its list names and keeps the rest, and an unsubscription ends what its list names. -/
structure Service.Documented (S : Service) : Prop where
  fresh : ∀ symbol kind, ¬ S.streams S.fresh symbol kind
  add : ∀ socket list symbol kind, S.streams (S.addSubscriptions socket list) symbol kind ↔
    S.streams socket symbol kind ∨ list.Lists symbol kind
  remove : ∀ socket list symbol kind, S.streams (S.removeSubscriptions socket list) symbol kind ↔
    S.streams socket symbol kind ∧ ¬ list.Lists symbol kind

/-- The hub and its current socket. -/
structure Streaming (S : Service) where
  hub : Hub
  socket : S.Socket

namespace Streaming

variable {S : Service}

def init (S : Service) : Streaming S := ⟨.init, S.fresh⟩

/-- The socket after an action of the hub. A request that fails has changed nothing. -/
def socketAfter (st : Streaming S) (act : HubAction) : S.Socket :=
  match act, st.hub.task with
  | .connected _ (.ok ()), _ =>
      if st.hub.subs.isEmpty then S.fresh else S.addSubscriptions S.fresh st.hub.subs
  | .connected _ (.error _), _ => S.fresh
  | .answer (.ok ()), .asking (.subscribe _ _) => S.addSubscriptions st.socket st.hub.subs
  | .answer (.ok ()), .asking (.unsubscribe _ p) =>
      S.removeSubscriptions st.socket (applyPairToList .new p true)
  | .lost _ _ _, _ => S.fresh
  | _, _ => st.socket

def step (S : Service) (cap : Nat) (st : Streaming S) (act : HubAction) : Option (Streaming S) :=
  (st.hub.step .stock cap act).map fun hub => ⟨hub, st.socketAfter act⟩

/-- The pair has a route and the service streams its symbol and kind. -/
def Live (st : Streaming S) (p : Pair) : Prop :=
  p ∈ st.hub.routes ∧ S.streams st.socket p.1.symbol p.2

end Streaming

end Alpaca

end Datamancer
