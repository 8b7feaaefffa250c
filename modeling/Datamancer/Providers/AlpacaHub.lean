import Mathlib.Data.List.AList
import Datamancer.Live.Registry
import Datamancer.Providers.AlpacaHistory

/-!
# Datamancer.Providers.AlpacaHub

The streaming hub of an Alpaca provider (`run_hub_task`, one for stocks and one for crypto)
with the handles of the sessions it serves (`SharedLiveHandle`) and the provider channel of
each. The hub is one task: it takes a command or a message, waits for the upstream's answer,
sends, replies, and only then looks at the next. Each of these waits ends an action here.

A session's number stands for its sink and for the other end of its acknowledgements. The
clock readings that controls are stamped with are left out of what the hub delivers.
-/

namespace Datamancer

namespace Alpaca

/-! ### Capabilities -/

def supports (instrument : Instrument) (kind : EventKind) (surface : Surface) : Bool :=
  if instrument.assetClass = .equity ∨ instrument.assetClass = .etf then
    match surface, kind with
    | .live, .trade | .live, .quote | .live, .bar .oneMinute | .live, .bar .oneDay => true
    | .live, .bar _ => false
    | .history, .bar .oneSecond => false
    | .history, _ => true
  else false

/-- `AlpacaCryptoProvider::supports`; there is no historical surface. -/
def cryptoSupports (instrument : Instrument) (kind : EventKind) (surface : Surface) : Bool :=
  if instrument.assetClass = .crypto then
    match surface, kind with
    | .live, .trade | .live, .quote | .live, .bar .oneMinute | .live, .bar .oneDay => true
    | .live, .bar _ => false
    | .history, _ => false
  else false

/-- The two providers. Their hubs are one program but for the id and the capabilities. -/
inductive Market
  | stock
  | crypto
  deriving DecidableEq

namespace Market

def providerId : Market → String
  | stock => Alpaca.providerId
  | crypto => "alpaca-crypto"

def supports : Market → Instrument → EventKind → Surface → Bool
  | stock => Alpaca.supports
  | crypto => cryptoSupports

end Market

/-- The kinds the websockets stream. -/
def Streamed : EventKind → Prop
  | .trade | .quote | .bar .oneMinute | .bar .oneDay => True
  | .bar _ => False

theorem streamed_of_supports {m : Market} {i : Instrument} {kind : EventKind}
    (h : m.supports i kind .live) : Streamed kind := by
  cases m <;> rcases kind with _ | _ | (_ | _ | _ | _ | _ | _) <;>
    first | trivial | simp [Market.supports, supports, cryptoSupports] at h

/-! ### The aggregate subscription set -/

/-- The crypto list has two fields more, which nothing sets. -/
structure StockSubscriptionList where
  trades : Option (List String)
  quotes : Option (List String)
  bars : Option (List String)
  dailyBars : Option (List String)
  deriving DecidableEq, Repr

namespace StockSubscriptionList

def new : StockSubscriptionList := ⟨none, none, none, none⟩

/-- `is_empty`. -/
def isEmpty (list : StockSubscriptionList) : Bool :=
  (list.bars.getD []).isEmpty && (list.dailyBars.getD []).isEmpty &&
    (list.quotes.getD []).isEmpty && (list.trades.getD []).isEmpty

end StockSubscriptionList

def mutateField (field : Option (List String)) (symbol : String) (add : Bool) :
    Option (List String) :=
  let list := field.getD []
  let list :=
    if add then if symbol ∈ list then list else list ++ [symbol]
    else list.filter (· ≠ symbol)
  if list = [] then none else some list

/-- The set is by symbol: the rest of the instrument plays no part. -/
def applyPairToList (list : StockSubscriptionList) (p : Pair) (add : Bool) :
    StockSubscriptionList :=
  let symbol := p.1.symbol
  match p.2 with
  | .trade => { list with trades := mutateField list.trades symbol add }
  | .quote => { list with quotes := mutateField list.quotes symbol add }
  | .bar .oneMinute => { list with bars := mutateField list.bars symbol add }
  | .bar .oneDay => { list with dailyBars := mutateField list.dailyBars symbol add }
  | .bar _ => list

/-- The field of the set that a kind is streamed by. -/
def fieldOf (list : StockSubscriptionList) : EventKind → Option (List String)
  | .trade => list.trades
  | .quote => list.quotes
  | .bar .oneMinute => list.bars
  | .bar .oneDay => list.dailyBars
  | .bar _ => none

/-- The pair is in the set. -/
def Subscribes (list : StockSubscriptionList) (p : Pair) : Prop :=
  p.1.symbol ∈ (fieldOf list p.2).getD []

instance (list : StockSubscriptionList) (p : Pair) : Decidable (Subscribes list p) :=
  inferInstanceAs (Decidable (_ ∈ _))

/-- The pairs are one to the upstream: an equity and a fund of one symbol are. -/
def SameTopic (p q : Pair) : Prop := p.1.symbol = q.1.symbol ∧ p.2 = q.2

theorem mem_mutateField_add {field : Option (List String)} {symbol other : String} :
    other ∈ (mutateField field symbol true).getD [] ↔
      other ∈ field.getD [] ∨ other = symbol := by
  simp only [mutateField, if_true]
  split_ifs <;> simp_all

theorem mem_mutateField_remove {field : Option (List String)} {symbol other : String} :
    other ∈ (mutateField field symbol false).getD [] ↔
      other ∈ field.getD [] ∧ other ≠ symbol := by
  simp only [mutateField, Bool.false_eq_true, if_false]
  split_ifs with h
  · have hall : ∀ a ∈ field.getD [], a = symbol := by simpa using h
    simpa using hall other
  · simp

/-- Another kind's field is left alone. -/
theorem fieldOf_applyPairToList_of_ne {list : StockSubscriptionList} {q : Pair} {add : Bool}
    {kind : EventKind} (h : kind ≠ q.2) :
    fieldOf (applyPairToList list q add) kind = fieldOf list kind := by
  obtain ⟨i, k⟩ := q
  rcases k with _ | _ | (_ | _ | _ | _ | _ | _) <;>
    rcases kind with _ | _ | (_ | _ | _ | _ | _ | _) <;>
      first | rfl | exact absurd rfl h

theorem fieldOf_applyPairToList {list : StockSubscriptionList} {q : Pair} {add : Bool}
    (h : Streamed q.2) :
    fieldOf (applyPairToList list q add) q.2 = mutateField (fieldOf list q.2) q.1.symbol add := by
  obtain ⟨i, k⟩ := q
  rcases k with _ | _ | (_ | _ | _ | _ | _ | _) <;> first | rfl | exact h.elim

theorem subscribes_add {list : StockSubscriptionList} {p q : Pair}
    (hq : Streamed q.2) :
    Subscribes (applyPairToList list q true) p ↔ Subscribes list p ∨ SameTopic p q := by
  by_cases hkind : p.2 = q.2
  · rw [Subscribes, hkind, fieldOf_applyPairToList hq, mem_mutateField_add, Subscribes, hkind]
    simp [SameTopic, hkind]
  · rw [Subscribes, fieldOf_applyPairToList_of_ne hkind]
    simp [Subscribes, SameTopic, hkind]

theorem subscribes_remove {list : StockSubscriptionList} {p q : Pair}
    (hq : Streamed q.2) :
    Subscribes (applyPairToList list q false) p ↔ Subscribes list p ∧ ¬ SameTopic p q := by
  by_cases hkind : p.2 = q.2
  · rw [Subscribes, hkind, fieldOf_applyPairToList hq, mem_mutateField_remove, Subscribes, hkind]
    simp [SameTopic, hkind]
  · rw [Subscribes, fieldOf_applyPairToList_of_ne hkind]
    simp [Subscribes, SameTopic, hkind]

/-! ### Commands and handles -/

/-- `HubCommand`; the session is its sink and its acknowledgement. -/
inductive HubCommand
  | subscribe (s : SessionId) (p : Pair)
  | unsubscribe (s : SessionId) (p : Pair)
  deriving DecidableEq

namespace HubCommand

def session : HubCommand → SessionId
  | subscribe s _ => s
  | unsubscribe s _ => s

def pair : HubCommand → Pair
  | subscribe _ p => p
  | unsubscribe _ p => p

end HubCommand

/-- Where the `SharedLiveHandle` of a session is. -/
inductive HandleState
  | fresh
  /-- `Subscribe` sent, the answer awaited. -/
  | subscribing (p : Pair)
  /-- `subscribe` has returned `Ok`. -/
  | subscribed (p : Pair)
  /-- `subscribe` has returned an error. -/
  | failed (e : Error)
  /-- `Unsubscribe` sent, the answer awaited. -/
  | unsubscribing (p : Pair)
  /-- `unsubscribe` has returned, with what is left in `subscribed`. -/
  | unsubscribed (slot : Option Pair)
  /-- `close` has sent `Unsubscribe` and awaits the answer. -/
  | closing (p : Pair)
  | closed
  deriving DecidableEq

namespace HandleState

/-- The handle once its command is answered. -/
def answered : HandleState → Except Error Unit → HandleState
  | subscribing p, .ok () => subscribed p
  | subscribing _, .error e => failed e
  | unsubscribing _, .ok () => unsubscribed none
  | unsubscribing p, .error _ => unsubscribed (some p)
  | closing _, _ => closed
  | st, _ => st

/-- The command a handle awaits the answer of. -/
def command (s : SessionId) : HandleState → Option HubCommand
  | subscribing p => some (.subscribe s p)
  | unsubscribing p | closing p => some (.unsubscribe s p)
  | _ => none

end HandleState

/-! ### The hub -/

/-- What the hub sends to a sink: a translated event, or a control made on the spot. -/
inductive Delivery
  | event (ev : MarketEvent)
  | control (kind : ControlKind)
  deriving DecidableEq

/-- What the hub does once it has sent everything. -/
inductive Next
  | reply (c : HubCommand) (res : Except Error Unit)
  | serve
  | disconnect

inductive HubTask
  /-- Parked, in its backoff sleep or connecting. -/
  | down
  /-- Connected, in the select of the event loop. -/
  | serving
  /-- Awaiting the upstream's answer to what a command asks for. -/
  | asking (c : HubCommand)
  | sending (ds : List (SessionId × Delivery)) (next : Next)

structure Hub where
  /-- The command channel. -/
  queue : List HubCommand
  routes : AList fun _ : Pair => SessionId
  subs : StockSubscriptionList
  task : HubTask
  handle : SessionId → HandleState
  /-- The provider channel of a session; `none` once its receiver is dropped. -/
  channel : SessionId → Option (List Delivery)

/-- Why a command is refused while the hub is not connected. -/
inductive Park
  | disabled
  | missingCredentials
  | rejectedCredentials
  deriving DecidableEq

namespace Park

def reason : Park → String
  | disabled => "provider disabled"
  | missingCredentials => "waiting for credentials"
  | rejectedCredentials => "waiting for new credentials after auth rejection"

def error (m : Market) : Park → Error
  | disabled => .provider m.providerId disabled.reason
  | park => .unauthenticated m.providerId park.reason

end Park

/-- The error of a command that finds the hub parked, or asleep between attempts. -/
def refusal (m : Market) : Option Park → Error
  | some park => park.error m
  | none => .provider m.providerId "provider is reconnecting"

/-- A broadcast visits the sinks in the order the map gives them in. -/
inductive HubAction
  /-- `SharedLiveHandle::subscribe` sends its command. -/
  | subscribe (s : SessionId) (p : Pair)
  | unsubscribe (s : SessionId)
  | close (s : SessionId)
  /-- The controller takes the next event from its provider channel. -/
  | recv (s : SessionId)
  /-- The receiver of the provider channel is dropped. -/
  | hangUp (s : SessionId)
  /-- The connected hub takes its next command. -/
  | take
  | answer (res : Except String Unit)
  /-- A streamed message, translated. -/
  | message (order : List SessionId) (evs : List MarketEvent)
  | send
  /-- Everything is sent. -/
  | proceed
  /-- The connection is lost, or given up for new settings or credentials. -/
  | lost (order : List SessionId) (reason : String) (cause : DisconnectCause)
  /-- A connect succeeds and the aggregate set is applied again. -/
  | connected (order : List SessionId) (resubscribe : Except String Unit)
  | connectFailed (order : List SessionId) (reason : String) (cause : DisconnectCause)
  /-- A command is answered while the hub is not connected. -/
  | refuse (park : Option Park)
  deriving DecidableEq

namespace Hub

def init : Hub :=
  { queue := []
    routes := ∅
    subs := .new
    task := .down
    handle := fun _ => .fresh
    channel := fun _ => some [] }

/-- `routes.values()`. -/
def sinks (h : Hub) : List SessionId := h.routes.entries.map Sigma.snd

def setHandle (h : Hub) (s : SessionId) (st : HandleState) : Hub :=
  { h with handle := Function.update h.handle s st }

def setChannel (h : Hub) (s : SessionId) (l : Option (List Delivery)) : Hub :=
  { h with channel := Function.update h.channel s l }

/-- A handle sends its command and awaits the answer. -/
def enqueue (h : Hub) (s : SessionId) (st : HandleState) : Hub :=
  { h.setHandle s st with queue := h.queue ++ (st.command s).toList }

/-- `broadcast_control`. -/
def broadcastControl (order : List SessionId) (kind : ControlKind) :
    List (SessionId × Delivery) :=
  order.map (·, .control kind)

/-- `broadcast_control_to`. -/
def broadcastControlTo (sink : Option SessionId) (kind : ControlKind) :
    List (SessionId × Delivery) :=
  sink.toList.map (·, .control kind)

/-- `dispatch_event`. -/
def dispatchEvent (h : Hub) (order : List SessionId) (ev : MarketEvent) :
    List (SessionId × Delivery) :=
  match ev.routeKey with
  | some key => (h.routes.lookup key).toList.map (·, .event ev)
  | none => order.map (·, .event ev)

/-- `run_hub_task` up to the request a command makes of the upstream. -/
def take (h : Hub) : Option Hub :=
  match h.task, h.queue with
  | .serving, .subscribe s p :: queue => some { h with
      queue
      routes := h.routes.insert p s
      subs := applyPairToList h.subs p true
      task := .asking (.subscribe s p) }
  | .serving, .unsubscribe s p :: queue => some { h with
      queue
      subs := applyPairToList h.subs p false
      task := .asking (.unsubscribe s p) }
  | _, _ => none

/-- The rest of the arm, up to its first send. -/
def answer (m : Market) (h : Hub) (res : Except String Unit) : Option Hub :=
  match h.task, res with
  | .asking (.subscribe s p), .ok () => some { h with
      task := .sending
        (broadcastControlTo (h.routes.lookup p) (.providerConnected m.providerId) ++
          broadcastControlTo (h.routes.lookup p)
            (.subscriptionChanged m.providerId p.1 p.2 true))
        (.reply (.subscribe s p) (.ok ())) }
  | .asking (.subscribe s p), .error e => some { h with
      routes := h.routes.erase p
      subs := applyPairToList h.subs p false
      task := .sending [] (.reply (.subscribe s p)
        (.error (.provider m.providerId ("add_subscriptions: " ++ e)))) }
  | .asking (.unsubscribe s p), .ok () => some { h with
      routes := h.routes.erase p
      task := .sending
        (broadcastControlTo (h.routes.lookup p)
          (.subscriptionChanged m.providerId p.1 p.2 false))
        (.reply (.unsubscribe s p) (.ok ())) }
  | .asking (.unsubscribe s p), .error e => some { h with
      subs := applyPairToList h.subs p true
      task := .sending [] (.reply (.unsubscribe s p)
        (.error (.provider m.providerId ("remove_subscriptions: " ++ e)))) }
  | _, _ => none

/-- The next send goes through: there is room, or nobody to receive. -/
def send (cap : Nat) (h : Hub) : Option Hub :=
  match h.task with
  | .sending ((s, d) :: ds) next =>
      match h.channel s with
      | none => some { h with task := .sending ds next }
      | some l =>
          if l.length < cap then
            some { h.setChannel s (some (l ++ [d])) with task := .sending ds next }
          else none
  | _ => none

def proceed (h : Hub) : Option Hub :=
  match h.task with
  | .sending [] (.reply c res) => some
      { h.setHandle c.session ((h.handle c.session).answered res) with task := .serving }
  | .sending [] .serve => some { h with task := .serving }
  | .sending [] .disconnect => some { h with task := .down }
  | _ => none

/-- The connected hub starts to send. -/
def startSending (h : Hub) (order : List SessionId) (ds : List (SessionId × Delivery))
    (next : Next) : Option Hub :=
  match h.task with
  | .serving => if order.Perm h.sinks then some { h with task := .sending ds next } else none
  | _ => none

/-- The hub starts to send out of a connection attempt. -/
def startConnecting (h : Hub) (order : List SessionId) (ds : List (SessionId × Delivery))
    (next : Next) : Option Hub :=
  match h.task with
  | .down => if order.Perm h.sinks then some { h with task := .sending ds next } else none
  | _ => none

/-- After the connect the set is applied again; a failure is told to every sink. -/
def onConnected (m : Market) (h : Hub) (order : List SessionId) (resubscribe : Except String Unit) :
    List (SessionId × Delivery) :=
  broadcastControl order (.providerConnected m.providerId) ++
    match resubscribe with
    | .ok () => []
    | .error e =>
        if h.subs.isEmpty then []
        else broadcastControl order (.providerError m.providerId ("re-subscribe failed: " ++ e))

def step (m : Market) (cap : Nat) (h : Hub) : HubAction → Option Hub
  | .subscribe s p =>
      match h.handle s with
      | .fresh =>
          -- `route` gives a session to a provider only for a pair it supports
          if m.supports p.1 p.2 .live then some (h.enqueue s (.subscribing p)) else none
      | _ => none
  | .unsubscribe s =>
      match h.handle s with
      | .subscribed p => some (h.enqueue s (.unsubscribing p))
      | _ => none
  | .close s =>
      match h.handle s with
      | .subscribed p | .unsubscribed (some p) => some (h.enqueue s (.closing p))
      | .unsubscribed none => some (h.setHandle s .closed)
      | _ => none
  | .recv s =>
      match h.handle s, h.channel s with
      | .subscribed _, some (_ :: l) => some (h.setChannel s (some l))
      | _, _ => none
  | .hangUp s =>
      match h.handle s with
      | .failed _ | .closed => some (h.setChannel s none)
      | _ => none
  | .take => h.take
  | .answer res => h.answer m res
  | .message order evs => h.startSending order (evs.flatMap (h.dispatchEvent order)) .serve
  | .send => h.send cap
  | .proceed => h.proceed
  | .lost order reason cause => h.startSending order
      (broadcastControl order (.providerDisconnected m.providerId reason cause)) .disconnect
  | .connected order resubscribe =>
      h.startConnecting order (h.onConnected m order resubscribe) .serve
  | .connectFailed order reason cause => h.startConnecting order
      (broadcastControl order (.providerDisconnected m.providerId
        ("connect failed: " ++ reason) cause)) .disconnect
  | .refuse park =>
      match h.task, h.queue with
      | .down, c :: queue => some
          { h.setHandle c.session ((h.handle c.session).answered (.error (refusal m park))) with
            queue }
      | _, _ => none

/-! ### Inversion of a step -/

section Projections

variable (h : Hub) (s : SessionId) (st : HandleState) (l : Option (List Delivery))

@[simp] theorem setHandle_handle (t : SessionId) :
    (h.setHandle s st).handle t = if t = s then st else h.handle t := by
  simp [setHandle, Function.update_apply]

@[simp] theorem setHandle_queue : (h.setHandle s st).queue = h.queue := rfl

@[simp] theorem setHandle_task : (h.setHandle s st).task = h.task := rfl

@[simp] theorem setChannel_queue : (h.setChannel s l).queue = h.queue := rfl

@[simp] theorem enqueue_handle (t : SessionId) :
    (h.enqueue s st).handle t = if t = s then st else h.handle t := by
  simp [enqueue]

end Projections

/-- What each action can do, with what it needs. -/
inductive Step (m : Market) (cap : Nat) (h : Hub) : HubAction → Hub → Prop
  | subscribe {s p} (hs : h.handle s = .fresh) (hp : m.supports p.1 p.2 .live) :
      Step m cap h (.subscribe s p) (h.enqueue s (.subscribing p))
  | unsubscribe {s p} (hs : h.handle s = .subscribed p) :
      Step m cap h (.unsubscribe s) (h.enqueue s (.unsubscribing p))
  | closeHeld {s p} (hs : h.handle s = .subscribed p ∨ h.handle s = .unsubscribed (some p)) :
      Step m cap h (.close s) (h.enqueue s (.closing p))
  | close {s} (hs : h.handle s = .unsubscribed none) :
      Step m cap h (.close s) (h.setHandle s .closed)
  | recv {s p d l} (hs : h.handle s = .subscribed p) (hl : h.channel s = some (d :: l)) :
      Step m cap h (.recv s) (h.setChannel s (some l))
  | hangUp {s} (hs : (∃ e, h.handle s = .failed e) ∨ h.handle s = .closed) :
      Step m cap h (.hangUp s) (h.setChannel s none)
  | takeSubscribe {s p queue} (ht : h.task = .serving) (hq : h.queue = .subscribe s p :: queue) :
      Step m cap h .take { h with
        queue, routes := h.routes.insert p s, subs := applyPairToList h.subs p true
        task := .asking (.subscribe s p) }
  | takeUnsubscribe {s p queue} (ht : h.task = .serving)
      (hq : h.queue = .unsubscribe s p :: queue) :
      Step m cap h .take { h with
        queue, subs := applyPairToList h.subs p false, task := .asking (.unsubscribe s p) }
  | accepted {s p} (ht : h.task = .asking (.subscribe s p)) :
      Step m cap h (.answer (.ok ())) { h with
        task := .sending
          (broadcastControlTo (h.routes.lookup p) (.providerConnected m.providerId) ++
            broadcastControlTo (h.routes.lookup p)
              (.subscriptionChanged m.providerId p.1 p.2 true))
          (.reply (.subscribe s p) (.ok ())) }
  | rejected {s p e} (ht : h.task = .asking (.subscribe s p)) :
      Step m cap h (.answer (.error e)) { h with
        routes := h.routes.erase p, subs := applyPairToList h.subs p false
        task := .sending [] (.reply (.subscribe s p)
          (.error (.provider m.providerId ("add_subscriptions: " ++ e)))) }
  | removed {s p} (ht : h.task = .asking (.unsubscribe s p)) :
      Step m cap h (.answer (.ok ())) { h with
        routes := h.routes.erase p
        task := .sending
          (broadcastControlTo (h.routes.lookup p)
            (.subscriptionChanged m.providerId p.1 p.2 false))
          (.reply (.unsubscribe s p) (.ok ())) }
  | kept {s p e} (ht : h.task = .asking (.unsubscribe s p)) :
      Step m cap h (.answer (.error e)) { h with
        subs := applyPairToList h.subs p true
        task := .sending [] (.reply (.unsubscribe s p)
          (.error (.provider m.providerId ("remove_subscriptions: " ++ e)))) }
  | message {order evs} (ht : h.task = .serving) (horder : order.Perm h.sinks) :
      Step m cap h (.message order evs)
        { h with task := .sending (evs.flatMap (h.dispatchEvent order)) .serve }
  | lost {order reason cause} (ht : h.task = .serving) (horder : order.Perm h.sinks) :
      Step m cap h (.lost order reason cause) { h with
        task := .sending (broadcastControl order
          (.providerDisconnected m.providerId reason cause)) .disconnect }
  | connected {order resubscribe} (ht : h.task = .down) (horder : order.Perm h.sinks) :
      Step m cap h (.connected order resubscribe)
        { h with task := .sending (h.onConnected m order resubscribe) .serve }
  | connectFailed {order reason cause} (ht : h.task = .down) (horder : order.Perm h.sinks) :
      Step m cap h (.connectFailed order reason cause) { h with
        task := .sending (broadcastControl order
          (.providerDisconnected m.providerId ("connect failed: " ++ reason) cause))
            .disconnect }
  | send {s d ds next l} (ht : h.task = .sending ((s, d) :: ds) next)
      (hl : h.channel s = some l) (hroom : l.length < cap) :
      Step m cap h .send { h.setChannel s (some (l ++ [d])) with task := .sending ds next }
  | sendNobody {s d ds next} (ht : h.task = .sending ((s, d) :: ds) next)
      (hl : h.channel s = none) : Step m cap h .send { h with task := .sending ds next }
  | reply {c res} (ht : h.task = .sending [] (.reply c res)) :
      Step m cap h .proceed { h.setHandle c.session ((h.handle c.session).answered res) with
        task := .serving }
  | sent (ht : h.task = .sending [] .serve) : Step m cap h .proceed { h with task := .serving }
  | disconnect (ht : h.task = .sending [] .disconnect) :
      Step m cap h .proceed { h with task := .down }
  | refuse {park c queue} (ht : h.task = .down) (hq : h.queue = c :: queue) :
      Step m cap h (.refuse park)
        { h.setHandle c.session ((h.handle c.session).answered (.error (refusal m park))) with
          queue }

theorem startSending_some {h h' : Hub} {order : List SessionId}
    {ds : List (SessionId × Delivery)} {next : Next}
    (hs : h.startSending order ds next = some h') :
    h.task = .serving ∧ order.Perm h.sinks ∧ h' = { h with task := .sending ds next } := by
  simp only [startSending] at hs
  split at hs
  · obtain ⟨horder, hs⟩ := Option.ite_none_right_eq_some.mp hs
    cases hs
    exact ⟨‹_›, horder, rfl⟩
  · cases hs

theorem startConnecting_some {h h' : Hub} {order : List SessionId}
    {ds : List (SessionId × Delivery)} {next : Next}
    (hs : h.startConnecting order ds next = some h') :
    h.task = .down ∧ order.Perm h.sinks ∧ h' = { h with task := .sending ds next } := by
  simp only [startConnecting] at hs
  split at hs
  · obtain ⟨horder, hs⟩ := Option.ite_none_right_eq_some.mp hs
    cases hs
    exact ⟨‹_›, horder, rfl⟩
  · cases hs

theorem step_cases {m : Market} {cap : Nat} {h h' : Hub} {act : HubAction}
    (hstep : h.step m cap act = some h') : Step m cap h act h' := by
  cases act with
  | subscribe s p =>
      simp only [step] at hstep
      split at hstep
      · obtain ⟨hp, hstep⟩ := Option.ite_none_right_eq_some.mp hstep
        cases hstep
        exact .subscribe ‹_› hp
      · cases hstep
  | unsubscribe s =>
      simp only [step] at hstep
      split at hstep
      · cases hstep
        exact .unsubscribe ‹_›
      · cases hstep
  | close s =>
      simp only [step] at hstep
      split at hstep
      · cases hstep
        exact .closeHeld (.inl ‹_›)
      · cases hstep
        exact .closeHeld (.inr ‹_›)
      · cases hstep
        exact .close ‹_›
      · cases hstep
  | recv s =>
      simp only [step] at hstep
      split at hstep
      · cases hstep
        exact .recv ‹_› ‹_›
      · cases hstep
  | hangUp s =>
      simp only [step] at hstep
      split at hstep
      · cases hstep
        exact .hangUp (.inl ⟨_, ‹_›⟩)
      · cases hstep
        exact .hangUp (.inr ‹_›)
      · cases hstep
  | take =>
      simp only [step, take] at hstep
      split at hstep
      · cases hstep
        exact .takeSubscribe ‹_› ‹_›
      · cases hstep
        exact .takeUnsubscribe ‹_› ‹_›
      · cases hstep
  | answer res =>
      simp only [step, answer] at hstep
      split at hstep
      · cases hstep
        exact .accepted ‹_›
      · cases hstep
        exact .rejected ‹_›
      · cases hstep
        exact .removed ‹_›
      · cases hstep
        exact .kept ‹_›
      · cases hstep
  | message order evs =>
      obtain ⟨ht, horder, rfl⟩ := startSending_some hstep
      exact .message ht horder
  | send =>
      simp only [step, send] at hstep
      split at hstep
      · split at hstep
        · cases hstep
          exact .sendNobody ‹_› ‹_›
        · obtain ⟨hroom, hstep⟩ := Option.ite_none_right_eq_some.mp hstep
          cases hstep
          exact .send ‹_› ‹_› hroom
      · cases hstep
  | proceed =>
      simp only [step, proceed] at hstep
      split at hstep
      · cases hstep
        exact .reply ‹_›
      · cases hstep
        exact .sent ‹_›
      · cases hstep
        exact .disconnect ‹_›
      · cases hstep
  | lost order reason cause =>
      obtain ⟨ht, horder, rfl⟩ := startSending_some hstep
      exact .lost ht horder
  | connected order resubscribe =>
      obtain ⟨ht, horder, rfl⟩ := startConnecting_some hstep
      exact .connected ht horder
  | connectFailed order reason cause =>
      obtain ⟨ht, horder, rfl⟩ := startConnecting_some hstep
      exact .connectFailed ht horder
  | refuse park =>
      simp only [step] at hstep
      split at hstep
      · cases hstep
        exact .refuse ‹_› ‹_›
      · cases hstep

end Hub

end Alpaca

end Datamancer
