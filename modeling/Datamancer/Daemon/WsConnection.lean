import Datamancer.Lib.ActionSystem
import Datamancer.Lib.Channel
import Datamancer.Transport.Sink
import Datamancer.Transport.Wire

/-!
# Datamancer.Daemon.WsConnection

One accepted WebSocket connection (`datamancerd/src/ws/conn.rs`), with its event sink and its
writer (`datamancer-transport-ws`). The connection's task reads control frames and replies, the
pump takes the events of the client's stream to the sink, health pushers add a view now and
then, and the writer drains to the socket the one bounded channel all of them send into.

Each of them meets a full channel in its own way: the sink rejects the event, the reply awaits
room, the health view is dropped. A step is what one task does up to where another may come in
between. The requests' effect on the session, the socket and the clock of the timeouts are the
schedule's.
-/

namespace Datamancer

namespace Ws

open Transport

/-! ### The outbound channel -/

/-- A line for the socket, under what it was made of; what is sent is its text. -/
inductive Line
  | event (text : String)
  | reply (text : String)
  | health (text : String)
  deriving DecidableEq, Repr

def Line.eventText : Line → Option String
  | event text => some text
  | reply _ | health _ => none

/-- The event frames that were enqueued, in order. -/
def eventLines (tx : Channel Line) : List String := tx.accepted.filterMap Line.eventText

/-- `serde_json::to_string` of the event's frame; `none` where there is no frame, or no text
of it. -/
def frameText (encode : EventFrame → Option String) (ev : MarketEvent) : Option String :=
  (toWire ev).bind encode

/-- `WsDataSink::publish`, while `held` slots of the channel are promised to senders that
wait. -/
def publish (encode : EventFrame → Option String) (held : Nat) (tx : Channel Line)
    (ev : MarketEvent) : PublishOutcome × Channel Line :=
  match toWire ev with
  | none =>
      match ev with
      -- a suppressed control counts as delivered; data without a frame has to surface
      | .control _ => (.delivered, tx)
      | ev => (.rejected ev, tx)
  | some frame =>
      match encode frame with
      | none => (.rejected ev, tx)
      | some text =>
          match tx.trySendPast held (.event text) with
          | .sent tx => (.delivered, tx)
          | .full | .closed => (.rejected ev, tx)

/-! ### The parties -/

/-- Where the pump is. -/
inductive Pump
  | unspawned
  /-- It awaits the stream. -/
  | waiting
  /-- It has the event in hand. -/
  | publishing (ev : MarketEvent)
  /-- The sink has rejected, and `cancel` is not yet notified. -/
  | signalling
  | ended
  deriving DecidableEq, Repr

/-- How far the send of a reply has come: never polled, in the queue for room, or with a slot
of its own. -/
inductive Sending
  | unpolled
  | queued
  | granted
  deriving DecidableEq, Repr

/-- What `dispatch` returns: whether the reply says ok, its text, and whether the request was
to close the client or to watch its health. -/
structure Dispatched where
  ok : Bool
  line : Option String
  wasCloseClient : Bool
  startHealth : Bool
  deriving DecidableEq, Repr

/-- Where the connection's task is. -/
inductive Loop
  /-- `take_events`. -/
  | opening
  /-- The select of shutdown, cancel and the socket. -/
  | reading
  | dispatching
  /-- The select of the reply's send, shutdown and cancel. -/
  | replying (d : Dispatched) (text : String) (sending : Sending)
  /-- `session.close`. -/
  | closingSession
  | awaitingPump
  | awaitingWriter
  | returned
  deriving DecidableEq, Repr

namespace Loop

/-- The task is past its read loop. -/
def Left : Loop → Prop
  | opening | reading | dispatching | replying .. => False
  | closingSession | awaitingPump | awaitingWriter | returned => True

/-- The task is in one of the selects that `cancel` ends. -/
def Selects : Loop → Prop
  | reading | replying .. => True
  | _ => False

/-- The slots promised to a reply. -/
def held : Loop → Nat
  | replying _ _ .granted => 1
  | _ => 0

/-- A slot that becomes free goes to the reply that waits for it. -/
def grant : Loop → Loop
  | replying d text .queued => replying d text .granted
  | loop => loop

end Loop

/-- Where the writer is. -/
inductive Writer
  | receiving
  | sending
  /-- It closes the socket, and takes nothing more. -/
  | closing
  | ended
  deriving DecidableEq, Repr

/-- A message of the socket: `skipped` is a ping, a pong, or binary. -/
inductive Inbound
  | text
  | skipped
  | close
  | failed
  | eof
  deriving DecidableEq, Repr

structure Conn where
  tx : Channel Line
  loop : Loop
  pump : Pump
  /-- The stored permit of `cancel`. -/
  permit : Bool
  /-- How many health pushers run. -/
  pushers : Nat
  /-- The teardown has aborted them. -/
  aborted : Bool
  writer : Writer
  /-- What the stream has yielded, in order. -/
  yielded : List MarketEvent
  /-- The event the sink has rejected. -/
  rejected : Option MarketEvent

inductive Action
  | opened
  /-- `take_events` fails; the text of the reply. -/
  | openFailed (text : String)
  | yields (ev : MarketEvent)
  | streamEnds
  | publish
  | signal
  | shutdown
  | cancelled
  | read (msg : Inbound)
  | dispatched (d : Dispatched)
  /-- The send of the reply is polled. -/
  | pollSend
  | sessionClosed
  /-- The pump has ended, or its two seconds are over. -/
  | pumpAwaited
  /-- So for the writer. -/
  | writerAwaited
  /-- The connection's task is dropped where it is. -/
  | killed
  | healthPush (text : String)
  | pusherEnds
  | recv
  | sent
  | socketFails
  | drained
  | socketClosed
  deriving DecidableEq, Repr

namespace Conn

/-- `channel_depth` is what the configuration gives. -/
def init (depth : Nat) : Conn where
  tx := .new depth
  loop := .opening
  pump := .unspawned
  permit := false
  pushers := 0
  aborted := false
  writer := .receiving
  yielded := []
  rejected := none

/-- The read loop breaks: the health pushers are aborted and the session is closed. -/
def breakLoop (c : Conn) : Conn := { c with loop := .closingSession, aborted := true }

/-- The reply is dealt with: start to watch the health, and break or read on. -/
def replied (c : Conn) (d : Dispatched) : Conn :=
  let c := if d.startHealth ∧ d.ok then { c with pushers := c.pushers + 1 } else c
  if d.wasCloseClient ∧ d.ok then c.breakLoop else { c with loop := .reading }

/-- The pump hands its event to the sink, and stops where that rejects it. -/
def publish (encode : EventFrame → Option String) (c : Conn) (ev : MarketEvent) : Conn :=
  match Ws.publish encode c.loop.held c.tx ev with
  | (.delivered, tx) => { c with tx, pump := .waiting }
  | (.rejected ev, tx) => { c with tx, pump := .signalling, rejected := some ev }

/-- One poll of the send of a reply. -/
def pollSend (c : Conn) (d : Dispatched) (text : String) (sending : Sending) : Option Conn :=
  if c.tx.isOpen then
    match sending with
    | .unpolled =>
        if c.tx.hasRoom then some ({ c with tx := c.tx.push (.reply text) }.replied d)
        else some { c with loop := .replying d text .queued }
    | .queued => none
    | .granted => some ({ c with tx := c.tx.push (.reply text) }.replied d)
  else some c.breakLoop

/-- One push of a health view: dropped where there is no room, the last where the channel is
closed. -/
def healthPush (c : Conn) (text : String) : Conn :=
  match c.tx.trySendPast c.loop.held (.health text) with
  | .sent tx => { c with tx }
  | .full => c
  | .closed => { c with pushers := c.pushers - 1 }

/-- All senders of the channel are dropped. -/
def SendersGone (c : Conn) : Prop :=
  (c.loop = .awaitingWriter ∨ c.loop = .returned) ∧ (c.pump = .unspawned ∨ c.pump = .ended)
    ∧ c.pushers = 0

instance (c : Conn) : Decidable c.SendersGone := inferInstanceAs (Decidable (_ ∧ _ ∧ _))

def step (encode : EventFrame → Option String) (c : Conn) : Action → Option Conn
  | .opened =>
      match c.loop, c.pump with
      | .opening, .unspawned => some { c with loop := .reading, pump := .waiting }
      | _, _ => none
  -- the early return: there is no stream, so no pump is spawned, and the writer is not awaited
  | .openFailed text =>
      match c.loop with
      | .opening => some { c with tx := c.tx.offer (.reply text), loop := .returned }
      | _ => none
  | .yields ev =>
      match c.pump with
      | .waiting => some { c with pump := .publishing ev, yielded := c.yielded ++ [ev] }
      | _ => none
  | .streamEnds =>
      match c.pump with
      | .waiting => some { c with pump := .ended }
      | _ => none
  | .publish =>
      match c.pump with
      | .publishing ev => some (c.publish encode ev)
      | _ => none
  -- `notify_one` stores a permit where nobody waits, so that the next select finds it
  | .signal =>
      match c.pump with
      | .signalling => some { c with pump := .ended, permit := true }
      | _ => none
  | .shutdown =>
      match c.loop with
      | .reading | .replying .. => some c.breakLoop
      | _ => none
  | .cancelled =>
      match c.loop, c.permit with
      | .reading, true | .replying .., true => some { c with permit := false }.breakLoop
      | _, _ => none
  | .read msg =>
      match c.loop, msg with
      | .reading, .text => some { c with loop := .dispatching }
      -- pings, pongs and binary frames are passed over
      | .reading, .skipped => some c
      | .reading, _ => some c.breakLoop
      | _, _ => none
  | .dispatched d =>
      match c.loop, d.line with
      | .dispatching, some text => some { c with loop := .replying d text .unpolled }
      | .dispatching, none => some (c.replied d)
      | _, _ => none
  | .pollSend =>
      match c.loop with
      | .replying d text sending => c.pollSend d text sending
      | _ => none
  | .sessionClosed =>
      match c.loop with
      | .closingSession => some { c with loop := .awaitingPump }
      | _ => none
  -- at the timeout the handle is dropped, which leaves the pump running
  | .pumpAwaited =>
      match c.loop with
      | .awaitingPump => some { c with loop := .awaitingWriter }
      | _ => none
  | .writerAwaited =>
      match c.loop with
      | .awaitingWriter => some { c with loop := .returned }
      | _ => none
  | .killed => some { c with loop := .returned }
  | .healthPush text => if c.pushers = 0 then none else some (c.healthPush text)
  | .pusherEnds =>
      if c.pushers ≠ 0 ∧ c.aborted then some { c with pushers := c.pushers - 1 } else none
  -- `recv` frees a slot, and the reply that waits in the queue gets it
  | .recv =>
      match c.writer with
      | .receiving =>
          c.tx.recv.map fun tx => { c with tx, loop := c.loop.grant, writer := .sending }
      | _ => none
  | .sent =>
      match c.writer with
      | .sending => some { c with writer := .receiving }
      | _ => none
  -- `rx` lives until the closing of the socket is over
  | .socketFails =>
      match c.writer with
      | .sending => some { c with writer := .closing }
      | _ => none
  | .drained =>
      match c.writer with
      | .receiving =>
          if c.SendersGone ∧ c.tx.queue = [] then some { c with writer := .closing } else none
      | _ => none
  | .socketClosed =>
      match c.writer with
      | .closing => some { c with tx := c.tx.close, writer := .ended }
      | _ => none

end Conn

end Ws

end Datamancer
