import Datamancer.Lib.Channel
import Datamancer.Lib.ReplyTable

/-!
# Datamancer.Remote.WsClient

The WebSocket client (`datamancer-client/src/ws.rs`): the requests of the client and the task
that reads the socket, with the table of pending requests between them. The client is used by
one request at a time, whose future may be dropped while it sends or awaits its reply; the
reader goes on meanwhile, and leaves the table closed.

A reply's payload, events and health views are not looked into. A check or a change of the
table is one action, as it is made under the table's mutex.
-/

namespace Datamancer

namespace WsClient

abbrev CallId := Nat

structure WsReply where
  id : UInt64
  ok : Bool
  code : Option String
  message : Option String
  deriving DecidableEq

inductive WsClientError
  | socket
  | codec
  | connectionClosed
  deriving DecidableEq

inductive ClientError
  | control (code message : String)
  | transport (e : WsClientError)
  deriving DecidableEq

/-- The demultiplexed message; one that is no text or of no known shape is `unknown`. -/
inductive Inbound (E V : Type)
  | event (frame : E)
  | reply (reply : WsReply)
  | health (view : V)
  | unknown

/-- Where the reader is. -/
inductive Reader (E : Type)
  | reading
  /-- It awaits room for an event. -/
  | forwarding (ev : E)
  /-- The socket is gone, and the table not yet closed. -/
  | leaving
  | exited

inductive ClientState
  | idle
  | sending (call : CallId) (id : UInt64)
  | awaiting (call : CallId) (id : UInt64)
  | gone
  deriving DecidableEq

/-- How a request has returned; one that was never registered has no number. -/
structure Outcome where
  call : Option CallId
  id : UInt64
  result : Except ClientError WsReply

structure World (E V : Type) where
  table : ReplyTable UInt64 WsReply
  nextId : UInt64
  client : ClientState
  reader : Reader E
  events : Channel E
  /-- The reader still has its sender of events. -/
  forwards : Bool
  health : Channel V
  returned : List Outcome

inductive Action (E V : Type)
  /-- A request begins; its serialization may fail. -/
  | request (encodes : Bool)
  /-- The send ends. -/
  | send (ok : Bool)
  /-- The request finds its reply. -/
  | resume
  | cancel
  | dropClient
  | frame (msg : Inbound E V)
  /-- The reader finds room for its event, or nobody to have it. -/
  | forward
  | socketGone
  | latch
  | takeEvent
  | dropEvents
  | takeHealth
  | dropHealth

def healthChannelDepth : Nat := 8

variable {E V : Type}

namespace World

def connect (eventBuffer : Nat) : World E V where
  table := .new
  nextId := 1
  client := .idle
  reader := .reading
  events := .new (max eventBuffer 1)
  forwards := true
  health := .new healthChannelDepth
  returned := []

def finish (w : World E V) (call : Option CallId) (id : UInt64)
    (result : Except ClientError WsReply) : World E V :=
  { w with client := .idle, returned := w.returned ++ [⟨call, id, result⟩] }

/-- A request up to its send: it is serialized, then registered in one go with the check that
the table is open. -/
def begin (w : World E V) (id : UInt64) (encodes : Bool) : World E V :=
  if encodes then
    if w.table.closed then w.finish none id (.error (.transport .connectionClosed))
    else { w with table := w.table.register id, client := .sending w.table.next id }
  else w.finish none id (.error (.transport .codec))

/-- A reply as the request's result. -/
def result (reply : WsReply) : Except ClientError WsReply :=
  if reply.ok then .ok reply
  else .error (.control (reply.code.getD "") (reply.message.getD ""))

/-- One message of the socket. -/
def receive (w : World E V) : Inbound E V → World E V
  | .event frame => if w.forwards then { w with reader := .forwarding frame } else w
  | .reply reply => { w with table := w.table.resolve reply.id reply }
  | .health view => { w with health := w.health.offer view }
  | .unknown => w

def step (w : World E V) : Action E V → Option (World E V)
  | .request encodes =>
      match w.client with
      | .idle => some (begin { w with nextId := w.nextId + 1 } w.nextId encodes)
      | _ => none
  | .send ok =>
      match w.client with
      | .sending c id =>
          if ok then some { w with client := .awaiting c id }
          -- a request that was not sent takes its slot back
          else some (finish { w with table := w.table.remove id } (some c) id
            (.error (.transport .socket)))
      | _ => none
  | .resume =>
      match w.client with
      | .awaiting c id =>
          match w.table.reply c with
          | .waiting => none
          | .dropped => some (w.finish (some c) id (.error (.transport .connectionClosed)))
          | .sent reply => some (w.finish (some c) id (result reply))
      | _ => none
  | .cancel =>
      match w.client with
      -- the slot of a cancelled call stays in the table, until a reply or the end of the reader
      | .sending _ _ | .awaiting _ _ => some { w with client := .idle }
      | _ => none
  | .dropClient =>
      match w.client with
      | .idle => some { w with client := .gone }
      | _ => none
  | .frame msg =>
      match w.reader with
      | .reading => some (w.receive msg)
      | _ => none
  | .forward =>
      match w.reader with
      | .forwarding ev =>
          match w.events.trySend ev with
          | .sent events => some { w with events, reader := .reading }
          -- the reader awaits room, and reads no reply meanwhile
          | .full => none
          | .closed => some { w with forwards := false, reader := .reading }
      | _ => none
  | .socketGone =>
      match w.reader with
      | .reading => some { w with reader := .leaving }
      | _ => none
  | .latch =>
      match w.reader with
      | .leaving => some { w with table := w.table.close, reader := .exited }
      | _ => none
  | .takeEvent => w.events.recv.map fun events => { w with events }
  | .dropEvents => some { w with events := w.events.close }
  | .takeHealth => w.health.recv.map fun health => { w with health }
  | .dropHealth => some { w with health := w.health.close }

end World

end WsClient

end Datamancer
