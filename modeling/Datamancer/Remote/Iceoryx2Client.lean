import Datamancer.Lib.Oneshot
import Mathlib.Data.List.Basic
import Mathlib.Logic.Function.Basic

/-!
# Datamancer.Remote.Iceoryx2Client

The same-host client (`datamancer-client/src/iceoryx2.rs`) with the task that owns its control
connection, its query streams, and the daemon as far as it opens queries. A call is a future
that may be dropped wherever it awaits; what it has queued on the control task is sent all the
same. Each call has a number, and with it the channel of its reply.

The methods that neither open nor cancel a query nor close the client are one (`other`), and
the parse of a service name is a parameter.
-/

namespace Datamancer

namespace Iceoryx2Client

abbrev QueryId := Nat
abbrev CallId := Nat

/-! ### The control protocol -/

inductive Request
  | openQuery
  | cancelQuery (query : QueryId)
  | closeClient
  | other
  deriving DecidableEq

structure Reply where
  ok : Bool
  query : Option QueryId
  service : Option String
  code : Option String
  message : Option String

inductive Iceoryx2ClientError
  | io
  | codec
  | protocol (message : String)
  | transport
  | node (message : String)
  deriving DecidableEq

inductive ClientError
  | control (code message : String)
  | transport (e : Iceoryx2ClientError)
  deriving DecidableEq

def check (reply : Reply) : Except ClientError Reply :=
  if reply.ok then .ok reply
  else .error (.control (reply.code.getD "") (reply.message.getD ""))

/-! ### The control task -/

inductive ControlCmd
  /-- A round trip; the call awaits its reply. -/
  | request (req : Request) (call : CallId)
  | fire (req : Request)
  deriving DecidableEq

def ControlCmd.call : ControlCmd → Option CallId
  | request _ call => some call
  | fire _ => none

inductive Task
  | receiving
  /-- The request is written, or about to be, and its reply awaited. -/
  | serving (cmd : ControlCmd)
  | ended
  deriving DecidableEq

def Task.cmds : Task → List ControlCmd
  | serving cmd => [cmd]
  | receiving | ended => []

/-! ### The client -/

inductive Op
  | query
  | cancelQuery (query : QueryId)
  | close
  | other
  deriving DecidableEq

def Op.request : Op → Request
  | query => .openQuery
  | cancelQuery id => .cancelQuery id
  | close => .closeClient
  | other => .other

inductive ClientState
  | idle
  | awaiting (call : CallId) (op : Op)
  /-- `query` has its reply and awaits the attach. -/
  | attaching (call : CallId) (id : QueryId)
  | gone
  deriving DecidableEq

structure QueryStream where
  id : QueryId
  finished : Bool
  dropped : Bool
  deriving DecidableEq

inductive Item
  | event
  | sessionClosing
  /-- The stream has ended. -/
  | none
  deriving DecidableEq

structure World where
  queue : List ControlCmd
  task : Task
  reply : CallId → Oneshot (Except Iceoryx2ClientError Reply)
  nextCall : CallId
  client : ClientState
  /-- What the last call has returned. -/
  returned : Option (Except ClientError (Option QueryId))
  /-- All streams there have been. -/
  streams : List QueryStream
  /-- The queries the daemon has opened, each with the call that asked for it. -/
  opened : List (QueryId × CallId)
  /-- All requests that have been queued. -/
  enqueued : List Request

inductive Action
  | call (op : Op)
  /-- The call finds its reply. -/
  | resume
  /-- The call finds the subscriber attached, or the attach failed. -/
  | attach (res : Except Iceoryx2ClientError Unit)
  | dropCall
  | dropClient
  | poll (stream : Nat) (item : Item)
  | dropStream (stream : Nat)
  /-- The control task takes the next command. -/
  | recv
  /-- The round trip ends; the daemon has opened a query or not. -/
  | serve (opened : Option QueryId) (res : Except Iceoryx2ClientError Reply)
  /-- No handle is left and the queue is empty. -/
  | shutdown

namespace World

def init : World where
  queue := []
  task := .receiving
  reply := fun _ => .dropped
  nextCall := 0
  client := .idle
  returned := none
  streams := []
  opened := []
  enqueued := []

/-- `ControlHandle::fire`; nothing is queued once the task has ended. -/
def fire (w : World) (req : Request) : World :=
  if w.task = .ended then w
  else { w with queue := w.queue ++ [.fire req], enqueued := w.enqueued ++ [req] }

/-- The first half of `ControlHandle::request`. -/
def send (w : World) (op : Op) : World :=
  { w with
    queue := w.queue ++ [.request op.request w.nextCall]
    enqueued := w.enqueued ++ [op.request]
    reply := Function.update w.reply w.nextCall .waiting
    client := .awaiting w.nextCall op
    nextCall := w.nextCall + 1 }

def setStream (w : World) (i : Nat) (s : QueryStream) : World :=
  { w with streams := w.streams.set i s }

/-- `QueryStream::drop`. -/
def streamDropped (w : World) (id : QueryId) (finished : Bool) : World :=
  if finished then w else w.fire (.cancelQuery id)

/-- The call is over; the client goes with `close`. -/
def finish (w : World) (op : Op) (res : Except ClientError (Option QueryId)) : World :=
  { w with client := if op = .close then .gone else .idle, returned := some res }

/-- `query` with an ok reply, up to the attach. -/
def openReplied (parses : String → Bool) (w : World) (call : CallId) (reply : Reply) : World :=
  match reply.query with
  | none => w.finish .query (.error (.transport (.protocol "open-query reply missing query id")))
  | some id =>
      match reply.service with
      | none =>
          (w.fire (.cancelQuery id)).finish .query
            (.error (.transport (.protocol "open-query reply missing service name")))
      | some service =>
          if parses service then { w with client := .attaching call id }
          else (w.fire (.cancelQuery id)).finish .query (.error (.transport .transport))

def replied (parses : String → Bool) (w : World) (call : CallId) (op : Op) (reply : Reply) :
    World :=
  match check reply with
  | .error e => w.finish op (.error e)
  | .ok reply =>
      match op with
      | .query => w.openReplied parses call reply
      | _ => w.finish op (.ok none)

/-- The task ends: what is queued is dropped, and with it the senders of the replies. -/
def endTask (w : World) : World :=
  { w with
    task := .ended
    queue := []
    reply := fun c =>
      if c ∈ w.queue.filterMap ControlCmd.call then (w.reply c).dropSender else w.reply c }

def answer (w : World) (cmd : ControlCmd) (res : Except Iceoryx2ClientError Reply) : World :=
  match cmd with
  | .request _ c => { w with reply := Function.update w.reply c ((w.reply c).send res) }
  | .fire _ => w

/-- The daemon has opened a query on a request, or none. -/
def openFor (w : World) (cmd : ControlCmd) : Option QueryId → Option World
  | none => some w
  | some id =>
      match cmd with
      | .request .openQuery c =>
          if id ∈ w.opened.map Prod.fst then none
          else some { w with opened := w.opened ++ [(id, c)] }
      | _ => none

def step (parses : String → Bool) (w : World) : Action → Option World
  | .call op =>
      match w.client with
      | .idle =>
          if w.task = .ended then
            some (w.finish op (.error (.transport (.protocol "control connection closed"))))
          else some (w.send op)
      | _ => none
  | .resume =>
      match w.client with
      | .awaiting c op =>
          match w.reply c with
          | .waiting => none
          | .dropped => some (w.finish op
              (.error (.transport (.protocol "control connection closed mid-request"))))
          | .sent (.error e) => some (w.finish op (.error (.transport e)))
          | .sent (.ok reply) => some (w.replied parses c op reply)
      | _ => none
  | .attach res =>
      match w.client with
      | .attaching _ id =>
          match res with
          | .ok () =>
              some (finish { w with streams := w.streams ++ [⟨id, false, false⟩] } .query
                (.ok (some id)))
          -- the server has opened the query, and is told that nobody will read it
          | .error e => some ((w.fire (.cancelQuery id)).finish .query (.error (.transport e)))
      | _ => none
  | .dropCall =>
      match w.client with
      -- `close` has taken the client by value
      | .awaiting _ op => some { w with client := if op = .close then .gone else .idle }
      | .attaching _ _ => some { w with client := .idle }
      | _ => none
  | .dropClient =>
      match w.client with
      | .idle => some { w.fire .closeClient with client := .gone }
      | _ => none
  | .poll i item =>
      match w.streams[i]? with
      | some ⟨id, finished, false⟩ =>
          some (w.setStream i ⟨id, finished || item ≠ .event, false⟩)
      | _ => none
  | .dropStream i =>
      match w.streams[i]? with
      | some ⟨id, finished, false⟩ =>
          some ((w.setStream i ⟨id, finished, true⟩).streamDropped id finished)
      | _ => none
  | .recv =>
      match w.task, w.queue with
      | .receiving, cmd :: queue => some { w with task := .serving cmd, queue := queue }
      | _, _ => none
  | .serve opened res =>
      match w.task with
      | .serving cmd =>
          (w.openFor cmd opened).map fun w =>
            match res with
            | .ok _ => { w.answer cmd res with task := .receiving }
            -- the first failed exchange ends the control task, after the caller has had its answer
            | .error _ => (w.answer cmd res).endTask
      | _ => none
  | .shutdown =>
      if w.task = .receiving ∧ w.queue = [] ∧ w.client = .gone ∧ w.streams.all (·.dropped) then
        some w.endTask
      else none

end World

end Iceoryx2Client

end Datamancer
