import Mathlib.Logic.Function.Basic
import Datamancer.Core.Event

/-!
# Datamancer.Daemon.ControlServer

The daemon's control surface (`datamancerd/server.rs`): a server actor that keeps the
open clients by name and the in-flight queries by id, and one task per control
connection that forwards requests to it, reads the replies, and at end of file signals
an emergency teardown of what it remembers having opened.

An open client keeps, beside what the source keeps, the connection whose request opened
it; a queued `Disconnect` keeps the connection that sent it. Neither is read by any
step. Requests that touch neither the clients nor the queries are one constructor.
How setting up a client or query ends (the sink, the seed subscriptions, the stream)
is given by the schedule.
-/

namespace Datamancer

namespace Daemon

abbrev ConnId := Nat

abbrev QueryId := Nat

/-! ### Requests and replies -/

namespace Codes

def unknownClient : String := "unknown_client"
def duplicateClient : String := "duplicate_client"
def serviceCapExceeded : String := "service_cap_exceeded"
def badRequest : String := "bad_request"
def shuttingDown : String := "shutting_down"
def unknownQuery : String := "unknown_query"

end Codes

inductive Request
  | openClient (client : String)
  | closeClient (client : String)
  | openQuery (fromTs toTs : Timestamp)
  | cancelQuery (query : QueryId)
  | shutdown
  | other
  deriving DecidableEq, Repr

structure Reply where
  ok : Bool
  code : Option String
  query : Option QueryId
  deriving DecidableEq, Repr

def Reply.success : Reply := ⟨true, none, none⟩

def Reply.openedQuery (id : QueryId) : Reply := ⟨true, none, some id⟩

def Reply.error (code : String) : Reply := ⟨false, some code, none⟩

/-! ### The server actor -/

/-- An open client: its name, the id its service is named by, and the connection that
opened it. -/
structure ClientEntry where
  name : String
  service : Nat
  owner : ConnId
  deriving DecidableEq, Repr

inductive ServerCommand
  | request (request : Request) (reply : ConnId)
  | disconnect (client : String) (sender : ConnId)
  | queryFinished (query : QueryId)
  | cancelQueries (queries : List QueryId)
  deriving DecidableEq, Repr

structure Server where
  clients : List ClientEntry
  queries : List QueryId
  nextClientId : Nat
  maxClients : Nat
  maxQueries : Nat
  draining : Bool
  deriving DecidableEq, Repr

namespace Server

/-- `open_client`, where setting the client up ends as `setup` says: in success, or in an
error of some code. -/
def openClient (s : Server) (conn : ConnId) (client : String) (setup : Option String) :
    Reply × Server :=
  if s.clients.any (·.name = client) then (.error Codes.duplicateClient, s)
  else if s.maxClients ≤ s.clients.length then (.error Codes.serviceCapExceeded, s)
  else
    match setup with
    | some code => (.error code, s)
    | none =>
        (.success, { s with
          nextClientId := s.nextClientId + 1
          clients := s.clients ++ [⟨client, s.nextClientId, conn⟩] })

/-- `validate_query_open`. -/
def validateQueryOpen (fromTs toTs : Timestamp) (inFlight max : Nat) : Option Reply :=
  if toTs < fromTs then some (.error Codes.badRequest)
  else if max ≤ inFlight then some (.error Codes.serviceCapExceeded)
  else none

def openQuery (s : Server) (fromTs toTs : Timestamp) (setup : Option String) : Reply × Server :=
  match validateQueryOpen fromTs toTs s.queries.length s.maxQueries, setup with
  | some reply, _ => (reply, s)
  | none, some code => (.error code, s)
  | none, none =>
      (.openedQuery s.nextClientId, { s with
        nextClientId := s.nextClientId + 1
        queries := s.queries ++ [s.nextClientId] })

def cancelQuery (s : Server) (query : QueryId) : Reply × Server :=
  if query ∈ s.queries then
    (.success, { s with queries := s.queries.filter (· ≠ query) })
  else (.error Codes.unknownQuery, s)

def teardownClient (s : Server) (client : String) : Server :=
  { s with clients := s.clients.filter (·.name ≠ client) }

/-- The reply to a request whose reply goes to `conn`, and the server after it. -/
def dispatch (s : Server) (conn : ConnId) (setup : Option String) : Request → Reply × Server
  | .openClient client => s.openClient conn client setup
  | .closeClient client =>
      if s.clients.any (·.name = client) then (.success, s.teardownClient client)
      else (.error Codes.unknownClient, s)
  | .openQuery fromTs toTs => s.openQuery fromTs toTs setup
  | .cancelQuery query => s.cancelQuery query
  | .shutdown => (.error Codes.shuttingDown, s)
  | .other => (match setup with | some code => .error code | none => .success, s)

/-- Shutdown closes every client and query; what is still queued is answered that the daemon
is shutting down. -/
def drain (s : Server) : Server := { s with clients := [], queries := [], draining := true }

/-- `handle`: the reply, if the command asked for one, and the server after it. -/
def handle (s : Server) (setup : Option String) : ServerCommand → Option Reply × Server
  | .request request conn =>
      if s.draining then (some (.error Codes.shuttingDown), s)
      else if request = .shutdown then (some .success, s.drain)
      else (some (s.dispatch conn setup request).1, (s.dispatch conn setup request).2)
  | .disconnect client _ => (none, s.teardownClient client)
  | .queryFinished query => (none, { s with queries := s.queries.filter (· ≠ query) })
  | .cancelQueries queries => (none, queries.foldl (fun s q => (s.cancelQuery q).2) s)

end Server

/-! ### A control connection -/

/-- The teardown state one request/reply pair may arm or disarm. -/
structure TeardownArm where
  openClient : Option String
  isOpenQuery : Bool
  cancelledQuery : Option QueryId
  deriving DecidableEq, Repr

/-- `TeardownArm::of`. -/
def TeardownArm.ofRequest : Request → TeardownArm
  | .openClient client => ⟨some client, false, none⟩
  | .openQuery _ _ => ⟨none, true, none⟩
  | .cancelQuery query => ⟨none, false, some query⟩
  | _ => ⟨none, false, none⟩

/-- Where the task of a connection stands: reading requests, waiting for the reply to one,
past its loop, past the client part of its teardown, or finished. -/
inductive Phase
  | absent
  | serving
  | awaiting (arm : TeardownArm) (reply : Option Reply)
  | broken
  | leaving
  | gone
  deriving DecidableEq, Repr

structure Connection where
  phase : Phase
  openedClient : Option String
  openedQueries : List QueryId
  deriving DecidableEq, Repr

/-- `TeardownArm::apply`: fold a pair's outcome into the connection's teardown state. -/
def TeardownArm.apply (arm : TeardownArm) (reply : Reply) (c : Connection) : Connection :=
  let openedClient := if reply.ok then arm.openClient.or c.openedClient else c.openedClient
  let opened :=
    if reply.ok ∧ arm.isOpenQuery then c.openedQueries ++ reply.query.toList
    else c.openedQueries
  let openedQueries :=
    match arm.cancelledQuery with
    | some id =>
        if reply.ok ∨ reply.code = some Codes.unknownQuery then opened.filter (· ≠ id)
        else opened
    | none => opened
  { c with openedClient, openedQueries }

/-! ### The daemon -/

structure World where
  server : Server
  queue : List ServerCommand
  conns : ConnId → Connection

namespace World

def init (maxClients maxQueries : Nat) : World where
  server := ⟨[], [], 0, maxClients, maxQueries, false⟩
  queue := []
  conns _ := ⟨.absent, none, []⟩

inductive Act
  /-- A connection is accepted. -/
  | connect (c : ConnId)
  /-- The connection reads a request and forwards it. -/
  | request (c : ConnId) (r : Request)
  /-- The connection reads its reply and writes it out, or fails to. -/
  | reply (c : ConnId) (written : Bool)
  /-- The connection reads end of file. -/
  | eof (c : ConnId)
  /-- The client part of the emergency teardown. -/
  | disconnect (c : ConnId)
  /-- The query part of it. -/
  | cancelQueries (c : ConnId)
  /-- The pump of a query reports its end. -/
  | queryFinished (query : QueryId)
  /-- The actor handles the oldest command. -/
  | handle (setup : Option String)
  deriving DecidableEq, Repr

def setConn (w : World) (c : ConnId) (x : Connection) : World :=
  { w with conns := Function.update w.conns c x }

def setPhase (w : World) (c : ConnId) (phase : Phase) : World :=
  w.setConn c { w.conns c with phase }

def push (w : World) (cmd : ServerCommand) : World := { w with queue := w.queue ++ [cmd] }

/-- Answer the connection that waits for the reply to the handled command. -/
def answer (w : World) : ServerCommand → Option Reply → World
  | .request _ c, some reply =>
      match (w.conns c).phase with
      | .awaiting arm none => w.setPhase c (.awaiting arm (some reply))
      | _ => w
  | _, _ => w

def step (w : World) : Act → Option World
  | .connect c => if (w.conns c).phase = .absent then some (w.setPhase c .serving) else none
  | .request c r =>
      if (w.conns c).phase = .serving then
        some ((w.push (.request r c)).setPhase c (.awaiting (.ofRequest r) none))
      else none
  | .reply c written =>
      match (w.conns c).phase with
      | .awaiting arm (some reply) =>
          some (w.setConn c { arm.apply reply (w.conns c) with
            -- the server's answer counts, whether or not it could be written
            phase := if written then .serving else .broken })
      | _ => none
  | .eof c => if (w.conns c).phase = .serving then some (w.setPhase c .broken) else none
  | .disconnect c =>
      if (w.conns c).phase = .broken then
        match (w.conns c).openedClient with
        -- the client is named by what this connection remembers, not by what the server holds
        | some client => some ((w.push (.disconnect client c)).setPhase c .leaving)
        | none => some (w.setPhase c .leaving)
      else none
  | .cancelQueries c =>
      if (w.conns c).phase = .leaving then
        match (w.conns c).openedQueries with
        | [] => some (w.setPhase c .gone)
        | q :: qs => some ((w.push (.cancelQueries (q :: qs))).setPhase c .gone)
      else none
  | .queryFinished query => some (w.push (.queryFinished query))
  | .handle setup =>
      match w.queue with
      | [] => none
      | cmd :: rest =>
          let (reply, server) := w.server.handle setup cmd
          some ({ w with server, queue := rest }.answer cmd reply)

end World

end Daemon

end Datamancer
