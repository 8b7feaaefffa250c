import Mathlib.Data.List.Perm.Basic
import Mathlib.Data.List.Nodup
import Datamancer.Daemon.ControlServer

/-!
# Datamancer.Daemon.Registry

The two tables of the server actor and what an open or a removal does to them step by step
(`datamancerd/server.rs`): the sink, the seed subscriptions, the session and the stream of an
open may each fail, after an id or a session has been taken. `ControlServer` keeps of this only
the names and ids; `receive_toServer` says that it is what the tables show.

A registry keeps beside its tables what it has done so far: the ids handed out in replies, the
query entries inserted and removed, and the query sessions closed. No command reads these. By
them an entry is over, removed once and its session closed once, exactly from the end of its
query on (`over_step`). Ids are counted without bound; the source counts them in a `u64`
(`handed_u64`).
-/

namespace Datamancer

namespace Daemon

def Codes.internal : String := "internal"

abbrev SessionId := Nat

/-- One in-flight historical query. -/
structure QueryEntry where
  query : QueryId
  session : SessionId
  deriving DecidableEq, Repr

/-- How the parts of an open end: each in success, or in an error of some code. A request that
opens nothing ends as `other` says. -/
structure Setup where
  sinkFails : Bool
  subscriptions : List (Option String)
  session : Option String
  stream : Option String
  other : Option String
  deriving DecidableEq, Repr

structure Registry where
  clients : List ClientEntry
  queries : List QueryEntry
  nextClientId : Nat
  maxClients : Nat
  maxQueries : Nat
  draining : Bool
  /-- How many query sessions were opened; the next one is named by it. -/
  sessions : SessionId
  /-- The query sessions closed, in their order. -/
  closed : List SessionId
  /-- The ids handed out, in their order. -/
  handed : List Nat
  inserted : List QueryEntry
  removed : List QueryEntry
  deriving DecidableEq, Repr

namespace Registry

def boot (maxClients maxQueries : Nat) : Registry where
  clients := []
  queries := []
  nextClientId := 0
  maxClients := maxClients
  maxQueries := maxQueries
  draining := false
  sessions := 0
  closed := []
  handed := []
  inserted := []
  removed := []

/-! ### The tables -/

/-- The next id goes out in a reply. -/
def handOut (r : Registry) : Registry :=
  { r with nextClientId := r.nextClientId + 1, handed := r.handed ++ [r.nextClientId] }

/-- An insertion takes the place of an entry of the same name. -/
def insertClient (r : Registry) (entry : ClientEntry) : Registry :=
  { r with clients := r.clients.filter (·.name ≠ entry.name) ++ [entry] }

def insertQuery (r : Registry) (entry : QueryEntry) : Registry :=
  { r with
    queries := r.queries.filter (·.query ≠ entry.query) ++ [entry]
    inserted := r.inserted ++ [entry] }

def removeQuery (r : Registry) (query : QueryId) : Option (QueryEntry × Registry) :=
  match r.queries.find? (·.query = query) with
  | none => none
  | some entry =>
      some (entry, { r with
        queries := r.queries.filter (·.query ≠ query)
        removed := r.removed ++ [entry] })

def closeQuerySession (r : Registry) (session : SessionId) : Registry :=
  { r with closed := r.closed ++ [session] }

/-! ### Commands -/

def openClient (r : Registry) (conn : ConnId) (client : String) (setup : Setup) :
    Reply × Registry :=
  if r.clients.any (·.name = client) then (.error Codes.duplicateClient, r)
  else if r.maxClients ≤ r.clients.length then (.error Codes.serviceCapExceeded, r)
  else if setup.sinkFails then (.error Codes.internal, r)
  else
    -- the seed subscriptions end at the first that fails
    match setup.subscriptions.findSome? id with
    | some code => (.error code, r)
    | none =>
        match setup.stream with
        | some code => (.error code, r)
        | none => (.success, (r.insertClient ⟨client, r.nextClientId, conn⟩).handOut)

def openQuery (r : Registry) (fromTs toTs : Timestamp) (setup : Setup) : Reply × Registry :=
  match Server.validateQueryOpen fromTs toTs r.queries.length r.maxQueries with
  | some reply => (reply, r)
  | none =>
      match setup.session with
      | some code => (.error code, r)
      | none =>
          let session := r.sessions
          let r := { r with sessions := r.sessions + 1 }
          -- past this point the session is live: every error path closes it
          if setup.sinkFails then (.error Codes.internal, r.closeQuerySession session)
          else
            match setup.stream with
            | some code => (.error code, r.closeQuerySession session)
            | none =>
                (.openedQuery r.nextClientId,
                  (r.insertQuery ⟨r.nextClientId, session⟩).handOut)

def cancelQuery (r : Registry) (query : QueryId) : Reply × Registry :=
  match r.removeQuery query with
  | some (entry, r) => (.success, r.closeQuerySession entry.session)
  | none => (.error Codes.unknownQuery, r)

/-- The `QueryFinished` arm of `handle`. -/
def queryFinished (r : Registry) (query : QueryId) : Registry :=
  match r.removeQuery query with
  | some (entry, r) => r.closeQuerySession entry.session
  | none => r

def abortAllQueries (r : Registry) : Registry :=
  { r with
    queries := []
    removed := r.removed ++ r.queries
    closed := r.closed ++ r.queries.map QueryEntry.session }

def teardownClient (r : Registry) (client : String) : Registry :=
  { r with clients := r.clients.filter (·.name ≠ client) }

def dispatch (r : Registry) (conn : ConnId) (setup : Setup) : Request → Reply × Registry
  | .openClient client => r.openClient conn client setup
  | .closeClient client =>
      if r.clients.any (·.name = client) then (.success, r.teardownClient client)
      else (.error Codes.unknownClient, r)
  | .openQuery fromTs toTs => r.openQuery fromTs toTs setup
  | .cancelQuery query => r.cancelQuery query
  | .shutdown => (.error Codes.shuttingDown, r)
  | .other => (match setup.other with | some code => .error code | none => .success, r)

/-- The loop ends: every query is aborted and every client taken down. -/
def drain (r : Registry) : Registry := { r.abortAllQueries with clients := [], draining := true }

def handle (r : Registry) (setup : Setup) : ServerCommand → Option Reply × Registry
  | .request request conn =>
      if request = .shutdown then (some .success, r.drain)
      else (some (r.dispatch conn setup request).1, (r.dispatch conn setup request).2)
  | .disconnect client _ => (none, r.teardownClient client)
  | .queryFinished query => (none, r.queryFinished query)
  | .cancelQueries queries => (none, queries.foldl (fun r q => (r.cancelQuery q).2) r)

/-- What `drain_servicing_late_requests` answers. -/
def lateReply : ServerCommand → Option Reply
  | .request _ _ => some (.error Codes.shuttingDown)
  | _ => none

/-- A command is received: by the loop, or by the drain after it. -/
def receive (r : Registry) (setup : Setup) (cmd : ServerCommand) : Option Reply × Registry :=
  if r.draining then (lateReply cmd, r) else r.handle setup cmd

inductive Event
  | command (setup : Setup) (cmd : ServerCommand)
  /-- A signal to end the process. -/
  | terminate
  deriving DecidableEq, Repr

def step (r : Registry) : Event → Registry
  | .command setup cmd => (r.receive setup cmd).2
  | .terminate => if r.draining then r else r.drain

/-- The actor after commands in any order. -/
def run (r : Registry) (es : List Event) : Registry := es.foldl step r

/-! ### The end of a query -/

/-- The event is the end of the query: its pump reports, it is cancelled, a connection that had
opened it has ended, or the actor drains. -/
def Event.Ends (query : QueryId) : Event → Prop
  | .command _ (.queryFinished q) => q = query
  | .command _ (.request (.cancelQuery q) _) => q = query
  | .command _ (.cancelQueries qs) => query ∈ qs
  | .command _ (.request .shutdown _) | .terminate => True
  | .command _ (.request (.openClient _) _) | .command _ (.request (.closeClient _) _)
  | .command _ (.request (.openQuery _ _) _) | .command _ (.request .other _)
  | .command _ (.disconnect _ _) => False

/-- The entry has left the table, was removed once, and its session was closed once. -/
def Over (r : Registry) (e : QueryEntry) : Prop :=
  e ∉ r.queries ∧ r.removed.count e = 1 ∧ r.closed.count e.session = 1

/-- What a connection remembers after these requests and their replies. -/
def served (pairs : List (Request × Reply)) : Connection :=
  pairs.foldl (fun c p => (TeardownArm.ofRequest p.1).apply p.2 c) ⟨.serving, none, []⟩

/-- The query was opened over the connection, which has not asked to cancel it. -/
def Opened (pairs : List (Request × Reply)) (query : QueryId) : Prop :=
  ∃ before fromTs toTs after,
    pairs = before ++ (.openQuery fromTs toTs, .openedQuery query) :: after
      ∧ ∀ p ∈ after, p.1 ≠ .cancelQuery query

/-- What the end of file of a connection asks of the actor. -/
def emergencyTeardown (conn : ConnId) (c : Connection) : List ServerCommand :=
  (c.openedClient.map (.disconnect · conn)).toList ++
    if c.openedQueries = [] then [] else [.cancelQueries c.openedQueries]

/-! ### The invariant -/

/-- The ids of the data services of live clients and queries. -/
def liveIds (r : Registry) : List Nat :=
  r.clients.map ClientEntry.service ++ r.queries.map QueryEntry.query

/-- Ids are handed out in their order and the live ones are among them; an entry inserted is in
the table or was removed; a session opened is held by an entry or was closed. -/
structure Inv (maxClients maxQueries : Nat) (r : Registry) : Prop where
  clientCap : r.maxClients = maxClients
  queryCap : r.maxQueries = maxQueries
  clients : r.clients.length ≤ maxClients
  queries : r.queries.length ≤ maxQueries
  live : r.liveIds.Nodup
  fresh : ∀ id ∈ r.liveIds, id < r.nextClientId
  handed : r.handed = List.range r.nextClientId
  inserted : (r.inserted.map QueryEntry.query).Sublist r.handed
  entries : (r.removed ++ r.queries).Perm r.inserted
  sessions : (r.closed ++ r.queries.map QueryEntry.session).Perm (List.range r.sessions)
  closes : ∀ e ∈ r.removed, e.session ∈ r.closed
  drained : r.draining = true → r.clients = [] ∧ r.queries = []

variable {maxClients maxQueries : Nat} {r : Registry}

theorem inv_boot : Inv maxClients maxQueries (boot maxClients maxQueries) where
  clientCap := rfl
  queryCap := rfl
  clients := Nat.zero_le _
  queries := Nat.zero_le _
  live := List.nodup_nil
  fresh := fun _ h => absurd h List.not_mem_nil
  handed := rfl
  inserted := List.Sublist.slnil
  entries := List.Perm.nil
  sessions := List.Perm.nil
  closes := fun _ h => absurd h List.not_mem_nil
  drained := fun h => by cases h

/-- The next id is that of no live client or query. -/
theorem Inv.unused (h : Inv maxClients maxQueries r) : r.nextClientId ∉ r.liveIds :=
  fun hmem => Nat.lt_irrefl _ (h.fresh _ hmem)

theorem Inv.handOut_handed (h : Inv maxClients maxQueries r) :
    r.handed ++ [r.nextClientId] = List.range (r.nextClientId + 1) := by
  rw [h.handed, List.range_succ]

/-- Fewer clients: nothing else changes. -/
theorem Inv.teardownClient (h : Inv maxClients maxQueries r) (client : String) :
    Inv maxClients maxQueries (r.teardownClient client) := by
  have hsub : (r.teardownClient client).clients.Sublist r.clients := List.filter_sublist
  have hlive : (r.teardownClient client).liveIds.Sublist r.liveIds :=
    (hsub.map ClientEntry.service).append_right _
  exact { h with
    clients := hsub.length_le.trans h.clients
    live := h.live.sublist hlive
    fresh := fun id hid => h.fresh id (hlive.subset hid)
    drained := fun hd => by
      obtain ⟨hclients, hqueries⟩ := h.drained hd
      exact ⟨List.sublist_nil.mp (hclients ▸ hsub), hqueries⟩ }

/-- A client is inserted under the next id, below the cap. -/
theorem Inv.insertClient (h : Inv maxClients maxQueries r) (hlive : r.draining = false)
    (hcap : r.clients.length < r.maxClients) (client : String) (conn : ConnId) :
    Inv maxClients maxQueries (r.insertClient ⟨client, r.nextClientId, conn⟩).handOut := by
  have hless := h.teardownClient client
  have hclients : (r.insertClient ⟨client, r.nextClientId, conn⟩).handOut.clients
      = (r.teardownClient client).clients ++ [⟨client, r.nextClientId, conn⟩] := rfl
  have hids : ((r.insertClient ⟨client, r.nextClientId, conn⟩).handOut.liveIds).Perm
      (r.nextClientId :: (r.teardownClient client).liveIds) := by
    rw [liveIds, hclients, List.map_append, List.append_assoc]
    exact List.perm_middle
  exact { h with
    clients := by
      have hlen : (r.teardownClient client).clients.length ≤ r.clients.length :=
        List.filter_sublist.length_le
      have hmax := h.clientCap
      rw [hclients, List.length_append, List.length_singleton]
      omega
    live := hids.nodup_iff.mpr (List.nodup_cons.mpr ⟨hless.unused, hless.live⟩)
    fresh := fun id hid => by
      rcases List.mem_cons.mp (hids.mem_iff.mp hid) with rfl | hid
      · exact Nat.lt_succ_self _
      · exact Nat.lt_succ_of_lt (hless.fresh id hid)
    handed := h.handOut_handed
    inserted := h.inserted.trans (List.sublist_append_left _ _)
    drained := fun hd => absurd (hd.symm.trans hlive) (by decide) }

/-- A session is opened and closed again. -/
theorem Inv.failedOpen (h : Inv maxClients maxQueries r) :
    Inv maxClients maxQueries
      (({ r with sessions := r.sessions + 1 } : Registry).closeQuerySession r.sessions) :=
  { h with
    sessions := by
      show ((r.closed ++ [r.sessions]) ++ _).Perm (List.range (r.sessions + 1))
      rw [List.range_succ, List.append_assoc]
      refine (List.Perm.append_left _ List.perm_append_comm).trans ?_
      rw [← List.append_assoc]
      exact h.sessions.append_right _
    closes := fun e he => List.mem_append_left _ (h.closes e he) }

theorem Inv.filter_next (h : Inv maxClients maxQueries r) :
    r.queries.filter (·.query ≠ r.nextClientId) = r.queries := by
  refine List.filter_eq_self.mpr fun e he => ?_
  have hlt := h.fresh e.query (List.mem_append_right _ (List.mem_map_of_mem he))
  exact decide_eq_true (Nat.ne_of_lt hlt)

/-- A query is inserted under the next id with a session of its own, below the cap. -/
theorem Inv.insertQuery (h : Inv maxClients maxQueries r) (hlive : r.draining = false)
    (hcap : r.queries.length < r.maxQueries) :
    Inv maxClients maxQueries ((({ r with sessions := r.sessions + 1 } : Registry).insertQuery
      ⟨r.nextClientId, r.sessions⟩).handOut) := by
  have hqueries : ((({ r with sessions := r.sessions + 1 } : Registry).insertQuery
      ⟨r.nextClientId, r.sessions⟩).handOut).queries
      = r.queries ++ [⟨r.nextClientId, r.sessions⟩] := congrArg (· ++ _) h.filter_next
  have hids : ((({ r with sessions := r.sessions + 1 } : Registry).insertQuery
      ⟨r.nextClientId, r.sessions⟩).handOut).liveIds = r.liveIds ++ [r.nextClientId] := by
    rw [liveIds, hqueries, List.map_append, ← List.append_assoc]
    rfl
  exact { h with
    queries := by
      have hmax := h.queryCap
      rw [hqueries, List.length_append, List.length_singleton]
      omega
    live := by
      rw [hids]
      exact List.nodup_append_comm.mp (List.nodup_cons.mpr ⟨h.unused, h.live⟩)
    fresh := fun id hid => by
      rw [hids] at hid
      rcases List.mem_append.mp hid with hid | hid
      · exact Nat.lt_succ_of_lt (h.fresh id hid)
      · rw [List.mem_singleton.mp hid]
        exact Nat.lt_succ_self _
    handed := h.handOut_handed
    inserted := by
      show ((r.inserted ++ [_]).map QueryEntry.query).Sublist (r.handed ++ [_])
      rw [List.map_append]
      exact h.inserted.append (List.Sublist.refl _)
    entries := by
      rw [hqueries, ← List.append_assoc]
      exact h.entries.append_right _
    sessions := by
      rw [hqueries, List.map_append, ← List.append_assoc]
      show ((r.closed ++ r.queries.map QueryEntry.session) ++ [r.sessions]).Perm
        (List.range (r.sessions + 1))
      rw [List.range_succ]
      exact h.sessions.append_right _
    drained := fun hd => absurd (hd.symm.trans hlive) (by decide) }

/-- Under distinct ids, the entry found and those of other ids are the whole table. -/
theorem perm_of_find? {l : List QueryEntry} {query : QueryId} {e : QueryEntry}
    (hnodup : (l.map QueryEntry.query).Nodup) (h : l.find? (·.query = query) = some e) :
    (e :: l.filter (·.query ≠ query)).Perm l := by
  induction l with
  | nil => cases h
  | cons d l ih =>
      obtain ⟨hd, hl⟩ := List.nodup_cons.mp hnodup
      by_cases heq : d.query = query
      · rw [List.find?_cons_of_pos (by simpa using heq)] at h
        cases h
        have hrest : l.filter (·.query ≠ query) = l := by
          refine List.filter_eq_self.mpr fun x hx => decide_eq_true fun hxq => hd ?_
          exact List.mem_map.mpr ⟨x, hx, hxq.trans heq.symm⟩
        rw [List.filter_cons_of_neg (by simpa using heq), hrest]
      · rw [List.find?_cons_of_neg (by simpa using heq)] at h
        rw [List.filter_cons_of_pos (by simpa using heq)]
        exact (List.Perm.swap d e _).trans ((ih hl h).cons d)

theorem Inv.queryIds (h : Inv maxClients maxQueries r) :
    (r.queries.map QueryEntry.query).Nodup :=
  h.live.sublist (List.sublist_append_right _ _)

/-- An entry is removed and its session closed. -/
theorem Inv.removeQuery (h : Inv maxClients maxQueries r) {query : QueryId} {e : QueryEntry}
    {r' : Registry} (hr : r.removeQuery query = some (e, r')) :
    Inv maxClients maxQueries (r'.closeQuerySession e.session) := by
  rw [Registry.removeQuery] at hr
  split at hr
  · cases hr
  · rename_i e' hfind
    cases hr
    have hperm := perm_of_find? h.queryIds hfind
    have hsub : (r.queries.filter (·.query ≠ query)).Sublist r.queries := List.filter_sublist
    have hlive : (r.clients.map ClientEntry.service
        ++ (r.queries.filter (·.query ≠ query)).map QueryEntry.query).Sublist r.liveIds :=
      (hsub.map QueryEntry.query).append_left _
    exact { h with
      queries := hsub.length_le.trans h.queries
      live := h.live.sublist hlive
      fresh := fun id hid => h.fresh id (hlive.subset hid)
      entries := by
        show ((r.removed ++ [e]) ++ _).Perm r.inserted
        rw [List.append_assoc]
        exact (hperm.append_left r.removed).trans h.entries
      sessions := by
        show ((r.closed ++ [e.session]) ++ _).Perm _
        rw [List.append_assoc]
        exact ((hperm.map QueryEntry.session).append_left r.closed).trans h.sessions
      closes := fun d hd => by
        rcases List.mem_append.mp hd with hd | hd
        · exact List.mem_append_left _ (h.closes d hd)
        · rw [List.mem_singleton.mp hd]
          exact List.mem_append_right _ (List.mem_singleton_self _)
      drained := fun hd => by
        obtain ⟨hclients, hqueries⟩ := h.drained hd
        exact ⟨hclients, List.sublist_nil.mp (hqueries ▸ hsub)⟩ }

theorem Inv.drain (h : Inv maxClients maxQueries r) : Inv maxClients maxQueries r.drain :=
  { h with
    clients := Nat.zero_le _
    queries := Nat.zero_le _
    live := List.nodup_nil
    fresh := fun _ hid => absurd hid List.not_mem_nil
    entries := by
      show ((r.removed ++ r.queries) ++ []).Perm _
      rw [List.append_nil]
      exact h.entries
    sessions := by
      show ((r.closed ++ r.queries.map QueryEntry.session) ++ []).Perm _
      rw [List.append_nil]
      exact h.sessions
    closes := fun e he => by
      rcases List.mem_append.mp he with he | he
      · exact List.mem_append_left _ (h.closes e he)
      · exact List.mem_append_right _ (List.mem_map_of_mem he)
    drained := fun _ => ⟨rfl, rfl⟩ }

/-! ### Commands in any order -/

theorem inv_openClient (h : Inv maxClients maxQueries r) (hlive : r.draining = false)
    (conn : ConnId) (client : String) (setup : Setup) :
    Inv maxClients maxQueries (r.openClient conn client setup).2 := by
  rw [openClient]
  split_ifs with hdup hcap hsink
  · exact h
  · exact h
  · exact h
  · cases setup.subscriptions.findSome? id with
    | some code => exact h
    | none =>
        cases setup.stream with
        | some code => exact h
        | none => exact h.insertClient hlive (Nat.lt_of_not_le hcap) client conn

theorem inv_openQuery (h : Inv maxClients maxQueries r) (hlive : r.draining = false)
    (fromTs toTs : Timestamp) (setup : Setup) :
    Inv maxClients maxQueries (r.openQuery fromTs toTs setup).2 := by
  rw [openQuery]
  cases hvalid : Server.validateQueryOpen fromTs toTs r.queries.length r.maxQueries with
  | some reply => exact h
  | none =>
      have hcap : r.queries.length < r.maxQueries := by
        rw [Server.validateQueryOpen] at hvalid
        split_ifs at hvalid with hrange hcap
        exact Nat.lt_of_not_le hcap
      cases setup.session with
      | some code => exact h
      | none =>
          show Inv _ _ (Prod.snd (if _ then _ else _))
          split_ifs with hsink
          · exact h.failedOpen
          · cases setup.stream with
            | some code => exact h.failedOpen
            | none => exact h.insertQuery hlive hcap

theorem inv_cancelQuery (h : Inv maxClients maxQueries r) (query : QueryId) :
    Inv maxClients maxQueries (r.cancelQuery query).2 := by
  rw [cancelQuery]
  split
  · rename_i e r' hr
    exact h.removeQuery hr
  · exact h

theorem inv_queryFinished (h : Inv maxClients maxQueries r) (query : QueryId) :
    Inv maxClients maxQueries (r.queryFinished query) := by
  rw [queryFinished]
  split
  · rename_i e r' hr
    exact h.removeQuery hr
  · exact h

theorem inv_cancelAll (h : Inv maxClients maxQueries r) (queries : List QueryId) :
    Inv maxClients maxQueries (queries.foldl (fun r q => (r.cancelQuery q).2) r) := by
  induction queries generalizing r with
  | nil => exact h
  | cons q qs ih => exact ih (inv_cancelQuery h q)

theorem inv_dispatch (h : Inv maxClients maxQueries r) (hlive : r.draining = false)
    (conn : ConnId) (setup : Setup) (request : Request) :
    Inv maxClients maxQueries (r.dispatch conn setup request).2 := by
  cases request with
  | openClient client => exact inv_openClient h hlive conn client setup
  | closeClient client =>
      rw [dispatch]
      split_ifs
      · exact h.teardownClient client
      · exact h
  | openQuery fromTs toTs => exact inv_openQuery h hlive fromTs toTs setup
  | cancelQuery query => exact inv_cancelQuery h query
  | shutdown => exact h
  | other => exact h

theorem inv_step (h : Inv maxClients maxQueries r) (e : Event) :
    Inv maxClients maxQueries (r.step e) := by
  cases hd : r.draining with
  | true =>
      have hsame : r.step e = r := by
        cases e with
        | command setup cmd => rw [step, receive, if_pos hd]
        | terminate => rw [step, if_pos hd]
      rwa [hsame]
  | false =>
      have hlive : ¬ r.draining = true := by rw [hd]; decide
      cases e with
      | command setup cmd =>
          rw [step, receive, if_neg hlive]
          cases cmd with
          | request request conn =>
              rw [handle]
              split_ifs
              · exact h.drain
              · exact inv_dispatch h hd conn setup request
          | disconnect client sender => exact h.teardownClient client
          | queryFinished query => exact inv_queryFinished h query
          | cancelQueries queries => exact inv_cancelAll h queries
      | terminate =>
          rw [step, if_neg hlive]
          exact h.drain

theorem inv_run (es : List Event) :
    Inv maxClients maxQueries ((boot maxClients maxQueries).run es) := by
  have hall : ∀ {r : Registry},
      Inv maxClients maxQueries r → Inv maxClients maxQueries (r.run es) := by
    induction es with
    | nil => exact fun h => h
    | cons e es ih => exact fun h => ih (inv_step h e)
  exact hall inv_boot

/-! ### The log of ids -/

/-- The ids handed out are those in the replies to queries. -/
theorem handed_openQuery (r : Registry) (fromTs toTs : Timestamp) (setup : Setup) :
    (r.openQuery fromTs toTs setup).2.handed
      = r.handed ++ (r.openQuery fromTs toTs setup).1.query.toList := by
  rw [openQuery]
  cases hvalid : Server.validateQueryOpen fromTs toTs r.queries.length r.maxQueries with
  | some reply =>
      rw [Server.validateQueryOpen] at hvalid
      split_ifs at hvalid <;> cases hvalid <;> exact (List.append_nil _).symm
  | none =>
      obtain ⟨sinkFails, subscriptions, session, stream, other⟩ := setup
      cases session <;> cases sinkFails <;> cases stream <;>
        first | exact (List.append_nil _).symm | rfl

/-- And the ids that name the services in the replies to clients. -/
theorem handed_openClient (r : Registry) (conn : ConnId) (client : String) (setup : Setup) :
    (r.openClient conn client setup).2.handed
      = r.handed ++ if (r.openClient conn client setup).1.ok then [r.nextClientId] else [] := by
  by_cases hdup : r.clients.any (·.name = client) = true
  · rw [openClient, if_pos hdup]
    exact (List.append_nil _).symm
  by_cases hcap : r.maxClients ≤ r.clients.length
  · rw [openClient, if_neg hdup, if_pos hcap]
    exact (List.append_nil _).symm
  rw [openClient, if_neg hdup, if_neg hcap]
  obtain ⟨sinkFails, subscriptions, session, stream, other⟩ := setup
  cases hsub : subscriptions.findSome? id <;> cases sinkFails <;> cases stream <;>
    first | exact (List.append_nil _).symm | rfl

/-- As `u64`s they are distinct up to the last of them. -/
theorem handed_u64 (h : Inv maxClients maxQueries r) (hmax : r.nextClientId ≤ UInt64.size) :
    (r.handed.map UInt64.ofNat).Nodup := by
  rw [h.handed]
  refine List.Nodup.map_on (fun a ha b hb hab => ?_) List.nodup_range
  have hval : ∀ {id : Nat}, id ∈ List.range r.nextClientId → (UInt64.ofNat id).toNat = id :=
    fun hid => UInt64.toNat_ofNat_of_lt' (Nat.lt_of_lt_of_le (List.mem_range.mp hid) hmax)
  calc
    a = (UInt64.ofNat a).toNat := (hval ha).symm
    _ = (UInt64.ofNat b).toNat := congrArg UInt64.toNat hab
    _ = b := hval hb

/-! ### The names and ids alone -/

/-- What `ControlServer` keeps of the tables. -/
def toServer (r : Registry) : Server :=
  ⟨r.clients, r.queries.map QueryEntry.query, r.nextClientId, r.maxClients, r.maxQueries,
    r.draining⟩

/-- How setting up ends as a whole. -/
def outcome (setup : Setup) : ServerCommand → Option String
  | .request (.openClient _) _ =>
      if setup.sinkFails then some Codes.internal
      else (setup.subscriptions.findSome? id).or setup.stream
  | .request (.openQuery _ _) _ =>
      setup.session.or (if setup.sinkFails then some Codes.internal else setup.stream)
  | .request .other _ => setup.other
  | _ => none

theorem toServer_openClient (r : Registry) (conn : ConnId) (client : String) (setup : Setup) :
    r.toServer.openClient conn client (outcome setup (.request (.openClient client) conn))
      = ((r.openClient conn client setup).1, (r.openClient conn client setup).2.toServer) := by
  unfold Server.openClient openClient
  by_cases hdup : r.clients.any (·.name = client) = true
  · rw [if_pos hdup]
    exact if_pos hdup
  rw [if_neg hdup]
  refine (if_neg hdup).trans ?_
  by_cases hcap : r.maxClients ≤ r.clients.length
  · rw [if_pos hcap]
    exact if_pos hcap
  rw [if_neg hcap]
  refine (if_neg hcap).trans ?_
  -- the insertion replaces nothing, as the name is not there
  have hkept : r.clients.filter (·.name ≠ client) = r.clients := by
    refine List.filter_eq_self.mpr fun e he => decide_eq_true fun hname => hdup ?_
    exact List.any_eq_true.mpr ⟨e, he, decide_eq_true hname⟩
  obtain ⟨sinkFails, subscriptions, session, stream, other⟩ := setup
  unfold outcome
  cases sinkFails with
  | true => rfl
  | false =>
      cases hsub : subscriptions.findSome? id with
      | some code => rfl
      | none =>
          cases stream with
          | some code => rfl
          | none =>
              exact congrArg (fun kept => (Reply.success, { r.toServer with
                nextClientId := r.nextClientId + 1
                clients := kept ++ [(⟨client, r.nextClientId, conn⟩ : ClientEntry)] })) hkept.symm

theorem filter_queries (l : List QueryEntry) (query : QueryId) :
    (l.filter (·.query ≠ query)).map QueryEntry.query
      = (l.map QueryEntry.query).filter (· ≠ query) := by
  rw [List.filter_map]
  rfl

theorem toServer_openQuery (h : Inv maxClients maxQueries r) (fromTs toTs : Timestamp)
    (conn : ConnId) (setup : Setup) :
    r.toServer.openQuery fromTs toTs (outcome setup (.request (.openQuery fromTs toTs) conn))
      = ((r.openQuery fromTs toTs setup).1, (r.openQuery fromTs toTs setup).2.toServer) := by
  unfold Server.openQuery openQuery
  have hvalid : Server.validateQueryOpen fromTs toTs r.toServer.queries.length r.toServer.maxQueries
      = Server.validateQueryOpen fromTs toTs r.queries.length r.maxQueries := by
    rw [show r.toServer.queries.length = r.queries.length from List.length_map _]
    rfl
  rw [hvalid]
  cases Server.validateQueryOpen fromTs toTs r.queries.length r.maxQueries with
  | some reply => rfl
  | none =>
      obtain ⟨sinkFails, subscriptions, session, stream, other⟩ := setup
      cases session with
      | some code => rfl
      | none =>
          cases sinkFails with
          | true => rfl
          | false =>
              cases stream with
              | some code => rfl
              | none =>
                  have hids : (r.queries.filter (·.query ≠ r.nextClientId)
                      ++ [(⟨r.nextClientId, r.sessions⟩ : QueryEntry)]).map QueryEntry.query
                      = r.queries.map QueryEntry.query ++ [r.nextClientId] := by
                    rw [h.filter_next, List.map_append]
                    rfl
                  exact congrArg (fun ids => (Reply.openedQuery r.nextClientId, { r.toServer with
                    nextClientId := r.nextClientId + 1
                    queries := ids })) hids.symm

/-- A query is removed from both if it is in either. -/
theorem toServer_cancelQuery (r : Registry) (query : QueryId) :
    r.toServer.cancelQuery query = ((r.cancelQuery query).1, (r.cancelQuery query).2.toServer) := by
  unfold Server.cancelQuery cancelQuery removeQuery
  cases hfind : r.queries.find? (·.query = query) with
  | none =>
      refine if_neg fun hmem => ?_
      obtain ⟨e, he, heq⟩ := List.mem_map.mp hmem
      exact List.find?_eq_none.mp hfind e he (decide_eq_true heq)
  | some entry =>
      have hmem : query ∈ r.queries.map QueryEntry.query :=
        List.mem_map.mpr ⟨entry, List.mem_of_find?_eq_some hfind,
          of_decide_eq_true (List.find?_some (p := fun e : QueryEntry => e.query = query) hfind)⟩
      refine (if_pos hmem).trans ?_
      exact congrArg (fun ids => (Reply.success, { r.toServer with queries := ids }))
        (filter_queries r.queries query).symm

theorem toServer_queryFinished (r : Registry) (query : QueryId) :
    (r.queryFinished query).toServer
      = { r.toServer with queries := r.toServer.queries.filter (· ≠ query) } := by
  have hboth : (r.queryFinished query).toServer = (r.cancelQuery query).2.toServer := by
    unfold queryFinished cancelQuery
    cases r.removeQuery query <;> rfl
  have hcancel : (r.toServer.cancelQuery query).2 = (r.cancelQuery query).2.toServer :=
    congrArg Prod.snd (toServer_cancelQuery r query)
  rw [hboth, ← hcancel, Server.cancelQuery]
  split_ifs with hmem
  · rfl
  · have hkept : r.toServer.queries.filter (· ≠ query) = r.toServer.queries :=
      List.filter_eq_self.mpr fun id hid => decide_eq_true fun heq => hmem (heq ▸ hid)
    rw [hkept]

theorem toServer_cancelAll (r : Registry) (queries : List QueryId) :
    (queries.foldl (fun r q => (r.cancelQuery q).2) r).toServer
      = queries.foldl (fun s q => (s.cancelQuery q).2) r.toServer := by
  induction queries generalizing r with
  | nil => rfl
  | cons q qs ih =>
      rw [List.foldl_cons, List.foldl_cons, ih, toServer_cancelQuery]

theorem cancelAll_of_empty {s : Server} (h : s.queries = []) (queries : List QueryId) :
    queries.foldl (fun s q => (s.cancelQuery q).2) s = s := by
  induction queries with
  | nil => rfl
  | cons q qs ih =>
      have hq : q ∉ s.queries := by
        rw [h]
        exact List.not_mem_nil
      rw [List.foldl_cons, Server.cancelQuery, if_neg hq, ih]

theorem toServer_dispatch (h : Inv maxClients maxQueries r) (conn : ConnId) (setup : Setup)
    (request : Request) :
    r.toServer.dispatch conn (outcome setup (.request request conn)) request
      = ((r.dispatch conn setup request).1, (r.dispatch conn setup request).2.toServer) := by
  cases request with
  | openClient client => exact toServer_openClient r conn client setup
  | closeClient client =>
      simp only [Server.dispatch, dispatch]
      show (if r.clients.any (·.name = client) then _ else _) = _
      split_ifs <;> rfl
  | openQuery fromTs toTs => exact toServer_openQuery h fromTs toTs conn setup
  | cancelQuery query => exact toServer_cancelQuery r query
  | shutdown => rfl
  | other => rfl

/-- The tables show what the model of names and ids says of every command. -/
theorem receive_toServer (h : Inv maxClients maxQueries r) (setup : Setup) (cmd : ServerCommand) :
    r.toServer.handle (outcome setup cmd) cmd
      = ((r.receive setup cmd).1, (r.receive setup cmd).2.toServer) := by
  cases hd : r.draining with
  | true =>
      -- after the drain the tables are empty, and what the actor drops would have removed nothing
      obtain ⟨hclients, hqueries⟩ := h.drained hd
      have hids : r.toServer.queries = [] := by rw [toServer, hqueries, List.map_nil]
      rw [receive, if_pos hd]
      cases cmd with
      | request request conn => exact if_pos hd
      | disconnect client sender =>
          refine congrArg (none, ·) ?_
          rw [Server.teardownClient, show r.toServer.clients = [] from hclients, List.filter_nil,
            ← hclients]
          rfl
      | queryFinished query =>
          refine congrArg (none, ·) ?_
          show ({ r.toServer with queries := r.toServer.queries.filter (· ≠ query) } : Server) = _
          rw [hids, List.filter_nil, ← hids]
      | cancelQueries queries => exact congrArg (none, ·) (cancelAll_of_empty hids queries)
  | false =>
      have hlive : ¬ r.draining = true := by rw [hd]; decide
      rw [receive, if_neg hlive]
      cases cmd with
      | request request conn =>
          simp only [Server.handle, handle]
          refine (if_neg hlive).trans ?_
          by_cases hshut : request = .shutdown
          · rw [if_pos hshut, if_pos hshut]
            rfl
          · rw [if_neg hshut, if_neg hshut, toServer_dispatch h]
      | disconnect client sender => rfl
      | queryFinished query => exact congrArg (none, ·) (toServer_queryFinished r query).symm
      | cancelQueries queries => exact congrArg (none, ·) (toServer_cancelAll r queries).symm

/-- The commands as the model of names and ids takes them. -/
def serverStep (s : Server) : Event → Server
  | .command setup cmd => (s.handle (outcome setup cmd) cmd).2
  | .terminate => s.drain

/-- So do the tables after any commands. -/
theorem run_toServer (es : List Event) :
    ((boot maxClients maxQueries).run es).toServer
      = es.foldl serverStep (boot maxClients maxQueries).toServer := by
  have hall : ∀ {r : Registry}, Inv maxClients maxQueries r →
      (r.run es).toServer = es.foldl serverStep r.toServer := by
    induction es with
    | nil => exact fun _ => rfl
    | cons e es ih =>
        intro r h
        have hstep : (r.step e).toServer = serverStep r.toServer e := by
          cases e with
          | command setup cmd => exact (congrArg Prod.snd (receive_toServer h setup cmd)).symm
          | terminate =>
              rw [step]
              split_ifs with hd
              · obtain ⟨hclients, hqueries⟩ := h.drained hd
                rw [serverStep, Server.drain, toServer, hclients, hqueries, hd]
                rfl
              · rfl
        rw [List.foldl_cons, ← hstep]
        exact ih (inv_step h e)
  exact hall inv_boot

/-! ### Once each -/

theorem Inv.closed_once (h : Inv maxClients maxQueries r) :
    (r.closed ++ r.queries.map QueryEntry.session).Nodup :=
  h.sessions.nodup_iff.mpr List.nodup_range

theorem Inv.removed_once (h : Inv maxClients maxQueries r) : (r.removed ++ r.queries).Nodup := by
  refine h.entries.nodup_iff.mpr (List.Nodup.of_map QueryEntry.query ?_)
  refine List.Nodup.sublist h.inserted ?_
  rw [h.handed]
  exact List.nodup_range

/-- An entry is in the table with its session open, or was removed once and its session closed
once. -/
theorem Inv.entry (h : Inv maxClients maxQueries r) {e : QueryEntry} (he : e ∈ r.inserted) :
    (e ∈ r.queries ∧ r.removed.count e = 0 ∧ r.closed.count e.session = 0)
      ∨ e ∉ r.queries ∧ r.removed.count e = 1 ∧ r.closed.count e.session = 1 := by
  obtain ⟨hclosed, -, hapart⟩ := List.nodup_append.mp h.closed_once
  obtain ⟨hremoved, -, hdisjoint⟩ := List.nodup_append.mp h.removed_once
  rcases List.mem_append.mp (h.entries.mem_iff.mpr he) with hr | hq
  · refine .inr ⟨fun hq => hdisjoint e hr e hq rfl, ?_, ?_⟩
    · exact List.count_eq_one_of_mem hremoved hr
    · exact List.count_eq_one_of_mem hclosed (h.closes e hr)
  · refine .inl ⟨hq, ?_, ?_⟩
    · exact List.count_eq_zero.mpr fun hr => hdisjoint e hr e hq rfl
    · exact List.count_eq_zero.mpr fun hc =>
        hapart e.session hc e.session (List.mem_map_of_mem hq) rfl

/-- A session that was opened is held by an entry, or was closed once: also that of an open that
failed after it. -/
theorem Inv.session (h : Inv maxClients maxQueries r) {session : SessionId}
    (hs : session < r.sessions) :
    (∃ e ∈ r.queries, e.session = session) ∨ r.closed.count session = 1 := by
  have hmem := h.sessions.mem_iff.mpr (List.mem_range.mpr hs)
  rcases List.mem_append.mp hmem with hc | hq
  · exact .inr (List.count_eq_one_of_mem (List.nodup_append.mp h.closed_once).1 hc)
  · exact .inl (List.mem_map.mp hq)

theorem Inv.over_iff (h : Inv maxClients maxQueries r) {e : QueryEntry} (he : e ∈ r.inserted) :
    r.Over e ↔ e ∉ r.queries := by
  refine ⟨fun hover => hover.1, fun hq => ?_⟩
  rcases h.entry he with ⟨hq', -, -⟩ | hover
  · exact absurd hq' hq
  · exact hover

/-! ### What ends a query -/

/-- Of the entries ever made those are left in the table that do not end. -/
def Leaves (r r' : Registry) (ends : QueryId → Prop) : Prop :=
  ∀ e ∈ r.inserted, e ∈ r'.inserted ∧ (e ∈ r'.queries ↔ e ∈ r.queries ∧ ¬ ends e.query)

theorem leaves_of_eq {r' : Registry} {ends : QueryId → Prop} (hinserted : r'.inserted = r.inserted)
    (hqueries : r'.queries = r.queries) (hnone : ∀ query, ¬ ends query) : r.Leaves r' ends :=
  fun e he => ⟨hinserted ▸ he, by rw [hqueries, and_iff_left (hnone _)]⟩

/-- An entry with the next id is none of those made before. -/
theorem Inv.inserted_lt (h : Inv maxClients maxQueries r) {e : QueryEntry} (he : e ∈ r.inserted) :
    e.query < r.nextClientId := by
  have hmem := h.inserted.subset (List.mem_map_of_mem he)
  rw [h.handed] at hmem
  exact List.mem_range.mp hmem

theorem leaves_openClient (conn : ConnId) (client : String) (setup : Setup) :
    r.Leaves (r.openClient conn client setup).2 fun _ => False := by
  rw [openClient]
  split_ifs
  · exact leaves_of_eq rfl rfl fun _ => id
  · exact leaves_of_eq rfl rfl fun _ => id
  · exact leaves_of_eq rfl rfl fun _ => id
  · cases setup.subscriptions.findSome? id with
    | some code => exact leaves_of_eq rfl rfl fun _ => id
    | none =>
        cases setup.stream with
        | some code => exact leaves_of_eq rfl rfl fun _ => id
        | none => exact leaves_of_eq rfl rfl fun _ => id

theorem leaves_openQuery (h : Inv maxClients maxQueries r) (fromTs toTs : Timestamp)
    (setup : Setup) : r.Leaves (r.openQuery fromTs toTs setup).2 fun _ => False := by
  rw [openQuery]
  cases Server.validateQueryOpen fromTs toTs r.queries.length r.maxQueries with
  | some reply => exact leaves_of_eq rfl rfl fun _ => id
  | none =>
      cases setup.session with
      | some code => exact leaves_of_eq rfl rfl fun _ => id
      | none =>
          show r.Leaves (Prod.snd (if _ then _ else _)) _
          split_ifs
          · exact leaves_of_eq rfl rfl fun _ => id
          · cases setup.stream with
            | some code => exact leaves_of_eq rfl rfl fun _ => id
            | none =>
                intro e he
                refine ⟨List.mem_append_left _ he, ?_⟩
                show e ∈ r.queries.filter (·.query ≠ r.nextClientId) ++ [_] ↔ _
                rw [h.filter_next, List.mem_append, not_false_eq_true, and_true]
                refine or_iff_left fun hnew => ?_
                have hlt := h.inserted_lt he
                rw [List.mem_singleton.mp hnew] at hlt
                exact Nat.lt_irrefl _ hlt

theorem leaves_removeQuery {query : QueryId} {r' : Registry} (hinserted : r'.inserted = r.inserted)
    (hqueries : r'.queries = r.queries.filter (·.query ≠ query)) :
    r.Leaves r' fun q => query = q := by
  refine fun e he => ⟨hinserted ▸ he, ?_⟩
  rw [hqueries, List.mem_filter]
  exact and_congr_right fun _ => decide_eq_true_iff.trans ne_comm

theorem filter_of_find? {query : QueryId} (h : r.queries.find? (·.query = query) = none) :
    r.queries = r.queries.filter (·.query ≠ query) := by
  refine (List.filter_eq_self.mpr fun e he => ?_).symm
  have hne : e.query ≠ query := fun heq => List.find?_eq_none.mp h e he (decide_eq_true heq)
  exact decide_eq_true hne

theorem leaves_cancelQuery (query : QueryId) :
    r.Leaves (r.cancelQuery query).2 fun q => query = q := by
  unfold cancelQuery removeQuery
  cases hfind : r.queries.find? (·.query = query) with
  | none => exact leaves_removeQuery rfl (filter_of_find? hfind)
  | some entry => exact leaves_removeQuery rfl rfl

theorem leaves_queryFinished (query : QueryId) :
    r.Leaves (r.queryFinished query) fun q => query = q := by
  unfold queryFinished removeQuery
  cases hfind : r.queries.find? (·.query = query) with
  | none => exact leaves_removeQuery rfl (filter_of_find? hfind)
  | some entry => exact leaves_removeQuery rfl rfl

theorem leaves_cancelAll (queries : List QueryId) :
    r.Leaves (queries.foldl (fun r q => (r.cancelQuery q).2) r) (· ∈ queries) := by
  induction queries generalizing r with
  | nil => exact leaves_of_eq rfl rfl fun _ => List.not_mem_nil
  | cons q qs ih =>
      intro e he
      obtain ⟨he', hq⟩ := leaves_cancelQuery q e he
      obtain ⟨hinserted, hqs⟩ := ih e he'
      refine ⟨hinserted, hqs.trans ?_⟩
      rw [hq, and_assoc]
      refine and_congr_right fun _ => ?_
      show ¬ q = e.query ∧ e.query ∉ qs ↔ e.query ∉ q :: qs
      rw [List.mem_cons, not_or, eq_comm]

theorem leaves_dispatch (h : Inv maxClients maxQueries r) (conn : ConnId) (setup : Setup)
    (request : Request) (hrun : request ≠ .shutdown) :
    r.Leaves (r.dispatch conn setup request).2
      fun q => (Event.command setup (.request request conn)).Ends q := by
  cases request with
  | openClient client => exact leaves_openClient conn client setup
  | closeClient client =>
      rw [dispatch]
      split_ifs <;> exact leaves_of_eq rfl rfl fun _ => not_false
  | openQuery fromTs toTs => exact leaves_openQuery h fromTs toTs setup
  | cancelQuery query => exact leaves_cancelQuery query
  | shutdown => exact absurd rfl hrun
  | other => exact leaves_of_eq rfl rfl fun _ => not_false

theorem leaves_drain : r.Leaves r.drain fun _ => True := fun _ he =>
  ⟨he, iff_of_false List.not_mem_nil fun hq => hq.2 trivial⟩

theorem leaves_step (h : Inv maxClients maxQueries r) (ev : Event) :
    r.Leaves (r.step ev) fun q => ev.Ends q := by
  cases hd : r.draining with
  | true =>
      have hsame : r.step ev = r := by
        cases ev with
        | command setup cmd => rw [step, receive, if_pos hd]
        | terminate => rw [step, if_pos hd]
      have hnone : ∀ e, e ∉ r.queries := fun e => by
        rw [(h.drained hd).2]
        exact List.not_mem_nil
      rw [hsame]
      exact fun e he => ⟨he, iff_of_false (hnone e) fun hq => hnone e hq.1⟩
  | false =>
      have hlive : ¬ r.draining = true := by rw [hd]; decide
      cases ev with
      | command setup cmd =>
          rw [step, receive, if_neg hlive]
          cases cmd with
          | request request conn =>
              rw [handle]
              split_ifs with hshut
              · rw [hshut]
                exact leaves_drain
              · exact leaves_dispatch h conn setup request hshut
          | disconnect client sender => exact leaves_of_eq rfl rfl fun _ => not_false
          | queryFinished query => exact leaves_queryFinished query
          | cancelQueries queries => exact leaves_cancelAll queries
      | terminate =>
          rw [step, if_neg hlive]
          exact leaves_drain

/-- An event ends the queries it is the end of, and no other. -/
theorem over_step (h : Inv maxClients maxQueries r) (ev : Event) {e : QueryEntry}
    (he : e ∈ r.inserted) : (r.step ev).Over e ↔ r.Over e ∨ ev.Ends e.query := by
  obtain ⟨he', hq⟩ := leaves_step h ev e he
  rw [h.over_iff he, (inv_step h ev).over_iff he', hq, not_and_or, not_not]

theorem opened_of_openQuery (h : Inv maxClients maxQueries r) {fromTs toTs : Timestamp}
    {setup : Setup} {id : QueryId}
    (hr : (r.openQuery fromTs toTs setup).1 = .openedQuery id) :
    (⟨id, r.sessions⟩ : QueryEntry) ∉ r.inserted
      ∧ ⟨id, r.sessions⟩ ∈ (r.openQuery fromTs toTs setup).2.queries := by
  rw [openQuery] at hr ⊢
  cases hvalid : Server.validateQueryOpen fromTs toTs r.queries.length r.maxQueries with
  | some reply =>
      rw [hvalid] at hr
      rw [Server.validateQueryOpen] at hvalid
      split_ifs at hvalid <;> cases hvalid <;> cases hr
  | none =>
      rw [hvalid] at hr
      obtain ⟨sinkFails, subscriptions, session, stream, other⟩ := setup
      cases session with
      | some code => cases hr
      | none =>
          cases sinkFails with
          | true => cases hr
          | false =>
              cases stream with
              | some code => cases hr
              | none =>
                  cases hr
                  exact ⟨fun hmem => Nat.lt_irrefl _ (h.inserted_lt hmem),
                    List.mem_append_right _ (List.mem_singleton_self _)⟩

theorem query_openClient (r : Registry) (conn : ConnId) (client : String) (setup : Setup) :
    (r.openClient conn client setup).1.query = none := by
  rw [openClient]
  split_ifs
  · rfl
  · rfl
  · rfl
  · cases setup.subscriptions.findSome? id with
    | some code => rfl
    | none => cases setup.stream <;> rfl

/-- The reply to an open names the entry it has made. -/
theorem opened_of_receive (h : Inv maxClients maxQueries r) {setup : Setup} {cmd : ServerCommand}
    {id : QueryId} (hr : (r.receive setup cmd).1 = some (.openedQuery id)) :
    (⟨id, r.sessions⟩ : QueryEntry) ∉ r.inserted
      ∧ ⟨id, r.sessions⟩ ∈ (r.receive setup cmd).2.queries := by
  rw [receive] at hr ⊢
  split_ifs at hr ⊢ with hd
  · cases cmd <;> cases hr
  · cases cmd with
    | request request conn =>
        rw [handle] at hr ⊢
        split_ifs at hr ⊢ with hshut
        · cases hr
        · have hreply := Option.some.inj hr
          cases request with
          | openQuery fromTs toTs => exact opened_of_openQuery h hreply
          | openClient client =>
              have hnone := query_openClient r conn client setup
              rw [show (r.openClient conn client setup).1 = _ from hreply] at hnone
              cases hnone
          | closeClient client =>
              rw [dispatch] at hreply
              split_ifs at hreply <;> cases hreply
          | cancelQuery query =>
              rw [dispatch, cancelQuery] at hreply
              split at hreply <;> cases hreply
          | shutdown => cases hreply
          | other =>
              rw [dispatch] at hreply
              split at hreply <;> cases hreply
    | disconnect | queryFinished | cancelQueries => cases hr

/-- What a connection remembers of a query it keeps until it asks to cancel it. -/
theorem mem_openedQueries_apply {c : Connection} {p : Request × Reply} {query : QueryId}
    (hc : query ∈ c.openedQueries) (hp : p.1 ≠ .cancelQuery query) :
    query ∈ ((TeardownArm.ofRequest p.1).apply p.2 c).openedQueries := by
  obtain ⟨request, reply⟩ := p
  have hopened : query ∈ if reply.ok ∧ (TeardownArm.ofRequest request).isOpenQuery then
      c.openedQueries ++ reply.query.toList else c.openedQueries := by
    split_ifs
    · exact List.mem_append_left _ hc
    · exact hc
  cases request with
  | cancelQuery q =>
      have hne : query ≠ q := fun heq => hp (heq ▸ rfl)
      simp only [TeardownArm.apply, TeardownArm.ofRequest]
      by_cases hforget : reply.ok = true ∨ reply.code = some Codes.unknownQuery
      · rw [if_pos hforget]
        exact List.mem_filter.mpr ⟨hopened, decide_eq_true hne⟩
      · rw [if_neg hforget]
        exact hopened
  | openClient | closeClient | openQuery | shutdown | other => exact hopened

theorem mem_openedQueries_foldl {c : Connection} {pairs : List (Request × Reply)}
    {query : QueryId} (hc : query ∈ c.openedQueries) (hpairs : ∀ p ∈ pairs, p.1 ≠ .cancelQuery query) :
    query ∈ (pairs.foldl (fun c p => (TeardownArm.ofRequest p.1).apply p.2 c) c).openedQueries := by
  induction pairs generalizing c with
  | nil => exact hc
  | cons p pairs ih =>
      exact ih (mem_openedQueries_apply hc (hpairs p List.mem_cons_self))
        fun q hq => hpairs q (List.mem_cons_of_mem _ hq)

theorem Opened.mem {pairs : List (Request × Reply)} {query : QueryId} (h : Opened pairs query) :
    query ∈ (served pairs).openedQueries := by
  obtain ⟨before, fromTs, toTs, after, rfl, hafter⟩ := h
  rw [served, List.foldl_append, List.foldl_cons]
  exact mem_openedQueries_foldl (List.mem_append_right _ (List.mem_singleton_self query)) hafter

/-- The end of file of a connection ends the queries it has opened. -/
theorem over_emergencyTeardown (h : Inv maxClients maxQueries r) (setup : Setup) (conn : ConnId)
    {pairs : List (Request × Reply)} {e : QueryEntry} (he : e ∈ r.inserted)
    (hopened : Opened pairs e.query) :
    (r.run ((emergencyTeardown conn (served pairs)).map (.command setup))).Over e := by
  have hmem := hopened.mem
  have hcancel : ∀ {r : Registry}, Inv maxClients maxQueries r → e ∈ r.inserted →
      (r.step (.command setup (.cancelQueries (served pairs).openedQueries))).Over e :=
    fun h he => (over_step h _ he).mpr (.inr hmem)
  rw [emergencyTeardown, if_neg (List.ne_nil_of_mem hmem)]
  cases (served pairs).openedClient with
  | none => exact hcancel h he
  | some client =>
      exact hcancel (inv_step h _) (leaves_step h (.command setup (.disconnect client conn)) e he).1

/-- The actor after any commands: within its caps, the live ids distinct and among those handed
out, none of which was handed out twice; and each query entry it inserted is in the table, or was
removed once with its session closed once. A session whose open failed was closed too, and once
the actor drains no entry is left. The next event is what removes an entry if it is the end of
its query, and leaves it otherwise; the reply to an open names a new entry of the table; and the
end of file of a connection is the end of every query opened over it. -/
theorem registry_sound (maxClients maxQueries : Nat) (es : List Event) :
    let r := (boot maxClients maxQueries).run es
    r.clients.length ≤ maxClients ∧ r.queries.length ≤ maxQueries
      ∧ r.liveIds.Nodup ∧ r.handed.Nodup ∧ (∀ id ∈ r.liveIds, id ∈ r.handed)
      ∧ (∀ e ∈ r.removed, e ∈ r.inserted)
      ∧ (∀ e ∈ r.inserted,
        (e ∈ r.queries ∧ r.removed.count e = 0 ∧ r.closed.count e.session = 0) ∨ r.Over e)
      ∧ (∀ session < r.sessions,
        (∃ e ∈ r.queries, e.session = session) ∨ r.closed.count session = 1)
      ∧ (r.draining = true → r.clients = [] ∧ r.queries = [])
      ∧ (∀ ev, ∀ e ∈ r.inserted, (r.step ev).Over e ↔ r.Over e ∨ ev.Ends e.query)
      ∧ (∀ setup cmd id, (r.receive setup cmd).1 = some (.openedQuery id) →
        (⟨id, r.sessions⟩ : QueryEntry) ∉ r.inserted
          ∧ ⟨id, r.sessions⟩ ∈ (r.step (.command setup cmd)).queries)
      ∧ ∀ setup conn pairs, ∀ e ∈ r.inserted, Opened pairs e.query →
        (r.run ((emergencyTeardown conn (served pairs)).map (.command setup))).Over e := by
  intro r
  have h : Inv maxClients maxQueries r := inv_run es
  refine ⟨h.clients, h.queries, h.live, ?_, fun id hid => ?_, fun e he => ?_,
    fun e he => h.entry he, fun session hs => h.session hs, h.drained,
    fun ev e he => over_step h ev he, fun setup cmd id => opened_of_receive h,
    fun setup conn pairs e he => over_emergencyTeardown h setup conn he⟩
  · rw [h.handed]
    exact List.nodup_range
  · rw [h.handed]
    exact List.mem_range.mpr (h.fresh id hid)
  · exact h.entries.mem_iff.mp (List.mem_append_left _ he)

/-- A query is opened, its pump reports its end, and so does the end of file of its connection. -/
def finishedThenHungUp : List Event :=
  [.command ⟨false, [], none, none, none⟩ (.request (.openQuery 0 10) 3),
    .command ⟨false, [], none, none, none⟩ (.queryFinished 0)]

theorem over_of_finishedThenHungUp :
    ((boot 1 1).run (finishedThenHungUp ++
      [.command ⟨false, [], none, none, none⟩ (.cancelQueries [0])])).Over ⟨0, 0⟩ := by
  obtain ⟨-, -, -, -, -, -, -, -, -, hstep, -, -⟩ := registry_sound 1 1 finishedThenHungUp
  exact (hstep (.command ⟨false, [], none, none, none⟩ (.cancelQueries [0])) ⟨0, 0⟩
    (by decide)).mpr (.inr (List.mem_singleton_self 0))

end Registry

end Daemon

end Datamancer
