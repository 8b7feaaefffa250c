import Datamancer.Lib.TxStore
import Datamancer.Storage.TapNames

/-!
# Datamancer.Storage.TapLog

The Turso-backed tap log (`storage/turso_tap_log.rs`): its database, the writer task with its
queue, the reopening after a crash, and the replay. A shard table holds the rows of one
`(instrument, kind)` under the primary key `ord`.

Each statement of the writer may fail (`Faults`); one command needs each of them at most once.
A crash between two statements of a command leaves what a failure of the second leaves, so a
crash is a step of its own between commands. The engine's transactions are atomic and durable
(`Lib.TxStore`), and a rollback succeeds.
-/

namespace Datamancer

namespace TapLog

/-! ### The database -/

/-- The value columns of a row. -/
inductive Cols
  | trade (c : TradeCols)
  | quote (c : QuoteCols)
  | bar (c : BarCols)
  deriving DecidableEq

/-- The value columns of a table. -/
inductive Columns
  | trade
  | quote
  | bar
  deriving DecidableEq

def Cols.columns : Cols → Columns
  | trade _ => .trade
  | quote _ => .quote
  | bar _ => .bar

def eventColumns : EventKind → Columns
  | .trade => .trade
  | .quote => .quote
  | .bar _ => .bar

structure TapRow where
  ord : Int64
  seq : Int64
  sourceTs : Timestamp
  rxTs : Timestamp
  cols : Cols
  deriving DecidableEq

/-- A table `tap_NNNNNN`; `ord INTEGER PRIMARY KEY`. -/
structure Shard where
  name : String
  columns : Columns
  rows : KeyedTable TapRow.ord

/-- A row of `streams`. -/
structure StreamRow where
  id : List Char
  provider : String
  assetClass : String
  symbol : String
  kindTag : String
  shardTable : String
  deriving DecidableEq

structure TapDb where
  /-- The row of `meta`: `next_shard` and `next_ord`. -/
  metaRow : Option (Int64 × Int64)
  streams : KeyedTable StreamRow.id
  shards : KeyedTable Shard.name

def streamRow (instrument : Instrument) (kind : EventKind) (name : String) : StreamRow where
  id := registryId instrument kind
  provider := instrument.provider
  assetClass := TursoCache.assetClassTag instrument.assetClass
  symbol := instrument.symbol
  kindTag := kindTag kind
  shardTable := name

/-- What a row of `streams` says; `none` where it is skipped. -/
def readStream (s : StreamRow) : Option (Instrument × EventKind × String) :=
  match assetClassFromTag s.assetClass, kindFromTag s.kindTag with
  | some asset, some kind =>
      if isValidShardName s.shardTable then some (⟨s.provider, asset, s.symbol⟩, kind, s.shardTable)
      else none
  | _, _ => none

/-- The row an event is inserted as; `none` for events that are not tapped. -/
def encodeRow (ord : Int64) : MarketEvent → Option TapRow
  | .trade t => some ⟨ord, t.seq.val.toInt64, t.sourceTs, t.rxTs,
      .trade ⟨t.price.raw, t.size.raw.toInt64⟩⟩
  | .quote q => some ⟨ord, q.seq.val.toInt64, q.sourceTs, q.rxTs,
      .quote ⟨q.bid.raw, q.bidSize.raw.toInt64, q.ask.raw, q.askSize.raw.toInt64⟩⟩
  | .bar b => some ⟨ord, b.seq.val.toInt64, b.sourceTs, b.rxTs,
      .bar ⟨b.open.raw, b.high.raw, b.low.raw, b.close.raw, b.volume.raw.toInt64⟩⟩
  | .control _ => none

/-- A row read back as an event of its stream. -/
def decodeRow (instrument : Instrument) (kind : EventKind) (r : TapRow) : Option MarketEvent :=
  match kind, r.cols with
  | .trade, .trade c => some (.trade
      { instrument, sourceTs := r.sourceTs, rxTs := r.rxTs, seq := ⟨r.seq.toUInt64⟩
        price := ⟨c.priceRaw⟩, size := ⟨c.sizeRaw.toUInt64⟩ })
  | .quote, .quote c => some (.quote
      { instrument, sourceTs := r.sourceTs, rxTs := r.rxTs, seq := ⟨r.seq.toUInt64⟩
        bid := ⟨c.bidRaw⟩, bidSize := ⟨c.bidSizeRaw.toUInt64⟩, ask := ⟨c.askRaw⟩
        askSize := ⟨c.askSizeRaw.toUInt64⟩ })
  | .bar interval, .bar c => some (.bar
      { instrument, interval, sourceTs := r.sourceTs, rxTs := r.rxTs, seq := ⟨r.seq.toUInt64⟩
        «open» := ⟨c.openRaw⟩, high := ⟨c.highRaw⟩, low := ⟨c.lowRaw⟩, close := ⟨c.closeRaw⟩
        volume := ⟨c.volumeRaw.toUInt64⟩ })
  | _, _ => none

namespace TapDb

/-- A database in which only the schema has been created. -/
def fresh : TapDb := ⟨none, .empty, .empty⟩

def setMeta (db : TapDb) (nextShard nextOrd : UInt64) : TapDb :=
  { db with metaRow := some (nextShard.toInt64, nextOrd.toInt64) }

/-- `CREATE TABLE IF NOT EXISTS`. -/
def createShard (db : TapDb) (name : String) (columns : Columns) : TapDb :=
  if (db.shards.lookup name).isSome then db
  else { db with shards := db.shards.insertOrReplace ⟨name, columns, .empty⟩ }

/-- `INSERT OR REPLACE INTO streams`. -/
def register (db : TapDb) (s : StreamRow) : TapDb :=
  { db with streams := db.streams.insertOrReplace s }

/-- `INSERT INTO` a shard; it fails without the table or its columns, and where the ordinal is
taken. -/
def insertRow (db : TapDb) (name : String) (r : TapRow) : Option TapDb :=
  match db.shards.lookup name with
  | none => none
  | some shard =>
      if shard.columns = r.cols.columns then
        (shard.rows.insert r).map fun rows =>
          { db with shards := db.shards.insertOrReplace { shard with rows } }
      else none

/-! ### Replay -/

/-- The requested window of one shard, in the order of `ord`. -/
def scan (db : TapDb) (fromTs toTs : Timestamp) (reg : Instrument × EventKind × String) :
    Except Error (List (UInt64 × MarketEvent)) :=
  match db.shards.lookup reg.2.2 with
  | none => .error (mapErr ("no such table: " ++ reg.2.2))
  | some shard =>
      if shard.columns = eventColumns reg.2.1 then
        .ok ((shard.rows.selectOrdered (fun r => fromTs ≤ r.sourceTs ∧ r.sourceTs < toTs)
          (fun r => r.ord.toInt)).filterMap fun r =>
            (decodeRow reg.1 reg.2.1 r).map fun ev => (r.ord.toUInt64, ev))
      else .error (mapErr ("no such column in " ++ reg.2.2))

/-- The streams a request selects. -/
def selected (db : TapDb) (request : ReplayRequest) : List (Instrument × EventKind × String) :=
  (db.streams.rows.filterMap readStream).filter fun reg =>
    (request.instruments = [] ∨ reg.1 ∈ request.instruments)
      ∧ (request.kinds = [] ∨ reg.2.1 ∈ request.kinds)

/-- `TursoTapReplaySource::open`. -/
def replay (db : TapDb) (request : ReplayRequest) : Except Error (List MarketEvent) :=
  if request.toTs ≤ request.fromTs then .ok []
  else do
    let runs ← (db.selected request).mapM (db.scan request.fromTs request.toTs)
    return ((runs.flatten.insertionSort fun a b => a.1 ≤ b.1).map Prod.snd)

/-! ### Recovery -/

/-- The counter is above every shard table that exists. -/
def recomputeNextShard (db : TapDb) (persisted : UInt64) : UInt64 :=
  db.shards.rows.foldl (fun floor shard =>
    match shardOrdinal shard.name with
    | some n => max floor (UInt64.ofNat (min (n + 1) (2 ^ 64 - 1)))
    | none => floor) persisted

/-- The shard of each registered stream. -/
def loadShards (db : TapDb) : Pair → Option String :=
  db.streams.rows.foldl (fun shards s =>
    match readStream s with
    | some (instrument, kind, name) => Function.update shards (instrument, kind) (some name)
    | none => shards) fun _ => none

end TapDb

/-! ### The writer -/

inductive Stmt
  | persistMeta
  | commit
  | create
  | register
  | begin
  | insert
  deriving DecidableEq

/-- Which statements of a command fail, and with what. -/
abbrev Faults := Stmt → Option Error

structure Writer where
  conn : TxStore TapDb
  nextShard : UInt64
  nextOrd : UInt64
  shards : Pair → Option String
  txOpen : Bool
  lastError : Option Error

namespace Writer

/-- `TursoTapLog::open`. -/
def «open» (db : TapDb) : Writer where
  conn := .new db
  nextShard := db.recomputeNextShard (db.metaRow.elim 0 fun m => m.1.toUInt64)
  nextOrd := db.metaRow.elim 0 fun m => m.2.toUInt64
  shards := db.loadShards
  txOpen := false
  lastError := none

/-- Persist the counters and commit; roll back where either fails. -/
def commitIfOpen (faults : Faults) (w : Writer) : Writer × Except Error Unit :=
  if w.txOpen then
    match (faults .persistMeta).or (faults .commit) with
    | none =>
        ({ w with
            txOpen := false
            conn := (w.conn.put (w.conn.view.setMeta w.nextShard w.nextOrd)).commit }, .ok ())
    | some e => ({ w with txOpen := false, conn := w.conn.rollback }, .error e)
  else (w, .ok ())

/-- A new shard: the table, its registration, and the entry of the writer's map. -/
def allocate (faults : Faults) (w : Writer) (instrument : Instrument) (kind : EventKind) :
    Writer × Except Error Unit :=
  let name := shardName w.nextShard.toNat
  let w := { w with nextShard := w.nextShard + 1 }
  match faults .create with
  | some e => (w, .error e)
  | none =>
      let w := { w with conn := w.conn.put (w.conn.view.createShard name (eventColumns kind)) }
      match faults .register with
      | some e => (w, .error e)
      | none =>
          ({ w with
              conn := w.conn.put (w.conn.view.register (streamRow instrument kind name))
              shards := Function.update w.shards (instrument, kind) (some name) }, .ok ())

def ensureShard (faults : Faults) (w : Writer) (instrument : Instrument) (kind : EventKind) :
    Writer × Except Error Unit :=
  if (w.shards (instrument, kind)).isSome then (w, .ok ())
  else
    match w.commitIfOpen faults with
    | (w, .error e) => (w, .error e)
    | (w, .ok ()) => w.allocate faults instrument kind

def beginIfNeeded (faults : Faults) (w : Writer) : Writer × Except Error Unit :=
  if w.txOpen then (w, .ok ())
  else
    match faults .begin with
    | some e => (w, .error e)
    | none => ({ w with conn := w.conn.begin, txOpen := true }, .ok ())

/-- The insert of an event's row, in the open transaction. -/
def insert (faults : Faults) (w : Writer) (instrument : Instrument) (kind : EventKind)
    (ord : Int64) (ev : MarketEvent) : Writer × Except Error Unit :=
  match w.shards (instrument, kind) with
  | none => (w, .error (.storage ("tap log: shard for " ++ instrument.display
      ++ " vanished after ensure_shard")))
  | some name =>
      match encodeRow ord ev with
      | none => (w, .ok ())
      | some row =>
          match faults .insert, w.conn.view.insertRow name row with
          | some e, _ => (w, .error e)
          | none, none => (w, .error (executeErr ("constraint failed: " ++ name)))
          | none, some db => ({ w with conn := w.conn.put db }, .ok ())

/-- `saturating_add(1)`. -/
def saturatingSucc (n : UInt64) : UInt64 := if n = UInt64.ofNat (2 ^ 64 - 1) then n else n + 1

def writeEvent (faults : Faults) (w : Writer) (ev : MarketEvent) : Writer × Except Error Unit :=
  match ev.routeKey with
  -- what is no data event is not tapped
  | none => (w, .ok ())
  | some (instrument, kind) =>
      match w.ensureShard faults instrument kind with
      | (w, .error e) => (w, .error e)
      | (w, .ok ()) =>
          let ord := w.nextOrd.toInt64
          match { w with nextOrd := saturatingSucc w.nextOrd }.beginIfNeeded faults with
          | (w, .error e) => (w, .error e)
          | (w, .ok ()) => w.insert faults instrument kind ord ev

/-- An error is kept for the next flush. -/
def remember (w : Writer) : Except Error Unit → Writer
  | .ok () => w
  | .error e => { w with lastError := some e }

/-- What a flush reports: the freshest failure, and the one kept is cleared. -/
def flush (faults : Faults) (w : Writer) : Writer × Except Error Unit :=
  let (w, commitRes) := w.commitIfOpen faults
  let res := match w.lastError, commitRes with
    | _, .error commit => .error commit
    | some write, .ok () => .error write
    | none, .ok () => .ok ()
  ({ w with lastError := none }, res)

end Writer

/-! ### The log over several lifetimes -/

inductive WriteCmd
  /-- The event, and which of all appended events it is. -/
  | event (index : Nat) (ev : MarketEvent)
  /-- A flush, and how many events have been appended before it. -/
  | flush (upto : Nat)

/-- How a flush of a lifetime has returned. -/
structure Ack where
  life : Nat
  upto : Nat
  res : Except Error Unit

structure Appended where
  life : Nat
  ev : MarketEvent
  deriving DecidableEq

structure World where
  /-- The database on disk, where the process is down. -/
  db : TapDb
  writer : Option Writer
  queue : List WriteCmd
  life : Nat
  /-- All events that have been appended. -/
  appended : List Appended
  acks : List Ack

inductive Action
  | append (ev : MarketEvent)
  | flush
  /-- The writer handles the next command. -/
  | handle (faults : Faults)
  /-- The queue is empty, and the writer commits. -/
  | settle (faults : Faults)
  | crash
  | reopen

namespace World

def init : World := ⟨.fresh, some (.open .fresh), [], 0, [], []⟩

/-- What is durable. -/
def persistedDb (w : World) : TapDb := w.writer.elim w.db fun writer => writer.conn.committed

def step (w : World) : Action → Option World
  | .append ev =>
      w.writer.map fun _ =>
        { w with
          queue := w.queue ++ [.event w.appended.length ev]
          appended := w.appended ++ [⟨w.life, ev⟩] }
  | .flush => w.writer.map fun _ => { w with queue := w.queue ++ [.flush w.appended.length] }
  | .handle faults =>
      match w.writer, w.queue with
      | some writer, .event _ ev :: queue =>
          let out := writer.writeEvent faults ev
          some { w with writer := some (out.1.remember out.2), queue }
      | some writer, .flush upto :: queue =>
          let out := writer.flush faults
          some { w with
            writer := some out.1, queue, acks := w.acks ++ [⟨w.life, upto, out.2⟩] }
      | _, _ => none
  | .settle faults =>
      match w.writer, w.queue with
      | some writer, [] =>
          let out := writer.commitIfOpen faults
          some { w with writer := some (out.1.remember out.2) }
      | _, _ => none
  | .crash =>
      w.writer.map fun writer =>
        -- an open transaction is lost with the process, and so is the queue
        { w with db := writer.conn.committed, writer := none, queue := [] }
  | .reopen =>
      match w.writer with
      | none => some { w with writer := some (.open w.db), life := w.life + 1 }
      | some _ => none

end World

end TapLog

end Datamancer
