import Datamancer.Storage.TapRefinement

/-!
# Datamancer.Storage.TapRegistry

Who a row of the registry belongs to. The primary key of `streams` is the record id, and no two
streams have one id; so over every run of appends, failing statements, crashes and reopenings
each row is of one stream, a reopened log assigns each stream the shard of its own row, and a
writer that is up assigns as the durable registry does (`stream_identity`). The shards of two
streams differ as long as the 64-bit counter of shard names has not come round.
-/

namespace Datamancer

namespace TapLog

/-! ### The registry -/

/-- A map that says what the registry says assigns a stream the shard of its own row. -/
theorem Maps.eq_some_iff {shards : Pair → Option String} {db : TapDb}
    (h : Maps shards db.streams.rows) {route : Pair} {name : String} :
    shards route = some name ↔ streamRow route.1 route.2 name ∈ db.streams.rows := by
  constructor
  · intro hfound
    obtain ⟨-, -, hs⟩ := h.mapped route name hfound
    exact hs
  · intro hs
    cases hfound : shards route with
    | none => exact absurd rfl (h.unmapped route hfound _ hs)
    | some name' =>
        obtain ⟨-, -, hs'⟩ := h.mapped route name' hfound
        have hsame := db.streams.eq_of_pk_eq hs' hs rfl
        exact congrArg some (congrArg StreamRow.shardTable hsame)

/-! ### The writer -/

namespace Writer

/-- The writer's map says what the durable registry says. -/
structure Registers (w : Writer) : Prop where
  registry : w.conn.committed.Registered
  streams : w.conn.view.streams = w.conn.committed.streams
  closed : w.txOpen = false → w.conn.working = none
  maps : Maps w.shards w.conn.committed.streams.rows

variable {w w' : Writer}

/-- What leaves the registry and the map alone. -/
theorem Registers.of_streams (h : w.Registers) (hshards : w'.shards = w.shards)
    (hcommitted : w'.conn.committed.streams = w.conn.committed.streams)
    (hview : w'.conn.view.streams = w.conn.committed.streams)
    (hclosed : w'.txOpen = false → w'.conn.working = none) : w'.Registers := by
  refine ⟨?_, hview.trans hcommitted.symm, hclosed, ?_⟩
  · intro s hs
    rw [hcommitted] at hs
    exact h.registry s hs
  · rw [hshards, hcommitted]
    exact h.maps

theorem Registers.commitIfOpen (h : w.Registers) (faults : Faults) :
    (w.commitIfOpen faults).1.Registers ∧ (w.commitIfOpen faults).1.txOpen = false
      ∧ (w.commitIfOpen faults).1.shards = w.shards := by
  unfold Writer.commitIfOpen
  cases htx : w.txOpen with
  | false => exact ⟨h, htx, rfl⟩
  | true =>
      cases (faults .persistMeta).or (faults .commit) with
      | none =>
          refine ⟨h.of_streams rfl ?_ ?_ fun _ => rfl, rfl, rfl⟩
          · simpa [TapDb.setMeta] using h.streams
          · simpa [TapDb.setMeta, TxStore.commit] using h.streams
      | some e => exact ⟨h.of_streams rfl rfl rfl fun _ => rfl, rfl, rfl⟩

/-- A new stream is in no row of the registry, so its row replaces none. -/
theorem Registers.allocate (h : w.Registers) (htx : w.txOpen = false) {instrument : Instrument}
    {kind : EventKind} (hroute : w.shards (instrument, kind) = none) (faults : Faults) :
    (w.allocate faults instrument kind).1.Registers := by
  have hworking := h.closed htx
  unfold Writer.allocate
  cases faults .create with
  | some e => exact h.of_streams rfl rfl h.streams h.closed
  | none =>
      simp only [TxStore.view_of_closed hworking, TxStore.committed_put_of_closed hworking,
        TxStore.committed_put_of_closed (t := ⟨_, none⟩) rfl, TxStore.view_mk_none]
      cases faults .register with
      | some e =>
          exact h.of_streams rfl (TapDb.streams_createShard _ _) (TapDb.streams_createShard _ _)
            fun _ => rfl
      | none =>
          refine ⟨fun s hs => ?_, rfl, fun _ => rfl,
            h.maps.add fun s => h.maps.mem_allocated hroute⟩
          rcases (h.maps.mem_allocated hroute).mp hs with rfl | hs
          · exact ⟨instrument, kind, _, rfl⟩
          · exact h.registry s hs

theorem Registers.ensureShard (h : w.Registers) (instrument : Instrument) (kind : EventKind)
    (faults : Faults) : (w.ensureShard faults instrument kind).1.Registers := by
  unfold Writer.ensureShard
  by_cases hroute : (w.shards (instrument, kind)).isSome
  · rw [if_pos hroute]
    exact h
  · rw [if_neg hroute]
    obtain ⟨hcommit, htx, hshards⟩ := h.commitIfOpen faults
    cases hres : w.commitIfOpen faults with
    | mk w' res =>
        rw [hres] at hcommit htx hshards
        cases res with
        | error e => exact hcommit
        | ok _ =>
            have hnone : w'.shards (instrument, kind) = none :=
              (congrFun hshards _).trans (Option.not_isSome_iff_eq_none.mp hroute)
            exact hcommit.allocate htx hnone faults

theorem Registers.beginIfNeeded (h : w.Registers) (faults : Faults) :
    (w.beginIfNeeded faults).1.Registers := by
  unfold Writer.beginIfNeeded
  cases htx : w.txOpen with
  | true => exact h
  | false =>
      cases faults .begin with
      | some e => exact h
      | none => exact h.of_streams rfl rfl h.streams fun hopen => (by cases hopen)

/-- A statement that writes to other tables only. -/
theorem Registers.put (h : w.Registers) {db : TapDb} (hdb : db.streams = w.conn.view.streams) :
    ({ w with conn := w.conn.put db } : Writer).Registers := by
  refine h.of_streams rfl ?_ ?_ fun htx => ?_
  · cases hworking : w.conn.working with
    | none =>
        rw [TxStore.committed_put_of_closed hworking]
        exact hdb.trans h.streams
    | some copy =>
        rw [(TxStore.committed_put_of_open (by rw [hworking]; simp) _).1]
  · rw [TxStore.view_put]
    exact hdb.trans h.streams
  · rw [TxStore.committed_put_of_closed (h.closed htx)]

theorem Registers.insert (h : w.Registers) (faults : Faults) (instrument : Instrument)
    (kind : EventKind) (ord : Int64) (ev : MarketEvent) :
    (w.insert faults instrument kind ord ev).1.Registers := by
  unfold Writer.insert
  cases w.shards (instrument, kind) with
  | none => exact h
  | some name =>
      cases encodeRow ord ev with
      | none => exact h
      | some row =>
          cases faults .insert with
          | some e => exact h
          | none =>
              dsimp only
              cases hdone : w.conn.view.insertRow name row with
              | none => exact h
              | some db =>
                  obtain ⟨shard, -, -, -, rows, -, rfl⟩ := TapDb.insertRow_eq_some hdone
                  exact h.put rfl

theorem Registers.writeEvent (h : w.Registers) (faults : Faults) (ev : MarketEvent) :
    (w.writeEvent faults ev).1.Registers := by
  unfold Writer.writeEvent
  cases ev.routeKey with
  | none => exact h
  | some route =>
      have hensure := h.ensureShard route.1 route.2 faults
      cases hres : w.ensureShard faults route.1 route.2 with
      | mk w' res =>
          rw [hres] at hensure
          simp only [hres]
          cases res with
          | error e => exact hensure
          | ok _ =>
              have hnext : ({ w' with nextOrd := saturatingSucc w'.nextOrd } : Writer).Registers :=
                hensure.of_streams rfl rfl hensure.streams hensure.closed
              have hbegin := hnext.beginIfNeeded faults
              cases hopen : Writer.beginIfNeeded faults
                  { w' with nextOrd := saturatingSucc w'.nextOrd } with
              | mk w'' res =>
                  rw [hopen] at hbegin
                  simp only [hopen]
                  cases res with
                  | error e => exact hbegin
                  | ok _ => exact hbegin.insert faults _ _ _ _

theorem Registers.withError (h : w.Registers) (lastError : Option Error) :
    ({ w with lastError } : Writer).Registers :=
  ⟨h.registry, h.streams, h.closed, h.maps⟩

theorem Registers.remember (h : w.Registers) (res : Except Error Unit) :
    (w.remember res).Registers := by
  cases res with
  | ok _ => exact h
  | error e => exact h.withError (some e)

theorem registers_open {db : TapDb} (h : db.Registered) : (Writer.open db).Registers :=
  ⟨h, rfl, fun _ => rfl, h.maps⟩

end Writer

/-! ### Runs -/

namespace World

/-- The registry is the writer's own, up or down. -/
structure Registered (w : World) : Prop where
  up : ∀ writer, w.writer = some writer → writer.Registers
  down : w.writer = none → w.db.Registered

variable {w w' : World}

theorem registered_init : init.Registered := by
  refine ⟨fun writer hwriter => ?_, fun h => (by cases h)⟩
  obtain rfl := Option.some.inj hwriter
  exact Writer.registers_open fun s hs => absurd hs List.not_mem_nil

/-- A step that leaves the writer to be `writer`. -/
theorem Registered.of_up {writer : Writer} (h : writer.Registers)
    (hwriter : w.writer = some writer) : w.Registered := by
  refine ⟨fun writer' hwriter' => ?_, fun hnone => ?_⟩
  · obtain rfl := Option.some.inj (hwriter.symm.trans hwriter')
    exact h
  · cases hwriter.symm.trans hnone

theorem Registered.step (h : w.Registered) {a : Action} (hstep : World.step w a = some w') :
    w'.Registered := by
  cases a with
  | append ev =>
      obtain ⟨writer, hwriter, rfl⟩ := Option.map_eq_some_iff.mp hstep
      exact .of_up (h.up writer hwriter) hwriter
  | flush =>
      obtain ⟨writer, hwriter, rfl⟩ := Option.map_eq_some_iff.mp hstep
      exact .of_up (h.up writer hwriter) hwriter
  | handle faults =>
      simp only [World.step] at hstep
      split at hstep
      · next writer _ ev _ hwriter _ =>
          cases hstep
          exact .of_up (((h.up writer hwriter).writeEvent faults ev).remember _) rfl
      · next writer _ _ hwriter _ =>
          cases hstep
          exact .of_up (((h.up writer hwriter).commitIfOpen faults).1.withError none) rfl
      · cases hstep
  | settle faults =>
      simp only [World.step] at hstep
      split at hstep
      · next writer hwriter _ =>
          cases hstep
          exact .of_up (((h.up writer hwriter).commitIfOpen faults).1.remember _) rfl
      · cases hstep
  | crash =>
      obtain ⟨writer, hwriter, rfl⟩ := Option.map_eq_some_iff.mp hstep
      exact ⟨fun _ hnone => (by cases hnone), fun _ => (h.up writer hwriter).registry⟩
  | reopen =>
      simp only [World.step] at hstep
      split at hstep
      · next hdown =>
          cases hstep
          exact .of_up (Writer.registers_open (h.down hdown)) rfl
      · cases hstep

theorem Registered.persistedDb (h : w.Registered) : w.persistedDb.Registered := by
  cases hwriter : w.writer with
  | none => exact persistedDb_down hwriter ▸ h.down hwriter
  | some writer => exact persistedDb_up hwriter ▸ (h.up writer hwriter).registry

/-- A writer that is up assigns as a log opened now would. -/
theorem Registered.shards_eq (h : w.Registered) {writer : Writer}
    (hwriter : w.writer = some writer) : writer.shards = w.persistedDb.loadShards := by
  have hup := h.up writer hwriter
  funext route
  refine Option.ext fun name => ?_
  rw [hup.maps.eq_some_iff, persistedDb_up hwriter, hup.registry.maps.eq_some_iff]

theorem registered_run {as : List Action} (h : ActionSystem.run World.step init as = some w) :
    w.Registered :=
  ActionSystem.invariant (fun hw hstep => Registered.step hw hstep) registered_init h

/-- Two streams of one shard are one, as long as fewer names have been handed out than the
counter tells apart. -/
theorem shard_alone {as : List Action} (h : ActionSystem.run World.step init as = some w)
    (hlen : w.appended.length < 2 ^ 64) {route route' : Pair} {name : String}
    (hfound : w.persistedDb.loadShards route = some name)
    (hfound' : w.persistedDb.loadShards route' = some name) : route = route' := by
  obtain ⟨kept, hinv, -⟩ := inv_init.run h hlen
  obtain ⟨⟨handed, hkeeps⟩, -, -⟩ := hinv.durable
  have hmaps := (registered_run h).persistedDb.maps
  have hsame := hkeeps.wf.alone _ (hmaps.eq_some_iff.mp hfound) _ (hmaps.eq_some_iff.mp hfound') rfl
  obtain ⟨hinstrument, hkind⟩ := registryId_injective (congrArg StreamRow.id hsame)
  exact Prod.ext hinstrument hkind

/-- The stream identity: two streams of one record id are one. So over every run each row of
the registry is of one stream, and each stream is assigned the shard of its own row, by the
log that is up and by one opened now; and two streams are assigned one shard only after the
64-bit counter of shard names has come round. -/
theorem stream_identity :
    (∀ (i j : Instrument) (k l : EventKind), registryId i k = registryId j l ↔ i = j ∧ k = l)
      ∧ ∀ (as : List Action) (w : World), ActionSystem.run World.step init as = some w →
        (∀ s ∈ w.persistedDb.streams.rows, ∃ route name, s = streamRow route.1 route.2 name
          ∧ ∀ route' : Pair, s.id = registryId route'.1 route'.2 → route' = route)
        ∧ (∀ route name, w.persistedDb.loadShards route = some name
            ↔ streamRow route.1 route.2 name ∈ w.persistedDb.streams.rows)
        ∧ (∀ writer, w.writer = some writer → writer.shards = w.persistedDb.loadShards)
        ∧ ∀ route route' name, w.persistedDb.loadShards route = some name →
            w.persistedDb.loadShards route' = some name →
            route = route' ∨ 2 ^ 64 ≤ w.appended.length := by
  refine ⟨fun i j k l => ⟨registryId_injective, ?_⟩, fun as w h => ?_⟩
  · rintro ⟨rfl, rfl⟩
    rfl
  · have hreg := registered_run h
    refine ⟨fun s hs => ?_, fun route name => hreg.persistedDb.maps.eq_some_iff,
      fun writer hwriter => hreg.shards_eq hwriter, fun route route' name hfound hfound' => ?_⟩
    · obtain ⟨instrument, kind, n, rfl⟩ := hreg.persistedDb s hs
      refine ⟨(instrument, kind), shardName n, rfl, fun route' hid => ?_⟩
      obtain ⟨hinstrument, hkind⟩ := registryId_injective hid
      exact Prod.ext hinstrument.symm hkind.symm
    · rcases Nat.lt_or_ge w.appended.length (2 ^ 64) with hlen | hlen
      · exact .inl (shard_alone h hlen hfound hfound')
      · exact .inr hlen

/-- Two instruments that a plain join of their parts would take for one. -/
def joined : Instrument := ⟨"a|equity", .equity, "b"⟩

def joined' : Instrument := ⟨"a", .equity, "equity|b"⟩

def tradeOf (instrument : Instrument) : MarketEvent := .trade
  { instrument, sourceTs := 1, rxTs := 1, seq := ⟨1⟩, price := ⟨1⟩, size := ⟨1⟩ }

/-- A trade of each is tapped, the process crashes, and the log is opened again: they have
rows and shards of their own. -/
theorem stream_identity_reopened :
    registryId joined .trade ≠ registryId joined' .trade
      ∧ ∃ w, ActionSystem.run World.step init
          [.append (tradeOf joined), .handle noFaults, .append (tradeOf joined'), .handle noFaults,
            .crash, .reopen] = some w
        ∧ w.persistedDb.loadShards (joined, .trade) = some "tap_000000"
        ∧ w.persistedDb.loadShards (joined', .trade) = some "tap_000001"
        ∧ ∀ route, w.persistedDb.loadShards route = some "tap_000000" →
          route = (joined, .trade) := by
  obtain ⟨hid, hruns⟩ := stream_identity
  obtain ⟨w, h, hlen, hfirst, hsecond⟩ : ∃ w, ActionSystem.run World.step init
      [.append (tradeOf joined), .handle noFaults, .append (tradeOf joined'), .handle noFaults,
        .crash, .reopen] = some w ∧ w.appended.length = 2
      ∧ w.persistedDb.loadShards (joined, .trade) = some "tap_000000"
      ∧ w.persistedDb.loadShards (joined', .trade) = some "tap_000001" := ⟨_, rfl, rfl, rfl, rfl⟩
  obtain ⟨-, -, -, halone⟩ := hruns _ w h
  refine ⟨fun hsame => ?_, w, h, hfirst, hsecond, fun route hfound => ?_⟩
  · exact absurd ((hid _ _ _ _).mp hsame).1 (by decide)
  · refine (halone route _ _ hfound hfirst).resolve_right ?_
    rw [hlen]
    decide

end World

end TapLog

end Datamancer
