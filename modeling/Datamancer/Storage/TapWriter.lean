import Datamancer.Storage.TapContents

/-!
# Datamancer.Storage.TapWriter

The invariant of the tap log's writer (`Writer.Inv`): what is durable, and what the open
transaction adds to it. Each operation of the writer keeps the invariant, keeps what is durable,
and loses the open transaction only where it reports an error (`Outcome`). Opening the database
establishes it again (`inv_open`).
-/

namespace Datamancer

namespace TapLog

/-- An event that has been written: its ordinal, and which of all appended events it is. -/
structure Record where
  ord : UInt64
  index : Nat
  ev : MarketEvent

def Record.entry (r : Record) : UInt64 × MarketEvent := (r.ord, r.ev)

namespace TapDb

/-- `next_shard`, as it is loaded. -/
def nextShard (db : TapDb) : UInt64 := db.metaRow.elim 0 fun m => m.1.toUInt64

/-- `next_ord`, as it is loaded. -/
def nextOrd (db : TapDb) : UInt64 := db.metaRow.elim 0 fun m => m.2.toUInt64

@[simp] theorem nextShard_setMeta (db : TapDb) (shard ord : UInt64) :
    (db.setMeta shard ord).nextShard = shard := rfl

@[simp] theorem nextOrd_setMeta (db : TapDb) (shard ord : UInt64) :
    (db.setMeta shard ord).nextOrd = ord := rfl

@[simp] theorem nextShard_createShard (db : TapDb) (name : String) (columns : Columns) :
    (db.createShard name columns).nextShard = db.nextShard := by
  rw [nextShard, metaRow_createShard, nextShard]

@[simp] theorem nextOrd_createShard (db : TapDb) (name : String) (columns : Columns) :
    (db.createShard name columns).nextOrd = db.nextOrd := by
  rw [nextOrd, metaRow_createShard, nextOrd]

end TapDb

/-- A map from streams to shards is what the rows of the registry say. -/
structure Maps (shards : Pair → Option String) (rows : List StreamRow) : Prop where
  mapped : ∀ route name, shards route = some name →
    ∃ n, name = shardName n ∧ streamRow route.1 route.2 name ∈ rows
  unmapped : ∀ route, shards route = none → ∀ s ∈ rows, s.id ≠ registryId route.1 route.2

namespace Maps

variable {shards : Pair → Option String} {rows rows' : List StreamRow}

theorem add (h : Maps shards rows) {instrument : Instrument} {kind : EventKind} {n : Nat}
    (hmem : ∀ s, s ∈ rows' ↔ s = streamRow instrument kind (shardName n) ∨ s ∈ rows) :
    Maps (Function.update shards (instrument, kind) (some (shardName n))) rows' := by
  constructor
  · intro route name hfound
    by_cases hsame : route = (instrument, kind)
    · subst hsame
      rw [Function.update_self, Option.some.injEq] at hfound
      exact ⟨n, hfound.symm, (hmem _).mpr (.inl (by rw [hfound]))⟩
    · rw [Function.update_of_ne hsame] at hfound
      obtain ⟨m, hname, hs⟩ := h.mapped route name hfound
      exact ⟨m, hname, (hmem _).mpr (.inr hs)⟩
  · intro route hfound s hs
    by_cases hsame : route = (instrument, kind)
    · subst hsame
      rw [Function.update_self] at hfound
      cases hfound
    · rw [Function.update_of_ne hsame] at hfound
      rcases (hmem s).mp hs with rfl | hs
      · intro hid
        obtain ⟨hi, hk⟩ := registryId_injective hid
        exact hsame (Prod.ext hi.symm hk.symm)
      · exact h.unmapped route hfound s hs

/-- The map is filled row by row. -/
theorem load (h : Maps shards rows)
    (hrows : ∀ s ∈ rows', ∃ instrument kind n, s = streamRow instrument kind (shardName n)) :
    Maps (rows'.foldl (fun shards s =>
      match readStream s with
      | some (instrument, kind, name) => Function.update shards (instrument, kind) (some name)
      | none => shards) shards) (rows ++ rows') := by
  induction rows' generalizing shards rows with
  | nil => simpa using h
  | cons s rows' ih =>
      obtain ⟨instrument, kind, n, rfl⟩ := hrows s List.mem_cons_self
      have hmem : ∀ s, s ∈ rows ++ [streamRow instrument kind (shardName n)]
          ↔ s = streamRow instrument kind (shardName n) ∨ s ∈ rows := fun s => by simp [or_comm]
      have hadd := h.add hmem
      have hrest := ih hadd fun s hs => hrows s (List.mem_cons_of_mem _ hs)
      rw [List.append_assoc] at hrest
      simpa using hrest

/-- The row of a stream that is not in the map replaces none. -/
theorem unregistered {db : TapDb} (h : Maps shards db.streams.rows) {instrument : Instrument}
    {kind : EventKind} (hroute : shards (instrument, kind) = none) (name : String)
    (columns : Columns) :
    ∀ s ∈ (db.createShard name columns).streams.rows, s.id ≠ registryId instrument kind := by
  rw [TapDb.streams_createShard]
  exact h.unmapped (instrument, kind) hroute

theorem mem_allocated {db : TapDb} (h : Maps shards db.streams.rows) {instrument : Instrument}
    {kind : EventKind} (hroute : shards (instrument, kind) = none) {name : String}
    {columns : Columns} {s : StreamRow} :
    s ∈ ((db.createShard name columns).register (streamRow instrument kind name)).streams.rows
      ↔ s = streamRow instrument kind name ∨ s ∈ db.streams.rows := by
  rw [TapDb.mem_register (h.unregistered hroute name columns), TapDb.streams_createShard]

end Maps

/-- Each row of the registry is one the writer registers. -/
def TapDb.Registered (db : TapDb) : Prop :=
  ∀ s ∈ db.streams.rows, ∃ instrument kind n, s = streamRow instrument kind (shardName n)

/-- What a reopened log loads. -/
theorem TapDb.Registered.maps {db : TapDb} (h : db.Registered) :
    Maps db.loadShards db.streams.rows := by
  have hempty : Maps (fun _ => none) [] :=
    ⟨fun _ _ h => (by cases h), fun _ _ _ h => (by cases h)⟩
  exact @Maps.load _ _ db.streams.rows hempty h

theorem TapDb.Wf.registered_rows {db : TapDb} (h : db.Wf) : db.Registered := fun s hs => by
  obtain ⟨instrument, kind, n, hrow, -⟩ := h.streams s hs
  exact ⟨instrument, kind, n, hrow⟩

namespace Writer

/-- The events of `kept` are durable, those of `pending` are in the open transaction. -/
structure Inv (w : Writer) (kept pending : List Record) : Prop where
  base : w.conn.committed.Keeps (kept.map Record.entry) w.nextShard.toNat
  view : w.conn.view.Keeps ((kept ++ pending).map Record.entry) w.nextShard.toNat
  closed : w.txOpen = false → w.conn.working = none ∧ pending = []
  opened : w.txOpen = true → w.conn.working ≠ none
  streams : w.conn.view.streams = w.conn.committed.streams
  maps : Maps w.shards w.conn.committed.streams.rows
  ords : ∀ r ∈ kept ++ pending, r.ord < w.nextOrd
  counted : ∀ r ∈ kept, r.ord < w.conn.committed.nextOrd
  nextOrd_le : w.conn.committed.nextOrd ≤ w.nextOrd
  nextShard_le : w.conn.committed.nextShard ≤ w.nextShard

/-- An operation of the writer that is to write `new` and takes at most so many ordinals and
shard names: what is durable stays, and only with an error is anything of the rest lost. -/
structure Outcome (w : Writer) (kept pending new : List Record) (ords names : Nat)
    (out : Writer × Except Error Unit) (kept' pending' : List Record) : Prop where
  inv : out.1.Inv kept' pending'
  durable : kept <+: kept'
  sub : (kept' ++ pending').Sublist (kept ++ pending ++ new)
  complete : out.2 = .ok () → kept' ++ pending' = kept ++ pending ++ new
  lastError : out.1.lastError = w.lastError
  ord_le : out.1.nextOrd.toNat ≤ w.nextOrd.toNat + ords
  shard_le : out.1.nextShard.toNat ≤ w.nextShard.toNat + names

variable {w : Writer} {kept pending : List Record} {faults : Faults}

/-- A writer with no open transaction: all there is is durable. -/
theorem inv_of_closed (hworking : w.conn.working = none) (htx : w.txOpen = false)
    (hkeeps : w.conn.committed.Keeps (kept.map Record.entry) w.nextShard.toNat)
    (hmaps : Maps w.shards w.conn.committed.streams.rows)
    (hcounted : ∀ r ∈ kept, r.ord < w.conn.committed.nextOrd)
    (hord : w.conn.committed.nextOrd ≤ w.nextOrd)
    (hshard : w.conn.committed.nextShard ≤ w.nextShard) : w.Inv kept [] := by
  have hview := TxStore.view_of_closed hworking
  refine ⟨hkeeps, ?_, fun _ => ⟨hworking, rfl⟩, ?_, by rw [hview], hmaps, ?_,
    hcounted, hord, hshard⟩
  · rw [hview, List.append_nil]
    exact hkeeps
  · intro htx'
    rw [htx] at htx'
    cases htx'
  · intro r hr
    rw [List.append_nil] at hr
    exact UInt64.lt_of_lt_of_le (hcounted r hr) hord

/-- No statement has been executed. -/
theorem Inv.outcome_same {w' : Writer} {res : Except Error Unit} {ords names : Nat}
    (h : w'.Inv kept pending) (herror : w'.lastError = w.lastError)
    (hord : w'.nextOrd.toNat ≤ w.nextOrd.toNat + ords)
    (hshard : w'.nextShard.toNat ≤ w.nextShard.toNat + names) :
    Outcome w kept pending [] ords names (w', res) kept pending :=
  ⟨h, List.prefix_refl _, by simp, by simp, herror, hord, hshard⟩

variable {w' : Writer} {out : Writer × Except Error Unit} {ords ords' names names' : Nat}
  {new new' kept' pending' kept'' pending'' : List Record}

/-- One operation after another that has succeeded. -/
theorem Outcome.trans (h : Outcome w kept pending new ords names (w', .ok ()) kept' pending')
    (h' : Outcome w' kept' pending' new' ords' names' out kept'' pending'') :
    Outcome w kept pending (new ++ new') (ords + ords') (names + names') out kept'' pending'' := by
  have hdone : kept' ++ pending' = kept ++ pending ++ new := h.complete rfl
  refine ⟨h'.inv, h.durable.trans h'.durable, ?_, fun hok => ?_, h'.lastError.trans h.lastError,
    ?_, ?_⟩
  · simpa [hdone] using h'.sub
  · simpa [hdone] using h'.complete hok
  · have hfirst : w'.nextOrd.toNat ≤ w.nextOrd.toNat + ords := h.ord_le
    have hrest := h'.ord_le
    omega
  · have hfirst : w'.nextShard.toNat ≤ w.nextShard.toNat + names := h.shard_le
    have hrest := h'.shard_le
    omega

/-- An operation that has failed is one that was to write more. -/
theorem Outcome.fail {e : Error}
    (h : Outcome w kept pending new ords names (w', .error e) kept' pending') (new' : List Record)
    (ords' names' : Nat) : Outcome w kept pending (new ++ new') (ords + ords') (names + names')
      (w', .error e) kept' pending' := by
  refine ⟨h.inv, h.durable, ?_, fun hok => (by cases hok), h.lastError, ?_, ?_⟩
  · rw [← List.append_assoc]
    exact h.sub.trans (List.sublist_append_left _ _)
  · exact h.ord_le.trans (by omega)
  · exact h.shard_le.trans (by omega)

/-! ### The transaction -/

/-- A commit makes the open transaction durable, or loses it and reports an error. -/
theorem Inv.commitIfOpen (h : w.Inv kept pending) (faults : Faults) :
    ∃ kept', Outcome w kept pending [] 0 0 (w.commitIfOpen faults) kept' []
      ∧ (w.commitIfOpen faults).1.txOpen = false
      ∧ (w.commitIfOpen faults).1.shards = w.shards
      ∧ (w.commitIfOpen faults).1.nextShard = w.nextShard := by
  unfold Writer.commitIfOpen
  cases htx : w.txOpen with
  | false =>
      obtain ⟨-, rfl⟩ := h.closed htx
      exact ⟨kept, h.outcome_same rfl (Nat.le_refl _) (Nat.le_refl _), htx, rfl, rfl⟩
  | true =>
      cases hfail : (faults .persistMeta).or (faults .commit) with
      | none =>
          refine ⟨kept ++ pending, ⟨inv_of_closed rfl rfl ?_ ?_ ?_ ?_ ?_,
            List.prefix_append _ _, by simp, by simp, rfl, Nat.le_refl _, Nat.le_refl _⟩, rfl, rfl,
            rfl⟩
          · simpa using h.view.setMeta w.nextShard w.nextOrd
          · simpa [TapDb.setMeta, h.streams] using h.maps
          · simpa using h.ords
          · simp
          · simp
      | some e =>
          exact ⟨kept, ⟨inv_of_closed rfl rfl h.base h.maps h.counted h.nextOrd_le
            h.nextShard_le, List.prefix_refl _, by simp, fun hok => (by cases hok), rfl,
            Nat.le_refl _, Nat.le_refl _⟩, rfl, rfl, rfl⟩

/-! ### Shards -/

/-- A new shard is under a name no other shard has had. -/
theorem Inv.allocate (h : w.Inv kept []) (htx : w.txOpen = false)
    (hlt : w.nextShard.toNat + 1 < 2 ^ 64) {instrument : Instrument} {kind : EventKind}
    (hroute : w.shards (instrument, kind) = none) (faults : Faults) :
    Outcome w kept [] [] 0 1 (w.allocate faults instrument kind) kept [] := by
  obtain ⟨hworking, -⟩ := h.closed htx
  have hview := TxStore.view_of_closed hworking
  have hnext : (w.nextShard + 1).toNat = w.nextShard.toNat + 1 := by
    rw [UInt64.toNat_add, UInt64.toNat_one]
    omega
  have hle : w.conn.committed.nextShard ≤ w.nextShard + 1 := by
    have := UInt64.le_iff_toNat_le.mp h.nextShard_le
    exact UInt64.le_iff_toNat_le.mpr (by omega)
  unfold Writer.allocate
  cases hcreate : faults .create with
  -- the name is spent, and nothing is created under it
  | some e =>
      refine Inv.outcome_same (inv_of_closed hworking htx ?_ h.maps h.counted h.nextOrd_le hle) rfl
        (Nat.le_refl _) (Nat.le_of_eq hnext)
      exact hnext ▸ h.base.mono (Nat.le_succ _)
  | none =>
      have hnamed : w.nextShard.toNat < 2 ^ 64 := by omega
      have hbase := h.base.createShard hnamed (eventColumns kind)
      simp only [hview, TxStore.committed_put_of_closed hworking,
        TxStore.committed_put_of_closed (t := ⟨_, none⟩) rfl,
        TxStore.view_mk_none]
      cases hregister : faults .register with
      | some e =>
          -- the table stands without a row in the registry, and no other shard gets its name
          refine Inv.outcome_same (inv_of_closed rfl htx ?_ ?_ ?_ ?_ ?_) rfl (Nat.le_refl _)
            (Nat.le_of_eq hnext)
          · exact hnext ▸ hbase
          · simpa using h.maps
          · simpa using h.counted
          · simpa using h.nextOrd_le
          · simpa using hle
      | none =>
          have hkeeps := hbase.register ((h.base.mem_createShard hnamed).mpr (.inl rfl))
            (fun s hs => h.base.shardTable_ne hnamed (by simpa using hs))
            (h.maps.unregistered hroute _ _)
          refine Inv.outcome_same (inv_of_closed rfl htx ?_ ?_ ?_ ?_ ?_) rfl (Nat.le_refl _)
            (Nat.le_of_eq hnext)
          · exact hnext ▸ hkeeps
          · exact h.maps.add fun s => h.maps.mem_allocated hroute
          · simpa [TapDb.register, TapDb.nextOrd] using h.counted
          · simpa [TapDb.register, TapDb.nextOrd] using h.nextOrd_le
          · simpa [TapDb.register, TapDb.nextShard] using hle

theorem Inv.ensureShard (h : w.Inv kept pending) (hlt : w.nextShard.toNat + 1 < 2 ^ 64)
    (instrument : Instrument) (kind : EventKind) (faults : Faults) :
    ∃ kept' pending',
      Outcome w kept pending [] 0 1 (w.ensureShard faults instrument kind) kept' pending' := by
  unfold Writer.ensureShard
  by_cases hroute : (w.shards (instrument, kind)).isSome
  · rw [if_pos hroute]
    exact ⟨kept, pending, h.outcome_same rfl (Nat.le_refl _) (Nat.le_succ _)⟩
  · rw [if_neg hroute]
    obtain ⟨kept', hcommit, htx, hshards, hnext⟩ := h.commitIfOpen faults
    cases hres : w.commitIfOpen faults with
    | mk w' res =>
        rw [hres] at hcommit htx hshards hnext
        cases res with
        | error e => exact ⟨kept', [], hcommit.fail [] 0 1⟩
        | ok _ =>
            have hnone : w'.shards (instrument, kind) = none :=
              (congrFun hshards _).trans (Option.not_isSome_iff_eq_none.mp hroute)
            have hnamed : w'.nextShard.toNat + 1 < 2 ^ 64 := by
              rw [show w'.nextShard = w.nextShard from hnext]
              exact hlt
            exact ⟨kept', [], hcommit.trans (hcommit.inv.allocate htx hnamed hnone faults)⟩

/-! ### Events -/

theorem toNat_saturatingSucc {n : UInt64} (h : n.toNat + 1 < 2 ^ 64) :
    (saturatingSucc n).toNat = n.toNat + 1 := by
  have hne : n ≠ UInt64.ofNat (2 ^ 64 - 1) := by
    rintro rfl
    exact absurd h (by decide)
  rw [saturatingSucc, if_neg hne, UInt64.toNat_add, UInt64.toNat_one]
  omega

/-- An ordinal is taken from the counter. -/
theorem Inv.succ (h : w.Inv kept pending) (hlt : w.nextOrd.toNat + 1 < 2 ^ 64) :
    ({ w with nextOrd := saturatingSucc w.nextOrd } : Writer).Inv kept pending := by
  have hle : w.nextOrd ≤ saturatingSucc w.nextOrd :=
    UInt64.le_iff_toNat_le.mpr (by rw [toNat_saturatingSucc hlt]; omega)
  exact ⟨h.base, h.view, h.closed, h.opened, h.streams, h.maps,
    fun r hr => UInt64.lt_of_lt_of_le (h.ords r hr) hle, h.counted,
    UInt64.le_trans h.nextOrd_le hle, h.nextShard_le⟩

theorem Inv.beginIfNeeded (h : w.Inv kept pending) (faults : Faults) :
    (∃ e, w.beginIfNeeded faults = (w, .error e)) ∨ ∃ conn,
      w.beginIfNeeded faults = ({ w with conn, txOpen := true }, .ok ())
        ∧ ({ w with conn, txOpen := true } : Writer).Inv kept pending := by
  unfold Writer.beginIfNeeded
  cases htx : w.txOpen with
  | true =>
      have hsame : ({ w with txOpen := true } : Writer) = w := by rw [← htx]
      refine .inr ⟨w.conn, ?_, h.base, h.view, fun h' => (by cases h'), fun _ => h.opened htx,
        h.streams, h.maps, h.ords, h.counted, h.nextOrd_le, h.nextShard_le⟩
      rw [if_pos rfl, hsame]
  | false =>
      cases hfail : faults .begin with
      | some e => exact .inl ⟨e, rfl⟩
      | none =>
          exact .inr ⟨w.conn.begin, rfl, h.base, h.view, fun h' => (by cases h'),
            fun _ h' => (by cases h'), h.streams, h.maps, h.ords, h.counted, h.nextOrd_le,
            h.nextShard_le⟩

/-- An event is inserted under an ordinal above all others. -/
theorem Inv.insert (h : w.Inv kept pending) (htx : w.txOpen = true) {r : Record}
    (hords : ∀ r' ∈ kept ++ pending, r'.ord < r.ord) (hord : r.ord < w.nextOrd)
    {instrument : Instrument} {kind : EventKind} (hroute : r.ev.routeKey = some (instrument, kind))
    (faults : Faults) : ∃ pending', Outcome w kept pending [r] 0 0
      (w.insert faults instrument kind r.ord.toInt64 r.ev) kept pending' := by
  have hfail : ∀ e, Outcome w kept pending [r] 0 0 (w, .error e) kept pending := fun e =>
    (h.outcome_same rfl (Nat.le_refl _) (Nat.le_refl _)).fail [r] 0 0
  unfold Writer.insert
  cases hname : w.shards (instrument, kind) with
  | none => exact ⟨pending, hfail _⟩
  | some name =>
      obtain ⟨row, hrow⟩ := @encodeRow_of_routed r.ord.toInt64 _ _ hroute
      simp only [hrow]
      cases hfault : faults .insert with
      | some e => exact ⟨pending, hfail _⟩
      | none =>
          cases hdone : w.conn.view.insertRow name row with
          | none => exact ⟨pending, hfail _⟩
          | some db =>
              obtain ⟨n, rfl, hs⟩ := h.maps.mapped _ _ hname
              have hstream := h.streams.symm ▸ hs
              obtain ⟨hcommitted, hopen⟩ := TxStore.committed_put_of_open (h.opened htx) db
              have habove : ∀ e ∈ (kept ++ pending).map Record.entry, e.1 < r.ord := by
                intro e he
                obtain ⟨r', hr', rfl⟩ := List.mem_map.mp he
                exact hords r' hr'
              have hkeeps := h.view.insertRow hstream habove hroute hrow hdone
              have hsame : db.streams = w.conn.view.streams := by
                obtain ⟨shard, -, -, -, rows, -, rfl⟩ := TapDb.insertRow_eq_some hdone
                rfl
              refine ⟨pending ++ [r], ⟨?_, ?_, ?_, fun _ => hopen, ?_, ?_, ?_, ?_, ?_, ?_⟩,
                List.prefix_refl _, by simp, by simp, rfl, Nat.le_refl _, Nat.le_refl _⟩
              · exact hcommitted.symm ▸ h.base
              -- the row is in the open transaction only, so the record is pending
              · rw [TxStore.view_put, ← List.append_assoc, List.map_append]
                exact hkeeps
              · intro htx'
                exact absurd (htx.symm.trans htx') (by simp)
              · rw [TxStore.view_put, hcommitted, hsame]
                exact h.streams
              · exact hcommitted.symm ▸ h.maps
              · intro r' hr'
                rw [← List.append_assoc] at hr'
                rcases List.mem_append.mp hr' with hr' | hr'
                · exact h.ords r' hr'
                · exact List.mem_singleton.mp hr' ▸ hord
              · exact hcommitted.symm ▸ h.counted
              · exact hcommitted.symm ▸ h.nextOrd_le
              · exact hcommitted.symm ▸ h.nextShard_le

/-- An event is written under the next ordinal, or an error is reported. -/
theorem Inv.writeEvent (h : w.Inv kept pending) (hord : w.nextOrd.toNat + 1 < 2 ^ 64)
    (hshard : w.nextShard.toNat + 1 < 2 ^ 64) (index : Nat) {ev : MarketEvent}
    {route : Pair} (hroute : ev.routeKey = some route) (faults : Faults) :
    ∃ ord kept' pending',
      Outcome w kept pending [⟨ord, index, ev⟩] 1 1 (w.writeEvent faults ev) kept' pending' := by
  obtain ⟨instrument, kind⟩ := route
  obtain ⟨kept', pending', hensure⟩ := h.ensureShard hshard instrument kind faults
  simp only [Writer.writeEvent, hroute]
  cases hres : w.ensureShard faults instrument kind with
  | mk w' res =>
      rw [hres] at hensure
      cases res with
      -- the shard could not be had: the event is lost with an error, and no ordinal is spent
      | error e => exact ⟨0, kept', pending', hensure.fail _ 1 0⟩
      | ok _ =>
          have hord_le : w'.nextOrd.toNat ≤ w.nextOrd.toNat + 0 := hensure.ord_le
          have hsucc := toNat_saturatingSucc (n := w'.nextOrd) (by omega)
          have hnext := hensure.inv.succ (w := w') (by omega)
          have htaken : ∀ res, Outcome w kept pending [] 1 1
              ({ w' with nextOrd := saturatingSucc w'.nextOrd }, res) kept' pending' := fun res =>
            hensure.trans (hnext.outcome_same rfl (Nat.le_of_eq hsucc)
              (Nat.le_refl (w'.nextShard.toNat + 0)))
          rcases hnext.beginIfNeeded faults with ⟨e, hbegin⟩ | ⟨conn, hbegin, hopen⟩
          · simp only [hbegin]
            exact ⟨0, kept', pending', (htaken _).fail _ 0 0⟩
          · simp only [hbegin]
            have hlt : w'.nextOrd < saturatingSucc w'.nextOrd :=
              UInt64.lt_iff_toNat_lt.mpr (by omega)
            obtain ⟨pending'', hinsert⟩ := hopen.insert rfl (r := ⟨w'.nextOrd, index, ev⟩)
              hensure.inv.ords hlt hroute faults
            exact ⟨w'.nextOrd, kept', pending'', ((htaken _).trans (hopen.outcome_same rfl
              (Nat.le_refl (_ + 0)) (Nat.le_refl (_ + 0)))).trans hinsert⟩

/-! ### Errors -/

/-- What is durable does not depend on the error kept for the next flush. -/
theorem Inv.withError (h : w.Inv kept pending) (lastError : Option Error) :
    ({ w with lastError } : Writer).Inv kept pending :=
  ⟨h.base, h.view, h.closed, h.opened, h.streams, h.maps, h.ords, h.counted, h.nextOrd_le,
    h.nextShard_le⟩

theorem Inv.remember (h : w.Inv kept pending) (res : Except Error Unit) :
    (w.remember res).Inv kept pending := by
  cases res with
  | ok _ => exact h
  | error e => exact h.withError (some e)

@[simp] theorem remember_nextOrd (res : Except Error Unit) :
    (w.remember res).nextOrd = w.nextOrd := by
  cases res <;> rfl

@[simp] theorem remember_nextShard (res : Except Error Unit) :
    (w.remember res).nextShard = w.nextShard := by
  cases res <;> rfl

/-- An event is there or an error is kept, before an operation and after it. -/
theorem Outcome.carried (h : Outcome w kept pending new ords names out kept' pending') {i : Nat}
    (hi : i ∈ (kept ++ pending ++ new).map Record.index ∨ w.lastError ≠ none) :
    i ∈ (kept' ++ pending').map Record.index ∨ (out.1.remember out.2).lastError ≠ none := by
  cases hres : out.2 with
  | error e => exact .inr (by simp [Writer.remember])
  | ok _ =>
      rw [h.complete hres]
      exact hi.imp_right fun herror => by rwa [Writer.remember, h.lastError]

/-- A flush returns Ok where nothing has been lost since the one before it. -/
theorem Inv.flush (h : w.Inv kept pending) (faults : Faults) :
    ∃ kept', (w.flush faults).1.Inv kept' [] ∧ kept <+: kept'
      ∧ kept'.Sublist (kept ++ pending) ∧ (w.flush faults).1.lastError = none
      ∧ (w.flush faults).1.nextOrd.toNat ≤ w.nextOrd.toNat
      ∧ (w.flush faults).1.nextShard.toNat ≤ w.nextShard.toNat
      ∧ ((w.flush faults).2 = .ok () → kept' = kept ++ pending ∧ w.lastError = none) := by
  obtain ⟨kept', hcommit, -⟩ := h.commitIfOpen faults
  refine ⟨kept', hcommit.inv.withError none, hcommit.durable, by simpa using hcommit.sub, rfl,
    hcommit.ord_le, hcommit.shard_le, fun hok => ?_⟩
  simp only [Writer.flush] at hok
  split at hok
  · cases hok
  · cases hok
  · next hnone hres =>
      exact ⟨by simpa using hcommit.complete hres, hcommit.lastError.symm.trans hnone⟩

/-! ### Opening -/

theorem toNat_max (a b : UInt64) : (max a b).toNat = max a.toNat b.toNat := by
  by_cases h : a ≤ b
  · rw [show max a b = b from if_pos h, Nat.max_eq_right (UInt64.le_iff_toNat_le.mp h)]
  · rw [show max a b = a from if_neg h,
      Nat.max_eq_left (Nat.le_of_not_le fun hle => h (UInt64.le_iff_toNat_le.mpr hle))]

/-- The counter is above every shard name, and no higher than it has to be. -/
theorem recomputeNextShard_spec {db : TapDb} {handed : Nat} (hlt : handed < 2 ^ 64)
    (hnamed : ∀ shard ∈ db.shards.rows, ∃ n < handed, shard.name = shardName n)
    {persisted : UInt64} (hle : persisted.toNat ≤ handed) :
    persisted.toNat ≤ (db.recomputeNextShard persisted).toNat
      ∧ (db.recomputeNextShard persisted).toNat ≤ handed
      ∧ ∀ shard ∈ db.shards.rows,
        ∃ n < (db.recomputeNextShard persisted).toNat, shard.name = shardName n := by
  unfold TapDb.recomputeNextShard
  generalize db.shards.rows = shards at hnamed
  induction shards generalizing persisted with
  | nil => exact ⟨Nat.le_refl _, hle, fun _ h => absurd h List.not_mem_nil⟩
  | cons shard shards ih =>
      obtain ⟨n, hn, hname⟩ := hnamed shard List.mem_cons_self
      have hordinal : shardOrdinal shard.name = some n := hname ▸ shardOrdinal_shardName (by omega)
      have hfloor : (UInt64.ofNat (min (n + 1) (2 ^ 64 - 1))).toNat = n + 1 := by
        rw [Nat.min_eq_left (by omega),
          UInt64.toNat_ofNat_of_lt' (by simp only [UInt64.size]; omega)]
      have hmax := toNat_max persisted (UInt64.ofNat (min (n + 1) (2 ^ 64 - 1)))
      rw [hfloor] at hmax
      have hmax_le : (max persisted (UInt64.ofNat (min (n + 1) (2 ^ 64 - 1)))).toNat ≤ handed := by
        omega
      obtain ⟨hge, hbound, hrest⟩ :=
        ih hmax_le fun shard' hs => hnamed shard' (List.mem_cons_of_mem _ hs)
      rw [hmax] at hge
      simp only [List.foldl_cons, hordinal]
      refine ⟨by omega, hbound, fun shard' hs => ?_⟩
      rcases List.mem_cons.mp hs with rfl | hs
      · exact ⟨n, by omega, hname⟩
      · exact hrest shard' hs

/-- A database is opened with what it holds, and all counters above what has been used. -/
theorem inv_open {db : TapDb} {handed : Nat} (hlt : handed < 2 ^ 64)
    (h : db.Keeps (kept.map Record.entry) handed) (hcounted : ∀ r ∈ kept, r.ord < db.nextOrd)
    (hle : db.nextShard.toNat ≤ handed) :
    (Writer.open db).Inv kept [] ∧ (Writer.open db).nextShard.toNat ≤ handed := by
  obtain ⟨hge, hbound, hnamed⟩ := recomputeNextShard_spec hlt h.named hle
  exact ⟨inv_of_closed rfl rfl ⟨h.wf, h.contents, hnamed⟩ h.wf.registered_rows.maps hcounted
    (UInt64.le_refl _) (UInt64.le_iff_toNat_le.mpr hge), hbound⟩

end Writer

end TapLog

end Datamancer
