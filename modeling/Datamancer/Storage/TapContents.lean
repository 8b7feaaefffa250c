import Datamancer.Storage.TapLog

/-!
# Datamancer.Storage.TapContents

What a tap log's database holds: events under ordinals, each in the shard of its stream
(`TapDb.Holds`). Under the invariant of the registry (`TapDb.Wf`) a replay is the requested
part of the contents in the order of their ordinals (`replay_eq`), and each statement of the
writer adds to the contents one event or nothing.
-/

namespace Datamancer

namespace TapLog

/-! ### Rows and events -/

/-- Whether a request asks for an event. -/
def selects (request : ReplayRequest) (ev : MarketEvent) : Bool :=
  match ev.routeKey with
  | some (instrument, kind) =>
      (request.instruments = [] ∨ instrument ∈ request.instruments)
        ∧ (request.kinds = [] ∨ kind ∈ request.kinds)
        ∧ request.fromTs ≤ ev.sourceTs ∧ ev.sourceTs < request.toTs
  | none => false

/-- Every field of a tapped event comes back. -/
theorem decodeRow_encodeRow {ord : Int64} {ev : MarketEvent} {row : TapRow}
    {instrument : Instrument} {kind : EventKind} (hroute : ev.routeKey = some (instrument, kind))
    (hrow : encodeRow ord ev = some row) :
    decodeRow instrument kind row = some ev ∧ row.ord = ord
      ∧ row.cols.columns = eventColumns kind := by
  cases ev with
  | control c => cases hrow
  | trade t =>
      cases hroute
      cases hrow
      exact ⟨by simp [decodeRow], rfl, rfl⟩
  | quote q =>
      cases hroute
      cases hrow
      exact ⟨by simp [decodeRow], rfl, rfl⟩
  | bar b =>
      cases hroute
      cases hrow
      exact ⟨by simp [decodeRow], rfl, rfl⟩

theorem encodeRow_of_routed {ord : Int64} {ev : MarketEvent} {route : Pair}
    (h : ev.routeKey = some route) : ∃ row, encodeRow ord ev = some row := by
  cases ev with
  | control c => cases h
  | _ => exact ⟨_, rfl⟩

/-- A decoded event is of the stream it is decoded for. -/
theorem decodeRow_spec {instrument : Instrument} {kind : EventKind} {r : TapRow}
    {ev : MarketEvent} (h : decodeRow instrument kind r = some ev) :
    ev.routeKey = some (instrument, kind) ∧ ev.sourceTs = r.sourceTs := by
  simp only [decodeRow] at h
  split at h <;> cases h <;> exact ⟨rfl, rfl⟩

theorem decodeRow_of_columns {kind : EventKind} {r : TapRow} (instrument : Instrument)
    (h : r.cols.columns = eventColumns kind) : ∃ ev, decodeRow instrument kind r = some ev := by
  obtain ⟨ord, seq, sourceTs, rxTs, cols⟩ := r
  cases kind <;> cases cols <;> first | exact ⟨_, rfl⟩ | cases h

@[simp] theorem readStream_streamRow (instrument : Instrument) (kind : EventKind) (n : Nat) :
    readStream (streamRow instrument kind (shardName n))
      = some (instrument, kind, shardName n) := by
  simp [readStream, streamRow]

/-! ### Contents -/

namespace TapDb

/-- The registry: each stream has a shard of its own with its columns, and what is in no
stream's shard is empty. -/
structure Wf (db : TapDb) : Prop where
  streams : ∀ s ∈ db.streams.rows, ∃ instrument kind n, s = streamRow instrument kind (shardName n)
    ∧ ∃ shard ∈ db.shards.rows, shard.name = shardName n ∧ shard.columns = eventColumns kind
  alone : ∀ s ∈ db.streams.rows, ∀ t ∈ db.streams.rows, s.shardTable = t.shardTable → s = t
  registered : ∀ shard ∈ db.shards.rows, shard.rows.rows ≠ [] →
    ∃ s ∈ db.streams.rows, s.shardTable = shard.name
  fits : ∀ shard ∈ db.shards.rows, ∀ r ∈ shard.rows.rows, r.cols.columns = shard.columns

/-- An event is in the shard of its stream under an ordinal. -/
def Holds (db : TapDb) (e : UInt64 × MarketEvent) : Prop :=
  ∃ instrument kind n, streamRow instrument kind (shardName n) ∈ db.streams.rows
    ∧ ∃ shard ∈ db.shards.rows, shard.name = shardName n
      ∧ ∃ r ∈ shard.rows.rows, r.ord.toUInt64 = e.1 ∧ decodeRow instrument kind r = some e.2

/-- The contents, in the order of their ordinals. -/
structure Contents (db : TapDb) (entries : List (UInt64 × MarketEvent)) : Prop where
  holds : ∀ e, db.Holds e ↔ e ∈ entries
  sorted : entries.Pairwise fun a b => a.1 < b.1

variable {db db' : TapDb} {entries : List (UInt64 × MarketEvent)}

theorem wf_fresh : fresh.Wf :=
  ⟨fun _ h => absurd h List.not_mem_nil, fun _ h => absurd h List.not_mem_nil,
    fun _ h => absurd h List.not_mem_nil, fun _ h => absurd h List.not_mem_nil⟩

theorem contents_fresh : fresh.Contents [] := by
  refine ⟨fun e => ⟨?_, fun h => absurd h List.not_mem_nil⟩, List.Pairwise.nil⟩
  rintro ⟨_, _, _, hs, _⟩
  exact absurd hs List.not_mem_nil

/-- Two shards of one name are one. -/
theorem shard_eq {shard shard' : Shard} (hs : shard ∈ db.shards.rows)
    (hs' : shard' ∈ db.shards.rows) (hname : shard.name = shard'.name) : shard = shard' :=
  db.shards.eq_of_pk_eq hs hs' hname

/-- Each row is an event of the stream its shard is registered for. -/
theorem Wf.holds_of_row (hwf : db.Wf) {shard : Shard} {r : TapRow} (hs : shard ∈ db.shards.rows)
    (hr : r ∈ shard.rows.rows) : ∃ instrument kind n ev,
      streamRow instrument kind (shardName n) ∈ db.streams.rows ∧ shard.name = shardName n
        ∧ decodeRow instrument kind r = some ev ∧ db.Holds (r.ord.toUInt64, ev) := by
  obtain ⟨s, hstream, htable⟩ := hwf.registered shard hs (List.ne_nil_of_mem hr)
  obtain ⟨instrument, kind, n, rfl, shard', hs', hname, hcolumns⟩ := hwf.streams s hstream
  have hsame : shard.name = shardName n := htable.symm
  obtain rfl := shard_eq hs' hs (hname.trans hsame.symm)
  obtain ⟨ev, hev⟩ := decodeRow_of_columns instrument ((hwf.fits _ hs r hr).trans hcolumns)
  exact ⟨instrument, kind, n, ev, hstream, hname, hev, instrument, kind, n, hstream, _, hs, hname,
    r, hr, rfl, hev⟩

/-- Two entries under one ordinal are one. -/
theorem Contents.eq_of_ord (h : db.Contents entries) {a b : UInt64 × MarketEvent}
    (ha : a ∈ entries) (hb : b ∈ entries) (hord : a.1 = b.1) : a = b := by
  have hnodup : (entries.map Prod.fst).Nodup :=
    List.pairwise_map.mpr (h.sorted.imp fun hlt => UInt64.ne_of_lt hlt)
  exact List.inj_on_of_nodup_map hnodup ha hb hord

/-- The registrations of one stream are one. -/
theorem streamRow_eq {instrument : Instrument} {kind : EventKind} {n m : Nat}
    (h : streamRow instrument kind (shardName n) ∈ db.streams.rows)
    (h' : streamRow instrument kind (shardName m) ∈ db.streams.rows) : shardName n = shardName m :=
  congrArg StreamRow.shardTable (db.streams.eq_of_pk_eq h h' rfl)

/-- No ordinal is in two shards. -/
theorem ord_unique (hwf : db.Wf) (h : db.Contents entries) {shard shard' : Shard} {r r' : TapRow}
    (hs : shard ∈ db.shards.rows) (hs' : shard' ∈ db.shards.rows) (hr : r ∈ shard.rows.rows)
    (hr' : r' ∈ shard'.rows.rows) (hord : r.ord = r'.ord) : shard = shard' ∧ r = r' := by
  obtain ⟨instrument, kind, n, ev, hstream, hname, hev, hholds⟩ := hwf.holds_of_row hs hr
  obtain ⟨instrument', kind', m, ev', hstream', hname', hev', hholds'⟩ :=
    hwf.holds_of_row hs' hr'
  -- the two rows are of one event, so of one stream
  have hsame := h.eq_of_ord ((h.holds _).mp hholds) ((h.holds _).mp hholds')
    (congrArg Int64.toUInt64 hord)
  obtain rfl : ev = ev' := congrArg Prod.snd hsame
  have hroute := (decodeRow_spec hev).1.symm.trans (decodeRow_spec hev').1
  cases hroute
  obtain rfl := shard_eq hs hs'
    (hname.trans ((streamRow_eq hstream hstream').trans hname'.symm))
  exact ⟨rfl, shard.rows.eq_of_pk_eq hr hr' hord⟩

/-! ### Replay -/

/-- A registered stream is read back from its row. -/
theorem Wf.mem_selected (hwf : db.Wf) {request : ReplayRequest}
    {reg : Instrument × EventKind × String} :
    reg ∈ db.selected request ↔ (∃ n, reg.2.2 = shardName n
        ∧ streamRow reg.1 reg.2.1 reg.2.2 ∈ db.streams.rows)
      ∧ (request.instruments = [] ∨ reg.1 ∈ request.instruments)
      ∧ (request.kinds = [] ∨ reg.2.1 ∈ request.kinds) := by
  rw [selected, List.mem_filter, decide_eq_true_iff, List.mem_filterMap]
  refine and_congr_left fun _ => ⟨?_, ?_⟩
  · rintro ⟨s, hs, hread⟩
    obtain ⟨instrument, kind, n, rfl, -⟩ := hwf.streams s hs
    rw [readStream_streamRow] at hread
    cases hread
    exact ⟨n, rfl, hs⟩
  · rintro ⟨n, hname, hs⟩
    obtain ⟨instrument, kind, name⟩ := reg
    cases hname
    exact ⟨_, hs, readStream_streamRow instrument kind n⟩

/-- The events of one shard in the window, in the order of their ordinals. -/
def window (fromTs toTs : Timestamp) (reg : Instrument × EventKind × String) (shard : Shard) :
    List (UInt64 × MarketEvent) :=
  (shard.rows.selectOrdered (fun r => fromTs ≤ r.sourceTs ∧ r.sourceTs < toTs)
    (fun r => r.ord.toInt)).filterMap fun r =>
      (decodeRow reg.1 reg.2.1 r).map fun ev => (r.ord.toUInt64, ev)

theorem mem_window {fromTs toTs : Timestamp} {reg : Instrument × EventKind × String}
    {shard : Shard} {e : UInt64 × MarketEvent} :
    e ∈ window fromTs toTs reg shard ↔ (fromTs ≤ e.2.sourceTs ∧ e.2.sourceTs < toTs)
      ∧ ∃ r ∈ shard.rows.rows, r.ord.toUInt64 = e.1 ∧ decodeRow reg.1 reg.2.1 r = some e.2 := by
  simp only [window, List.mem_filterMap, KeyedTable.mem_selectOrdered, decide_eq_true_iff,
    Option.map_eq_some_iff]
  constructor
  · rintro ⟨r, ⟨hr, hin⟩, ev, hev, rfl⟩
    rw [← (decodeRow_spec hev).2] at hin
    exact ⟨hin, r, hr, rfl, hev⟩
  · rintro ⟨hin, r, hr, hord, hev⟩
    rw [(decodeRow_spec hev).2] at hin
    exact ⟨r, ⟨hr, hin⟩, e.2, hev, Prod.ext hord rfl⟩

theorem nodup_window (fromTs toTs : Timestamp) (reg : Instrument × EventKind × String)
    (shard : Shard) : (window fromTs toTs reg shard).Nodup := by
  have hords : ((shard.rows.select
      fun r => fromTs ≤ r.sourceTs ∧ r.sourceTs < toTs).map TapRow.ord).Nodup :=
    shard.rows.unique.sublist (List.filter_sublist.map _)
  rw [← ((shard.rows.selectOrdered_perm _ fun r => r.ord.toInt).map _).nodup_iff,
    List.Nodup, List.pairwise_map] at hords
  refine hords.filterMap _ fun r r' hne e he e' he' hsame => hne ?_
  obtain ⟨ev, -, rfl⟩ := Option.map_eq_some_iff.mp he
  obtain ⟨ev', -, rfl⟩ := Option.map_eq_some_iff.mp he'
  simpa using congrArg (fun e => e.1.toInt64) hsame

theorem scan_eq {fromTs toTs : Timestamp} {reg : Instrument × EventKind × String} {shard : Shard}
    (hs : shard ∈ db.shards.rows) (hname : shard.name = reg.2.2)
    (hcolumns : shard.columns = eventColumns reg.2.1) :
    db.scan fromTs toTs reg = .ok (window fromTs toTs reg shard) := by
  rw [scan, KeyedTable.lookup_eq_some.mpr ⟨hs, hname⟩]
  exact if_pos hcolumns

/-- What a request finds of one stream. -/
def run (db : TapDb) (request : ReplayRequest) (reg : Instrument × EventKind × String) :
    List (UInt64 × MarketEvent) :=
  (db.shards.lookup reg.2.2).elim [] (window request.fromTs request.toTs reg)

theorem Wf.scan_selected (hwf : db.Wf) {request : ReplayRequest}
    {reg : Instrument × EventKind × String} (h : reg ∈ db.selected request) :
    ∃ shard ∈ db.shards.rows, shard.name = reg.2.2
      ∧ db.run request reg = window request.fromTs request.toTs reg shard
      ∧ db.scan request.fromTs request.toTs reg = .ok (db.run request reg) := by
  obtain ⟨⟨n, hname, hs⟩, -⟩ := hwf.mem_selected.mp h
  obtain ⟨instrument, kind, m, hsame, shard, hshard, hshardname, hcolumns⟩ := hwf.streams _ hs
  obtain ⟨hinstrument, hkind⟩ := registryId_injective (congrArg StreamRow.id hsame)
  have htable : reg.2.2 = shardName m := congrArg StreamRow.shardTable hsame
  have hfound : shard.name = reg.2.2 := hshardname.trans htable.symm
  have hrun : db.run request reg = window request.fromTs request.toTs reg shard := by
    rw [run, KeyedTable.lookup_eq_some.mpr ⟨hshard, hfound⟩]
    rfl
  exact ⟨shard, hshard, hfound, hrun, hrun ▸ scan_eq hshard hfound (hkind ▸ hcolumns)⟩

/-- What is found is what the request asks of the contents. -/
theorem Wf.mem_runs (hwf : db.Wf) {request : ReplayRequest} {e : UInt64 × MarketEvent} :
    e ∈ (db.selected request).flatMap (db.run request) ↔ db.Holds e ∧ selects request e.2 := by
  rw [List.mem_flatMap]
  constructor
  · rintro ⟨reg, hreg, he⟩
    obtain ⟨shard, hshard, hname, hrun, -⟩ := hwf.scan_selected hreg
    obtain ⟨⟨n, htable, hs⟩, hwanted⟩ := hwf.mem_selected.mp hreg
    rw [hrun] at he
    obtain ⟨hin, r, hr, hord, hev⟩ := mem_window.mp he
    refine ⟨⟨reg.1, reg.2.1, n, htable ▸ hs, shard, hshard, hname.trans htable, r, hr, hord, hev⟩,
      ?_⟩
    rw [selects, (decodeRow_spec hev).1]
    exact decide_eq_true ⟨hwanted.1, hwanted.2, hin⟩
  · rintro ⟨⟨instrument, kind, n, hs, shard, hshard, hname, r, hr, hord, hev⟩, hwanted⟩
    rw [selects, (decodeRow_spec hev).1] at hwanted
    obtain ⟨hinstrument, hkind, hin⟩ := of_decide_eq_true hwanted
    have hreg : (instrument, kind, shardName n) ∈ db.selected request :=
      hwf.mem_selected.mpr ⟨⟨n, rfl, hs⟩, hinstrument, hkind⟩
    obtain ⟨shard', hshard', hname', hrun, -⟩ := hwf.scan_selected hreg
    obtain rfl := shard_eq hshard hshard' (hname.trans hname'.symm)
    exact ⟨_, hreg, hrun ▸ mem_window.mpr ⟨hin, r, hr, hord, hev⟩⟩

/-- No event is found twice: two streams have no event in common. -/
theorem Wf.nodup_runs (hwf : db.Wf) (request : ReplayRequest) :
    ((db.selected request).flatMap (db.run request)).Nodup := by
  refine List.nodup_flatMap.mpr ⟨fun reg hreg => ?_, ?_⟩
  · obtain ⟨shard, -, -, hrun, -⟩ := hwf.scan_selected hreg
    rw [hrun]
    exact nodup_window _ _ _ _
  · have hids : db.streams.rows.Pairwise fun s t => s.id ≠ t.id :=
      List.pairwise_map.mp db.streams.unique
    have hregs : ((db.streams.rows.filterMap readStream)).Pairwise
        fun reg reg' => (reg.1, reg.2.1) ≠ (reg'.1, reg'.2.1) := by
      refine List.Pairwise.filterMap _ (fun s t hst reg hreg reg' hreg' => hst reg hreg reg' hreg')
        (hids.imp_of_mem (S := fun s t => ∀ reg, readStream s = some reg → ∀ reg',
          readStream t = some reg' → (reg.1, reg.2.1) ≠ (reg'.1, reg'.2.1))
          fun {s t} hs ht hne reg hreg reg' hreg' hsame => hne ?_)
      obtain ⟨instrument, kind, n, rfl, -⟩ := hwf.streams s hs
      obtain ⟨instrument', kind', m, rfl, -⟩ := hwf.streams t ht
      rw [readStream_streamRow] at hreg hreg'
      cases hreg
      cases hreg'
      cases hsame
      rfl
    refine (hregs.filter _).imp_of_mem fun {reg reg'} hreg hreg' hne => ?_
    -- an event decodes to its own instrument and kind, and the rows of the registry differ in these
    intro e he he'
    obtain ⟨shard, -, -, hrun, -⟩ := hwf.scan_selected hreg
    obtain ⟨shard', -, -, hrun', -⟩ := hwf.scan_selected hreg'
    rw [hrun] at he
    rw [hrun'] at he'
    obtain ⟨-, r, -, -, hev⟩ := mem_window.mp he
    obtain ⟨-, r', -, -, hev'⟩ := mem_window.mp he'
    exact hne (Option.some.inj ((decodeRow_spec hev).1.symm.trans (decodeRow_spec hev').1))

/-- Nothing fails where no query does. -/
theorem mapM_ok {α β ε : Type*} {f : α → Except ε β} {g : α → β} {l : List α}
    (h : ∀ a ∈ l, f a = .ok (g a)) : l.mapM f = .ok (l.map g) := by
  induction l with
  | nil => rfl
  | cons a l ih =>
      rw [List.mapM_cons, h a List.mem_cons_self,
        ih fun b hb => h b (List.mem_cons_of_mem _ hb)]
      rfl

/-- A replay is the requested part of the contents, in the order of the ordinals. -/
theorem replay_eq (hwf : db.Wf) (h : db.Contents entries) (request : ReplayRequest) :
    db.replay request = .ok ((entries.map Prod.snd).filter (selects request)) := by
  rw [replay]
  split
  · next hempty =>
      -- no time is in the window
      rw [List.filter_eq_nil_iff.mpr fun ev _ hsel => ?_]
      simp only [selects] at hsel
      split at hsel
      · obtain ⟨-, -, hfrom, hto⟩ := of_decide_eq_true hsel
        exact absurd (lt_of_le_of_lt hfrom hto) (not_lt.mpr hempty)
      · cases hsel
  · let wanted := entries.filter fun e => selects request e.2
    let found := (db.selected request).flatMap (db.run request)
    have hsub : wanted.Sublist entries := List.filter_sublist
    have hscans : (db.selected request).mapM (db.scan request.fromTs request.toTs)
        = .ok ((db.selected request).map (db.run request)) :=
      mapM_ok fun reg hreg => by
        obtain ⟨shard, -, -, -, hscan⟩ := hwf.scan_selected hreg
        exact hscan
    -- the one list has the elements of the other
    have hperm : found.Perm wanted := by
      refine (List.perm_ext_iff_of_nodup (hwf.nodup_runs request) ?_).mpr fun e => ?_
      · exact (h.sorted.sublist hsub).imp fun {a b} hlt hsame =>
          UInt64.ne_of_lt hlt (congrArg Prod.fst hsame)
      · rw [hwf.mem_runs, h.holds, List.mem_filter]
    -- and both are in the order of their ordinals
    have : Std.Total fun a b : UInt64 × MarketEvent => a.1 ≤ b.1 :=
      ⟨fun a b => UInt64.le_total a.1 b.1⟩
    have : IsTrans (UInt64 × MarketEvent) fun a b => a.1 ≤ b.1 := ⟨fun _ _ _ => UInt64.le_trans⟩
    have hsort : (found.insertionSort fun a b => a.1 ≤ b.1) = wanted := by
      refine @List.Perm.eq_of_pairwise _ (fun a b => a.1 ≤ b.1) _ _ ?_ ?_ ?_ ?_
      · intro a b ha hb hab hba
        exact h.eq_of_ord (hsub.subset (hperm.subset ((List.mem_insertionSort _).mp ha)))
          (hsub.subset hb) (UInt64.le_antisymm hab hba)
      · exact List.pairwise_insertionSort _ _
      · exact (h.sorted.sublist hsub).imp UInt64.le_of_lt
      · exact (List.perm_insertionSort _ _).trans hperm
    rw [hscans]
    show Except.ok ((found.insertionSort fun a b => a.1 ≤ b.1).map Prod.snd) = _
    rw [hsort, List.filter_map]
    rfl

/-! ### Statements -/

/-- The registry and the contents, and how many shard names have been handed out. -/
structure Keeps (db : TapDb) (entries : List (UInt64 × MarketEvent)) (handed : Nat) : Prop where
  wf : db.Wf
  contents : db.Contents entries
  named : ∀ shard ∈ db.shards.rows, ∃ n < handed, shard.name = shardName n

variable {handed : Nat}

theorem keeps_fresh : fresh.Keeps [] 0 :=
  ⟨wf_fresh, contents_fresh, fun _ h => absurd h List.not_mem_nil⟩

theorem Keeps.mono (h : db.Keeps entries handed) {handed' : Nat} (hle : handed ≤ handed') :
    db.Keeps entries handed' := by
  refine ⟨h.wf, h.contents, fun shard hs => ?_⟩
  obtain ⟨n, hn, hname⟩ := h.named shard hs
  exact ⟨n, by omega, hname⟩

theorem Keeps.setMeta (h : db.Keeps entries handed) (nextShard nextOrd : UInt64) :
    (db.setMeta nextShard nextOrd).Keeps entries handed :=
  ⟨⟨h.wf.streams, h.wf.alone, h.wf.registered, h.wf.fits⟩, ⟨h.contents.holds, h.contents.sorted⟩,
    h.named⟩

/-- The next name is no shard's. -/
theorem Keeps.name_ne (h : db.Keeps entries handed) (hlt : handed < 2 ^ 64) {shard : Shard}
    (hs : shard ∈ db.shards.rows) : shard.name ≠ shardName handed := by
  obtain ⟨n, hn, hname⟩ := h.named shard hs
  intro hsame
  have := shardName_injective (by omega) hlt (hname.symm.trans hsame)
  omega

/-- Nor does a stream point at it. -/
theorem Keeps.shardTable_ne (h : db.Keeps entries handed) (hlt : handed < 2 ^ 64) {s : StreamRow}
    (hs : s ∈ db.streams.rows) : s.shardTable ≠ shardName handed := by
  obtain ⟨instrument, kind, n, rfl, shard, hshard, hname, -⟩ := h.wf.streams s hs
  intro hsame
  exact h.name_ne hlt hshard (hname.trans hsame)

theorem Keeps.mem_createShard (h : db.Keeps entries handed) (hlt : handed < 2 ^ 64)
    {columns : Columns} {shard : Shard} :
    shard ∈ (db.createShard (shardName handed) columns).shards.rows
      ↔ shard = ⟨shardName handed, columns, .empty⟩ ∨ shard ∈ db.shards.rows := by
  have hnone : db.shards.lookup (shardName handed) = none :=
    KeyedTable.lookup_eq_none.mpr fun shard hs => h.name_ne hlt hs
  rw [createShard, hnone]
  simp only [Option.isSome_none, Bool.false_eq_true, if_false, KeyedTable.mem_insertOrReplace]
  exact or_congr_right ⟨fun hs => hs.1, fun hs => ⟨hs, h.name_ne hlt hs⟩⟩

@[simp] theorem streams_createShard (name : String) (columns : Columns) :
    (db.createShard name columns).streams = db.streams := by
  unfold createShard
  split <;> rfl

@[simp] theorem metaRow_createShard (name : String) (columns : Columns) :
    (db.createShard name columns).metaRow = db.metaRow := by
  unfold createShard
  split <;> rfl

/-- A new shard is empty. -/
theorem Keeps.createShard (h : db.Keeps entries handed) (hlt : handed < 2 ^ 64)
    (columns : Columns) :
    (db.createShard (shardName handed) columns).Keeps entries (handed + 1) := by
  have hmem : ∀ shard, shard ∈ (db.createShard (shardName handed) columns).shards.rows
      ↔ shard = ⟨shardName handed, columns, .empty⟩ ∨ shard ∈ db.shards.rows := fun _ =>
    h.mem_createShard hlt
  refine ⟨⟨?_, ?_, ?_, ?_⟩, ⟨fun e => ?_, h.contents.sorted⟩, ?_⟩
  · intro s hs
    rw [streams_createShard] at hs
    obtain ⟨instrument, kind, n, hrow, shard, hshard, hfound⟩ := h.wf.streams s hs
    exact ⟨instrument, kind, n, hrow, shard, (hmem shard).mpr (.inr hshard), hfound⟩
  · rw [streams_createShard]
    exact h.wf.alone
  · intro shard hs hne
    rw [streams_createShard]
    rcases (hmem shard).mp hs with rfl | hs
    · exact absurd rfl hne
    · exact h.wf.registered shard hs hne
  · intro shard hs r hr
    rcases (hmem shard).mp hs with rfl | hs
    · cases hr
    · exact h.wf.fits shard hs r hr
  · rw [← h.contents.holds, Holds, streams_createShard]
    constructor
    · rintro ⟨instrument, kind, n, hstream, shard, hs, hname, r, hr, hrow⟩
      rcases (hmem shard).mp hs with rfl | hs
      · cases hr
      · exact ⟨instrument, kind, n, hstream, shard, hs, hname, r, hr, hrow⟩
    · rintro ⟨instrument, kind, n, hstream, shard, hs, hrow⟩
      exact ⟨instrument, kind, n, hstream, shard, (hmem shard).mpr (.inr hs), hrow⟩
  · intro shard hs
    rcases (hmem shard).mp hs with rfl | hs
    · exact ⟨handed, by omega, rfl⟩
    · obtain ⟨n, hn, hname⟩ := h.named shard hs
      exact ⟨n, by omega, hname⟩

/-- The row of a stream that is not yet registered replaces none. -/
theorem mem_register {instrument : Instrument} {kind : EventKind} {name : String}
    (hid : ∀ s ∈ db.streams.rows, s.id ≠ registryId instrument kind) {s : StreamRow} :
    s ∈ (db.register (streamRow instrument kind name)).streams.rows
      ↔ s = streamRow instrument kind name ∨ s ∈ db.streams.rows := by
  rw [TapDb.register, KeyedTable.mem_insertOrReplace]
  exact or_congr_right ⟨fun hs => hs.1, fun hs => ⟨hs, hid s hs⟩⟩

/-- A new stream has an empty shard, which is no other stream's. -/
theorem Keeps.register (h : db.Keeps entries handed) {instrument : Instrument} {kind : EventKind}
    {n : Nat} (hshard : (⟨shardName n, eventColumns kind, .empty⟩ : Shard) ∈ db.shards.rows)
    (htable : ∀ s ∈ db.streams.rows, s.shardTable ≠ shardName n)
    (hid : ∀ s ∈ db.streams.rows, s.id ≠ registryId instrument kind) :
    (db.register (streamRow instrument kind (shardName n))).Keeps entries handed := by
  have hmem : ∀ s, s ∈ (db.register (streamRow instrument kind (shardName n))).streams.rows
      ↔ s = streamRow instrument kind (shardName n) ∨ s ∈ db.streams.rows := fun s =>
    mem_register hid
  refine ⟨⟨?_, ?_, ?_, h.wf.fits⟩, ⟨fun e => ?_, h.contents.sorted⟩, h.named⟩
  · intro s hs
    rcases (hmem s).mp hs with rfl | hs
    · exact ⟨instrument, kind, n, rfl, _, hshard, rfl, rfl⟩
    · exact h.wf.streams s hs
  · intro s hs t ht hsame
    rcases (hmem s).mp hs with rfl | hs <;> rcases (hmem t).mp ht with rfl | ht
    · rfl
    · exact absurd hsame.symm (htable t ht)
    · exact absurd hsame (htable s hs)
    · exact h.wf.alone s hs t ht hsame
  · intro shard hs hne
    obtain ⟨s, hstream, hname⟩ := h.wf.registered shard hs hne
    exact ⟨s, (hmem s).mpr (.inr hstream), hname⟩
  · rw [← h.contents.holds]
    constructor
    · rintro ⟨i, k, m, hstream, shard, hs, hname, r, hr, hrow⟩
      rcases (hmem _).mp hstream with hnew | hstream
      · -- the shard of the new stream has no row
        have hm : shardName m = shardName n := congrArg StreamRow.shardTable hnew
        rw [shard_eq hs hshard (hname.trans hm)] at hr
        cases hr
      · exact ⟨i, k, m, hstream, shard, hs, hname, r, hr, hrow⟩
    · rintro ⟨i, k, m, hstream, hrest⟩
      exact ⟨i, k, m, (hmem _).mpr (.inr hstream), hrest⟩

theorem insertRow_eq_some {name : String} {r : TapRow} (h : db.insertRow name r = some db') :
    ∃ shard ∈ db.shards.rows, shard.name = name ∧ shard.columns = r.cols.columns
      ∧ ∃ rows : KeyedTable TapRow.ord, rows.rows = shard.rows.rows ++ [r]
        ∧ db' = { db with shards := db.shards.insertOrReplace { shard with rows } } := by
  unfold insertRow at h
  split at h
  · cases h
  · next shard hfound =>
      obtain ⟨hs, hname⟩ := KeyedTable.lookup_eq_some.mp hfound
      split at h
      · next hcolumns =>
          obtain ⟨rows, hrows, rfl⟩ := Option.map_eq_some_iff.mp h
          exact ⟨shard, hs, hname, hcolumns, rows, (KeyedTable.insert_eq_some.mp hrows).2, rfl⟩
      · cases h

/-- An insert adds one event under its ordinal. -/
theorem Keeps.insertRow (h : db.Keeps entries handed) {instrument : Instrument} {kind : EventKind}
    {n : Nat} (hstream : streamRow instrument kind (shardName n) ∈ db.streams.rows)
    {ord : UInt64} (hord : ∀ e ∈ entries, e.1 < ord) {ev : MarketEvent} {r : TapRow}
    (hroute : ev.routeKey = some (instrument, kind)) (hrow : encodeRow ord.toInt64 ev = some r)
    (hdone : db.insertRow (shardName n) r = some db') :
    db'.Keeps (entries ++ [(ord, ev)]) handed := by
  obtain ⟨shard, hs, hname, hcolumns, rows, hrows, rfl⟩ := insertRow_eq_some hdone
  obtain ⟨hdecode, hrord, -⟩ := decodeRow_encodeRow hroute hrow
  have hord' : r.ord.toUInt64 = ord := by rw [hrord, UInt64.toUInt64_toInt64]
  have hmem : ∀ x, x ∈ (db.shards.insertOrReplace { shard with rows }).rows
      ↔ x = { shard with rows } ∨ (x ∈ db.shards.rows ∧ x.name ≠ shard.name) := fun x =>
    KeyedTable.mem_insertOrReplace
  refine ⟨⟨?_, h.wf.alone, ?_, ?_⟩, ⟨fun e => ?_, ?_⟩, ?_⟩
  · intro s hstream
    obtain ⟨i, k, m, hsrow, x, hx, hxname, hxcolumns⟩ := h.wf.streams s hstream
    by_cases hsame : x.name = shard.name
    · obtain rfl := shard_eq hx hs hsame
      exact ⟨i, k, m, hsrow, _, (hmem _).mpr (.inl rfl), hxname, hxcolumns⟩
    · exact ⟨i, k, m, hsrow, x, (hmem x).mpr (.inr ⟨hx, hsame⟩), hxname, hxcolumns⟩
  · intro x hx hne
    rcases (hmem x).mp hx with rfl | ⟨hx, -⟩
    · exact ⟨_, hstream, hname.symm⟩
    · exact h.wf.registered x hx hne
  · intro x hx y hy
    rcases (hmem x).mp hx with rfl | ⟨hx, -⟩
    · rcases List.mem_append.mp (hrows ▸ hy) with hy | hy
      · exact h.wf.fits shard hs y hy
      · rw [List.mem_singleton.mp hy]
        exact hcolumns.symm
    · exact h.wf.fits x hx y hy
  · rw [List.mem_append, ← h.contents.holds, List.mem_singleton]
    constructor
    · rintro ⟨i, k, m, hi, x, hx, hxname, y, hy, hyord, hydecode⟩
      rcases (hmem x).mp hx with rfl | ⟨hx, -⟩
      · rcases List.mem_append.mp (hrows ▸ hy) with hy | hy
        · exact .inl ⟨i, k, m, hi, shard, hs, hxname, y, hy, hyord, hydecode⟩
        · -- the row inserted is read for the one stream of its shard
          obtain rfl := List.mem_singleton.mp hy
          have hsame := h.wf.alone _ hi _ hstream (hxname.symm.trans hname)
          obtain ⟨rfl, rfl⟩ := registryId_injective (congrArg StreamRow.id hsame)
          exact .inr (Prod.ext (hyord.symm.trans hord')
            (Option.some.inj (hydecode.symm.trans hdecode)))
      · exact .inl ⟨i, k, m, hi, x, hx, hxname, y, hy, hyord, hydecode⟩
    · rintro (⟨i, k, m, hi, x, hx, hxname, y, hy, hyrow⟩ | rfl)
      · by_cases hsame : x.name = shard.name
        · obtain rfl := shard_eq hx hs hsame
          exact ⟨i, k, m, hi, _, (hmem _).mpr (.inl rfl), hxname, y,
            hrows ▸ List.mem_append_left _ hy, hyrow⟩
        · exact ⟨i, k, m, hi, x, (hmem x).mpr (.inr ⟨hx, hsame⟩), hxname, y, hy, hyrow⟩
      · exact ⟨instrument, kind, n, hstream, _, (hmem _).mpr (.inl rfl), hname, r,
          hrows ▸ List.mem_append_right _ List.mem_cons_self, hord', hdecode⟩
  · refine List.pairwise_append.mpr ⟨h.contents.sorted, List.pairwise_singleton _ _, ?_⟩
    intro a ha b hb
    rw [List.mem_singleton.mp hb]
    exact hord a ha
  · intro x hx
    rcases (hmem x).mp hx with rfl | ⟨hx, -⟩
    · exact h.named shard hs
    · exact h.named x hx

end TapDb

end TapLog

end Datamancer
